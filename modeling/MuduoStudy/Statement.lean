import MuduoStudy.Beginning

namespace MuduoStudy.Server
set_option autoImplicit true

/-- The function that `f` stands for has just been entered, and nothing else goes on. -/
def alone (s : Server) (f : Frame) : Server :=
  { s with phase := fun _ => .poll, queue := fun _ => {}, stack := fun _ => [f] }

/-- The next statement of the function that `f` stands for. The stack of the result holds what the
thread has to do next, and its queues hold what the statement has queued. -/
def statement (s : Server) (t : Thread) (f : Frame) (k : Answer) : Option Server :=
  (s.alone f).go t k

/-- What a statement has left comes on top of what was there. -/
def resume (s s₁ : Server) (t : Thread) (rest : List Frame) : Server :=
  { s₁ with
    phase := s.phase
    queue := fun l => (s.queue l).pushAll (s₁.queue l).pending
    stack := Function.update s.stack t (s₁.stack t ++ rest) }

theorem Called.call {s s' : Server} (h : Called s t rest k f s') : s.call t rest k f = some s' := by
  cases h with
  | connectEstablished | shutdownInLoop | startReadInLoop | stopReadInLoop | notice | other => rfl
  | sendInLoop hd hc => simp only [Server.call, hd, hc, Option.map_some, ↓reduceIte]
  | sendLate hd =>
    simp only [Server.call, TcpConnection.sendInLoop, hd, Option.map_some, List.map_nil,
      List.nil_append, ↓reduceIte]
  | forceCloseInLoop h | forceCloseLate h | destroyConnected h | destroyLate h
  | removeConnectionInLoop h => simp only [Server.call, h, ↓reduceIte]

/-- Everything that a frame can do is something that it does. -/
theorem Goes.go {s s' : Server} (hs : s.stack t = f :: rest) (h : Goes s t rest k f s') :
    s.go t k = some s' := by
  unfold Server.go
  rw [hs]
  cases h with
  | handleEvent | handleClose | connectionCallback | setDisconnected | remove | setDisconnecting
  | queueForceClose | queueNotice => rfl
  | readData hk | readEof hk | readError hk => simp only [hk]
  | handleWrite hc => simp only [hc, Option.map_some, Bool.false_eq_true, ↓reduceIte]
  | drained hc =>
    simp only [hc, Option.map_some, drainedFrames, List.append_assoc, ↓reduceIte]
    rfl
  | closeInLoop ha ht | closeQueued ha ht => simp only [ha, ht, ↓reduceIte]
  | ifDisconnecting h | ifNotDisconnecting h | send h | sendDropped h | shutdown h
  | shutdownDropped h | forceClose h | forceCloseDropped h | runInLoop h | runQueued h =>
    simp only [h, ↓reduceIte]
  | exec hc => exact hc.call

theorem pushAll_post (queue : Loop → BatchQueue Functor) (l : Loop) (g : Functor) :
    (fun l' => (queue l').pushAll
      (Function.update (fun _ => ({} : BatchQueue Functor)) l (BatchQueue.push {} g) l').pending) =
      Function.update queue l ((queue l).push g) := by
  funext l'
  by_cases hl : l' = l
  · subst l'
    simp only [Function.update_self]
    rfl
  · simp only [Function.update_of_ne hl]
    rfl

section
variable {s s₁ s₂ : Server} {t : Thread}

theorem resume_goto (h : { s₁ with phase := s.phase, queue := s.queue, stack := s.stack } = s₂)
    (hq : s₁.queue = fun _ => {}) (frames rest : List Frame) :
    s.resume (s₁.goto t (frames ++ [])) t rest = s₂.goto t (frames ++ rest) := by
  subst h
  simp only [resume, goto, hq, List.append_nil, Function.update_self]
  rfl

theorem resume_post (h : { s₁ with phase := s.phase, queue := s.queue, stack := s.stack } = s₂)
    (hq : s₁.queue = fun _ => {}) (l : Loop) (g : Functor) (rest : List Frame) :
    s.resume ((s₁.post l g).goto t []) t rest = (s₂.post l g).goto t rest := by
  subst h
  simp only [resume, goto, post, hq, pushAll_post, List.nil_append, Function.update_self]

end

theorem Called.resume {s s₁ : Server} (h : Called (s.alone (.exec f)) t [] k f s₁) :
    Called s t rest k f (s.resume s₁ t rest) := by
  have hcase {s₂ : Server} (h : Called s t rest k f s₂) (he : s.resume s₁ t rest = s₂) :
      Called s t rest k f (s.resume s₁ t rest) := he ▸ h
  cases h with
  | connectEstablished => exact hcase .connectEstablished (resume_goto rfl rfl [_] rest)
  | sendInLoop hd hc => exact hcase (.sendInLoop hd hc) (resume_goto rfl rfl _ rest)
  | sendLate hd => exact hcase (.sendLate hd) (resume_goto rfl rfl [] rest)
  | shutdownInLoop => exact hcase .shutdownInLoop (resume_goto rfl rfl [] rest)
  | forceCloseInLoop hd => exact hcase (.forceCloseInLoop hd) (resume_goto rfl rfl [_] rest)
  | forceCloseLate hd => exact hcase (.forceCloseLate hd) (resume_goto rfl rfl [] rest)
  | startReadInLoop => exact hcase .startReadInLoop (resume_goto rfl rfl [] rest)
  | stopReadInLoop => exact hcase .stopReadInLoop (resume_goto rfl rfl [] rest)
  | destroyConnected hd => exact hcase (.destroyConnected hd) (resume_goto rfl rfl [_, _] rest)
  | destroyLate hd => exact hcase (.destroyLate hd) (resume_goto rfl rfl [_] rest)
  | removeConnectionInLoop ha =>
    exact hcase (.removeConnectionInLoop ha) (resume_post rfl rfl _ _ rest)
  | notice => exact hcase .notice (resume_goto rfl rfl [_] rest)
  | other => exact hcase .other (resume_goto rfl rfl [_] rest)

/-- What a frame does depends on nothing but the connection. -/
theorem Goes.resume {s s₁ : Server} (h : Goes (s.alone f) t [] k f s₁) :
    Goes s t rest k f (s.resume s₁ t rest) := by
  have hcase {s₂ : Server} (h : Goes s t rest k f s₂) (he : s.resume s₁ t rest = s₂) :
      Goes s t rest k f (s.resume s₁ t rest) := he ▸ h
  cases h with
  | handleEvent => exact hcase .handleEvent (resume_goto rfl rfl _ rest)
  | readData hk => exact hcase (.readData hk) (resume_goto rfl rfl [_] rest)
  | readEof hk => exact hcase (.readEof hk) (resume_goto rfl rfl [_] rest)
  | readError hk => exact hcase (.readError hk) (resume_goto rfl rfl [] rest)
  | handleWrite hc => exact hcase (.handleWrite hc) (resume_goto rfl rfl [] rest)
  | drained hc => exact hcase (.drained hc) (resume_goto rfl rfl _ rest)
  | ifDisconnecting hd => exact hcase (.ifDisconnecting hd) (resume_goto rfl rfl [] rest)
  | ifNotDisconnecting hd => exact hcase (.ifNotDisconnecting hd) (resume_goto rfl rfl [] rest)
  | handleClose => exact hcase .handleClose (resume_goto rfl rfl [_, _] rest)
  | connectionCallback => exact hcase .connectionCallback (resume_goto rfl rfl [_] rest)
  | closeInLoop ha ht => exact hcase (.closeInLoop ha ht) (resume_goto rfl rfl [_] rest)
  | closeQueued ha ht => exact hcase (.closeQueued ha ht) (resume_post rfl rfl _ _ rest)
  | setDisconnected => exact hcase .setDisconnected (resume_goto rfl rfl [_] rest)
  | remove => exact hcase .remove (resume_goto rfl rfl [] rest)
  | send hc => exact hcase (.send hc) (resume_goto rfl rfl [_] rest)
  | sendDropped hc => exact hcase (.sendDropped hc) (resume_goto rfl rfl [] rest)
  | shutdown hc => exact hcase (.shutdown hc) (resume_goto rfl rfl [_] rest)
  | shutdownDropped hc => exact hcase (.shutdownDropped hc) (resume_goto rfl rfl [] rest)
  | setDisconnecting => exact hcase .setDisconnecting (resume_goto rfl rfl [_] rest)
  | forceClose hc => exact hcase (.forceClose hc) (resume_goto rfl rfl [_] rest)
  | forceCloseDropped hc => exact hcase (.forceCloseDropped hc) (resume_goto rfl rfl [] rest)
  | runInLoop ht => exact hcase (.runInLoop ht) (resume_goto rfl rfl [_] rest)
  | runQueued ht => exact hcase (.runQueued ht) (resume_post rfl rfl _ _ rest)
  | queueForceClose => exact hcase .queueForceClose (resume_post rfl rfl _ _ rest)
  | queueNotice => exact hcase .queueNotice (resume_post rfl rfl _ _ rest)
  | exec hc => exact .exec hc.resume

theorem go_of_statement {s s₁ : Server} (hs : s.stack t = f :: rest)
    (h : s.statement t f k = some s₁) : s.go t k = some (s.resume s₁ t rest) := by
  obtain ⟨g, gs, hg, hgoes⟩ := Goes.of_go h
  cases hg
  exact hgoes.resume.go hs

theorem statement_same {s s₁ : Server} (h : s.statement t f k = some s₁) :
    s₁.loop_ = s.loop_ ∧ s₁.created = s.created ∧
      s₁.registered = (s.registered && decide (f ≠ .exec .removeConnectionInLoop)) := by
  obtain ⟨g, gs, hg, hgoes⟩ := Goes.of_go h
  cases hg
  have hkept {g : Frame} (hg : g ≠ .exec .removeConnectionInLoop) :
      s.registered = (s.registered && decide (g ≠ .exec .removeConnectionInLoop)) := by
    rw [decide_eq_true hg, Bool.and_true]
  cases hgoes with
  | exec hc =>
    cases hc with
    | removeConnectionInLoop => exact ⟨rfl, rfl, (Bool.and_false _).symm⟩
    | _ => exact ⟨rfl, rfl, hkept (by intro hn; cases hn)⟩
  | _ => exact ⟨rfl, rfl, hkept (by intro hn; cases hn)⟩

theorem statement_counts {s s₁ : Server} (h : s.statement t f k = some s₁) :
    s.established ≤ s₁.established ∧
      (f ≠ .exec .removeConnectionInLoop → s₁.destroyQueued = s.destroyQueued) := by
  obtain ⟨g, gs, hg, hgoes⟩ := Goes.of_go h
  cases hg
  cases hgoes with
  | exec hc =>
    cases hc with
    | connectEstablished => exact ⟨Nat.le_succ _, fun _ => rfl⟩
    | removeConnectionInLoop => exact ⟨Nat.le_refl _, fun hn => (hn rfl).elim⟩
    | _ => exact ⟨Nat.le_refl _, fun _ => rfl⟩
  | _ => exact ⟨Nat.le_refl _, fun _ => rfl⟩

/-- The frames that no other code leads to. -/
def Frame.isOwn : Frame → Bool
  | .user | .exec .other | .runInloop .other => false
  | _ => true

/-- A statement leaves nothing that only other code would leave, and enters the user's code only
when the connection has been established. -/
structure Clean (t : Thread) (f : Frame) (s : Server) : Prop where
  frames : ∀ g ∈ s.stack t, g.isOwn = true ∨ g = .user ∧ f.isFirst = false
  posted : ∀ l, ∀ g ∈ (s.queue l).pending, g ≠ .other

section
variable {s : Server} {t : Thread} {f : Frame}

theorem Clean.goto (hq : s.queue = fun _ => {}) (fs : List Frame)
    (hfs : ∀ g ∈ fs, g.isOwn = true ∨ g = .user ∧ f.isFirst = false) :
    Clean t f (s.goto t (fs ++ [])) := by
  have hstack : (s.goto t (fs ++ [])).stack t = fs := by
    rw [List.append_nil]
    exact Function.update_self ..
  refine ⟨fun g hg => hfs g (hstack ▸ hg), ?_⟩
  intro l g hg
  have hqueue : (s.goto t (fs ++ [])).queue = fun _ => {} := hq
  rw [hqueue] at hg
  cases hg

theorem Clean.post (hq : s.queue = fun _ => {}) (l : Loop) {g : Functor} (hg : g ≠ .other) :
    Clean t f ((s.post l g).goto t []) := by
  have hstack : ((s.post l g).goto t []).stack t = [] := Function.update_self ..
  have hnone (g' : Frame) (hg : g' ∈ ((s.post l g).goto t []).stack t) : False := by
    rw [hstack] at hg
    cases hg
  refine ⟨fun g hg => (hnone g hg).elim, ?_⟩
  intro l' g' hg'
  have hqueue : ((s.post l g).goto t []).queue =
      Function.update s.queue l ((s.queue l).push g) := rfl
  rw [hqueue, hq] at hg'
  by_cases hl : l' = l
  · subst l'
    rw [Function.update_self] at hg'
    rw [List.mem_singleton.1 hg']
    exact hg
  · rw [Function.update_of_ne hl] at hg'
    cases hg'

end

section
variable {s s' : Server} {t : Thread} {f : Frame} {g : Functor}

theorem Called.clean (hg : g ≠ .other) (h : Called (s.alone (.exec g)) t [] k g s') :
    Clean t (.exec g) s' := by
  have hone {f : Frame} (hf : f.isOwn = true) :
      ∀ f' ∈ [f], f'.isOwn = true ∨ f' = .user ∧ (Frame.exec g).isFirst = false :=
    List.forall_mem_singleton.2 (.inl hf)
  cases h with
  | connectEstablished => exact .goto rfl [.connectionCallback .connectEstablished] (hone rfl)
  | sendInLoop =>
    refine .goto rfl (List.map .queueNotice _) ?_
    intro f hf
    obtain ⟨n, _, rfl⟩ := List.mem_map.1 hf
    exact .inl rfl
  | sendLate | shutdownInLoop | forceCloseLate | startReadInLoop | stopReadInLoop =>
    exact .goto rfl [] (List.forall_mem_nil _)
  | forceCloseInLoop => exact .goto rfl [.handleClose] (hone rfl)
  | destroyConnected =>
    exact .goto rfl [.setDisconnected, .remove] (List.forall_mem_cons.2 ⟨.inl rfl, hone rfl⟩)
  | destroyLate => exact .goto rfl [.remove] (hone rfl)
  | removeConnectionInLoop => exact .post rfl _ (by intro h; cases h)
  | notice => exact .goto rfl [.user] (List.forall_mem_singleton.2 (.inr ⟨rfl, rfl⟩))
  | other => exact (hg rfl).elim

theorem Goes.clean (hf : f.isOwn = true) (h : Goes (s.alone f) t [] k f s') : Clean t f s' := by
  have hone {g : Frame} (hg : g.isOwn = true) :
      ∀ g' ∈ [g], g'.isOwn = true ∨ g' = .user ∧ f.isFirst = false :=
    List.forall_mem_singleton.2 (.inl hg)
  cases h with
  | handleEvent =>
    refine .goto rfl (dispatch _) ?_
    intro g hg
    rcases mem_dispatch hg with rfl | rfl | rfl <;> exact .inl rfl
  | readData => exact .goto rfl [.user] (List.forall_mem_singleton.2 (.inr ⟨rfl, rfl⟩))
  | readEof => exact .goto rfl [.handleClose] (hone rfl)
  | readError | handleWrite | ifDisconnecting | ifNotDisconnecting | remove | sendDropped
  | shutdownDropped | forceCloseDropped => exact .goto rfl [] (List.forall_mem_nil _)
  | drained =>
    refine .goto rfl (drainedFrames _) ?_
    intro g hg
    rcases mem_drained hg with rfl | rfl <;> exact .inl rfl
  | handleClose =>
    exact .goto rfl [.connectionCallback .handleClose, .closeCallback]
      (List.forall_mem_cons.2 ⟨.inl rfl, hone rfl⟩)
  | connectionCallback => exact .goto rfl [.user] (List.forall_mem_singleton.2 (.inr ⟨rfl, rfl⟩))
  | closeInLoop => exact .goto rfl [.exec .removeConnectionInLoop] (hone rfl)
  | closeQueued => exact .post rfl _ (by intro h; cases h)
  | setDisconnected => exact .goto rfl [.connectionCallback .connectDestroyed] (hone rfl)
  | send => exact .goto rfl [.runInloop (.sendInLoop _)] (hone rfl)
  | shutdown => exact .goto rfl [.setDisconnecting] (hone rfl)
  | setDisconnecting => exact .goto rfl [.runInloop .shutdownInLoop] (hone rfl)
  | forceClose => exact .goto rfl [.queueForceClose] (hone rfl)
  | @runInLoop g =>
    have hexec : (Frame.exec g).isOwn = true := by
      cases g <;> first | rfl | cases hf
    exact .goto rfl [.exec g] (hone hexec)
  | runQueued => exact .post rfl _ (by rintro rfl; cases hf)
  | queueForceClose | queueNotice => exact .post rfl _ (by intro h; cases h)
  | exec hc => exact hc.clean (by rintro rfl; cases hf)

end

end MuduoStudy.Server
