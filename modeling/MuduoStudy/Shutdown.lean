import MuduoStudy.Pipeline
import MuduoStudy.WriteInterest

namespace MuduoStudy.Server
open Transition
set_option autoImplicit true

def Functor.item : Functor → List (Pipeline.Item Sent)
  | .sendInLoop m => [.message m]
  | .shutdownInLoop => [.stop]
  | _ => []

def Frame.item : Frame → List (Pipeline.Item Sent)
  | .runInloop f => f.item
  | .exec f => f.item
  | _ => []

def framesItems (frames : List Frame) : List (Pipeline.Item Sent) := frames.flatMap Frame.item

def queueItems (q : BatchQueue Functor) : List (Pipeline.Item Sent) :=
  q.contents.flatMap Functor.item

/-- What the thread `T` hands to the connection's loop. -/
def pipeline (T : Thread) (s : Server) : Pipeline Sent where
  isOpen := decide (s.conn.state_ = .kConnected)
  accepted := s.accepted
  hand := framesItems (s.stack T)
  items := framesItems (s.stack (.loop s.loop_)) ++ queueItems (s.queue s.loop_)
  executed := s.executed

/-- The frames of `send` and `shutdown`. -/
def Frame.isOutput : Frame → Bool
  | .send _ | .shutdown | .setDisconnecting | .runInloop (.sendInLoop _)
  | .runInloop .shutdownInLoop => true
  | _ => false

/-- No thread but `T` is in `send` or `shutdown`. -/
def Outputs (T : Thread) (s : Server) : Prop :=
  ∀ t, t ≠ T → ∀ f ∈ s.stack t, f.isOutput = false

/-- No thread but `T` calls `send` or `shutdown`. -/
def SendsFrom (T : Thread) (_ : Server) : Action → Prop
  | .call t (.send _) => t = T
  | .call t .shutdown => t = T
  | _ => True

instance (T : Thread) (s : Server) (a : Action) : Decidable (SendsFrom T s a) :=
  match a with
  | .call t (.send _) | .call t .shutdown => inferInstanceAs (Decidable (t = T))
  | .call _ .forceClose | .call _ .startRead | .call _ .stopRead | .go .. | .loop _ | .poll ..
  | .enter _ | .leave _ | .post .. | .newConnection | .destroy => inferInstanceAs (Decidable True)

theorem Frame.isOutput_of_not_api {f : Frame} (h : f.isApi = false) : f.isOutput = false := by
  cases f with
  | runInloop g => cases g <;> first | rfl | cases h
  | _ => first | rfl | cases h

theorem Goes.outputs {s s' : Server} (h : Goes s t rest k f s') (hf : f.isOutput = false) :
    ∃ fs, s'.stack = Function.update s.stack t (fs ++ rest) ∧ ∀ g ∈ fs, g.isOutput = false := by
  cases hapi : f.isApi with
  | false =>
    obtain ⟨fs, hstack, hfs⟩ := h.quiet.1
    exact ⟨fs, hstack, fun g hg => Frame.isOutput_of_not_api (hfs hapi g hg)⟩
  | true =>
    cases h with
    | send | sendDropped | shutdown | shutdownDropped | setDisconnecting => cases hf
    | forceClose => exact ⟨[.queueForceClose], rfl, List.forall_mem_singleton.2 rfl⟩
    | forceCloseDropped | runQueued | queueForceClose => exact ⟨[], rfl, fun _ => nofun⟩
    | runInLoop => exact ⟨[.exec _], rfl, List.forall_mem_singleton.2 rfl⟩
    | handleEvent | readData | readEof | readError | handleWrite | drained | ifDisconnecting
    | ifNotDisconnecting | handleClose | connectionCallback | closeInLoop | closeQueued
    | setDisconnected | remove | queueNotice | exec => cases hapi

theorem Outputs.goto {s s' : Server} (ho : Outputs T s) (fs : List Frame)
    (hstack : s'.stack = Function.update s.stack t (fs ++ rest))
    (hfs : t ≠ T → ∀ f ∈ fs, f.isOutput = false) (hrest : ∀ f ∈ rest, f ∈ s.stack t) :
    Outputs T s' := by
  have hold (u : Thread) (f : Frame) (hf : f ∈ s.stack u) (hu : u ≠ T) : f.isOutput = false :=
    ho u hu f hf
  intro u hu f hf
  rw [hstack] at hf
  exact frames_goto hold fs (fun g hg ht => hfs ht g hg) hrest u f hf hu

theorem Outputs.step {s s' : Server} (ho : Outputs T s) (hsends : SendsFrom T s a)
    (h : s.step a = some s') : Outputs T s' := by
  have hone {t : Thread} {g : Frame} (hg : g.isOutput = false) (_ : t ≠ T) :
      ∀ g' ∈ [g], g'.isOutput = false := List.forall_mem_singleton.2 hg
  cases Step.of_step h with
  | @go t f rest k _ hs hg =>
    by_cases ht : t = T
    · obtain ⟨fs, hstack, _⟩ := hg.quiet.1
      exact ho.goto fs hstack (fun hne => (hne ht).elim) fun g hg => hs ▸ List.mem_cons_of_mem _ hg
    · obtain ⟨fs, hstack, hfs⟩ := hg.outputs (ho t ht f (hs ▸ List.mem_cons_self))
      exact ho.goto fs hstack (fun _ => hfs) fun g hg => hs ▸ List.mem_cons_of_mem _ hg
  | activeChannel => exact ho.goto [.handleEvent _] rfl (hone rfl) fun _ => nofun
  | handled | swap | endFunctors | poll | post => exact ho
  | callFunctor => exact ho.goto [.exec _] rfl (hone rfl) fun _ => nofun
  | enter => exact ho.goto [.user] rfl (hone rfl) fun _ => nofun
  | leave hs => exact ho.goto [] rfl (fun _ _ => nofun) fun g hg => hs ▸ List.mem_cons_of_mem _ hg
  | @call t a =>
    have hframe (ht : t ≠ T) : ∀ g ∈ [a.frame s t], g.isOutput = false := by
      cases a with
      | send message => exact (ht hsends).elim
      | shutdown => exact (ht hsends).elim
      | forceClose | startRead | stopRead => exact hone rfl ht
    exact ho.goto [a.frame s t] rfl hframe fun _ hg => hg
  | newConnection => exact ho.goto [.runInloop .connectEstablished] rfl (hone rfl) fun _ => nofun
  | destroy =>
    refine destroy_cases s ?_ ?_ ?_
    · intro _ _
      exact ho.goto [.exec .connectDestroyed] rfl (hone rfl) fun _ hg => hg
    · intro _ _
      exact ho
    · intro _
      exact ho

theorem framesItems_cons (f : Frame) (fs : List Frame) :
    framesItems (f :: fs) = f.item ++ framesItems fs := rfl

theorem framesItems_append (fs gs : List Frame) :
    framesItems (fs ++ gs) = framesItems fs ++ framesItems gs := List.flatMap_append ..

theorem framesItems_below {fs : List Frame} (h : ∀ f ∈ fs, f.isBelow = true) :
    framesItems fs = [] := by
  apply List.flatMap_eq_nil_iff.2
  intro f hf
  have hb := h f hf
  cases f <;> first | rfl | cases hb

theorem queueItems_push (q : BatchQueue Functor) (f : Functor) :
    queueItems (q.push f) = queueItems q ++ f.item := by
  simp [queueItems]

theorem queueItems_update {queue : Loop → BatchQueue Functor} (hf : f.item = []) (l l' : Loop) :
    queueItems (Function.update queue l ((queue l).push f) l') = queueItems (queue l') := by
  apply update_keeps queueItems
  rw [queueItems_push, hf, List.append_nil]

theorem Functor.item_of_not_local {f : Functor} (h : f.isLocal = false) : f.item = [] := by
  cases f <;> first | rfl | cases h

theorem Functor.item_of_early {f : Functor} (h : f.isEarly = true) : f.item = [] := by
  cases f <;> first | rfl | cases h

theorem Frame.item_of_early {f : Frame} (h : f.isEarly = true) : f.item = [] := by
  cases f with
  | runInloop g => exact Functor.item_of_early h
  | exec g => exact Functor.item_of_early h
  | _ => rfl

/-- What `T` hands over moves on from `s` to `s'`. -/
abbrev Hands (T : Thread) (s s' : Server) : Prop := (s.pipeline T).Move (s'.pipeline T)

theorem Hands.of_move {s s' : Server} (hm : (s.pipeline T).Move p) (heq : s'.pipeline T = p) :
    Hands T s s' := by
  rw [Hands, heq]
  exact hm

theorem Hands.same {s s' : Server}
    (hframes : ∀ u, framesItems (s'.stack u) = framesItems (s.stack u))
    (hqueue : queueItems (s'.queue s.loop_) = queueItems (s.queue s.loop_))
    (hloop : s'.loop_ = s.loop_)
    (hstate : s'.conn.state_ = .kConnected ↔ s.conn.state_ = .kConnected)
    (hsent : s'.accepted = s.accepted ∧ s'.executed = s.executed) : Hands T s s' := by
  have hsame : s'.pipeline T = s.pipeline T := by
    simp only [pipeline, hloop, hframes, hqueue, hstate, hsent]
  exact .of_move .stay hsame

theorem Hands.goto {s s' : Server} (hs : s.stack t = f :: rest) (fs : List Frame)
    (hstack : s'.stack = Function.update s.stack t (fs ++ rest)) (hfs : framesItems fs = f.item)
    (hqueue : queueItems (s'.queue s.loop_) = queueItems (s.queue s.loop_))
    (hloop : s'.loop_ = s.loop_)
    (hstate : s'.conn.state_ = .kConnected ↔ s.conn.state_ = .kConnected)
    (hsent : s'.accepted = s.accepted ∧ s'.executed = s.executed) : Hands T s s' := by
  have hframes (u : Thread) : framesItems (s'.stack u) = framesItems (s.stack u) := by
    rw [hstack]
    apply update_keeps framesItems
    rw [framesItems_append, hfs, hs, framesItems_cons]
  exact .same hframes hqueue hloop hstate hsent

theorem Untouched.items {s : Server} (h : Untouched s) (u : Thread) (l : Loop) :
    framesItems (s.stack u) = [] ∧ queueItems (s.queue l) = [] :=
  ⟨List.flatMap_eq_nil_iff.2 fun f hf => Frame.item_of_early (h.early.frames u f hf),
    List.flatMap_eq_nil_iff.2 fun f hf => Functor.item_of_early (h.early.queued l f hf)⟩

section
variable {T : Thread} {s s' : Server}

theorem Hands.called (hT : T ≠ .loop s.loop_) (hl : Lived s) (hl' : Lived s')
    (ha : s.course.Alive s.mark) (hd : s.destroys = 0) (hs : s.stack t = .exec f :: rest)
    (h : Called s t rest k f s') : Hands T s s' := by
  have hbelow := framesItems_below (hl.placed.belowTop hs).2
  have hhome (hf : f.isLocal = true) : t = .loop s.loop_ := Frame.home (hl.placed.frame hs) hf
  have hstack : framesItems (s.stack t) = f.item := by
    rw [hs, framesItems_cons, hbelow]
    exact List.append_nil _
  cases h with
  | connectEstablished =>
    have hzero : s.established = 0 := by
      have hone : s.established + 1 ≤ 1 := hl'.sound.established_le
      omega
    have hu : Untouched s := hl.begun.resolve_left (by omega)
    have hitems : (s.pipeline T).items = [] := by
      rw [pipeline, (hu.items (.loop s.loop_) s.loop_).1, (hu.items T s.loop_).2]
      rfl
    have hnew : framesItems (.connectionCallback .connectEstablished :: rest) =
        framesItems (s.stack t) := by
      rw [hstack, framesItems_cons, hbelow]
      rfl
    apply Hands.of_move (.start (hu.items T s.loop_).1 hitems)
    simp only [pipeline, Server.goto, update_keeps framesItems hnew]
    rfl
  | @sendInLoop c notices m hstate hc =>
    have ht := hhome rfl
    subst t
    have hitems : (s.pipeline T).items = .message m :: queueItems (s.queue s.loop_) := by
      simp only [pipeline, hstack]
      rfl
    have hnew : framesItems (notices.map .queueNotice ++ rest) = [] := by
      rw [framesItems_append, hbelow, framesItems_below (isBelow_notices notices)]
      rfl
    have hkept := (TcpConnection.Sends.of_sendInLoop hstate hc).kept.state
    apply Hands.of_move (.execute hitems)
    simp only [pipeline, Server.goto, hkept, Function.update_self, Function.update_of_ne hT, hnew,
      List.nil_append]
  | sendLate hstate =>
    have hpos := hl.established_pos hs rfl
    exact (ha.state hpos hd hstate).elim
  | shutdownInLoop =>
    have ht := hhome rfl
    subst t
    have hitems : (s.pipeline T).items = .stop :: queueItems (s.queue s.loop_) := by
      simp only [pipeline, hstack]
      rfl
    apply Hands.of_move (.finish hitems)
    simp only [pipeline, Server.goto, s.conn.shutdownInLoop_same.1, Function.update_self,
      Function.update_of_ne hT, hbelow, List.nil_append]
  | forceCloseInLoop => exact .goto hs [.handleClose] rfl rfl rfl rfl .rfl ⟨rfl, rfl⟩
  | forceCloseLate => exact .goto hs [] rfl rfl rfl rfl .rfl ⟨rfl, rfl⟩
  | startReadInLoop =>
    have hstate := (TcpConnection.Kept.startReadInLoop s.conn).state
    exact .goto hs [] rfl rfl rfl rfl (hstate ▸ .rfl) ⟨rfl, rfl⟩
  | stopReadInLoop =>
    have hstate := (TcpConnection.Kept.stopReadInLoop s.conn).state
    exact .goto hs [] rfl rfl rfl rfl (hstate ▸ .rfl) ⟨rfl, rfl⟩
  | destroyConnected => exact .goto hs [.setDisconnected, .remove] rfl rfl rfl rfl .rfl ⟨rfl, rfl⟩
  | destroyLate => exact .goto hs [.remove] rfl rfl rfl rfl .rfl ⟨rfl, rfl⟩
  | removeConnectionInLoop =>
    exact .goto hs [] rfl rfl (queueItems_update rfl _ _) rfl .rfl ⟨rfl, rfl⟩
  | notice | other => exact .goto hs [.user] rfl rfl rfl rfl .rfl ⟨rfl, rfl⟩

theorem framesItems_dispatch (revents : Events) : framesItems (dispatch revents) = [] := by
  apply List.flatMap_eq_nil_iff.2
  intro g hg
  rcases mem_dispatch hg with rfl | rfl | rfl <;> rfl

theorem Hands.goes (hT : T ≠ .loop s.loop_) (ho : Outputs T s) (hl : Lived s) (hl' : Lived s')
    (ha : s.course.Alive s.mark) (hd : s.destroys = 0) (hs : s.stack t = f :: rest)
    (h : Goes s t rest k f s') : Hands T s s' := by
  have hbelow := framesItems_below (hl.placed.belowTop hs).2
  have hstack : framesItems (s.stack t) = f.item := by
    rw [hs, framesItems_cons, hbelow]
    exact List.append_nil _
  have houtput (hf : f.isOutput = true) : t = T := by
    by_contra ht
    exact Bool.false_ne_true ((ho t ht f (hs ▸ List.mem_cons_self)).symm.trans hf)
  cases h with
  | handleEvent => exact .goto hs _ rfl (framesItems_dispatch _) rfl rfl .rfl ⟨rfl, rfl⟩
  | readData => exact .goto hs [.user] rfl rfl rfl rfl .rfl ⟨rfl, rfl⟩
  | readEof => exact .goto hs [.handleClose] rfl rfl rfl rfl .rfl ⟨rfl, rfl⟩
  | readError | ifNotDisconnecting | sendDropped | shutdownDropped | forceCloseDropped =>
    exact .goto hs [] rfl rfl rfl rfl .rfl ⟨rfl, rfl⟩
  | handleWrite hc =>
    have hstate := (TcpConnection.Writes.of_handleWrite hc).kept.state
    exact .goto hs [] rfl rfl rfl rfl (hstate ▸ .rfl) ⟨rfl, rfl⟩
  | @drained c hc =>
    have hstate := (TcpConnection.Writes.of_handleWrite hc).kept.state
    exact .goto hs _ rfl (framesItems_below (isBelow_drained c)) rfl rfl (hstate ▸ .rfl)
      ⟨rfl, rfl⟩
  | ifDisconnecting =>
    have hstate := s.conn.shutdownInLoop_same.1
    exact .goto hs [] rfl rfl rfl rfl (hstate ▸ .rfl) ⟨rfl, rfl⟩
  | handleClose =>
    exact .goto hs [.connectionCallback .handleClose, .closeCallback] rfl rfl rfl rfl .rfl
      ⟨rfl, rfl⟩
  | connectionCallback => exact .goto hs [.user] rfl rfl rfl rfl .rfl ⟨rfl, rfl⟩
  | closeInLoop => exact .goto hs [.exec .removeConnectionInLoop] rfl rfl rfl rfl .rfl ⟨rfl, rfl⟩
  | closeQueued | queueForceClose | queueNotice =>
    exact .goto hs [] rfl rfl (queueItems_update rfl _ _) rfl .rfl ⟨rfl, rfl⟩
  | setDisconnected =>
    have hpos := ha.destroying (mark_home hl hs rfl).2
    exact (Nat.ne_of_gt hpos hd).elim
  | remove => exact .goto hs [] rfl rfl rfl rfl .rfl ⟨rfl, rfl⟩
  | @send m hstate =>
    have ht := houtput rfl
    subst t
    apply Hands.of_move (.accept (m := m) (decide_eq_true hstate) hstack)
    simp only [pipeline, Server.goto, Function.update_self, Function.update_of_ne hT.symm,
      framesItems_cons, hbelow, List.append_nil]
    rfl
  | shutdown => exact .goto hs [.setDisconnecting] rfl rfl rfl rfl .rfl ⟨rfl, rfl⟩
  | setDisconnecting =>
    have ht := houtput rfl
    subst t
    apply Hands.of_move (.stop hstack)
    simp only [pipeline, Server.goto, Function.update_self, Function.update_of_ne hT.symm,
      framesItems_cons, hbelow, List.append_nil]
    rfl
  | forceClose => exact .goto hs [.queueForceClose] rfl rfl rfl rfl .rfl ⟨rfl, rfl⟩
  | @runInLoop g =>
    have hsame : framesItems [.exec g] = g.item := List.append_nil _
    exact .goto hs [.exec g] rfl hsame rfl rfl .rfl ⟨rfl, rfl⟩
  | @runQueued g ht =>
    by_cases hg : g.item = []
    · exact .goto hs [] rfl hg.symm (queueItems_update hg _ _) rfl .rfl ⟨rfl, rfl⟩
    · have ht : t = T := by
        apply houtput
        cases g <;> first | rfl | exact (hg rfl).elim
      subst t
      have hhand : framesItems (s.stack T) = g.item := hstack
      apply Hands.of_move .post
      simp only [pipeline, Server.goto, Server.post, Function.update_self,
        Function.update_of_ne hT.symm, hbelow, hhand, queueItems_push, List.append_assoc]
      rfl
  | exec hc => exact .called hT hl hl' ha hd hs hc

theorem Hands.step (hT : T ≠ .loop s.loop_) (ho : Outputs T s) (hl : Lived s)
    (ha : s.course.Alive s.mark) (hd : s.destroys = 0) (h : s.step a = some s') :
    Hands T s s' := by
  have hpush {t : Thread} (frames : List Frame) (hframes : framesItems frames =
      framesItems (s.stack t)) := update_keeps framesItems hframes
  have hl' := hl.step h
  cases Step.of_step h with
  | go hs hg => exact .goes hT ho hl hl' ha hd hs hg
  | activeChannel hs => exact .same (hpush [.handleEvent _] (hs ▸ rfl)) rfl rfl .rfl ⟨rfl, rfl⟩
  | handled | endFunctors | poll => exact .same (fun _ => rfl) rfl rfl .rfl ⟨rfl, rfl⟩
  | @swap l _ hphase =>
    have hb := hl.placed.batch l (by rw [hphase]; nofun)
    have hqueue : queueItems (Function.update s.queue l (s.queue l).swap s.loop_) =
        queueItems (s.queue s.loop_) := by
      apply update_keeps queueItems
      rw [queueItems, queueItems, BatchQueue.contents_swap hb]
    exact .same (fun _ => rfl) hqueue rfl .rfl ⟨rfl, rfl⟩
  | @callFunctor l f q hs _ hq =>
    have hpop : queueItems (s.queue l) = f.item ++ queueItems q := by
      rw [queueItems, BatchQueue.contents_pop hq]
      rfl
    by_cases hloop : l = s.loop_
    · subst l
      have hexec : framesItems [.exec f] = f.item := List.append_nil _
      have hnil : framesItems ([] : List Frame) = [] := rfl
      apply Hands.of_move .stay
      simp only [pipeline, Server.goto, Server.setQueue, Function.update_self,
        Function.update_of_ne hT, hexec, hs, hnil, hpop, List.nil_append]
      rfl
    · have hitem : f.item = [] := by
        apply Functor.item_of_not_local
        by_contra hlocal
        exact hloop ((hl.placed.carries.dequeue hq).1 (by simpa using hlocal))
      have hframes : framesItems [.exec f] = framesItems (s.stack (.loop l)) := by
        have hexec : (Frame.exec f).item = [] := hitem
        rw [hs, framesItems_cons, hexec]
        rfl
      have hqueue : queueItems (Function.update s.queue l q s.loop_) =
          queueItems (s.queue s.loop_) := by
        rw [Function.update_of_ne (Ne.symm hloop)]
      exact .same (hpush [.exec f] hframes) hqueue rfl .rfl ⟨rfl, rfl⟩
  | enter hs => exact .same (hpush [.user] (hs ▸ rfl)) rfl rfl .rfl ⟨rfl, rfl⟩
  | leave hs => exact .same (hpush _ (hs ▸ rfl)) rfl rfl .rfl ⟨rfl, rfl⟩
  | @call t a hu =>
    have hframe : (a.frame s t).item = [] := by
      cases a <;> rfl
    have hframes : framesItems (a.frame s t :: s.stack t) = framesItems (s.stack t) := by
      rw [framesItems_cons, hframe]
      rfl
    exact .same (hpush _ hframes) rfl rfl .rfl ⟨rfl, rfl⟩
  | post => exact .same (fun _ => rfl) (queueItems_update rfl _ _) rfl .rfl ⟨rfl, rfl⟩
  | newConnection hs =>
    exact .same (hpush [.runInloop .connectEstablished] (hs ▸ rfl)) rfl rfl .rfl ⟨rfl, rfl⟩
  | destroy hu =>
    refine destroy_cases s ?_ ?_ ?_
    · intro _ _
      exact .same (hpush _ rfl) rfl rfl .rfl ⟨rfl, rfl⟩
    · intro _ _
      exact .same (fun _ => rfl) (queueItems_update rfl _ _) rfl .rfl ⟨rfl, rfl⟩
    · intro _
      exact .same (fun _ => rfl) rfl rfl .rfl ⟨rfl, rfl⟩

end

theorem Step.loop_eq {s s' : Server} (h : s.step a = some s') : s'.loop_ = s.loop_ := by
  cases Step.of_step h with
  | go _ hg =>
    cases hg with
    | exec hc => cases hc <;> rfl
    | _ => rfl
  | destroy => exact destroy_cases s (fun _ _ => rfl) (fun _ _ => rfl) fun _ => rfl
  | _ => rfl

/-- What holds as long as the connection is neither closed nor destroyed, and only `T` calls
`send` and `shutdown`. -/
structure Graceful (T : Thread) (s : Server) : Prop where
  lived : Lived s
  outbound : Outbound s.conn s.executed
  elsewhere : T ≠ .loop s.loop_
  outputs : Outputs T s
  alive : s.course.Alive s.mark
  sound : s.destroys = 0 → (s.pipeline T).Sound
  watched : s.closes = 0 → s.destroys = 0 → s.conn.Watched

theorem Graceful.step {s s' : Server} (hg : Graceful T s) (hsends : SendsFrom T s a)
    (h : s.step a = some s') : Graceful T s' := by
  have hmove := Follows.step hg.lived h
  have hcounts : s.closes ≤ s'.closes ∧ s.destroys ≤ s'.destroys := hmove.counts_le
  have hsound (hd : s'.destroys = 0) : (s'.pipeline T).Sound := by
    have hd : s.destroys = 0 := by omega
    exact (hg.sound hd).move (Hands.step hg.elsewhere hg.outputs hg.lived hg.alive hd h)
  have hwatched := watched_step hg.lived hg.outbound.wf hg.alive hg.watched h
  exact ⟨hg.lived.step h, hg.outbound.step h, Step.loop_eq h ▸ hg.elsewhere,
    hg.outputs.step hsends h, hg.alive.move hmove, hsound, hwatched⟩

theorem Graceful.init (config : Config) (hT : T ≠ .loop config.loop_) :
    Graceful T (Server.init config) := by
  have hsound : ((Server.init config).pipeline T).Sound :=
    ⟨rfl, fun _ => nofun, fun _ => rfl, trivial⟩
  have hwatched : (Server.init config).conn.Watched := fun _ => Buff.readable_new _
  exact ⟨Lived.init config, Outbound.init config, hT, fun _ _ _ => nofun, ⟨nofun, nofun⟩,
    fun _ => hsound, fun _ _ => hwatched⟩

theorem Graceful.run {s : Server} (h : Run Server.step (Server.init config) as s)
    (hT : T ≠ .loop config.loop_)
    (hsends : AllSteps Server.step (SendsFrom T) (Server.init config) as) : Graceful T s :=
  h.invariant_when hsends (.init config hT) fun _ _ _ hg => hg.step

/-- `handleWrite` shuts the socket down while the queue still holds bytes to send. -/
def overtakes (s : Server) : Prop :=
  (s.stack (.loop s.loop_)).head? = some .ifDisconnecting ∧ bytes (waiting (s.queue s.loop_)) ≠ []

theorem messages_queueItems (q : BatchQueue Functor) :
    Pipeline.messages (queueItems q) = waiting q := by
  rw [Pipeline.messages, queueItems, waiting, List.flatMap_assoc]
  congr 1
  funext f
  cases f <;> rfl

theorem Graceful.written {s : Server} (hg : Graceful T s) (hcloses : s.closes = 0)
    (hdestroys : s.destroys = 0) (hfault : s.conn.faulted = false)
    (hw : s.conn.channel_.isWriting = false) : s.conn.written = bytes s.executed := by
  have hstream := hg.outbound.exact hfault
  rw [TcpConnection.stream, hg.watched hcloses hdestroys hw, List.append_nil] at hstream
  exact hstream

/-- Behind the order to stop nothing is left on its way. -/
theorem Graceful.accepted_of_stop {s : Server} (hg : Graceful T s) (hdestroys : s.destroys = 0)
    (hs : s.stack (.loop s.loop_) = .exec .shutdownInLoop :: rest) : s.executed = s.accepted := by
  have hitems : (s.pipeline T).items = .stop ::
      (framesItems rest ++ queueItems (s.queue s.loop_)) := by
    rw [pipeline, hs]
    rfl
  exact (hg.sound hdestroys).executed_of_stop hitems

theorem Graceful.accepted_of_drained {s : Server} (hg : Graceful T s) (hdestroys : s.destroys = 0)
    (hs : s.stack (.loop s.loop_) = .ifDisconnecting :: rest)
    (hstate : s.conn.state_ = .kDisconnecting) :
    s.accepted = s.executed ++ waiting (s.queue s.loop_) := by
  have hbelow := framesItems_below (hg.lived.placed.belowTop hs).2
  have hitems : (s.pipeline T).items = queueItems (s.queue s.loop_) := by
    rw [pipeline, hs, framesItems_cons, hbelow]
    rfl
  have hclosed : (s.pipeline T).isOpen = false := by
    simp [pipeline, hstate]
  have hwaiting := (hg.sound hdestroys).waiting hclosed
  rwa [hitems, messages_queueItems] at hwaiting

/-- When the socket's write side is shut down first, every byte of the messages that `T` has sent
has been accepted by the kernel, unless `handleWrite` has overtaken some of them. -/
theorem shutdown_drains_iff {s s' : Server} (h : Run Server.step (Server.init config) as s)
    (hT : T ≠ .loop config.loop_)
    (hsends : AllSteps Server.step (SendsFrom T) (Server.init config) as)
    (hopen : s.closes = 0 ∧ s.destroys = 0 ∧ s.conn.faulted = false)
    (hstep : s.step a = some s') (hfirst : s.conn.shutdownWrites = 0)
    (hshut : 0 < s'.conn.shutdownWrites) :
    s.conn.written = bytes s.accepted ↔ ¬ s.overtakes := by
  obtain ⟨hcloses, hdestroys, hfault⟩ := hopen
  have hg := Graceful.run h hT hsends
  cases ConnStep.of_step hstep with
  | same hc =>
    rw [hc] at hshut
    omega
  | @runs t f rest k _ hs hr =>
    have hlt : s.conn.shutdownWrites < s'.conn.shutdownWrites := by omega
    obtain ⟨hconn, hcall, hw⟩ := hr.shutdown hlt
    rw [hconn] at hshut
    have hwritten := hg.written hcloses hdestroys hfault hw
    have hlocal : f.isLocal = true := by
      rcases hcall with rfl | ⟨rfl, _⟩ <;> rfl
    have ht := Frame.home (hg.lived.placed.frame hs) hlocal
    subst t
    rcases hcall with rfl | ⟨rfl, hstate⟩
    · have hnot : ¬ s.overtakes := by
        intro ho
        have htop := ho.1
        rw [hs] at htop
        cases htop
      exact iff_of_true (hg.accepted_of_stop hdestroys hs ▸ hwritten) hnot
    · have htop : (s.stack (.loop s.loop_)).head? = some .ifDisconnecting := by
        rw [hs]
        rfl
      rw [hg.accepted_of_drained hdestroys hs hstate, bytes_append, ← hwritten, overtakes,
        List.self_eq_append_right]
      simp [htop]

def sending (message : Block) : List Action :=
  [.call (.user 0) (.send message), .go (.user 0) {}, .go (.user 0) {}]

def callingShutdown : List Action :=
  [.call (.user 0) .shutdown, .go (.user 0) {}, .go (.user 0) {}, .go (.user 0) {}]

/-- The whole message goes out before the loop comes to `shutdownInLoop`. -/
def shutdownBehind : List Action := connecting ++ sending (block 3 1) ++ iterate .io ++
  [.loop .io, .go (.loop .io) { write := .accepted 3 }, .go (.loop .io) {}] ++ callingShutdown ++
  iterate .io ++ [.loop .io, .go (.loop .io) {}, .leave .io, .loop .io]

/-- `handleWrite` drains the rest of the first message while the second one and `shutdownInLoop`
are still in the queue. -/
def shutdownAhead : List Action := connecting ++ sending (block 3 1) ++ iterate .io ++
  [.loop .io, .go (.loop .io) { write := .accepted 1 }, .loop .io] ++ sending (block 2 2) ++
  callingShutdown ++ [.poll .io (some POLLOUT), .loop .io, .go (.loop .io) {},
    .go (.loop .io) { write := .accepted 2 }, .go (.loop .io) {}]

/-- The next step of the loop's thread is the first to shut the socket's write side down. -/
def shutsDown (s : Server) : Bool :=
  s.closes == 0 && s.destroys == 0 && !s.conn.faulted && s.conn.shutdownWrites == 0 &&
    (s.step (.go (.loop .io) {})).any fun s' => s'.conn.shutdownWrites == 1

theorem of_shutsDown {s : Server} (h : s.shutsDown = true) :
    (s.closes = 0 ∧ s.destroys = 0 ∧ s.conn.faulted = false) ∧ s.conn.shutdownWrites = 0 ∧
      ∃ s', s.step (.go (.loop .io) {}) = some s' ∧ 0 < s'.conn.shutdownWrites := by
  simp only [shutsDown, Bool.and_eq_true, beq_iff_eq, Bool.not_eq_true', Option.any_eq_true] at h
  obtain ⟨⟨⟨⟨hcloses, hdestroys⟩, hfault⟩, hfirst⟩, s', hstep, hshut⟩ := h
  exact ⟨⟨hcloses, hdestroys, hfault⟩, hfirst, s', hstep, by omega⟩

theorem shutdown_drains_example : ∃ s, Run Server.step (Server.init ioConfig) shutdownBehind s ∧
    s.shutsDown = true ∧ s.conn.written = bytes s.accepted := by
  have hrun : (exec Server.step (Server.init ioConfig) shutdownBehind).any (fun s =>
      s.shutsDown && (s.stack (.loop s.loop_)).head? == some (.exec .shutdownInLoop)) = true := by
    decide +kernel
  obtain ⟨s, hs, hp⟩ := Run.of_exec_any hrun
  simp only [Bool.and_eq_true, beq_iff_eq] at hp
  obtain ⟨hopen, hfirst, s', hstep, hshut⟩ := of_shutsDown hp.1
  have hnot : ¬ s.overtakes := fun ho => nomatch hp.2.symm.trans ho.1
  have hiff := shutdown_drains_iff (T := .user 0) hs nofun (by decide +kernel) hopen hstep hfirst
    hshut
  exact ⟨s, hs, hp.1, hiff.2 hnot⟩

/-- The socket is shut down before the second message has been written. -/
theorem shutdown_overtakes : ¬ ∀ config T as s a s', Run Server.step (Server.init config) as s →
    T ≠ .loop config.loop_ → AllSteps Server.step (SendsFrom T) (Server.init config) as →
    s.closes = 0 ∧ s.destroys = 0 ∧ s.conn.faulted = false → s.step a = some s' →
    s.conn.shutdownWrites = 0 → 0 < s'.conn.shutdownWrites →
    s.conn.written = bytes s.accepted := by
  intro h
  have hrun : (exec Server.step (Server.init ioConfig) shutdownAhead).any (fun s =>
      s.shutsDown && s.conn.written == [1, 1, 1] && bytes s.accepted == [1, 1, 1, 2, 2]) =
        true := by
    decide +kernel
  obtain ⟨s, hs, hp⟩ := Run.of_exec_any hrun
  simp only [Bool.and_eq_true, beq_iff_eq] at hp
  obtain ⟨hopen, hfirst, s', hstep, hshut⟩ := of_shutsDown hp.1.1
  have hall := h ioConfig (.user 0) _ s _ s' hs nofun (by decide +kernel) hopen hstep hfirst hshut
  rw [hp.1.2, hp.2] at hall
  cases hall

end MuduoStudy.Server
