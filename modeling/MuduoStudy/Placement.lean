import MuduoStudy.ServerStep

namespace MuduoStudy.Server
open Transition
set_option autoImplicit true

/-- The functors that the user's calls make. -/
def Functor.isApi : Functor → Bool
  | .sendInLoop _ | .shutdownInLoop | .forceCloseInLoop | .startReadInLoop | .stopReadInLoop => true
  | .connectEstablished | .connectDestroyed | .removeConnectionInLoop | .notice _ | .other => false

/-- The functors that only the connection's own loop runs. -/
def Functor.isLocal : Functor → Bool
  | .removeConnectionInLoop | .other => false
  | _ => true

def Frame.isApi : Frame → Bool
  | .send _ | .shutdown | .setDisconnecting | .forceClose | .queueForceClose => true
  | .runInloop f => f.isApi
  | _ => false

def Frame.isLocal : Frame → Bool
  | .handleEvent _ | .handleRead | .handleWrite | .ifDisconnecting | .handleClose
  | .connectionCallback _ | .closeCallback | .setDisconnected | .remove | .queueNotice _ => true
  | .exec f => f.isLocal
  | _ => false

/-- The thread may enter the frame, `l` being the connection's loop. -/
def Frame.fits (l : Loop) : Thread → Frame → Bool
  | .user _, f => f.isApi
  | .loop l', f => !f.isLocal || decide (l' = l)

theorem Frame.fits_home (l : Loop) (f : Frame) : f.fits l (.loop l) = true := by
  simp [Frame.fits]

theorem Frame.fits_of_api {f : Frame} (l : Loop) (t : Thread) (h : f.isApi = true) :
    f.fits l t = true := by
  cases t with
  | user n => exact h
  | loop l' =>
    have hlocal : f.isLocal = false := by
      cases f <;> first | rfl | cases h
    simp [Frame.fits, hlocal]

theorem Frame.home {f : Frame} (h : f.fits l t = true) (hf : f.isLocal = true) : t = .loop l := by
  cases t with
  | loop l' =>
    simp only [Frame.fits, hf, Bool.not_true, Bool.false_or, decide_eq_true_eq] at h
    exact congrArg _ h
  | user n =>
    have hapi : f.isApi = false := by
      cases f <;> first | rfl | cases hf
    exact (Bool.false_ne_true (hapi.symm.trans h)).elim

/-- The frames that can wait below others. All other frames are on top. -/
def Frame.isBelow : Frame → Bool
  | .user | .handleRead | .handleWrite | .ifDisconnecting | .closeCallback | .remove
  | .queueNotice _ => true
  | _ => false

theorem update_keeps {α β γ : Type} [DecidableEq α] {m : α → β} (g : β → γ) {i : α} {b : β}
    (h : g b = g (m i)) (j : α) : g (Function.update m i b j) = g (m j) := by
  by_cases hj : j = i
  · subst j
    rw [Function.update_self, h]
  · rw [Function.update_of_ne hj]

theorem frames_goto {τ φ : Type} [DecidableEq τ] {P : τ → φ → Prop} {stack : τ → List φ} {t : τ}
    {rest : List φ} (h : ∀ t, ∀ f ∈ stack t, P t f) (fs : List φ) (hfs : ∀ f ∈ fs, P t f)
    (hrest : ∀ f ∈ rest, f ∈ stack t) (u : τ) :
    ∀ f ∈ Function.update stack t (fs ++ rest) u, P u f := by
  intro f hf
  by_cases hu : u = t
  · subst u
    rw [Function.update_self, List.mem_append] at hf
    exact hf.elim (hfs f) fun hf => h t f (hrest f hf)
  · rw [Function.update_of_ne hu] at hf
    exact h u f hf

/-- What holds of every frame on a stack and of every functor in a queue. -/
structure Carries (P : Thread → Frame → Prop) (Q : Loop → Functor → Prop)
    (stack : Thread → List Frame) (queue : Loop → BatchQueue Functor) : Prop where
  frames : ∀ t, ∀ f ∈ stack t, P t f
  queued : ∀ l, ∀ f ∈ (queue l).contents, Q l f

section
variable {P : Thread → Frame → Prop} {Q : Loop → Functor → Prop} {loop_ : Loop}
  {stack : Thread → List Frame} {queue : Loop → BatchQueue Functor} {phase : Loop → Phase}
  {t : Thread} {l : Loop} {f : Functor} {q : BatchQueue Functor} {rest : List Frame}

theorem Carries.goto (h : Carries P Q stack queue) (fs : List Frame) (hfs : ∀ f ∈ fs, P t f)
    (hrest : ∀ f ∈ rest, f ∈ stack t) :
    Carries P Q (Function.update stack t (fs ++ rest)) queue :=
  ⟨frames_goto h.frames fs hfs hrest, h.queued⟩

theorem Carries.setQueue (h : Carries P Q stack queue) (hq : ∀ f ∈ q.contents, Q l f) :
    Carries P Q stack (Function.update queue l q) := by
  have hqueued (l' : Loop) (f : Functor) (hf : f ∈ (Function.update queue l q l').contents) :
      Q l' f := by
    by_cases hl : l' = l
    · subst l'
      rw [Function.update_self] at hf
      exact hq f hf
    · rw [Function.update_of_ne hl] at hf
      exact h.queued l' f hf
  exact ⟨h.frames, hqueued⟩

theorem Carries.post (h : Carries P Q stack queue) (hf : Q l f) :
    Carries P Q stack (Function.update queue l ((queue l).push f)) := by
  apply h.setQueue
  intro g hg
  rw [BatchQueue.contents_push, List.mem_append, List.mem_singleton] at hg
  rcases hg with hg | rfl
  · exact h.queued l g hg
  · exact hf

theorem Carries.swap (h : Carries P Q stack queue) (hb : (queue l).batch = []) :
    Carries P Q stack (Function.update queue l (queue l).swap) := by
  apply h.setQueue
  rw [BatchQueue.contents_swap hb]
  exact h.queued l

theorem Carries.dequeue (h : Carries P Q stack queue) (hq : (queue l).pop = some (f, q)) :
    Q l f ∧ Carries P Q stack (Function.update queue l q) := by
  have hqueued := h.queued l
  rw [BatchQueue.contents_pop hq] at hqueued
  have hrest (g : Functor) (hg : g ∈ q.contents) : Q l g :=
    hqueued g (List.mem_cons_of_mem _ hg)
  exact ⟨hqueued f List.mem_cons_self, h.setQueue hrest⟩

/-- Every frame is on a stack that it fits, every functor in a queue it belongs to, and a loop
outside `doPendingFunctors` has no batch. -/
structure Placement (loop_ : Loop) (stack : Thread → List Frame)
    (queue : Loop → BatchQueue Functor) (phase : Loop → Phase) : Prop where
  carries : Carries (fun t f => f.fits loop_ t = true) (fun l f => f.isLocal = true → l = loop_)
    stack queue
  below : ∀ t, ∀ f ∈ (stack t).tail, f.isBelow = true
  event : ∀ l revents, phase l = .activeChannels (some revents) → l = loop_
  batch : ∀ l, phase l ≠ .functors → (queue l).batch = []

theorem Placement.goto (h : Placement loop_ stack queue phase) (fs : List Frame)
    (hfs : ∀ f ∈ fs, f.fits loop_ t = true) (htail : ∀ f ∈ fs.tail, f.isBelow = true)
    (hrest : ∀ f ∈ rest, f ∈ stack t) (hbelow : ∀ f ∈ rest, f.isBelow = true) :
    Placement loop_ (Function.update stack t (fs ++ rest)) queue phase := by
  have htails (u : Thread) (f : Frame) (hf : f ∈ (Function.update stack t (fs ++ rest) u).tail) :
      f.isBelow = true := by
    by_cases hu : u = t
    · subst u
      rw [Function.update_self] at hf
      cases fs with
      | nil => exact hbelow f (List.mem_of_mem_tail hf)
      | cons g gs =>
        rw [List.cons_append, List.tail_cons, List.mem_append] at hf
        exact hf.elim (htail f) (hbelow f)
    · rw [Function.update_of_ne hu] at hf
      exact h.below u f hf
  exact ⟨h.carries.goto fs hfs hrest, htails, h.event, h.batch⟩

theorem Placement.post (h : Placement loop_ stack queue phase) (hf : f.isLocal = true → l = loop_) :
    Placement loop_ stack (Function.update queue l ((queue l).push f)) phase := by
  have hbatch (l' : Loop) (hp : phase l' ≠ .functors) :
      (Function.update queue l ((queue l).push f) l').batch = [] := by
    by_cases hl : l' = l
    · subst l'
      rw [Function.update_self]
      exact h.batch l hp
    · rw [Function.update_of_ne hl]
      exact h.batch l' hp
  exact ⟨h.carries.post hf, h.below, h.event, hbatch⟩

theorem Placement.turn (h : Placement loop_ stack queue phase) (p : Phase)
    (hq : Carries (fun t f => f.fits loop_ t = true) (fun l f => f.isLocal = true → l = loop_)
      stack (Function.update queue l q))
    (hp : ∀ revents, p = .activeChannels (some revents) → l = loop_)
    (hb : p ≠ .functors → q.batch = []) :
    Placement loop_ stack (Function.update queue l q) (Function.update phase l p) := by
  have hevent (l' : Loop) (revents : Events)
      (hr : Function.update phase l p l' = .activeChannels (some revents)) : l' = loop_ := by
    by_cases hl : l' = l
    · subst l'
      rw [Function.update_self] at hr
      exact hp revents hr
    · rw [Function.update_of_ne hl] at hr
      exact h.event l' revents hr
  have hbatch (l' : Loop) (hr : Function.update phase l p l' ≠ .functors) :
      (Function.update queue l q l').batch = [] := by
    by_cases hl : l' = l
    · subst l'
      rw [Function.update_self] at hr ⊢
      exact hb hr
    · rw [Function.update_of_ne hl] at hr ⊢
      exact h.batch l' hr
  exact ⟨hq, h.below, hevent, hbatch⟩

theorem Placement.setPhase (h : Placement loop_ stack queue phase) (p : Phase)
    (hl : phase l ≠ .functors ∨ (queue l).batch = [])
    (hp : ∀ revents, p = .activeChannels (some revents) → l = loop_) :
    Placement loop_ stack queue (Function.update phase l p) := by
  have hsame : Function.update queue l (queue l) = queue := Function.update_eq_self _ _
  have hturn := h.turn (l := l) (q := queue l) p (hsame.symm ▸ h.carries) hp
    fun _ => hl.elim (h.batch l) id
  rwa [hsame] at hturn

end

abbrev Placed (s : Server) : Prop := Placement s.loop_ s.stack s.queue s.phase

theorem Placed.frame {s : Server} (hp : Placed s) (hs : s.stack t = f :: rest) :
    f.fits s.loop_ t = true := hp.carries.frames t f (hs ▸ List.mem_cons_self)

theorem Placed.init (config : Config) : Placed (Server.init config) :=
  ⟨⟨fun _ _ => nofun, fun _ _ => nofun⟩, fun _ _ => nofun, fun _ _ => nofun, fun _ _ => rfl⟩

theorem Placed.belowTop {s : Server} (hp : Placed s) (hs : s.stack t = f :: rest) :
    (∀ g ∈ rest, g ∈ s.stack t) ∧ ∀ g ∈ rest, g.isBelow = true := by
  have hbelow := hp.below t
  rw [hs] at hbelow ⊢
  exact ⟨fun g hg => List.mem_cons_of_mem _ hg, hbelow⟩

theorem Placed.gotoHome {s : Server} (hp : Placed s) (hs : s.stack t = f :: rest)
    (hf : f.isLocal = true) (fs : List Frame) (htail : ∀ g ∈ fs.tail, g.isBelow = true) :
    Placement s.loop_ (Function.update s.stack t (fs ++ rest)) s.queue s.phase := by
  obtain ⟨hrest, hbelow⟩ := hp.belowTop hs
  cases Frame.home (hp.frame hs) hf
  exact hp.goto fs (fun g _ => g.fits_home s.loop_) htail hrest hbelow

theorem isBelow_notices (notices : List Notice) :
    ∀ g ∈ notices.map Frame.queueNotice, g.isBelow = true := by
  intro g hg
  obtain ⟨n, _, rfl⟩ := List.mem_map.1 hg
  rfl

theorem Placed.called {s s' : Server} (hp : Placed s) (hs : s.stack t = .exec f :: rest)
    (h : Called s t rest k f s') : Placed s' := by
  have hfits := hp.frame hs
  obtain ⟨hrest, hbelow⟩ := hp.belowTop hs
  have huser : Placement s.loop_ (Function.update s.stack t ([.user] ++ rest)) s.queue s.phase := by
    have hfit (g : Frame) (hg : g ∈ [Frame.user]) : g.fits s.loop_ t = true := by
      cases List.mem_singleton.1 hg
      cases t with
      | loop l => rfl
      | user n => cases hfits
    exact hp.goto [.user] hfit (fun _ => nofun) hrest hbelow
  cases h with
  | connectEstablished =>
    exact hp.gotoHome hs rfl [.connectionCallback .connectEstablished] fun _ => nofun
  | @sendInLoop c notices =>
    apply hp.gotoHome hs rfl
    rw [← List.map_tail]
    exact isBelow_notices _
  | sendLate | shutdownInLoop | forceCloseLate | startReadInLoop | stopReadInLoop =>
    exact hp.gotoHome hs rfl [] fun _ => nofun
  | forceCloseInLoop => exact hp.gotoHome hs rfl [.handleClose] fun _ => nofun
  | destroyConnected =>
    exact hp.gotoHome hs rfl [.setDisconnected, .remove] (List.forall_mem_singleton.2 rfl)
  | destroyLate => exact hp.gotoHome hs rfl [.remove] fun _ => nofun
  | removeConnectionInLoop =>
    exact (hp.post fun _ => rfl).goto [] (fun _ => nofun) (fun _ => nofun) hrest hbelow
  | notice | other => exact huser

theorem isBelow_dispatch (revents : Events) : ∀ g ∈ (dispatch revents).tail, g.isBelow = true := by
  obtain ⟨fs, hfs, heq⟩ := dispatch_cases revents
  have hbelow (g : Frame) (hg : g ∈ fs) : g.isBelow = true := by
    rcases hfs g hg with rfl | rfl
    · rfl
    · rfl
  intro g hg
  rw [heq] at hg
  split at hg
  · exact hbelow g hg
  · exact hbelow g (List.mem_of_mem_tail hg)

theorem isBelow_drained (c : TcpConnection) : ∀ g ∈ drainedFrames c, g.isBelow = true := by
  intro g hg
  rcases mem_drained hg with rfl | rfl
  · rfl
  · rfl

theorem Placed.goes {s s' : Server} (hp : Placed s) (hs : s.stack t = f :: rest)
    (h : Goes s t rest k f s') : Placed s' := by
  have hfits := hp.frame hs
  obtain ⟨hrest, hbelow⟩ := hp.belowTop hs
  have hapi (fs : List Frame) (hfs : ∀ g ∈ fs, g.isApi = true) (htail : fs.tail = []) :
      Placement s.loop_ (Function.update s.stack t (fs ++ rest)) s.queue s.phase :=
    hp.goto fs (fun g hg => Frame.fits_of_api s.loop_ t (hfs g hg)) (htail ▸ fun _ => nofun) hrest
      hbelow
  cases h with
  | handleEvent => exact hp.gotoHome hs rfl _ (isBelow_dispatch _)
  | readData => exact hp.gotoHome hs rfl [.user] fun _ => nofun
  | readEof => exact hp.gotoHome hs rfl [.handleClose] fun _ => nofun
  | readError | handleWrite | ifDisconnecting | ifNotDisconnecting | remove =>
    exact hp.gotoHome hs rfl [] fun _ => nofun
  | @drained c =>
    exact hp.gotoHome hs rfl _ fun g hg => isBelow_drained c g (List.mem_of_mem_tail hg)
  | handleClose =>
    exact hp.gotoHome hs rfl [.connectionCallback .handleClose, .closeCallback]
      (List.forall_mem_singleton.2 rfl)
  | connectionCallback => exact hp.gotoHome hs rfl [.user] fun _ => nofun
  | closeInLoop => exact hp.gotoHome hs rfl [.exec .removeConnectionInLoop] fun _ => nofun
  | closeQueued =>
    have hpost := hp.post (f := .removeConnectionInLoop) (l := .base) nofun
    exact hpost.goto [] (fun _ => nofun) (fun _ => nofun) hrest hbelow
  | setDisconnected =>
    exact hp.gotoHome hs rfl [.connectionCallback .connectDestroyed] fun _ => nofun
  | @send m => exact hapi [.runInloop (.sendInLoop m)] (List.forall_mem_singleton.2 rfl) rfl
  | shutdown => exact hapi [.setDisconnecting] (List.forall_mem_singleton.2 rfl) rfl
  | sendDropped | shutdownDropped | forceCloseDropped => exact hapi [] (fun _ => nofun) rfl
  | setDisconnecting =>
    exact hapi [.runInloop .shutdownInLoop] (List.forall_mem_singleton.2 rfl) rfl
  | forceClose => exact hapi [.queueForceClose] (List.forall_mem_singleton.2 rfl) rfl
  | runInLoop ht =>
    subst t
    exact hp.goto [.exec _] (fun g _ => g.fits_home s.loop_) (fun _ => nofun) hrest hbelow
  | runQueued | queueForceClose | queueNotice =>
    exact (hp.post fun _ => rfl).goto [] (fun _ => nofun) (fun _ => nofun) hrest hbelow
  | exec hc => exact hp.called hs hc

theorem Api.frame_isApi (s : Server) (t : Thread) (a : Api) : (a.frame s t).isApi = true := by
  cases a <;> rfl

theorem Placed.user_below {s : Server} (hp : Placed s) (h : s.inUserCode t = true) :
    ∀ f ∈ s.stack t, f.isBelow = true := by
  intro f hf
  cases t with
  | user n =>
    rw [of_decide_eq_true h] at hf
    cases hf
  | loop l =>
    have hhead : (s.stack (.loop l)).head? = some .user := of_decide_eq_true h
    have hbelow := hp.below (.loop l)
    cases hs : s.stack (.loop l) with
    | nil =>
      rw [hs] at hf
      cases hf
    | cons g rest =>
      rw [hs] at hf hhead hbelow
      cases hhead
      rcases List.mem_cons.1 hf with rfl | hf
      · rfl
      · exact hbelow f hf

theorem Placed.step {s s' : Server} (hp : Placed s) (h : s.step a = some s') : Placed s' := by
  cases Step.of_step h with
  | go hs hg => exact hp.goes hs hg
  | @activeChannel l revents hs hphase =>
    cases hp.event l revents hphase
    have hturn := hp.setPhase (.activeChannels none) (.inl (by rw [hphase]; nofun)) nofun
    exact hturn.goto [.handleEvent revents] (fun g _ => g.fits_home s.loop_) (fun _ => nofun)
      (fun _ => nofun) fun _ => nofun
  | handled _ hphase => exact hp.setPhase .swap (.inl (by rw [hphase]; nofun)) nofun
  | @swap l _ hphase =>
    have hb := hp.batch l (by rw [hphase]; nofun)
    exact hp.turn .functors (hp.carries.swap hb) nofun fun hn => (hn rfl).elim
  | endFunctors _ _ hq => exact hp.setPhase .poll (.inr (BatchQueue.batch_of_pop_none hq)) nofun
  | @callFunctor l f q _ hphase hq =>
    obtain ⟨hlocal, hcarries⟩ := hp.carries.dequeue hq
    have hturn := hp.turn (s.phase l) hcarries (hp.event l) fun hn => (hn hphase).elim
    rw [Function.update_eq_self] at hturn
    have hfits : (Frame.exec f).fits s.loop_ (.loop l) = true := by
      cases hf : f.isLocal with
      | false =>
        change (!f.isLocal || decide (l = s.loop_)) = true
        rw [hf]
        rfl
      | true =>
        rw [hlocal hf]
        exact Frame.fits_home _ _
    exact hturn.goto [.exec f] (List.forall_mem_singleton.2 hfits) (fun _ => nofun)
      (fun _ => nofun) fun _ => nofun
  | poll _ hphase hr =>
    apply hp.setPhase _ (.inl (by rw [hphase]; nofun))
    intro revents he
    cases he
    exact (hr rfl).1
  | enter =>
    exact hp.goto [.user] (List.forall_mem_singleton.2 rfl) (fun _ => nofun)
      (fun _ => nofun) fun _ => nofun
  | leave hs =>
    obtain ⟨hrest, hbelow⟩ := hp.belowTop hs
    exact hp.goto [] (fun _ => nofun) (fun _ => nofun) hrest hbelow
  | @call t a hu =>
    have hfits := Frame.fits_of_api s.loop_ t (a.frame_isApi s t)
    exact hp.goto [a.frame s t] (List.forall_mem_singleton.2 hfits) (fun _ => nofun)
      (fun _ hg => hg) (hp.user_below hu)
  | post => exact hp.post nofun
  | newConnection =>
    exact hp.goto [.runInloop .connectEstablished] (List.forall_mem_singleton.2 rfl)
      (fun _ => nofun) (fun _ => nofun) fun _ => nofun
  | destroy hu =>
    refine destroy_cases s ?_ ?_ ?_
    · intro _ hl
      have hfits : (Frame.exec .connectDestroyed).fits s.loop_ (.loop .base) = true := by
        rw [hl]
        exact Frame.fits_home _ _
      exact hp.goto [.exec .connectDestroyed] (List.forall_mem_singleton.2 hfits)
        (fun _ => nofun) (fun _ hg => hg) (hp.user_below hu)
    · intro _ _
      exact hp.post fun _ => rfl
    · intro _
      exact hp

end MuduoStudy.Server
