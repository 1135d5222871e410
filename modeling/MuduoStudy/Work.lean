import MuduoStudy.Custody

namespace MuduoStudy.Server
open Transition
set_option autoImplicit true

/-- The steps that the call of a functor takes on a loop's thread, and those that what it queues
will take. A callback of the user counts as one step. -/
def Functor.work : Functor → Nat
  | .shutdownInLoop | .startReadInLoop | .stopReadInLoop => 1
  | .notice _ | .other => 2
  | .connectEstablished => 3
  | .connectDestroyed => 5
  | .sendInLoop _ => 9
  | .removeConnectionInLoop => 11
  | .forceCloseInLoop => 21

/-- The same for a frame. What is queued takes a step of `doPendingFunctors` itself and at most
four of `EventLoop::loop` to get there. -/
def Frame.work : Frame → Nat
  | .user | .remove | .ifDisconnecting => 1
  | .connectionCallback _ => 2
  | .setDisconnected => 3
  | .queueNotice _ => 8
  | .handleWrite => 10
  | .closeCallback => 17
  | .handleClose => 20
  | .handleRead => 21
  | .handleEvent _ => 52
  | .exec f => f.work
  | .runInloop f => f.work + 6
  | .send _ => 16
  | .setDisconnecting => 8
  | .shutdown => 9
  | .queueForceClose => 27
  | .forceClose => 28

def Phase.work : Phase → Nat
  | .poll => 0
  | .activeChannels none => 3
  | .activeChannels (some _) => 56
  | .swap => 2
  | .functors => 1

def stackWork (frames : List Frame) : Nat := (frames.map Frame.work).sum

def batchWork (functors : List Functor) : Nat := (functors.map fun f => f.work + 1).sum

/-- What is pending takes another iteration of `EventLoop::loop` from here. -/
def Phase.again (pending : List Functor) : Phase → Nat
  | .poll | .functors => if pending = [] then 0 else 4
  | .activeChannels _ | .swap => 0

def loopWork (frames : List Frame) (p : Phase) (q : BatchQueue Functor) : Nat :=
  stackWork frames + (p.work + batchWork q.contents + p.again q.pending)

def work (s : Server) : Nat :=
  loopWork (s.stack (.loop .base)) (s.phase .base) (s.queue .base) +
    loopWork (s.stack (.loop .io)) (s.phase .io) (s.queue .io)

@[simp] theorem stackWork_append (fs gs : List Frame) :
    stackWork (fs ++ gs) = stackWork fs + stackWork gs := by
  simp [stackWork]

@[simp] theorem stackWork_cons (f : Frame) (fs : List Frame) :
    stackWork (f :: fs) = f.work + stackWork fs := by
  simp [stackWork]

@[simp] theorem stackWork_nil : stackWork [] = 0 := rfl

theorem batchWork_append (fs gs : List Functor) :
    batchWork (fs ++ gs) = batchWork fs + batchWork gs := by
  simp [batchWork]

theorem batchWork_cons (f : Functor) (fs : List Functor) :
    batchWork (f :: fs) = f.work + 1 + batchWork fs := by
  simp [batchWork]

theorem loopWork_push (frames : List Frame) (p : Phase) (q : BatchQueue Functor) (f : Functor) :
    loopWork frames p (q.push f) ≤ loopWork frames p q + f.work + 5 := by
  have hcontents : batchWork (q.push f).contents = batchWork q.contents + (f.work + 1) := by
    rw [BatchQueue.contents_push, batchWork_append]
    rfl
  have hagain : p.again (q.push f).pending ≤ p.again q.pending + 4 := by
    cases p with
    | poll | functors =>
      simp only [Phase.again]
      split <;> omega
    | activeChannels | swap => exact Nat.zero_le _
  rw [loopWork, loopWork, hcontents]
  omega

theorem work_update (s s' : Server) (l : Loop)
    (h : ∀ l', l' ≠ l → s'.stack (.loop l') = s.stack (.loop l') ∧ s'.phase l' = s.phase l' ∧
      s'.queue l' = s.queue l') :
    s'.work + loopWork (s.stack (.loop l)) (s.phase l) (s.queue l) =
      s.work + loopWork (s'.stack (.loop l)) (s'.phase l) (s'.queue l) := by
  cases l with
  | base =>
    obtain ⟨hs, hp, hq⟩ := h .io (by intro h; cases h)
    rw [work, work, hs, hp, hq]
    omega
  | io =>
    obtain ⟨hs, hp, hq⟩ := h .base (by intro h; cases h)
    rw [work, work, hs, hp, hq]
    omega

theorem work_goto (s : Server) (l : Loop) (frames : List Frame) :
    (s.goto (.loop l) frames).work + stackWork (s.stack (.loop l)) =
      s.work + stackWork frames := by
  have hother (l' : Loop) (hl : l' ≠ l) : (s.goto (.loop l) frames).stack (.loop l') =
      s.stack (.loop l') ∧ (s.goto (.loop l) frames).phase l' = s.phase l' ∧
        (s.goto (.loop l) frames).queue l' = s.queue l' := by
    have hne : Thread.loop l' ≠ .loop l := fun h => hl (Thread.loop.inj h)
    exact ⟨Function.update_of_ne hne _ _, rfl, rfl⟩
  have hsum := work_update s (s.goto (.loop l) frames) l hother
  have hself : (s.goto (.loop l) frames).stack (.loop l) = frames := Function.update_self ..
  have hphase : (s.goto (.loop l) frames).phase l = s.phase l := rfl
  have hqueue : (s.goto (.loop l) frames).queue l = s.queue l := rfl
  rw [hself, hphase, hqueue, loopWork, loopWork] at hsum
  omega

theorem work_push (s : Server) (l : Loop) (f : Frame) :
    (s.goto (.loop l) (f :: s.stack (.loop l))).work = s.work + f.work := by
  have hgoto := s.work_goto l (f :: s.stack (.loop l))
  rw [stackWork_cons] at hgoto
  omega

theorem work_goto_user (s : Server) (n : Nat) (frames : List Frame) :
    (s.goto (.user n) frames).work = s.work := by
  have hne (l : Loop) : Thread.loop l ≠ .user n := by
    intro h
    cases h
  have hstack (l : Loop) : (s.goto (.user n) frames).stack (.loop l) = s.stack (.loop l) :=
    Function.update_of_ne (hne l) frames s.stack
  rw [work, work, hstack, hstack]
  rfl

theorem work_post (s : Server) (l : Loop) (f : Functor) :
    (s.post l f).work ≤ s.work + f.work + 5 := by
  have hother (l' : Loop) (hl : l' ≠ l) : (s.post l f).stack (.loop l') = s.stack (.loop l') ∧
      (s.post l f).phase l' = s.phase l' ∧ (s.post l f).queue l' = s.queue l' :=
    ⟨rfl, rfl, Function.update_of_ne hl _ _⟩
  have hsum := work_update s (s.post l f) l hother
  have hself : (s.post l f).queue l = (s.queue l).push f := Function.update_self ..
  have hpush := loopWork_push (s.stack (.loop l)) (s.phase l) (s.queue l) f
  rw [hself] at hsum
  have hstack : (s.post l f).stack (.loop l) = s.stack (.loop l) := rfl
  have hphase : (s.post l f).phase l = s.phase l := rfl
  rw [hstack, hphase] at hsum
  omega

/-- A statement of a function pays for the frames that take its place or for the functor that it
queues. -/
inductive Pays (s : Server) (t : Thread) (rest : List Frame) (n : Nat) : Server → Prop where
  | goto {s' : Server} (fs : List Frame) :
      s'.stack = Function.update s.stack t (fs ++ rest) → s'.phase = s.phase →
      s'.queue = s.queue → stackWork fs < n → Pays s t rest n s'
  | post {s' : Server} : s'.stack = Function.update s.stack t rest → s'.phase = s.phase →
      s'.queue = Function.update s.queue l ((s.queue l).push f) → f.work + 5 < n →
      Pays s t rest n s'

theorem stackWork_dispatch (revents : Events) : stackWork (dispatch revents) ≤ 51 := by
  rw [dispatch]
  split <;> split <;> split <;> decide

theorem stackWork_drained (c : TcpConnection) : stackWork (drainedFrames c) ≤ 9 := by
  rw [drainedFrames]
  split <;> decide

theorem length_bufferRest {c c' : TcpConnection} {notices : List Notice}
    (h : c.bufferRest rest = some (c', notices)) : notices.length ≤ 1 := by
  rw [TcpConnection.bufferRest] at h
  split at h
  · obtain ⟨b, _, he⟩ := Option.map_eq_some_iff.1 h
    cases he
    split
    · exact Nat.le_refl _
    · exact Nat.zero_le _
  · cases h
    exact Nat.zero_le _

theorem length_notices {c c' : TcpConnection} {notices : List Notice}
    (h : c.sendInLoop message w = some (c', notices)) : notices.length ≤ 1 := by
  unfold TcpConnection.sendInLoop at h
  split at h
  · cases h
    exact Nat.zero_le _
  · split at h
    · cases w with
      | accepted n =>
        simp only [Option.ite_none_right_eq_some] at h
        obtain ⟨_, h⟩ := h
        split at h
        · cases h
          split
          · exact Nat.le_refl _
          · exact Nat.zero_le _
        · exact length_bufferRest h
      | error e =>
        simp only at h
        split at h
        · cases h
          exact Nat.zero_le _
        · exact length_bufferRest h
    · exact length_bufferRest h

theorem stackWork_notices (notices : List Notice) :
    stackWork (notices.map .queueNotice) = 8 * notices.length := by
  induction notices with
  | nil => rfl
  | cons n ns ih =>
    rw [List.map_cons, stackWork_cons, ih, List.length_cons]
    exact (Nat.add_comm _ _)

section
variable {s s' : Server} {t : Thread} {f : Frame} {rest : List Frame} {k : Answer}

theorem Called.pays (h : Called s t rest k g s') : Pays s t rest g.work s' := by
  cases h with
  | connectEstablished =>
    exact .goto [.connectionCallback .connectEstablished] rfl rfl rfl (by decide)
  | @sendInLoop c notices m _ hc =>
    have hlength := length_notices hc
    refine .goto (notices.map .queueNotice) rfl rfl rfl ?_
    rw [stackWork_notices]
    exact Nat.lt_succ_of_le (Nat.mul_le_mul_left 8 hlength)
  | sendLate => exact .goto [] rfl rfl rfl (Nat.succ_pos _)
  | shutdownInLoop => exact .goto [] rfl rfl rfl (by decide)
  | forceCloseInLoop => exact .goto [.handleClose] rfl rfl rfl (by decide)
  | forceCloseLate => exact .goto [] rfl rfl rfl (by decide)
  | startReadInLoop => exact .goto [] rfl rfl rfl (by decide)
  | stopReadInLoop => exact .goto [] rfl rfl rfl (by decide)
  | destroyConnected => exact .goto [.setDisconnected, .remove] rfl rfl rfl (by decide)
  | destroyLate => exact .goto [.remove] rfl rfl rfl (by decide)
  | removeConnectionInLoop => exact .post rfl rfl rfl (by decide)
  | notice => exact .goto [.user] rfl rfl rfl (Nat.lt_succ_self _)
  | other => exact .goto [.user] rfl rfl rfl (Nat.lt_succ_self _)

theorem Goes.pays (h : Goes s t rest k f s') : Pays s t rest f.work s' := by
  cases h with
  | @handleEvent revents =>
    exact .goto (dispatch revents) rfl rfl rfl (Nat.lt_succ_of_le (stackWork_dispatch revents))
  | readData => exact .goto [.user] rfl rfl rfl (by decide)
  | readEof => exact .goto [.handleClose] rfl rfl rfl (by decide)
  | readError => exact .goto [] rfl rfl rfl (by decide)
  | handleWrite => exact .goto [] rfl rfl rfl (by decide)
  | @drained c =>
    exact .goto (drainedFrames c) rfl rfl rfl (Nat.lt_succ_of_le (stackWork_drained c))
  | ifDisconnecting => exact .goto [] rfl rfl rfl (by decide)
  | ifNotDisconnecting => exact .goto [] rfl rfl rfl (by decide)
  | handleClose =>
    exact .goto [.connectionCallback .handleClose, .closeCallback] rfl rfl rfl (by decide)
  | connectionCallback => exact .goto [.user] rfl rfl rfl (Nat.lt_succ_self _)
  | closeInLoop => exact .goto [.exec .removeConnectionInLoop] rfl rfl rfl (by decide)
  | closeQueued => exact .post rfl rfl rfl (by decide)
  | setDisconnected =>
    exact .goto [.connectionCallback .connectDestroyed] rfl rfl rfl (by decide)
  | remove => exact .goto [] rfl rfl rfl (by decide)
  | @send m =>
    exact .goto [.runInloop (.sendInLoop m)] rfl rfl rfl (Nat.lt_succ_self _)
  | sendDropped => exact .goto [] rfl rfl rfl (Nat.succ_pos _)
  | shutdown => exact .goto [.setDisconnecting] rfl rfl rfl (by decide)
  | shutdownDropped => exact .goto [] rfl rfl rfl (by decide)
  | setDisconnecting => exact .goto [.runInloop .shutdownInLoop] rfl rfl rfl (by decide)
  | forceClose => exact .goto [.queueForceClose] rfl rfl rfl (by decide)
  | forceCloseDropped => exact .goto [] rfl rfl rfl (by decide)
  | @runInLoop f =>
    refine .goto [.exec f] rfl rfl rfl ?_
    exact Nat.lt_add_of_pos_right (by decide : 0 < 6)
  | @runQueued f => exact .post rfl rfl rfl (Nat.lt_succ_self _)
  | queueForceClose => exact .post rfl rfl rfl (by decide)
  | @queueNotice n => exact .post rfl rfl rfl (Nat.lt_succ_self _)
  | exec hc => exact hc.pays

theorem Pays.work_loop {l : Loop} (hs : s.stack (.loop l) = f :: rest)
    (h : Pays s (.loop l) rest f.work s') : s'.work + 1 ≤ s.work := by
  have hstack : stackWork (s.stack (.loop l)) = f.work + stackWork rest := by
    rw [hs, stackWork_cons]
  cases h with
  | goto fs hstack' hphase hqueue hless =>
    have hwork : s'.work = (s.goto (.loop l) (fs ++ rest)).work := by
      rw [work, work, hstack', hphase, hqueue]
      rfl
    have hgoto := s.work_goto l (fs ++ rest)
    rw [hstack, stackWork_append] at hgoto
    omega
  | @post l' g _ hstack' hphase hqueue hless =>
    have hwork : s'.work = ((s.goto (.loop l) rest).post l' g).work := by
      rw [work, work, hstack', hphase, hqueue]
      rfl
    have hgoto := s.work_goto l rest
    have hpost := (s.goto (.loop l) rest).work_post l' g
    rw [hstack] at hgoto
    omega

theorem Pays.work_user (h : Pays s (.user n) rest m s') : s'.work ≤ s.work + m := by
  cases h with
  | goto fs hstack' hphase hqueue _ =>
    have hwork : s'.work = (s.goto (.user n) (fs ++ rest)).work := by
      rw [work, work, hstack', hphase, hqueue]
      rfl
    rw [hwork, work_goto_user]
    exact Nat.le_add_right _ _
  | @post l' g _ hstack' hphase hqueue hless =>
    have hwork : s'.work = ((s.goto (.user n) rest).post l' g).work := by
      rw [work, work, hstack', hphase, hqueue]
      rfl
    have hpost := (s.goto (.user n) rest).work_post l' g
    rw [work_goto_user] at hpost
    omega

end

/-- The steps that the two loops take by themselves: those of the functions they have entered, with
callbacks that return at once, and of `EventLoop::loop`, where `poll` returns because a functor is
pending. -/
def Action.inner (s : Server) : Action → Bool
  | .go (.loop _) _ | .loop _ | .leave _ => true
  | .poll l none => decide ((s.queue l).pending ≠ [])
  | _ => false

theorem Frame.work_api {f : Frame} (h : f.isApi = true) : f.work ≤ 28 := by
  cases f with
  | runInloop g => cases g <;> first | decide | exact (by decide : 15 ≤ 28) | cases h
  | send m => exact (by decide : 16 ≤ 28)
  | _ => first | decide | cases h

section
variable {s s' : Server} {l : Loop}

theorem work_turn (s : Server) (l : Loop) (p : Phase) (q : BatchQueue Functor) :
    ((s.setQueue l q).setPhase l p).work + loopWork (s.stack (.loop l)) (s.phase l) (s.queue l) =
      s.work + loopWork (s.stack (.loop l)) p q := by
  have hother (l' : Loop) (hl : l' ≠ l) :
      ((s.setQueue l q).setPhase l p).stack (.loop l') = s.stack (.loop l') ∧
        ((s.setQueue l q).setPhase l p).phase l' = s.phase l' ∧
          ((s.setQueue l q).setPhase l p).queue l' = s.queue l' :=
    ⟨rfl, Function.update_of_ne hl _ _, Function.update_of_ne hl _ _⟩
  have hsum := work_update s ((s.setQueue l q).setPhase l p) l hother
  have hphase : ((s.setQueue l q).setPhase l p).phase l = p := Function.update_self ..
  have hqueue : ((s.setQueue l q).setPhase l p).queue l = q := Function.update_self ..
  rw [hphase, hqueue] at hsum
  exact hsum

theorem work_setPhase (s : Server) (l : Loop) (p : Phase) :
    (s.setPhase l p).work + ((s.phase l).work + (s.phase l).again (s.queue l).pending) =
      s.work + (p.work + p.again (s.queue l).pending) := by
  have hturn := work_turn s l p (s.queue l)
  have hsame : s.setQueue l (s.queue l) = s := by
    rw [setQueue, Function.update_eq_self]
  rw [hsame, loopWork, loopWork] at hturn
  omega

/-- What a step of one of the loops costs is paid, and another step adds no more than an event
does. -/
theorem work_step (hp : Placed s) (h : s.step a = some s') :
    s'.work + (if a.inner s then 1 else 0) ≤ s.work + (if a.inner s then 0 else 56) := by
  have hinner (hi : a.inner s = true) (hw : s'.work + 1 ≤ s.work) :
      s'.work + (if a.inner s then 1 else 0) ≤ s.work + (if a.inner s then 0 else 56) := by
    rw [if_pos hi, if_pos hi]
    exact hw
  have houter (hi : a.inner s = false) (hw : s'.work ≤ s.work + 56) :
      s'.work + (if a.inner s then 1 else 0) ≤ s.work + (if a.inner s then 0 else 56) := by
    rw [if_neg (hi ▸ Bool.false_ne_true), if_neg (hi ▸ Bool.false_ne_true)]
    exact hw
  cases Step.of_step h with
  | @go t f rest k _ hs hg =>
    cases t with
    | loop l => exact hinner rfl (hg.pays.work_loop hs)
    | user n =>
      have hapi : f.isApi = true := hp.frame hs
      have hpays := hg.pays.work_user
      have hwork := Frame.work_api hapi
      exact houter rfl (by omega)
  | @activeChannel l revents hs hphase =>
    apply hinner rfl
    have hturn := s.work_setPhase l (.activeChannels none)
    have hgoto := (s.setPhase l (.activeChannels none)).work_goto l [.handleEvent revents]
    have hstack : (s.setPhase l (.activeChannels none)).stack (.loop l) = [] := hs
    rw [hphase] at hturn
    rw [hstack] at hgoto
    simp only [Phase.work, Phase.again] at hturn
    simp only [stackWork_cons, stackWork_nil, Frame.work] at hgoto
    omega
  | @handled l hs hphase =>
    apply hinner rfl
    have hturn := s.work_setPhase l .swap
    rw [hphase] at hturn
    simp only [Phase.work, Phase.again] at hturn
    omega
  | @swap l hs hphase =>
    apply hinner rfl
    have hb := hp.batch l (by rw [hphase]; intro h; cases h)
    have hturn := s.work_turn l .functors (s.queue l).swap
    have hpending : (s.queue l).swap.pending = [] := hb
    rw [loopWork, loopWork, BatchQueue.contents_swap hb, hphase, hpending] at hturn
    simp only [Phase.work, Phase.again, ↓reduceIte] at hturn
    omega
  | @endFunctors l hs hphase hq =>
    apply hinner rfl
    have hturn := s.work_setPhase l .poll
    rw [hphase] at hturn
    simp only [Phase.work, Phase.again] at hturn
    omega
  | @callFunctor l f q hs hphase hq =>
    apply hinner rfl
    have hturn := s.work_turn l (s.phase l) q
    have hsame : (s.setQueue l q).setPhase l (s.phase l) = s.setQueue l q := by
      rw [setPhase]
      exact congrArg (fun p => { s.setQueue l q with phase := p }) (Function.update_eq_self _ _)
    have hgoto := (s.setQueue l q).work_goto l [.exec f]
    have hstack : (s.setQueue l q).stack (.loop l) = [] := hs
    rw [hsame, loopWork, loopWork, BatchQueue.contents_pop hq, BatchQueue.pending_pop hq,
      batchWork_cons] at hturn
    rw [hstack] at hgoto
    simp only [stackWork_cons, stackWork_nil, Frame.work] at hgoto
    omega
  | @poll l revents hs hphase hr =>
    have hturn := s.work_setPhase l (.activeChannels revents)
    rw [hphase] at hturn
    cases revents with
    | some revents =>
      apply houter rfl
      simp only [Phase.work, Phase.again] at hturn
      omega
    | none =>
      simp only [Phase.work, Phase.again] at hturn
      by_cases hpending : (s.queue l).pending = []
      · apply houter (decide_eq_false (not_not.2 hpending))
        rw [if_pos hpending] at hturn
        omega
      · apply hinner (decide_eq_true hpending)
        rw [if_neg hpending] at hturn
        omega
  | @enter l hs =>
    apply houter rfl
    have hgoto := s.work_goto l [.user]
    rw [hs] at hgoto
    simp only [stackWork_cons, stackWork_nil, Frame.work] at hgoto
    omega
  | @leave l rest hs =>
    apply hinner rfl
    have hgoto := s.work_goto l rest
    rw [hs] at hgoto
    simp only [stackWork_cons, Frame.work] at hgoto
    omega
  | @call t a hu =>
    apply houter rfl
    have hwork := Frame.work_api (a.frame_isApi s t)
    have hsame : (({ s with called := a.record s t } : Server).goto t
        (a.frame s t :: s.stack t)).work = (s.goto t (a.frame s t :: s.stack t)).work := rfl
    cases t with
    | loop l =>
      rw [hsame, work_push]
      omega
    | user n =>
      rw [hsame, work_goto_user]
      omega
  | @post t l hu =>
    apply houter rfl
    have hpost := s.work_post l .other
    simp only [Functor.work] at hpost
    omega
  | newConnection hs =>
    apply houter rfl
    have hpush := s.work_push .base (.runInloop .connectEstablished)
    have hsame : (({ s with created := true, registered := true } : Server).goto (.loop .base)
        [.runInloop .connectEstablished]).work =
          (s.goto (.loop .base) [.runInloop .connectEstablished]).work := rfl
    rw [hs] at hpush
    rw [hsame, hpush]
    exact Nat.add_le_add_left (by decide) _
  | destroy =>
    apply houter rfl
    refine destroy_cases s ?_ ?_ ?_
    · intro _ _
      have hpush := s.work_push .base (.exec .connectDestroyed)
      have hsame : (({ s with alive := false, registered := false } : Server).goto (.loop .base)
          (.exec .connectDestroyed :: s.stack (.loop .base))).work =
            (s.goto (.loop .base) (.exec .connectDestroyed :: s.stack (.loop .base))).work := rfl
      rw [hsame, hpush]
      exact Nat.add_le_add_left (by decide) _
    · intro _ _
      have hpost := s.work_post s.loop_ .connectDestroyed
      exact hpost.trans (Nat.add_le_add_left (by decide : 5 + 5 ≤ 56) s.work)
    · intro _
      exact Nat.le_add_right _ _

end

end MuduoStudy.Server
