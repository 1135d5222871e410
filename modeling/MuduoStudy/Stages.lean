import MuduoStudy.Beginning
import MuduoStudy.Closing

namespace MuduoStudy
open Transition Server
set_option autoImplicit true

namespace Course

def Unborn (c : Course) : Prop :=
  c.established = 0 → c.state = .kDisconnected ∧ c.callbacks = [] ∧ c.destroys = 0

/-- How `state_` can move on, with the number of calls of `connectEstablished`: from
`kDisconnected` to `kConnected`, then perhaps to `kDisconnecting`, then back to `kDisconnected`. -/
inductive Advance : Nat × StateE → Nat × StateE → Prop where
  | stay : Advance x x
  | connect : Advance (0, .kDisconnected) (1, .kConnected)
  | shutdown : Advance (1, .kConnected) (1, .kDisconnecting)
  | disconnect : Advance (1, .kConnected) (1, .kDisconnected)
  | disconnectLate : Advance (1, .kDisconnecting) (1, .kDisconnected)

/-- A `connectDestroyed` has left `kDisconnected` behind, or is about to set it. -/
structure Settled (c : Course) (m : Mark) : Prop where
  known : c.state ≠ .kConnecting
  marked : m = .setDisconnected → 0 < c.destroys
  destroys : 0 < c.destroys → c.state = .kDisconnected ∨ m = .setDisconnected
  destroyed : 0 < c.destroyed → c.state = .kDisconnected

/-- An event does not turn `kDisconnected` into `kDisconnecting`, and `connectDestroyed` is not
called in `kDisconnecting`. -/
structure Orders (c : Course) (e : Event) (c' : Course) : Prop where
  other : e = .other → c.state = .kDisconnected → c'.state = .kDisconnected
  connectDestroyed : e = .connectDestroyed → c.state ≠ .kDisconnecting

theorem Settled.of_ne {c : Course} (h : Settled c m) (hm : m ≠ .setDisconnected)
    (hpos : 0 < c.destroys) : c.state = .kDisconnected := by
  rcases h.destroys hpos with hc | hmark
  · exact hc
  · exact (hm hmark).elim

theorem Settled.move {c c' : Course} (hs : Settled c m) (hz : c.Unborn)
    (hd : c.destroyed ≤ c.destroys) (hm : Move c m e c' m') (ho : Orders c e c') :
    Settled c' m' := by
  cases hm with
  | @other st hst =>
    have hkept (hc : c.state = .kDisconnected) : st = .kDisconnected := ho.other rfl hc
    refine ⟨?_, hs.marked, ?_, fun hpos => hkept (hs.destroyed hpos)⟩
    · rcases hst with rfl | ⟨rfl, _⟩
      · exact hs.known
      · nofun
    · intro hpos
      exact (hs.destroys hpos).imp_left hkept
  | enterClose hmark | handleClose hmark | connectionCallback hmark =>
    subst m
    exact ⟨hs.known, nofun, fun hpos => .inl (hs.of_ne nofun hpos), hs.destroyed⟩
  | connectEstablished _ hzero =>
    obtain ⟨_, _, hnone⟩ := hz hzero
    refine ⟨nofun, nofun, ?_, ?_⟩
    · intro hpos
      exact (Nat.ne_of_gt hpos hnone).elim
    · intro hpos
      exact (Nat.ne_of_gt (Nat.lt_of_lt_of_le hpos hd) hnone).elim
  | destroyConnected =>
    exact ⟨hs.known, fun _ => Nat.succ_pos _, fun _ => .inr rfl, hs.destroyed⟩
  | destroyLate _ hc =>
    have hnot := ho.connectDestroyed rfl
    have hdown : c.state = .kDisconnected := by
      cases hstate : c.state with
      | kDisconnected => rfl
      | kConnecting => exact (hs.known hstate).elim
      | kConnected => exact (hc hstate).elim
      | kDisconnecting => exact (hnot hstate).elim
    exact ⟨hs.known, nofun, fun _ => .inl hdown, fun _ => hdown⟩
  | setDisconnected => exact ⟨nofun, nofun, fun _ => .inl rfl, fun _ => rfl⟩
  | remove hmark hpos =>
    subst m
    have hdown := hs.of_ne nofun hpos
    exact ⟨hs.known, nofun, fun _ => .inl hdown, fun _ => hdown⟩

theorem Settled.advance {c c' : Course} (hs : Settled c m) (hz : c.Unborn)
    (hle : c.established ≤ 1) (hm : Move c m e c' m') (ho : Orders c e c') :
    Advance (c.established, c.state) (c'.established, c'.state) := by
  have hone (hne : c.established ≠ 0) : c.established = 1 := by omega
  cases hm with
  | @other st hst =>
    rcases hst with rfl | ⟨rfl, hcalled⟩
    · exact .stay
    · have hkept := ho.other rfl
      have hborn : c.established = 1 := hone fun hzero => hcalled (hz hzero).2.1
      simp only [hborn]
      cases hstate : c.state with
      | kDisconnected => cases hkept hstate
      | kConnecting => exact (hs.known hstate).elim
      | kConnected => exact .shutdown
      | kDisconnecting => exact .stay
  | connectEstablished _ hzero =>
    simp only [hzero, (hz hzero).1]
    exact .connect
  | setDisconnected hmark =>
    have hpos := hs.marked hmark
    have hborn : c.established = 1 := hone fun hzero => Nat.ne_of_gt hpos (hz hzero).2.2
    simp only [hborn]
    cases hstate : c.state with
    | kDisconnected => exact .stay
    | kConnecting => exact (hs.known hstate).elim
    | kConnected => exact .disconnect
    | kDisconnecting => exact .disconnectLate
  | enterClose | handleClose | connectionCallback | destroyConnected | destroyLate | remove =>
    exact .stay

end Course

namespace Server

theorem Started.unborn {s : Server} (h : Started s) : s.course.Unborn := by
  intro hzero
  rcases h.fresh with hpos | ⟨hu, hf⟩
  · exact (Nat.ne_of_gt hpos hzero).elim
  · exact ⟨hu.state, hu.callbacks, hf.destroys⟩

/-- The next statement of the frame does not move `state_` backwards: `shutdown` does not come to
its `setState` in `kDisconnected`, and `connectDestroyed` is not called in `kDisconnecting`. -/
def Frame.inOrder (state : StateE) : Frame → Bool
  | .setDisconnecting => state ≠ .kDisconnected
  | .exec .connectDestroyed => state ≠ .kDisconnecting
  | _ => true

def inOrder (s : Server) : Action → Bool
  | .go t _ =>
    match s.stack t with
    | [] => true
    | f :: _ => f.inOrder s.conn.state_
  | _ => true

def InOrder (s : Server) (a : Action) : Prop := s.inOrder a = true

instance (s : Server) (a : Action) : Decidable (s.InOrder a) := inferInstanceAs (Decidable (_ = _))

theorem inOrder_go {s : Server} (hs : s.stack t = f :: rest) :
    s.inOrder (.go t k) = f.inOrder s.conn.state_ := by
  rw [inOrder, hs]

theorem Runs.orders (h : Runs c k f c') (ho : f.inOrder c.state_ = true)
    (hf : f ≠ .exec .connectEstablished) (hc : c.state_ = .kDisconnected) :
    c'.state_ = .kDisconnected := by
  have hkept (hk : c.Kept c') : c'.state_ = .kDisconnected := hk.state.trans hc
  cases h with
  | connectEstablished => exact (hf rfl).elim
  | sendInLoop hd => exact (hd hc).elim
  | shutdownInLoop | ifDisconnecting => exact c.shutdownInLoop_same.1.trans hc
  | startReadInLoop => exact hkept (.startReadInLoop c)
  | stopReadInLoop => exact hkept (.stopReadInLoop c)
  | handleWrite hw => exact hkept hw.kept
  | handleClose | remove => exact hc
  | setDisconnected => rfl
  | setDisconnecting => exact (of_decide_eq_true ho hc).elim

theorem Frame.event_connectDestroyed {s : Server} {f : Frame}
    (h : f.event s k = .connectDestroyed) : f = .exec .connectDestroyed := by
  cases f with
  | handleEvent =>
    rw [event_handleEvent] at h
    split at h <;> cases h
  | handleRead =>
    rw [event_handleRead] at h
    split at h <;> cases h
  | exec g =>
    cases g with
    | connectDestroyed => rfl
    | forceCloseInLoop =>
      rw [event_forceCloseInLoop] at h
      split at h <;> cases h
    | _ => cases h
  | _ => cases h

theorem InOrder.orders {s s' : Server} (ho : InOrder s a) (h : s.step a = some s') :
    s.course.Orders (s.event a) s'.course := by
  constructor
  · intro he hc
    cases ConnStep.of_step h with
    | same hconn => exact (congrArg TcpConnection.state_ hconn).trans hc
    | @runs t f rest k _ hs hr =>
      have hf : f ≠ .exec .connectEstablished := by
        rintro rfl
        rw [event, hs] at he
        cases he
      exact hr.orders ((inOrder_go hs).symm.trans ho) hf hc
  · intro he
    cases a with
    | go t k =>
      cases hs : s.stack t with
      | nil =>
        rw [event, hs] at he
        cases he
      | cons f rest =>
        rw [event, hs] at he
        cases Frame.event_connectDestroyed he
        exact of_decide_eq_true ((inOrder_go hs).symm.trans ho)
    | _ => cases he

/-- `state_` goes from `kDisconnected` to `kConnected`, then perhaps to `kDisconnecting`, then to
`kDisconnected`, and never backwards. -/
def Advances (s : Server) (a : Action) : Prop := ∀ s', s.step a = some s' →
  Course.Advance (s.established, s.conn.state_) (s'.established, s'.conn.state_)

/-- Once `connectDestroyed` has been executed, `state_` is `kDisconnected`. -/
def Ended (s : Server) : Prop := 0 < s.destroyed → s.conn.state_ = .kDisconnected

/-- What holds of a connection as long as its functions are called in order. -/
structure Staged (s : Server) : Prop where
  started : Started s
  settled : s.course.Settled s.mark

theorem Staged.init (config : Config) : Staged (Server.init config) :=
  ⟨Started.init config, nofun, nofun, nofun, nofun⟩

theorem Staged.step {s s' : Server} (hi : Staged s) (ho : InOrder s a)
    (h : s.step a = some s') : Staged s' := by
  have hfollows := Follows.step hi.started.lived h
  have hle : s.destroyed ≤ s.destroys := by
    have hfinish : _ + s.destroyed = s.destroys := hi.started.lived.sound.finish
    omega
  exact ⟨hi.started.step h, hi.settled.move hi.started.unborn hle hfollows (ho.orders h)⟩

theorem Staged.advances {s : Server} (hi : Staged s) (ho : InOrder s a) : Advances s a := by
  intro s' h
  have hfollows := Follows.step hi.started.lived h
  exact hi.settled.advance hi.started.unborn hi.started.lived.sound.established_le hfollows
    (ho.orders h)

/-- A connection goes through its life cycle in every run in which `shutdown` does not overwrite
`kDisconnected` and `connectDestroyed` does not find `kDisconnecting`. -/
theorem life_cycle {s : Server} (h : Run Server.step (Server.init config) as s)
    (horder : AllSteps Server.step InOrder (Server.init config) as) :
    AllSteps Server.step Advances (Server.init config) as ∧
      AllStates Server.step Ended (Server.init config) as :=
  ⟨h.allSteps_when horder (Staged.init config) (fun _ _ _ => Staged.step)
      fun _ _ => Staged.advances,
    h.allStates_when horder (Staged.init config) (fun _ _ _ => Staged.step)
      fun _ hi => hi.settled.destroyed⟩

theorem life_cycle_example : ∃ s, Run Server.step (Server.init ioConfig)
    (connecting ++ [.loop .io] ++ peerCloses ++ [.go (.loop .io) {}, .go (.loop .io) {},
      .leave .io, .go (.loop .io) {}]) s ∧ 0 < s.destroyed ∧
    AllSteps Server.step Advances (Server.init ioConfig)
      (connecting ++ [.loop .io] ++ peerCloses ++ [.go (.loop .io) {}, .go (.loop .io) {},
        .leave .io, .go (.loop .io) {}]) ∧
    AllStates Server.step Ended (Server.init ioConfig)
      (connecting ++ [.loop .io] ++ peerCloses ++ [.go (.loop .io) {}, .go (.loop .io) {},
        .leave .io, .go (.loop .io) {}]) := by
  have hrun : (exec Server.step (Server.init ioConfig) (connecting ++ [.loop .io] ++ peerCloses ++
      [.go (.loop .io) {}, .go (.loop .io) {}, .leave .io, .go (.loop .io) {}])).any
        (fun s => s.destroyed == 1) = true := by
    decide +kernel
  obtain ⟨s, hs, hp⟩ := Run.of_exec_any hrun
  have hone := beq_iff_eq.1 hp
  exact ⟨s, hs, by omega, life_cycle hs (by decide +kernel)⟩

/-- A connection that has been shut down stays in `kDisconnecting` for ever. -/
theorem shutdown_stays : ¬ ∀ config as s, Run Server.step (Server.init config) as s →
    AllSteps Server.step Advances (Server.init config) as ∧
      AllStates Server.step Ended (Server.init config) as := by
  intro h
  have hrun : (exec Server.step (Server.init ioConfig) (connecting ++ shuttingDown ++
      peerCloses ++ [.go (.loop .io) {}])).any
        (fun s => s.destroyed == 1 && s.conn.state_ == .kDisconnecting) = true := by
    decide +kernel
  obtain ⟨s, hs, hp⟩ := Run.of_exec_any hrun
  simp only [Bool.and_eq_true, beq_iff_eq] at hp
  have hended : Ended s := hs.of_allStates (h _ _ _ hs).2
  have hdown := hended (by omega)
  cases hdown.symm.trans hp.2

end Server
end MuduoStudy
