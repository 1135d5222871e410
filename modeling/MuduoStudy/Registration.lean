import MuduoStudy.Closing
import MuduoStudy.Poller

namespace MuduoStudy
open Transition
set_option autoImplicit true

namespace Channels
variable {ι : Type u}

/-- Every descriptor in the kernel's interest set has an event to wait for. -/
def NoIdle (s : Channels ι) : Prop :=
  ∀ fd mask ptr, s.poller_.interest fd = some (mask, ptr) → mask ≠ Channel.kNoneEvent

/-- An operation that leaves the channel without interest is made when the channel is registered,
or else removes it. -/
def Disables (s : Channels ι) (a : ι × Channel.Op) : Prop :=
  a.2 ≠ .remove → a.2.events (s.channel a.1).events_ = Channel.kNoneEvent →
    (s.channel a.1).index_ = .kAdded

instance (s : Channels ι) (a : ι × Channel.Op) : Decidable (s.Disables a) :=
  inferInstanceAs (Decidable (_ → _ → _))

theorem noIdle_mirror {s : Channels ι} (h : s.NoIdle) (c : Channel) :
    (∀ fd mask ptr, (s.poller_.mirror c).interest fd = some (mask, ptr) →
      mask ≠ Channel.kNoneEvent) ↔ (c.index_ = .kAdded → c.events_ ≠ Channel.kNoneEvent) := by
  have hself : (s.poller_.mirror c).interest c.fd_ =
      if c.index_ = .kAdded then some (c.events_, c.self) else none := Function.update_self ..
  refine ⟨?_, ?_⟩
  · intro hall hindex
    rw [if_pos hindex] at hself
    exact hall _ _ _ hself
  · intro hc fd mask ptr hentry
    by_cases hfd : fd = c.fd_
    · rw [hfd, hself] at hentry
      split at hentry
      · cases hentry
        exact hc ‹_›
      · cases hentry
    · have hold : s.poller_.interest fd = some (mask, ptr) :=
        (Function.update_of_ne hfd _ _).symm.trans hentry
      exact h fd mask ptr hold

theorem after_idle_iff (op : Channel.Op) (c : Channel) :
    ((op.after c).index_ = .kAdded → (op.after c).events_ ≠ Channel.kNoneEvent) ↔
      (op ≠ .remove → op.events c.events_ = Channel.kNoneEvent → c.index_ = .kAdded) := by
  change (op.index c = .kAdded → op.events c.events_ ≠ Channel.kNoneEvent) ↔ _
  rw [Channel.Op.index]
  split
  · rename_i hremove
    have hnew : ¬ Index.kNew = .kAdded := by decide
    exact ⟨fun _ hn => (hn hremove).elim, fun _ he => (hnew he).elim⟩
  · rename_i hremove
    split
    · rename_i hdel
      have hdeleted : ¬ Index.kDeleted = .kAdded := by decide
      exact ⟨fun _ _ _ => hdel.1, fun _ he => (hdeleted he).elim⟩
    · rename_i hadd
      refine ⟨fun hn _ hnone => (hn rfl hnone).elim, fun hn _ hnone => ?_⟩
      exact hadd ⟨hn hremove hnone, hnone⟩

variable [DecidableEq ι]

theorem NoIdle.step_iff {s s' : Channels ι} (hf : Faithful s) (h : s.NoIdle)
    (hs : s.step a = some s') : s'.NoIdle ↔ s.Disables a := by
  rw [hf.step_eq hs]
  exact (noIdle_mirror h _).trans (after_idle_iff a.2 (s.channel a.1))

/-- No descriptor is ever registered without an event, exactly when every operation that leaves a
channel without interest finds it registered. -/
theorem no_idle_iff {self fd : ι → Nat} (hfd : Function.Injective fd)
    (h : Run Channels.step (Channels.init self fd) ops s) :
    AllStates Channels.step NoIdle (Channels.init self fd) ops ↔
      AllSteps Channels.step Disables (Channels.init self fd) ops :=
  h.allStates_iff (I := Faithful) (.init hfd) (fun _ _ _ => nofun)
    (fun _ _ _ hf hs => hf.step hs) fun _ _ _ hf hn hs => hn.step_iff hf hs

/-- A channel that is enabled, disabled and removed is never registered without an event. -/
theorem no_idle_example : AllStates Channels.step NoIdle
    (Channels.init (fun _ : Unit => 1) fun _ => 5)
    [((), .enableReading), ((), .disableAll), ((), .remove)] := by
  have hfd : Function.Injective fun _ : Unit => 5 := fun _ _ _ => rfl
  have hrun : (exec Channels.step (Channels.init (fun _ : Unit => 1) fun _ => 5)
      [((), .enableReading), ((), .disableAll), ((), .remove)]).any (fun _ => true) = true := by
    decide +kernel
  obtain ⟨s, hs, _⟩ := Run.of_exec_any hrun
  exact (no_idle_iff hfd hs).2 (by decide +kernel)

end Channels

namespace TcpConnection

/-- The channel and its poller are left alone, or the channel makes one operation and stays. -/
def Operates (c c' : TcpConnection) : Prop :=
  c'.poller_ = c.poller_ ∧ c'.channel_ = c.channel_ ∨
    ∃ op : Channel.Op, op ≠ .remove ∧ (c'.poller_, c'.channel_) = op.run c.poller_ c.channel_

theorem Operates.index (h : Operates c c') :
    c'.channel_ = c.channel_ ∨ c'.channel_.index_ ≠ .kNew := by
  obtain ⟨_, hsame⟩ | ⟨op, hop, hrun⟩ := h
  · exact .inl hsame
  · have hchannel : c'.channel_ = (c.poller_.updateChannel
        { c.channel_ with events_ := op.events c.channel_.events_ }).2 := by
      rw [Channel.Op.run, if_neg hop] at hrun
      exact congrArg Prod.snd hrun
    rw [hchannel]
    exact .inr (Eepoller.updateChannel_index _ _)

theorem Buffers.operates (h : Buffers c rest c') : Operates c c' := by
  cases h with
  | nothing | writing => exact .inl ⟨rfl, rfl⟩
  | enable => exact .inr ⟨.enableWriting, nofun, rfl⟩

theorem Sends.operates (h : Sends c message w c') : Operates c c' := by
  cases h with
  | written _ _ hb => exact hb.operates
  | fault => exact .inl ⟨rfl, rfl⟩
  | buffered _ hb => exact hb.operates

theorem Writes.operates (h : Writes c w c' done) : Operates c c' := by
  cases h with
  | nothing | part => exact .inl ⟨rfl, rfl⟩
  | drained => exact .inr ⟨.disableWriting, nofun, rfl⟩

end TcpConnection

namespace Server
open TcpConnection

theorem Runs.operates (h : Runs c k f c') : Operates c c' ∨ f = .remove ∧ c' = c.remove := by
  cases h with
  | remove => exact .inr ⟨rfl, rfl⟩
  | connectEstablished => exact .inl (.inr ⟨.enableReading, nofun, rfl⟩)
  | sendInLoop _ hs => exact .inl hs.operates
  | shutdownInLoop | ifDisconnecting =>
    obtain ⟨_, hchannel, hpoller, _⟩ := c.shutdownInLoop_same
    exact .inl (.inl ⟨hpoller, hchannel⟩)
  | startReadInLoop =>
    obtain h | h := c.startReadInLoop_cases
    · rw [h]
      exact .inl (.inl ⟨rfl, rfl⟩)
    · exact .inl (.inr ⟨.enableReading, nofun, h ▸ rfl⟩)
  | stopReadInLoop =>
    obtain h | h := c.stopReadInLoop_cases
    · rw [h]
      exact .inl (.inl ⟨rfl, rfl⟩)
    · exact .inl (.inr ⟨.disableReading, nofun, h ▸ rfl⟩)
  | handleWrite hw => exact .inl hw.operates
  | handleClose => exact .inl (.inr ⟨.disableAll, nofun, rfl⟩)
  | setDisconnected => exact .inl (.inr ⟨.disableAll, nofun, rfl⟩)
  | setDisconnecting => exact .inl (.inl ⟨rfl, rfl⟩)

def channels (s : Server) : Channels Unit := ⟨s.conn.poller_, fun _ => s.conn.channel_⟩

/-- A run of the server makes a run of operations of the connection's channel. -/
theorem channels_run {s t : Server} (h : Run Server.step s as t) :
    ∃ ops, Run Channels.step s.channels ops t.channels := by
  induction h with
  | nil s => exact ⟨[], .nil _⟩
  | @cons s t u a as hs _ ih =>
    obtain ⟨ops, hops⟩ := ih
    have hstep : t.channels = s.channels ∨ ∃ op, s.channels.step ((), op) = some t.channels := by
      cases ConnStep.of_step hs with
      | same hc => exact .inl (by rw [channels, channels, hc])
      | runs _ hr =>
        have hop (op : Channel.Op)
            (hrun : (t.conn.poller_, t.conn.channel_) = op.run s.conn.poller_ s.conn.channel_) :
            s.channels.step ((), op) = some t.channels := by
          have hupdate : Function.update (fun _ : Unit => s.conn.channel_) () t.conn.channel_ =
              fun _ => t.conn.channel_ := funext fun _ => Function.update_self ..
          simp only [Channels.step, channels, ← hrun, hupdate]
        obtain (⟨hpoller, hchannel⟩ | ⟨op, _, hrun⟩) | ⟨_, hremove⟩ := hr.operates
        · exact .inl (by rw [channels, channels, hpoller, hchannel])
        · exact .inr ⟨op, hop op hrun⟩
        · exact .inr ⟨.remove, hop .remove (hremove ▸ rfl)⟩
    rcases hstep with hsame | ⟨op, hop⟩
    · exact ⟨ops, hsame ▸ hops⟩
    · exact ⟨((), op) :: ops, .cons hop hops⟩

theorem faithful_run {s : Server} (h : Run Server.step (Server.init config) as s) :
    s.channels.Faithful := by
  obtain ⟨ops, hops⟩ := channels_run h
  have hone : Function.Injective fun _ : Unit => config.fd_ := fun _ _ _ => rfl
  have hinit : (Channels.init (fun _ => config.self) fun _ => config.fd_).Faithful := .init hone
  exact hinit.run hops

/-- The peer closes a connection, whose `connectDestroyed` disables the channel again. -/
theorem registers_idle : ¬ ∀ config as s, Run Server.step (Server.init config) as s →
    s.channels.NoIdle := by
  intro h
  have hrun : (exec Server.step (Server.init ioConfig) (connecting ++ [.loop .io] ++
      peerCloses ++ [.go (.loop .io) {}])).any
        (fun s => s.conn.poller_.interest 7 = some (0, 1)) = true := by
    decide +kernel
  obtain ⟨s, hs, hp⟩ := Run.of_exec_any hrun
  exact h _ _ _ hs 7 0 1 (of_decide_eq_true hp) rfl

end Server
end MuduoStudy
