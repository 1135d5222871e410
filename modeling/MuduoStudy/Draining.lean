import MuduoStudy.Quiescence
import MuduoStudy.Shutdown

namespace MuduoStudy
open Transition
set_option autoImplicit true

namespace TcpConnection

theorem Buffers.grows (hwf : c.outputBuffer_.Wf) (hlen : rest.length < 2 ^ 63)
    (h : Buffers c rest c') (hne : c.outputBuffer_.readable ≠ []) :
    c'.outputBuffer_.readable ≠ [] := by
  have happend {b : Buff} (hb : c.outputBuffer_.append rest = some b) : b.readable ≠ [] := by
    rw [(hwf.append hlen hb).2]
    intro hnil
    exact hne (List.append_eq_nil_iff.1 hnil).1
  cases h with
  | nothing => exact hne
  | writing _ hb => exact happend hb
  | enable _ hb => exact happend hb

theorem Sends.grows (hwf : c.outputBuffer_.Wf) (hlen : message.length < 2 ^ 63)
    (h : Sends c message w c') (hne : c.outputBuffer_.readable ≠ []) :
    c'.outputBuffer_.readable ≠ [] := by
  cases h with
  | @written n _ _ _ hbuffers =>
    have hrest : (message.drop n).length < 2 ^ 63 := by
      rw [List.length_drop]
      exact Nat.lt_of_le_of_lt (Nat.sub_le _ _) hlen
    have hacc : (c.accept (message.take n)).outputBuffer_.Wf := hwf
    exact hbuffers.grows hacc hrest hne
  | fault => exact hne
  | buffered _ hbuffers => exact hbuffers.grows hwf hlen hne

theorem Writes.waits (hwf : c.outputBuffer_.Wf) (h : Writes c w c' false)
    (hne : c.outputBuffer_.readable ≠ []) : c'.outputBuffer_.readable ≠ [] := by
  cases h with
  | nothing => exact hne
  | @part n _ _ _ hrest =>
    have hwf' : (c.drain n).outputBuffer_.Wf := (hwf.retrieve n).1
    rw [hwf'.readableBytes] at hrest
    exact List.ne_nil_of_length_pos (Nat.pos_of_ne_zero hrest)

theorem Backed.shutdownInLoop {c : TcpConnection} (hb : c.Backed) :
    0 < c.shutdownInLoop.shutdownWrites ∨ c.shutdownInLoop.outputBuffer_.readable ≠ [] := by
  cases hw : c.channel_.isWriting with
  | true =>
    apply Or.inr
    rw [c.shutdownInLoop_same.2.2.2]
    exact hb hw
  | false =>
    apply Or.inl
    obtain h | ⟨_, h⟩ := c.shutdownInLoop_cases
    · rw [TcpConnection.shutdownInLoop, hw]
      exact Nat.succ_pos _
    · rw [h]
      exact Nat.succ_pos _

end TcpConnection

namespace Server
open TcpConnection

/-- The functor comes to `shutdownInLoop`. -/
def Functor.owes : Functor → Bool
  | .shutdownInLoop => true
  | _ => false

def Frame.owes : Frame → Bool
  | .runInloop f | .exec f => f.owes
  | .ifDisconnecting => true
  | _ => false

/-- A call of `shutdownInLoop` is on its way. -/
def Owed (stack : Thread → List Frame) (queue : Loop → BatchQueue Functor) : Prop :=
  (∃ t, ∃ f ∈ stack t, f.owes = true) ∨ ∃ l, ∃ f ∈ (queue l).contents, f.owes = true

section
variable {stack : Thread → List Frame} {queue : Loop → BatchQueue Functor} {t : Thread}
  {f : Frame} {rest fs : List Frame}

theorem Owed.of_frame (fs : List Frame) (hg : g ∈ fs) (hf : g.owes = true) :
    Owed (Function.update stack t (fs ++ rest)) queue := by
  refine .inl ⟨t, g, ?_, hf⟩
  rw [Function.update_self]
  exact List.mem_append_left _ hg

theorem Owed.of_functor {g : Functor} (hg : g.owes = true) :
    Owed stack (Function.update queue l ((queue l).push g)) := by
  refine .inr ⟨l, g, ?_, hg⟩
  rw [Function.update_self, BatchQueue.contents_push]
  exact List.mem_append_right _ (List.mem_singleton.2 rfl)

theorem Owed.goto (h : Owed stack queue) (hs : stack t = f :: rest) (hf : f.owes = false)
    (fs : List Frame) : Owed (Function.update stack t (fs ++ rest)) queue := by
  rcases h with ⟨u, g, hg, ho⟩ | hq
  · apply Or.inl
    refine ⟨u, g, ?_, ho⟩
    by_cases hu : u = t
    · subst u
      rw [hs] at hg
      rw [Function.update_self]
      rcases List.mem_cons.1 hg with rfl | hg
      · exact (Bool.false_ne_true (hf.symm.trans ho)).elim
      · exact List.mem_append_right _ hg
    · rw [Function.update_of_ne hu]
      exact hg
  · exact .inr hq

theorem Owed.push (h : Owed stack queue) (t : Thread) (fs : List Frame) :
    Owed (Function.update stack t (fs ++ stack t)) queue := by
  rcases h with ⟨u, g, hg, ho⟩ | hq
  · apply Or.inl
    refine ⟨u, g, ?_, ho⟩
    by_cases hu : u = t
    · subst u
      rw [Function.update_self]
      exact List.mem_append_right _ hg
    · rw [Function.update_of_ne hu]
      exact hg
  · exact .inr hq

theorem Owed.setQueue (h : Owed stack queue) (l : Loop) {q : BatchQueue Functor}
    (hq : ∀ f ∈ (queue l).contents, f.owes = true → f ∈ q.contents) :
    Owed stack (Function.update queue l q) := by
  rcases h with hs | ⟨l', g, hg, ho⟩
  · exact .inl hs
  · apply Or.inr
    refine ⟨l', g, ?_, ho⟩
    by_cases hl : l' = l
    · subst l'
      rw [Function.update_self]
      exact hq g hg ho
    · rw [Function.update_of_ne hl]
      exact hg

theorem Owed.post (h : Owed stack queue) (l : Loop) (f : Functor) :
    Owed stack (Function.update queue l ((queue l).push f)) := by
  apply h.setQueue l
  intro g hg _
  rw [BatchQueue.contents_push]
  exact List.mem_append_left _ hg

end

/-- Once the user has shut the connection down, its output has been ended, bytes wait for the socket
or a call of `shutdownInLoop` is on its way. -/
def Promised (s : Server) : Prop :=
  s.conn.state_ = .kDisconnecting →
    0 < s.conn.shutdownWrites ∨ s.conn.outputBuffer_.readable ≠ [] ∨ Owed s.stack s.queue

section
variable {s s' : Server} {t : Thread} {f : Frame} {rest : List Frame} {k : Answer}

theorem Promised.same (hp : Promised s) (hstate : s'.conn.state_ = s.conn.state_)
    (hwrites : s'.conn.shutdownWrites = s.conn.shutdownWrites)
    (hbuffer : s.conn.outputBuffer_.readable ≠ [] → s'.conn.outputBuffer_.readable ≠ [])
    (howed : Owed s.stack s.queue → Owed s'.stack s'.queue) : Promised s' := by
  intro hd
  rw [hstate] at hd
  rcases hp hd with h | h | h
  · exact .inl (hwrites.symm ▸ h)
  · exact .inr (.inl (hbuffer h))
  · exact .inr (.inr (howed h))

theorem Promised.sameConn (hp : Promised s) (hconn : s'.conn = s.conn)
    (howed : Owed s.stack s.queue → Owed s'.stack s'.queue) : Promised s' :=
  hp.same (hconn ▸ rfl) (hconn ▸ rfl) (fun h => hconn.symm ▸ h) howed

theorem Promised.of_owed (h : Owed s.stack s.queue) : Promised s := fun _ => .inr (.inr h)

theorem Promised.of_state (h : s.conn.state_ ≠ .kDisconnecting) : Promised s :=
  fun hd => (h hd).elim

theorem Promised.paid (hb : s.conn.Backed) (hconn : s'.conn = s.conn.shutdownInLoop) :
    Promised s' := by
  intro _
  rw [hconn]
  exact hb.shutdownInLoop.imp_right .inl

theorem Owed.goes (h : Owed s.stack s.queue) (hs : s.stack t = f :: rest)
    (hg : Goes s t rest k f s') (hf : f.owes = false) : Owed s'.stack s'.queue := by
  cases hg.pays with
  | goto fs hstack _ hqueue =>
    rw [hstack, hqueue]
    exact h.goto hs hf fs
  | post hstack _ hqueue =>
    rw [hstack, hqueue]
    exact (h.goto hs hf []).post _ _

theorem Promised.called (hp : Promised s) (hb : s.conn.Backed) (hwf : s.conn.outputBuffer_.Wf)
    (hs : s.stack t = .exec g :: rest) (hc : Called s t rest k g s') : Promised s' := by
  have howed (hf : g.owes = false) (h : Owed s.stack s.queue) : Owed s'.stack s'.queue :=
    h.goes hs (.exec hc) hf
  cases hc with
  | connectEstablished => exact .of_state nofun
  | @sendInLoop c notices m hstate hsend =>
    have hsends := Sends.of_sendInLoop hstate hsend
    exact hp.same hsends.kept.state hsends.kept.shutdown (hsends.grows hwf m.message.bound)
      (howed rfl)
  | shutdownInLoop => exact .paid hb rfl
  | startReadInLoop =>
    have hkept := Kept.startReadInLoop s.conn
    exact hp.same hkept.state hkept.shutdown
      (fun h => (SameData.startReadInLoop s.conn).buffer ▸ h) (howed rfl)
  | stopReadInLoop =>
    have hkept := Kept.stopReadInLoop s.conn
    exact hp.same hkept.state hkept.shutdown
      (fun h => (SameData.stopReadInLoop s.conn).buffer ▸ h) (howed rfl)
  | sendLate | forceCloseInLoop | forceCloseLate | destroyConnected | destroyLate
  | removeConnectionInLoop | notice | other => exact hp.sameConn rfl (howed rfl)

theorem Promised.goes (hp : Promised s) (hb : s.conn.Backed) (hwf : s.conn.outputBuffer_.Wf)
    (hs : s.stack t = f :: rest) (hg : Goes s t rest k f s') : Promised s' := by
  have howed (hf : f.owes = false) (h : Owed s.stack s.queue) : Owed s'.stack s'.queue :=
    h.goes hs hg hf
  cases hg with
  | @handleWrite c hw =>
    have hwrites := Writes.of_handleWrite hw
    exact hp.same hwrites.kept.state hwrites.kept.shutdown (hwrites.waits hwf) (howed rfl)
  | @drained c =>
    have hmem : Frame.ifDisconnecting ∈ drainedFrames c :=
      List.mem_append_right _ (List.mem_singleton.2 rfl)
    exact .of_owed (.of_frame (drainedFrames c) hmem rfl)
  | ifDisconnecting => exact .paid hb rfl
  | ifNotDisconnecting hstate => exact .of_state hstate
  | handleClose => exact hp.same rfl rfl id (howed rfl)
  | setDisconnected => exact .of_state nofun
  | remove => exact hp.same rfl rfl id (howed rfl)
  | setDisconnecting =>
    exact .of_owed (.of_frame [.runInloop .shutdownInLoop] List.mem_cons_self rfl)
  | @runInLoop g =>
    refine hp.sameConn rfl fun h => ?_
    by_cases hf : g.owes = true
    · exact .of_frame [.exec g] List.mem_cons_self hf
    · exact howed (Bool.eq_false_iff.2 hf) h
  | @runQueued g =>
    refine hp.sameConn rfl fun h => ?_
    by_cases hf : g.owes = true
    · exact .of_functor hf
    · exact howed (Bool.eq_false_iff.2 hf) h
  | exec hc => exact hp.called hb hwf hs hc
  | handleEvent | readData | readEof | readError | connectionCallback | closeInLoop | closeQueued
  | send | sendDropped | shutdown | shutdownDropped | forceClose | forceCloseDropped
  | queueForceClose | queueNotice => exact hp.sameConn rfl (howed rfl)

theorem Promised.step (hp : Promised s) (ht : Tracked s) (h : s.step a = some s') :
    Promised s' := by
  cases Step.of_step h with
  | go hs hg => exact hp.goes ht.backed ht.outbound.wf hs hg
  | activeChannel hs => exact hp.sameConn rfl fun ho => hs ▸ ho.push (.loop _) [.handleEvent _]
  | handled | endFunctors | poll => exact hp.sameConn rfl id
  | @swap l _ hphase =>
    have hb := ht.lived.placed.batch l (by rw [hphase]; intro h; cases h)
    exact hp.sameConn rfl fun ho =>
      ho.setQueue l fun f hf _ => (BatchQueue.contents_swap hb).symm ▸ hf
  | @callFunctor l f q hs _ hq =>
    refine hp.sameConn rfl fun ho => ?_
    by_cases hf : f.owes = true
    · exact .of_frame [.exec f] List.mem_cons_self hf
    · have hrest : Owed s.stack (Function.update s.queue l q) := by
        apply ho.setQueue l
        intro g hg hgo
        rw [BatchQueue.contents_pop hq] at hg
        rcases List.mem_cons.1 hg with rfl | hg
        · exact (hf hgo).elim
        · exact hg
      exact hs ▸ hrest.push (.loop l) [.exec f]
  | enter hs => exact hp.sameConn rfl fun ho => hs ▸ ho.push (.loop _) [.user]
  | leave hs => exact hp.sameConn rfl fun ho => ho.goto hs rfl []
  | call => exact hp.sameConn rfl fun ho => ho.push _ [_]
  | post => exact hp.sameConn rfl fun ho => ho.post _ _
  | newConnection hs =>
    exact hp.sameConn rfl fun ho => hs ▸ ho.push (.loop .base) [.runInloop .connectEstablished]
  | destroy =>
    refine destroy_cases s ?_ ?_ ?_
    · intro _ _
      exact hp.sameConn rfl fun ho => ho.push _ [_]
    · intro _ _
      exact hp.sameConn rfl fun ho => ho.post _ _
    · intro _
      exact hp.sameConn rfl id

theorem Promised.run (h : Run Server.step (Server.init config) as s) : Tracked s ∧ Promised s := by
  have hinit : Tracked (Server.init config) ∧ Promised (Server.init config) :=
    ⟨Tracked.init config, .of_state nofun⟩
  refine h.invariant (P := fun s => Tracked s ∧ Promised s) hinit ?_
  intro s a s' hs hstep
  exact ⟨hs.1.step hstep, hs.2.step hs.1 hstep⟩

/-- As long as bytes wait, the kernel is asked for the moment when the socket takes more. -/
theorem Tracked.asks (ht : Tracked s) (hfaithful : s.channels.Faithful) (hcloses : s.closes = 0)
    (hdestroys : s.destroys = 0) (hne : s.conn.outputBuffer_.readable ≠ []) :
    ∃ mask, s.conn.poller_.interest s.conn.channel_.fd_ = some (mask, s.conn.channel_.self) ∧
      mask &&& POLLOUT ≠ 0 := by
  have hwriting : s.conn.channel_.isWriting = true := by
    by_contra hw
    exact hne (ht.watched hcloses hdestroys (Bool.eq_false_iff.2 hw))
  have hevents : s.conn.channel_.events_ ≠ Channel.kNoneEvent := by
    intro hnone
    exact Bool.false_ne_true ((isWriting_of_none hnone).symm.trans hwriting)
  have hinterest := ht.lived.mirrored.interest
  cases hi : s.conn.channel_.index_ with
  | kNew => exact (hevents (ht.fresh hcloses hdestroys hi)).elim
  | kDeleted => exact (hevents (hfaithful.deleted () hi)).elim
  | kAdded =>
    rw [if_pos hi] at hinterest
    exact ⟨_, hinterest, of_decide_eq_true hwriting⟩

end

/-- A shutdown is never forgotten: where nothing is left to do for the loops, a connection that has
been shut down has its output ended, has bytes to write first and, unless it has been closed, asks
the kernel for the moment when they can be written, or is still to hear of it from a thread that is
about to queue the call. -/
theorem shutdown_completes {s : Server} (h : Run Server.step (Server.init config) as s)
    (hsettled : Settled s) (hstate : s.conn.state_ = .kDisconnecting) :
    0 < s.conn.shutdownWrites ∨
    (0 < s.conn.outputBuffer_.readableBytes ∧ (s.closes = 0 → s.destroys = 0 →
      ∃ mask, s.conn.poller_.interest s.conn.channel_.fd_ = some (mask, s.conn.channel_.self) ∧
        mask &&& POLLOUT ≠ 0)) ∨
    ∃ n, .runInloop .shutdownInLoop ∈ s.stack (.user n) := by
  obtain ⟨ht, hp⟩ := Promised.run h
  rcases hp hstate with hdone | hne | ⟨t, f, hf, howes⟩ | ⟨l, f, hf, -⟩
  · exact .inl hdone
  · apply Or.inr
    apply Or.inl
    refine ⟨?_, fun hcloses hdestroys => ht.asks (faithful_run h) hcloses hdestroys hne⟩
    rw [ht.outbound.wf.readableBytes]
    exact List.length_pos_of_ne_nil hne
  · cases t with
    | loop l =>
      rw [(hsettled l).1] at hf
      cases hf
    | user n =>
      have hapi : f.isApi = true := ht.lived.placed.carries.frames (.user n) f hf
      refine .inr (.inr ⟨n, ?_⟩)
      cases f with
      | runInloop g =>
        cases g with
        | shutdownInLoop => exact hf
        | _ => cases howes
      | ifDisconnecting | exec => cases hapi
      | _ => cases howes
  · rw [(hsettled l).2.2] at hf
    cases hf

/-- The connection is shut down while a part of the message waits for the socket. -/
def shutdownWaits : List Action := connecting ++ sending (block 3 1) ++ iterate .io ++
  [.loop .io, .go (.loop .io) { write := .accepted 1 }, .loop .io] ++ callingShutdown ++
  [.poll .io none, .loop .io, .loop .io, .loop .io, .go (.loop .io) {}, .loop .io, .loop .base,
    .loop .base, .loop .base]

theorem shutdown_completes_example : ∃ s, Run Server.step (Server.init ioConfig) shutdownWaits s ∧
    s.conn.shutdownWrites = 0 ∧ (0 < s.conn.shutdownWrites ∨
      (0 < s.conn.outputBuffer_.readableBytes ∧ (s.closes = 0 → s.destroys = 0 →
        ∃ mask, s.conn.poller_.interest s.conn.channel_.fd_ = some (mask, s.conn.channel_.self) ∧
          mask &&& POLLOUT ≠ 0)) ∨
      ∃ n, .runInloop .shutdownInLoop ∈ s.stack (.user n)) := by
  have hrun : (exec Server.step (Server.init ioConfig) shutdownWaits).any (fun s =>
      decide (Settled s) && s.conn.state_ == .kDisconnecting && s.conn.shutdownWrites == 0) =
        true := by
    decide +kernel
  obtain ⟨s, hs, hp⟩ := Run.of_exec_any hrun
  simp only [Bool.and_eq_true, decide_eq_true_eq, beq_iff_eq] at hp
  obtain ⟨⟨hsettled, hstate⟩, hnone⟩ := hp
  exact ⟨s, hs, hnone, shutdown_completes hs hsettled hstate⟩

end Server
end MuduoStudy
