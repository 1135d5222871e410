import MuduoStudy.Placement

namespace MuduoStudy.Server
open Transition TcpConnection
set_option autoImplicit true

def bytes (ms : List Sent) : List UInt8 := ms.flatMap fun m => m.message.bytes

@[simp] theorem bytes_append (ms ns : List Sent) : bytes (ms ++ ns) = bytes ms ++ bytes ns := by
  rw [bytes, List.flatMap_append]
  rfl

theorem bytes_singleton (m : Sent) : bytes [m] = m.message.bytes := by
  simp [bytes]

/-- What a frame can do to the connection's data, given the messages it sends. -/
inductive DataStep (c : TcpConnection) (w : WriteResult) : List Sent → TcpConnection → Prop where
  | same : SameData c c' → DataStep c w [] c'
  | sends : c.state_ ≠ .kDisconnected → Sends c m.message.bytes w c' → DataStep c w [m] c'
  | writes : Writes c w c' done → DataStep c w [] c'

theorem Runs.data (h : Runs c k f c') : DataStep c k.write f.message c' := by
  cases h with
  | sendInLoop hd hs => exact .sends hd hs
  | handleWrite hw => exact .writes hw
  | connectEstablished | handleClose | setDisconnected | remove | setDisconnecting =>
    exact .same ⟨rfl, rfl, rfl⟩
  | shutdownInLoop | ifDisconnecting => exact .same (.shutdownInLoop c)
  | startReadInLoop => exact .same (.startReadInLoop c)
  | stopReadInLoop => exact .same (.stopReadInLoop c)

/-- Until the socket fails, the bytes written and the bytes buffered are the executed messages. -/
structure Outbound (c : TcpConnection) (ms : List Sent) : Prop where
  wf : c.outputBuffer_.Wf
  exact : c.faulted = false → c.stream = bytes ms

theorem Outbound.same (hi : Outbound c ms) (h : SameData c c') : Outbound c' ms := by
  have hexact (hf : c'.faulted = false) : c'.stream = bytes ms := by
    rw [stream, h.buffer, h.written]
    exact hi.exact (h.faulted ▸ hf)
  exact ⟨h.buffer ▸ hi.wf, hexact⟩

theorem Outbound.sends (hi : Outbound c ms) {m : Sent}
    (h : Sends c m.message.bytes w c') :
    Outbound c' (ms ++ [m]) := by
  rcases h.streams hi.wf m.message.bound with hs | ⟨hf, hb, _, _⟩
  · have hexact (hf : c'.faulted = false) : c'.stream = bytes (ms ++ [m]) := by
      rw [hs.stream, hi.exact (hs.faulted ▸ hf), bytes_append, bytes_singleton]
    exact ⟨hs.wf, hexact⟩
  · exact ⟨hb ▸ hi.wf, fun hn => (Bool.false_ne_true (hn.symm.trans hf)).elim⟩

theorem Outbound.writes (hi : Outbound c ms) (h : Writes c w c' done) :
    Outbound c' ms := by
  have hs := h.streams hi.wf
  have hexact (hf : c'.faulted = false) : c'.stream = bytes ms := by
    rw [hs.stream, List.append_nil]
    exact hi.exact (hs.faulted ▸ hf)
  exact ⟨hs.wf, hexact⟩

theorem Outbound.data (hi : Outbound c ms) (h : DataStep c w new c') :
    Outbound c' (ms ++ new) := by
  cases h with
  | same hd => exact (List.append_nil ms).symm ▸ hi.same hd
  | sends _ hs => exact hi.sends hs
  | writes hw => exact (List.append_nil ms).symm ▸ hi.writes hw

theorem Outbound.step {s s' : Server} (hi : Outbound s.conn s.executed)
    (h : s.step a = some s') : Outbound s'.conn s'.executed := by
  cases ConnStep.of_step h with
  | same hc he =>
    rw [hc, he]
    exact hi
  | runs _ hr he =>
    rw [he]
    exact hi.data hr.data

theorem Outbound.init (config : Config) :
    Outbound (Server.init config).conn (Server.init config).executed :=
  ⟨Buff.Wf.new (by decide), fun _ => by
    simp only [stream, Server.init, Buff.readable_new, List.append_nil]
    rfl⟩

theorem Outbound.run {s : Server} (h : Run Server.step (Server.init config) as s) :
    Outbound s.conn s.executed :=
  h.invariant (P := fun u => Outbound u.conn u.executed) (Outbound.init config)
    fun _ _ _ => Outbound.step

/-- Once `sendInLoop` has met `EPIPE` or `ECONNRESET`, the kernel accepts no more bytes. -/
def Broken (s : Server) : Action → Prop
  | .go _ k => s.conn.faulted = true → k.write.silent = true
  | _ => True

instance (s : Server) (a : Action) : Decidable (Broken s a) :=
  match a with
  | .go .. => inferInstanceAs (Decidable (_ → _))
  | .loop _ | .poll .. | .enter _ | .leave _ | .call .. | .post .. | .newConnection | .destroy =>
    inferInstanceAs (Decidable True)

/-- What was written before the failure is a prefix of the executed messages. -/
def Behind (c : TcpConnection) (ms : List Sent) : Prop :=
  c.faulted = true → c.written <+: bytes ms

theorem Behind.data (hi : Outbound c ms) (hb : Behind c ms)
    (hk : c.faulted = true → w.silent = true) (h : DataStep c w new c') :
    Behind c' (ms ++ new) := by
  have hold (hf : c.faulted = true) (hw : c'.written = c.written) :
      c'.written <+: bytes (ms ++ new) := by
    rw [hw, bytes_append]
    exact (hb hf).trans (List.prefix_append _ _)
  cases h with
  | same hd =>
    intro hf
    exact hold (hd.faulted ▸ hf) hd.written
  | @sends _ m _ hs =>
    intro hf
    cases hfc : c.faulted with
    | true => exact hold hfc (hs.silent (hk hfc))
    | false =>
      rcases hs.streams hi.wf m.message.bound with hst | ⟨_, _, hw, hread⟩
      · cases hf.symm.trans (hst.faulted.trans hfc)
      · have hstream := hi.exact hfc
        rw [stream, hread, List.append_nil] at hstream
        rw [hw, hstream, bytes_append]
        exact List.prefix_append _ _
  | writes hw =>
    intro hf
    have hfc : c.faulted = true := (hw.streams hi.wf).faulted ▸ hf
    exact hold hfc (hw.silent (hk hfc))

theorem Behind.step {s s' : Server} (hi : Outbound s.conn s.executed)
    (hb : Behind s.conn s.executed) (hk : Broken s a) (h : s.step a = some s') :
    Behind s'.conn s'.executed := by
  cases ConnStep.of_step h with
  | same hc he =>
    rw [hc, he]
    exact hb
  | runs _ hr he =>
    rw [he]
    exact hb.data hi hk hr.data

theorem Behind.run {s : Server} (h : Run Server.step (Server.init config) as s)
    (hk : AllSteps Server.step Broken (Server.init config) as) : Behind s.conn s.executed := by
  have hboth := h.invariant_when
    (P := fun u => Outbound u.conn u.executed ∧ Behind u.conn u.executed) hk
    ⟨Outbound.init config, nofun⟩
    fun _ _ _ hu hku hstep => ⟨hu.1.step hstep, hu.2.step hu.1 hku hstep⟩
  exact hboth.2

end MuduoStudy.Server
