import MuduoStudy.TcpConnection
import MuduoStudy.Transition

namespace MuduoStudy
open Transition Memory
set_option autoImplicit true

/-- A message as the functor that sends it holds it, with what it was when `send` was called. -/
structure Message where
  data : Pointer
  len : Nat
  contents : List UInt8

/-- A thread that sends over a connection, from its memory and from its `Buff`. -/
structure Sender where
  /-- `loop_->isInLoopThread()` -/
  isInLoopThread : Bool
  conn : TcpConnection
  heap : Heap UInt8
  /-- the block behind the vector of the `Buff` -/
  storage : Nat
  readerIndex_ : Nat
  writerIndex_ : Nat
  /-- the queued calls of `sendInLoop` -/
  queue : List Message := []
  /-- the messages that `sendInLoop` sends, with the bytes that it finds there -/
  sent : List (List UInt8 × Option (List UInt8)) := []
  /-- how often `send` has left bytes in the `Buff` -/
  undrained : Nat := 0

namespace Sender

def buff (s : Sender) : Buff := ⟨(s.heap s.storage).getD [], s.readerIndex_, s.writerIndex_⟩

def setBuff (s : Sender) (b : Buff) : Sender :=
  { s with readerIndex_ := b.readerIndex_, writerIndex_ := b.writerIndex_ }

/-- Keeps count of the bytes that a call of `send` leaves in the `Buff`. -/
def leave (s : Sender) : Sender :=
  { s with undrained := if s.buff.readableBytes = 0 then s.undrained else s.undrained + 1 }

/-- The call of `sendInLoop`. Nothing is said of what is sent from memory that is not in use any
more. -/
def sendInLoop (s : Sender) (m : Message) (w : WriteResult) : Option Sender :=
  if s.conn.state_ = .kDisconnected then some s
  else
    match read s.heap m.data m.len with
    | none => some { s with sent := s.sent ++ [(m.contents, none)] }
    | some bytes => (s.conn.sendInLoop bytes w).map fun r =>
        { s with conn := r.1, sent := s.sent ++ [(m.contents, some bytes)] }

/-- `send(const void*, int)` -/
def send (s : Sender) (data : Pointer) (len : Nat) (w : WriteResult) : Option Sender :=
  (read s.heap data len).bind fun contents =>
    let m : Message := ⟨data, len, contents⟩
    if s.conn.state_ = .kConnected then
      if s.isInLoopThread then s.sendInLoop m w else some { s with queue := s.queue ++ [m] }
    else some s

/-- `send(Buff*)` -/
def sendBuff (s : Sender) (w : WriteResult) : Option Sender :=
  let peek : Pointer := ⟨s.storage, s.readerIndex_⟩
  (read s.heap peek s.buff.readableBytes).bind fun contents =>
    let m : Message := ⟨peek, s.buff.readableBytes, contents⟩
    if s.conn.state_ = .kConnected then
      if s.isInLoopThread then
        (s.sendInLoop m w).map fun s => (s.setBuff s.buff.retrieveAll).leave
      else some ({ s with queue := s.queue ++ [m] } : Sender).leave
    else some s

inductive Act where
  | sendBuff (w : WriteResult)
  | send (data : Pointer) (len : Nat) (w : WriteResult)
  -- the thread works on its `Buff`, whose vector may move to another block
  | use (b : Buff) (moved : Option Nat)
  | store (p : Pointer) (data : List UInt8)
  | allocate (block : Nat) (data : List UInt8)
  | release (block : Nat)
  -- the loop calls the first functor in its queue
  | run (w : WriteResult)
  | setState (state : StateE)

def step (s : Sender) : Act → Option Sender
  | .sendBuff w => s.sendBuff w
  | .send data len w => s.send data len w
  | .use b none =>
    some (({ s with heap := Function.update s.heap s.storage (some b.buf_) } : Sender).setBuff b)
  | .use b (some block) =>
    if s.heap block = none ∧ block ≠ s.storage then
      some (({ s with
        heap := Function.update (Function.update s.heap s.storage none) block (some b.buf_)
        storage := block } : Sender).setBuff b)
    else none
  | .store p data =>
    (s.heap p.block).bind fun block =>
      if p.offset + data.length ≤ block.length then
        some { s with
          heap := Function.update s.heap p.block (some (Region.write block p.offset data)) }
      else none
  | .allocate block data =>
    if s.heap block = none then some { s with heap := Function.update s.heap block (some data) }
    else none
  | .release block =>
    if block ≠ s.storage then some { s with heap := Function.update s.heap block none } else none
  | .run w =>
    match s.queue with
    | [] => none
    | m :: rest => ({ s with queue := rest } : Sender).sendInLoop m w
  | .setState state => some { s with conn := { s.conn with state_ := state } }

/-- A queued message is found in memory as it was when `send` was called. -/
def Holds (h : Heap UInt8) (m : Message) : Prop := read h m.data m.len = some m.contents

/-- Every message has been and would be sent as it was when `send` was called, and `send` has left
no bytes in the `Buff`. -/
structure Transparent (s : Sender) : Prop where
  queued : ∀ m ∈ s.queue, Holds s.heap m
  sent : ∀ x ∈ s.sent, x.2 = some x.1
  drained : s.undrained = 0

/-- A block gets new contents, or is given back, and the queued messages in it stay as they are. -/
def Spares (s : Sender) (b : Nat) (block : Option (List UInt8)) : Prop :=
  ∀ m ∈ s.queue, m.data.block = b → fetch block m.data.offset m.len = read s.heap m.data m.len

instance (s : Sender) (b : Nat) (block : Option (List UInt8)) : Decidable (s.Spares b block) :=
  inferInstanceAs (Decidable (∀ m ∈ s.queue, _ → _))

/-- A thread other than the loop's sends from an empty `Buff` only, and does not change, move or
give back the memory of a queued message. Unless `state_` is `kConnected`, `send` does nothing: it
drops the message and leaves the `Buff` as it is. -/
def Careful (s : Sender) : Act → Prop
  | .sendBuff _ => s.conn.state_ = .kConnected → s.isInLoopThread = false → s.buff.readableBytes = 0
  | .use b none => s.Spares s.storage (some b.buf_)
  | .use _ (some _) => s.Spares s.storage none
  | .store p data => s.Spares p.block ((s.heap p.block).map (Region.write · p.offset data))
  | .release block => s.Spares block none
  | .send .. | .allocate .. | .run _ | .setState _ => True

instance (s : Sender) (a : Act) : Decidable (s.Careful a) :=
  match a with
  | .sendBuff _ => inferInstanceAs (Decidable (_ → _ → _))
  | .use _ none | .use _ (some _) | .store .. | .release _ =>
    inferInstanceAs (Decidable (s.Spares _ _))
  | .send .. | .allocate .. | .run _ | .setState _ => inferInstanceAs (Decidable True)

theorem Holds.update_iff {h : Heap UInt8} {m : Message} (hm : Holds h m) (b : Nat)
    (block : Option (List UInt8)) : Holds (Function.update h b block) m ↔
      (m.data.block = b → fetch block m.data.offset m.len = read h m.data m.len) := by
  rw [Holds, read_update]
  by_cases hb : m.data.block = b
  · rw [if_pos hb, hm]
    exact ⟨fun h _ => h, fun h => h hb⟩
  · rw [if_neg hb]
    exact iff_of_true hm fun h => (hb h).elim

theorem Holds.allocate {h : Heap UInt8} {m : Message} (hm : Holds h m) (hb : h b = none)
    (data : List UInt8) : Holds (Function.update h b (some data)) m := by
  apply (hm.update_iff b (some data)).2
  intro heq
  have hnone : read h m.data m.len = fetch none m.data.offset m.len := by
    rw [Memory.read, heq, hb]
  rw [hnone]
  rw [Holds, hnone] at hm
  rw [hm]
  exact fetch_of_none hm _

theorem sendInLoop_cases {s s' : Sender} (h : s.sendInLoop m w = some s') :
    ∃ c new, s' = { s with conn := c, sent := s.sent ++ new } ∧
      ∀ x ∈ new, x = (m.contents, read s.heap m.data m.len) := by
  rw [sendInLoop] at h
  split at h
  · cases h
    exact ⟨s.conn, [], by rw [List.append_nil], fun _ => nofun⟩
  · split at h
    · rename_i hread
      cases h
      exact ⟨s.conn, _, rfl, fun x hx => hread ▸ List.mem_singleton.1 hx⟩
    · rename_i bytes hread
      obtain ⟨r, _, rfl⟩ := Option.map_eq_some_iff.1 h
      exact ⟨r.1, _, rfl, fun x hx => hread ▸ List.mem_singleton.1 hx⟩

theorem Transparent.sendInLoop {s s' : Sender} (ht : Transparent s) (hm : Holds s.heap m)
    (h : s.sendInLoop m w = some s') : Transparent s' ∧ s'.isInLoopThread = s.isInLoopThread := by
  obtain ⟨c, new, rfl, hnew⟩ := sendInLoop_cases h
  have hsent (x : List UInt8 × Option (List UInt8)) (hx : x ∈ s.sent ++ new) : x.2 = some x.1 := by
    rcases List.mem_append.1 hx with hx | hx
    · exact ht.sent x hx
    · rw [hnew x hx]
      exact hm
  exact ⟨⟨ht.queued, hsent, ht.drained⟩, rfl⟩

theorem transparent_leave_iff {s : Sender} :
    Transparent s.leave ↔ Transparent s ∧ s.buff.readableBytes = 0 := by
  constructor
  · intro h
    have hdrained := h.drained
    rw [leave] at hdrained
    by_cases hb : s.buff.readableBytes = 0
    · simp only [if_pos hb] at hdrained
      exact ⟨⟨h.queued, h.sent, hdrained⟩, hb⟩
    · simp only [if_neg hb] at hdrained
      omega
  · rintro ⟨h, hb⟩
    have hdrained : s.leave.undrained = 0 := by
      simp only [leave, if_pos hb]
      exact h.drained
    exact ⟨h.queued, h.sent, hdrained⟩

theorem Transparent.update_iff {s s' : Sender} (ht : Transparent s) (b : Nat)
    (block : Option (List UInt8)) (hheap : s'.heap = Function.update s.heap b block)
    (hqueue : s'.queue = s.queue) (hsent : s'.sent = s.sent)
    (hdrained : s'.undrained = s.undrained) :
    Transparent s' ↔ s.Spares b block := by
  constructor
  · intro h m hm
    have hholds := h.queued m (hqueue ▸ hm)
    rw [hheap] at hholds
    exact ((ht.queued m hm).update_iff b block).1 hholds
  · intro h
    have hqueued (m : Message) (hm : m ∈ s'.queue) : Holds s'.heap m := by
      rw [hqueue] at hm
      rw [hheap]
      exact ((ht.queued m hm).update_iff b block).2 (h m hm)
    exact ⟨hqueued, hsent ▸ ht.sent, hdrained.trans ht.drained⟩

theorem Transparent.push {s : Sender} (ht : Transparent s) (hm : Holds s.heap m) :
    Transparent { s with queue := s.queue ++ [m] } := by
  have hqueued (m' : Message) (hm' : m' ∈ s.queue ++ [m]) : Holds s.heap m' := by
    rcases List.mem_append.1 hm' with hm' | hm'
    · exact ht.queued m' hm'
    · exact List.mem_singleton.1 hm' ▸ hm
  exact ⟨hqueued, ht.sent, ht.drained⟩

theorem Transparent.send {s s' : Sender} (ht : Transparent s)
    (h : s.send data len w = some s') : Transparent s' := by
  obtain ⟨contents, hread, h⟩ := Option.bind_eq_some_iff.1 h
  have hm : Holds s.heap ⟨data, len, contents⟩ := hread
  split at h
  · split at h
    · exact (ht.sendInLoop hm h).1
    · cases h
      exact ht.push hm
  · cases h
    exact ht

theorem Transparent.sendBuff_iff {s s' : Sender} (ht : Transparent s)
    (h : s.sendBuff w = some s') : Transparent s' ↔
      (s.conn.state_ = .kConnected → s.isInLoopThread = false → s.buff.readableBytes = 0) := by
  obtain ⟨contents, hread, h⟩ := Option.bind_eq_some_iff.1 h
  have hm : Holds s.heap ⟨⟨s.storage, s.readerIndex_⟩, s.buff.readableBytes, contents⟩ := hread
  by_cases hs : s.conn.state_ = .kConnected
  · rw [if_pos hs] at h
    by_cases hloop : s.isInLoopThread = true
    · rw [if_pos hloop] at h
      obtain ⟨s₁, hsent, rfl⟩ := Option.map_eq_some_iff.1 h
      have ht₁ := (ht.sendInLoop hm hsent).1
      have hlt : Buff.kCheapPrepend < 2 ^ 64 := by decide
      have hempty : (s₁.setBuff s₁.buff.retrieveAll).buff.readableBytes = 0 :=
        sizeSub_of_le (Nat.le_refl _) hlt
      have hset : Transparent (s₁.setBuff s₁.buff.retrieveAll) :=
        ⟨ht₁.queued, ht₁.sent, ht₁.drained⟩
      exact iff_of_true (transparent_leave_iff.2 ⟨hset, hempty⟩)
        fun _ hf => (Bool.false_ne_true (hf.symm.trans hloop)).elim
    · rw [if_neg hloop, Option.some.injEq] at h
      subst s'
      rw [transparent_leave_iff]
      exact ⟨fun h _ _ => h.2, fun h => ⟨ht.push hm, h hs (Bool.eq_false_iff.2 hloop)⟩⟩
  · rw [if_neg hs, Option.some.injEq] at h
    exact iff_of_true (h ▸ ht) fun hc => (hs hc).elim

theorem Transparent.step_iff {s s' : Sender} (ht : Transparent s) (h : s.step a = some s') :
    Transparent s' ↔ s.Careful a := by
  cases a with
  | sendBuff w => exact ht.sendBuff_iff h
  | send data len w => exact iff_of_true (ht.send h) trivial
  | use b moved =>
    cases moved with
    | none =>
      cases h
      exact ht.update_iff s.storage (some b.buf_) rfl rfl rfl rfl
    | some block =>
      simp only [step, Option.ite_none_right_eq_some, Option.some.injEq] at h
      obtain ⟨⟨hfree, hne⟩, rfl⟩ := h
      have hfree' : Function.update s.heap s.storage none block = none := by
        rw [Function.update_of_ne hne]
        exact hfree
      constructor
      · intro ht' m hm heq
        have hholds : Holds (Function.update (Function.update s.heap s.storage none) block
            (some b.buf_)) m := ht'.queued m hm
        have hother : m.data.block ≠ block := heq ▸ hne.symm
        rw [Holds, read_update, if_neg hother, read_update, if_pos heq] at hholds
        rw [hholds]
        exact (ht.queued m hm).symm
      · intro hspares
        have hqueued (m : Message) (hm : m ∈ s.queue) :
            Holds (Function.update s.heap s.storage none) m :=
          ((ht.queued m hm).update_iff s.storage none).2 (hspares m hm)
        exact ⟨fun m hm => (hqueued m hm).allocate hfree' b.buf_, ht.sent, ht.drained⟩
  | store p data =>
    obtain ⟨block, hblock, h⟩ := Option.bind_eq_some_iff.1 h
    simp only [Option.ite_none_right_eq_some, Option.some.injEq] at h
    obtain ⟨_, rfl⟩ := h
    have hiff : Transparent ({ s with
        heap := Function.update s.heap p.block (some (Region.write block p.offset data)) } :
          Sender) ↔ s.Spares p.block (some (Region.write block p.offset data)) :=
      ht.update_iff p.block (some (Region.write block p.offset data)) rfl rfl rfl rfl
    rw [hiff, Careful, hblock]
    rfl
  | allocate block data =>
    simp only [step, Option.ite_none_right_eq_some, Option.some.injEq] at h
    obtain ⟨hfree, rfl⟩ := h
    have hqueued (m : Message) (hm : m ∈ s.queue) := (ht.queued m hm).allocate hfree data
    exact iff_of_true ⟨hqueued, ht.sent, ht.drained⟩ trivial
  | release block =>
    simp only [step, Option.ite_none_right_eq_some, Option.some.injEq] at h
    obtain ⟨_, rfl⟩ := h
    exact ht.update_iff block none rfl rfl rfl rfl
  | run w =>
    simp only [step] at h
    split at h
    · cases h
    · rename_i m rest hqueue
      have hm : Holds s.heap m := ht.queued m (hqueue ▸ List.mem_cons_self)
      have hrest : Transparent { s with queue := rest } :=
        ⟨fun m' hm' => ht.queued m' (hqueue ▸ List.mem_cons_of_mem _ hm'), ht.sent, ht.drained⟩
      exact iff_of_true (hrest.sendInLoop hm h).1 trivial
  | setState state =>
    cases h
    exact iff_of_true ⟨ht.queued, ht.sent, ht.drained⟩ trivial

def start (isInLoopThread : Bool) (conn : TcpConnection) (heap : Heap UInt8) (storage : Nat)
    (b : Buff) : Sender where
  isInLoopThread := isInLoopThread
  conn := conn
  heap := Function.update heap storage (some b.buf_)
  storage := storage
  readerIndex_ := b.readerIndex_
  writerIndex_ := b.writerIndex_

theorem Transparent.start (isInLoopThread : Bool) (conn : TcpConnection) (heap : Heap UInt8)
    (storage : Nat) (b : Buff) : Transparent (start isInLoopThread conn heap storage b) :=
  ⟨fun _ => nofun, fun _ => nofun, rfl⟩

/-- The thread is the loop's, which queues no message of its own. -/
def Direct (s : Sender) : Prop := s.isInLoopThread = true ∧ s.queue = []

theorem Direct.sendInLoop {s s' : Sender} (hd : Direct s) (h : s.sendInLoop m w = some s') :
    Direct s' := by
  obtain ⟨c, new, rfl, _⟩ := sendInLoop_cases h
  exact hd

theorem Direct.step {s s' : Sender} (hd : Direct s) (h : s.step a = some s') : Direct s' := by
  cases a with
  | sendBuff w =>
    obtain ⟨contents, _, h⟩ := Option.bind_eq_some_iff.1 h
    split at h
    · rw [if_pos hd.1] at h
      obtain ⟨s₁, hsent, rfl⟩ := Option.map_eq_some_iff.1 h
      have hd₁ : Direct s₁ := hd.sendInLoop hsent
      exact hd₁
    · exact Option.some.inj h ▸ hd
  | send data len w =>
    obtain ⟨contents, _, h⟩ := Option.bind_eq_some_iff.1 h
    split at h
    · rw [if_pos hd.1] at h
      exact hd.sendInLoop h
    · exact Option.some.inj h ▸ hd
  | use b moved =>
    cases moved with
    | none => exact Option.some.inj h ▸ hd
    | some block =>
      simp only [Sender.step, Option.ite_none_right_eq_some, Option.some.injEq] at h
      exact h.2 ▸ hd
  | store p data =>
    obtain ⟨block, _, h⟩ := Option.bind_eq_some_iff.1 h
    simp only [Option.ite_none_right_eq_some, Option.some.injEq] at h
    exact h.2 ▸ hd
  | allocate | release =>
    simp only [Sender.step, Option.ite_none_right_eq_some, Option.some.injEq] at h
    exact h.2 ▸ hd
  | run w =>
    simp only [Sender.step, hd.2] at h
    cases h
  | setState state => exact Option.some.inj h ▸ hd

theorem Direct.careful {s : Sender} (hd : Direct s) (a : Act) : s.Careful a := by
  have hspares (b : Nat) (block : Option (List UInt8)) : s.Spares b block := by
    intro m hm
    rw [hd.2] at hm
    cases hm
  cases a with
  | sendBuff w =>
    intro _ hf
    cases hf.symm.trans hd.1
  | use b moved => cases moved <;> exact hspares _ _
  | store | release => exact hspares _ _
  | send | allocate | run | setState => trivial

/-- On the loop's thread `send` sends every message as it is, whatever the thread does next. -/
theorem transparent_of_direct {s : Sender} (hd : Direct s) (ht : Transparent s) (as : List Act) :
    AllStates Sender.step Transparent s as := by
  induction as generalizing s with
  | nil => exact ht
  | cons a as ih =>
    refine ⟨ht, ?_⟩
    intro s' h
    exact ih (hd.step h) ((ht.step_iff h).2 (hd.careful a))

def connected : TcpConnection := { state_ := .kConnected, channel_ := { self := 1, fd_ := 7 } }

def holding (data : List UInt8) : Buff := ((Buff.new 16).append data).getD (Buff.new 16)

/-- Another thread sends a message from memory that it leaves alone, and goes on using its
`Buff`. -/
def sendingMemory : List Act :=
  [.allocate 5 [1, 1, 1], .send ⟨5, 0⟩ 3 (.error .EWOULDBLOCK), .use (holding [2, 2]) none,
    .run (.accepted 3)]

/-- Another thread sends its `Buff`, and fills it anew before the loop sends the message. -/
def sendingBuff : List Act :=
  [.sendBuff (.error .EWOULDBLOCK), .use (holding [2, 2, 2]) none, .run (.accepted 3)]

/-- Messages are sent as they were when `send` was called exactly in the runs in which a thread
other than the loop's sends only from an empty `Buff` and spares the memory of its messages. -/
theorem send_transparent_iff {s : Sender}
    (h : Run Sender.step (start inLoop c memory block b) as s) :
    AllStates Sender.step Transparent (start inLoop c memory block b) as ↔
      AllSteps Sender.step Careful (start inLoop c memory block b) as :=
  h.allStates_iff (I := fun _ => True) trivial (.start ..) (fun _ _ _ _ _ => trivial)
    fun _ _ _ _ ht => ht.step_iff

theorem send_transparent_example : AllStates Sender.step Transparent
    (start false connected (fun _ => none) 0 (holding [1])) sendingMemory := by
  have hrun : (exec Sender.step (start false connected (fun _ => none) 0 (holding [1]))
      sendingMemory).any (fun s => s.sent == [([1, 1, 1], some [1, 1, 1])]) = true := by
    decide +kernel
  obtain ⟨s, hs, _⟩ := Run.of_exec_any hrun
  exact (send_transparent_iff hs).2 (by decide +kernel)

/-- Off the loop's thread a message is sent as it is when the loop comes to it. -/
theorem send_not_transparent : ¬ ∀ inLoop c memory block b as s,
    Run Sender.step (start inLoop c memory block b) as s → Transparent s := by
  intro h
  have hrun : (exec Sender.step (start false connected (fun _ => none) 0 (holding [1, 1, 1]))
      sendingBuff).any (fun s => s.sent == [([1, 1, 1], some [2, 2, 2])] &&
        s.conn.written == [2, 2, 2] && s.undrained == 1) = true := by
    decide +kernel
  obtain ⟨s, hs, hp⟩ := Run.of_exec_any hrun
  simp only [Bool.and_eq_true, beq_iff_eq] at hp
  have hsent := (h _ _ _ _ _ _ _ hs).sent
  rw [hp.1.1] at hsent
  cases hsent _ List.mem_cons_self

end Sender
end MuduoStudy
