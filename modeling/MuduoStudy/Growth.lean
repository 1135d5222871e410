import MuduoStudy.Usage

namespace MuduoStudy
open Transition
set_option autoImplicit true

namespace Buff

/-- The operation asks for no more room than it fills. -/
def Op.modest : Op → Bool
  | .ensureWritableBytes .. => false
  | _ => true

/-- The vector has not become smaller, and only as big as the readable bytes ask for. -/
structure Grown (modest : Bool) (b b' : Buff) : Prop where
  keeps : b.buf_.length ≤ b'.buf_.length
  bound : modest = true →
    b'.buf_.length ≤ max b.buf_.length (2 * b'.readable.length + kCheapPrepend - 1)

theorem Grown.same {b b' : Buff} (h : b'.buf_.length = b.buf_.length) : Grown modest b b' :=
  ⟨Nat.le_of_eq h.symm, fun _ => Nat.le_trans (Nat.le_of_eq h) (Nat.le_max_left _ _)⟩

theorem Grown.of_size {b b' c : Buff} (hsize : c.buf_.length = b.buf_.length)
    (h : Grown modest c b') : Grown modest b b' :=
  ⟨hsize ▸ h.keeps, hsize ▸ h.bound⟩

theorem length_retrieve (b : Buff) (len : Nat) :
    (b.retrieve len).buf_.length = b.buf_.length := by
  rw [retrieve]
  split
  · rfl
  · rfl

/-- A vector that grows gets the size of the dead space in front, of the live bytes and of the new
ones; there is less dead space than new bytes and room in front together. -/
theorem Wf.ensured_size {b b' : Buff} (h : b.Wf) (hlen : len < 2 ^ 63)
    (hb : b.ensureWritableBytes len = some b') : b'.buf_.length = b.buf_.length ∨
      b.buf_.length < b'.buf_.length ∧ b'.buf_.length = len + b.writerIndex_ ∧
        b.readerIndex_ < len + kCheapPrepend := by
  have hw := h.writer
  cases h.ensured_cases hlen hb with
  | stays => exact .inl rfl
  | slides => exact .inl (Region.length_move _ _ _ _)
  | grows hgrows =>
    obtain ⟨hroom, hdead⟩ := (h.grows hlen).1 hgrows
    simp only [List.length_append, List.length_replicate]
    omega

theorem Wf.copied_grown {b b' c : Buff} (h : b.Wf) (hlen : len < 2 ^ 63)
    (hc : b.ensureWritableBytes len = some c) (hsize : b'.buf_.length = c.buf_.length)
    (hread : b'.readable.length = b.readable.length + len) : Grown modest b b' := by
  rcases h.ensured_size hlen hc with hsame | ⟨hbigger, hsum, hdead⟩
  · exact .same (hsize.trans hsame)
  · refine ⟨Nat.le_of_lt (hsize ▸ hbigger), fun _ => ?_⟩
    have hr := h.reader
    have hlive := h.length_readable
    omega

theorem Wf.append_grown {b b' : Buff} {data : List UInt8} (h : b.Wf) (hlen : data.length < 2 ^ 63)
    (hb : b.append data = some b') : Grown modest b b' := by
  have hbound : (Source.outside data).length < 2 ^ 63 := hlen
  obtain ⟨c, hc, -⟩ := Option.map_eq_some_iff.1 hb
  obtain ⟨-, hread, hsize⟩ := h.copied hbound hc rfl hb
  exact h.copied_grown hbound hc hsize (by rw [hread, List.length_append]; rfl)

theorem Wf.own_append_grown {b b' : Buff} (h : b.Wf) (hin : offset + len ≤ b.buf_.length)
    (hb : b.append (.inside offset len) = some b') : Grown modest b b' := by
  have hs := h.size_lt
  obtain ⟨-, c, hc, hensured, hread, hsize⟩ := h.own_append hin hb
  have hle := hensured.length_le
  refine h.copied_grown (by omega) hc hsize ?_
  rw [hread, List.length_append, Region.length_slice (by omega)]

theorem Wf.run_grown {b b' : Buff} {op : Op} (h : b.Wf) (hrun : op.run b = some (b', r)) :
    Grown op.modest b b' := by
  have hw := h.writer
  cases Op.Changes.of_run hrun with
  | same | retrieveAll | unwrite => exact .same rfl
  | @append _ data _ hb => exact h.append_grown data.bound hb
  | appendOwn hin hb => exact h.own_append_grown hin hb
  | ensureWritableBytes hlen hb =>
    refine ⟨?_, fun hm => (Bool.false_ne_true hm).elim⟩
    rcases h.ensured_size hlen hb with hsame | ⟨hbigger, _⟩
    · exact Nat.le_of_eq hsame.symm
    · exact Nat.le_of_lt hbigger
  | prepend hdata => exact .same (h.prepended hdata).2.2
  | prependOwn hlen hin =>
    exact .same (h.prepended ((Region.length_slice hin).symm ▸ hlen)).2.2
  | write hdata =>
    rw [h.writableBytes] at hdata
    exact .same (Region.length_write (by omega))
  | retrieve | retrieveUntil | retrieveAsString => exact .same (length_retrieve b _)

theorem Wf.readFd_grown {b : Buff} (h : b.Wf) (hfits : r.fits b = true) (alloc : Bool) :
    Grown modest b (b.afterReadFd r alloc) := by
  have hw := h.writer
  have hwritable := h.writableBytes
  cases r with
  | error errno => exact .same rfl
  | data bytes =>
    by_cases hn : bytes.length ≤ b.writableBytes
    · have hwritten : b.writerIndex_ + (bytes.take b.writableBytes).length ≤ b.buf_.length := by
        rw [List.take_of_length_le hn]
        omega
      simp only [Buff.afterReadFd, Buff.readFd, if_pos hn]
      exact .same (Region.length_write hwritten)
    · have hlt := Nat.not_le.1 hn
      obtain ⟨⟨hwf, _, hsize⟩, hbound⟩ := h.split (of_decide_eq_true hfits) hlt
      rw [Buff.afterReadFd, readFd_of_lt hlt]
      cases ha : (b.fill (bytes.take b.writableBytes)).appendIf alloc
          (bytes.drop b.writableBytes) with
      | none => exact .same hsize
      | some b' =>
        exact .of_size hsize (hwf.append_grown hbound (append_of_appendIf ha))

end Buff

namespace Usage

def Action.modest : Action → Bool
  | .run op => op.modest
  | .retrieveAsString _ | .readFd .. => true

theorem step_grown {s s' : Usage} (hs : Sound s) (h : s.step a = some s') :
    s.buff.Grown a.modest s'.buff := by
  rcases hs with hwf | hb
  · cases Step.of_step h with
    | run _ hrun => exact hwf.run_grown hrun
    | @retrieved len => exact .same (Buff.length_retrieve s.buff len)
    | threw => exact .same rfl
    | @readFd r alloc hfits => exact hwf.readFd_grown hfits alloc
  · exact .same (congrArg (fun b => b.buf_.length) (step_unusable hb h))

theorem step_go {s s' : Usage} (h : s.step a = some s') : s' = s ∨ ∃ b, s' = s.go b := by
  cases Step.of_step h with
  | run | retrieved | readFd => exact .inr ⟨_, rfl⟩
  | threw => exact .inl rfl

/-- The vector is no bigger than it was made or than the readable bytes have asked for. -/
structure Bounded (size : Nat) (s : Usage) : Prop where
  sound : Sound s
  live : s.buff.readable.length ≤ s.peak
  bound : s.buff.buf_.length ≤ max size (2 * s.peak + Buff.kCheapPrepend - 1)

theorem Sound.readable_le {s : Usage} (hs : Sound s) :
    s.buff.readable.length ≤ s.buff.readableBytes := by
  rcases hs with hwf | hb
  · exact Nat.le_of_eq hwf.readableBytes.symm
  · rw [Buff.readable, hb.reader, hb.writer, Nat.sub_self]
    exact Nat.zero_le _

theorem Bounded.create (h : create n alloc = some s) :
    Bounded (sizeAdd Buff.kCheapPrepend n) s := by
  have hs := Sound.create h
  obtain ⟨b, hb, rfl⟩ := Option.map_eq_some_iff.1 h
  have hsize := (Buff.construct_cases hb).1
  exact ⟨hs, hs.readable_le, Nat.le_trans (Nat.le_of_eq hsize) (Nat.le_max_left _ _)⟩

theorem Bounded.step {s s' : Usage} (hb : Bounded size s) (hm : a.modest = true)
    (h : s.step a = some s') : Bounded size s' := by
  have hs := hb.sound.step h
  have hgrown := (step_grown hb.sound h).bound hm
  have hpeak : s.peak ≤ s'.peak ∧ s'.buff.readable.length ≤ s'.peak := by
    rcases step_go h with rfl | ⟨b, rfl⟩
    · exact ⟨Nat.le_refl _, hb.live⟩
    · exact ⟨Nat.le_max_left _ _, Nat.le_trans hs.readable_le (Nat.le_max_right _ _)⟩
  obtain ⟨hmono, hlive⟩ := hpeak
  have hbound := hb.bound
  exact ⟨hs, hlive, by omega⟩

/-- Whatever a program appends, prepends, reads and retrieves, the vector is never bigger than it
was made, or than twice the largest number of readable bytes so far and the room in front, and no
call makes it smaller. -/
theorem growth_bounded {s₀ s : Usage} (hinit : create initialSize alloc = some s₀)
    (h : Run Usage.step s₀ as s) (hmodest : ∀ a ∈ as, a.modest = true) :
    s.buff.buf_.length ≤
      max (sizeAdd Buff.kCheapPrepend initialSize) (2 * s.peak + Buff.kCheapPrepend - 1) ∧
    ∀ a s', s.step a = some s' → s.buff.buf_.length ≤ s'.buff.buf_.length := by
  have hall : AllSteps Usage.step (fun _ a => a.modest = true) s₀ as :=
    .of_mem fun a ha _ => hmodest a ha
  have hb : Bounded (sizeAdd Buff.kCheapPrepend initialSize) s :=
    h.invariant_when hall (Bounded.create hinit) fun _ _ _ hb => hb.step
  exact ⟨hb.bound, fun _ _ hstep => (step_grown hb.sound hstep).keeps⟩

/-- A vector of 18 bytes grows to 28, and with 20 dead bytes in front to 42. -/
def growing : List Action :=
  [.run (.append ⟨List.replicate 20 1, by decide⟩ true), .run (.prepend [2, 2]),
    .run (.retrieve 8), .retrieveAsString 6,
    .readFd (.data (List.replicate 14 3)) true, .run .retrieveAll]

theorem growth_bounded_example : ∃ s, (create 10 true).bind (exec Usage.step · growing) = some s ∧
    s.buff.buf_.length ≤
      max (sizeAdd Buff.kCheapPrepend 10) (2 * s.peak + Buff.kCheapPrepend - 1) := by
  have hrun : ((create 10 true).bind (exec Usage.step · growing)).any
      (fun s => s.buff.buf_.length == 42 && s.peak == 22) = true := by
    decide +kernel
  obtain ⟨s, hs, _⟩ := (Option.any_eq_true _ _).1 hrun
  obtain ⟨s₀, hinit, hexec⟩ := Option.bind_eq_some_iff.1 hs
  exact ⟨s, hs, (growth_bounded hinit (.of_exec hexec) (by decide)).1⟩

end Usage
end MuduoStudy
