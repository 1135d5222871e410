import MuduoStudy.Usage

namespace MuduoStudy
open Transition
set_option autoImplicit true

namespace Buff

/-- The string that `retrieveAsString(len)` returns. Nothing is said of one that reaches behind the
vector. -/
def string (b : Buff) (len : Nat) : Option (List UInt8) :=
  if b.inside b.readerIndex_ len then some (b.retrieveAsString len).1 else none

/-- `retrieveAsString(len)` returns the first readable bytes and removes them. -/
structure Returns (b : Buff) (len : Nat) : Prop where
  string : b.string len = some (b.readable.take len)
  rest : (b.retrieveAsString len).2.readable = b.readable.drop len

theorem Wf.returns_iff {b : Buff} (h : b.Wf) (len : Nat) :
    b.Returns len ↔ len ≤ b.readableBytes := by
  have hr := h.reader
  have hw := h.writer
  have hread := h.length_readable
  rw [h.readableBytes]
  constructor
  · intro hreturns
    have hstring := hreturns.string
    rw [Buff.string, Option.ite_none_right_eq_some, Buff.inside, Bool.or_eq_true,
      decide_eq_true_eq, decide_eq_true_eq, Option.some.injEq] at hstring
    obtain ⟨hzero | hinside, hbytes⟩ := hstring
    · omega
    · have hlen := congrArg List.length hbytes
      rw [retrieveAsString, Buff.peek, Region.length_slice hinside, List.length_take] at hlen
      omega
  · intro hlen
    have hinside : b.inside b.readerIndex_ len = true := by
      rw [Buff.inside, Bool.or_eq_true, decide_eq_true_eq, decide_eq_true_eq]
      omega
    refine ⟨?_, (h.retrieve len).2⟩
    rw [Buff.string, if_pos hinside]
    exact congrArg some (Region.take_slice (hread ▸ hlen)).symm

theorem Unusable.returns_iff {b : Buff} (h : b.Unusable) (len : Nat) :
    b.Returns len ↔ len ≤ b.readableBytes := by
  rw [h.readableBytes, Nat.le_zero]
  constructor
  · intro hreturns
    have hstring := hreturns.string
    rw [Buff.string, Option.ite_none_right_eq_some] at hstring
    exact h.inside hstring.1 (h.reader ▸ Nat.le_add_right _ _)
  · rintro rfl
    have hinside : b.inside b.readerIndex_ 0 = true := rfl
    refine ⟨?_, ?_⟩
    · rw [Buff.string, if_pos hinside, retrieveAsString, Buff.peek, Region.slice, List.take_zero,
        List.take_zero]
    · exact congrArg Buff.readable (h.retrieve 0)

end Buff

/-- A buffer to which data are appended and from which strings are retrieved. -/
structure Reader where
  buff : Buff
  appended : List UInt8 := []
  /-- the strings returned so far, one after another, if all of them are known -/
  returned : Option (List UInt8) := some []

namespace Reader

inductive Action where
  | append (data : Block) (alloc : Bool)
  | retrieveAsString (len : Nat)
  deriving DecidableEq

/-- An `append` that throws appends nothing, and a `retrieveAsString` that throws, for a string of
more than `max_size()` characters, returns nothing. -/
def step (s : Reader) : Action → Option Reader
  | .append data alloc =>
    if s.buff.appendInside data.bytes.length then
      match s.buff.appendIf alloc data.bytes with
      | some b => some { s with buff := b, appended := s.appended ++ data.bytes }
      | none => some s
    else none
  | .retrieveAsString len =>
    if len ≤ Buff.maxSize then
      some { s with
        buff := (s.buff.retrieveAsString len).2
        returned := s.returned.bind fun r => (s.buff.string len).map (r ++ ·) }
    else some s

/-- A `retrieveAsString` returns the first readable bytes and removes them. -/
def Exact (s : Reader) : Action → Prop
  | .append .. => True
  | .retrieveAsString len => s.buff.Returns len

/-- A `retrieveAsString` asks for readable bytes only. -/
def Within (s : Reader) : Action → Prop
  | .append .. => True
  | .retrieveAsString len => len ≤ s.buff.readableBytes

instance (s : Reader) : (a : Action) → Decidable (s.Within a)
  | .append .. => inferInstanceAs (Decidable True)
  | .retrieveAsString len => inferInstanceAs (Decidable (len ≤ s.buff.readableBytes))

/-- What has been returned is the beginning of what was readable and of what has been appended
since. -/
def Begins (before : List UInt8) (s : Reader) : Prop :=
  ∃ r, s.returned = some r ∧ r <+: before ++ s.appended

/-- The buffer holds the rest of the stream. -/
structure Stream (before : List UInt8) (s : Reader) : Prop where
  sound : s.buff.Wf ∨ s.buff.Unusable
  stream : ∃ r, s.returned = some r ∧ r ++ s.buff.readable = before ++ s.appended

theorem Stream.begins {s : Reader} (h : Stream before s) : Begins before s := by
  obtain ⟨r, hr, hstream⟩ := h.stream
  exact ⟨r, hr, s.buff.readable, hstream⟩

theorem Stream.exact_iff {s : Reader} (h : Stream before s) (a : Action) :
    Exact s a ↔ Within s a := by
  cases a with
  | append => exact Iff.rfl
  | retrieveAsString len =>
    rcases h.sound with hwf | hb
    · exact hwf.returns_iff len
    · exact hb.returns_iff len

theorem Stream.append {s s' : Reader} (h : Stream before s)
    (hs : s.step (.append data alloc) = some s') : Stream before s' := by
  obtain ⟨r, hr, hstream⟩ := h.stream
  rw [step, Option.ite_none_right_eq_some] at hs
  obtain ⟨hinside, hs⟩ := hs
  cases hb : s.buff.appendIf alloc data.bytes with
  | none =>
    rw [hb] at hs
    cases hs
    exact h
  | some b =>
    rw [hb] at hs
    cases hs
    rcases h.sound with hwf | hunusable
    · obtain ⟨hwf', hread⟩ := hwf.append data.bound (Buff.append_of_appendIf hb)
      refine ⟨.inl hwf', r, hr, ?_⟩
      simp only
      rw [hread, ← List.append_assoc, hstream, List.append_assoc]
    · have hnil : data.bytes = [] :=
        List.eq_nil_of_length_eq_zero (hunusable.appendInside data.bound hinside)
      have hsame : s.buff.append data.bytes = some s.buff :=
        hunusable.append (congrArg List.length hnil) hnil
      cases hsame.symm.trans (Buff.append_of_appendIf hb)
      refine ⟨.inr hunusable, r, hr, ?_⟩
      simp only
      rw [hnil, List.append_nil, hstream]

theorem Stream.step {s s' : Reader} (h : Stream before s) (hw : Within s a)
    (hs : s.step a = some s') : Stream before s' := by
  cases a with
  | append data alloc => exact h.append hs
  | retrieveAsString len =>
    have hreturns : s.buff.Returns len := (h.exact_iff (.retrieveAsString len)).2 hw
    obtain ⟨r, hr, hstream⟩ := h.stream
    rw [Reader.step] at hs
    split at hs
    · cases hs
      have hsound : (s.buff.retrieveAsString len).2.Wf ∨
          (s.buff.retrieveAsString len).2.Unusable := by
        rcases h.sound with hwf | hb
        · exact .inl (hwf.retrieve len).1
        · have hsame : (s.buff.retrieveAsString len).2 = s.buff := hb.retrieve len
          rw [hsame]
          exact .inr hb
      refine ⟨hsound, r ++ s.buff.readable.take len, ?_, ?_⟩
      · simp only [hr, Option.bind_some, hreturns.string, Option.map_some]
      · simp only
        rw [hreturns.rest, List.append_assoc, List.take_append_drop, hstream]
    · cases hs
      exact h

/-- Every call returns the first readable bytes and removes them, and the strings together are the
beginning of the stream, exactly when every call asks for readable bytes only. -/
theorem strings_exact_iff {s₀ s : Usage} {t : Reader} (hinit : Usage.create n alloc = some s₀)
    (hbefore : Run Usage.step s₀ as s) (h : Run Reader.step { buff := s.buff } bs t) :
    AllSteps Reader.step Exact { buff := s.buff } bs ∧
        AllStates Reader.step (Begins s.buff.readable) { buff := s.buff } bs ↔
      AllSteps Reader.step Within { buff := s.buff } bs := by
  have hstream : Stream s.buff.readable { buff := s.buff } :=
    ⟨Usage.Sound.run hinit hbefore, [], rfl, (List.append_nil _).symm⟩
  have hiff := h.allSteps_iff hstream (fun _ _ _ hs hw => hs.step hw)
    fun _ a _ hs _ => hs.exact_iff a
  constructor
  · rintro ⟨hexact, _⟩
    exact hiff.1 hexact
  · intro hwithin
    exact ⟨hiff.2 hwithin, h.allStates_when hwithin hstream (fun _ _ _ hs hw => hs.step hw)
      fun _ hs => hs.begins⟩

def reading : List Action :=
  [.append ⟨[1, 2, 3, 4, 5], by decide⟩ true, .retrieveAsString 4,
    .append ⟨[6, 7, 8], by decide⟩ true, .retrieveAsString 2, .retrieveAsString 0,
    .retrieveAsString 2]

theorem strings_exact_example : ∃ s₀ t, Usage.create 4 true = some s₀ ∧
    Run Reader.step { buff := s₀.buff } reading t ∧
    t.returned = some [1, 2, 3, 4, 5, 6, 7, 8] ∧
    AllSteps Reader.step Exact { buff := s₀.buff } reading := by
  have hrun : (Usage.create 4 true).any (fun s₀ =>
      (exec Reader.step { buff := s₀.buff } reading).any (fun t =>
        t.returned = some [1, 2, 3, 4, 5, 6, 7, 8]) &&
      decide (AllSteps Reader.step Within { buff := s₀.buff } reading)) = true := by
    decide +kernel
  obtain ⟨s₀, hinit, hp⟩ := (Option.any_eq_true _ _).1 hrun
  rw [Bool.and_eq_true, decide_eq_true_eq] at hp
  obtain ⟨t, ht, hreturned⟩ := Run.of_exec_any hp.1
  exact ⟨s₀, t, hinit, ht, of_decide_eq_true hreturned,
    ((strings_exact_iff hinit (.nil s₀) ht).2 hp.2).1⟩

/-- A string that is longer than the readable bytes goes on with those of an earlier message. -/
theorem string_leaks : ¬ ∀ n alloc s₀ bs t, Usage.create n alloc = some s₀ →
    Run Reader.step { buff := s₀.buff } bs t →
    AllSteps Reader.step Exact { buff := s₀.buff } bs ∧
      AllStates Reader.step (Begins s₀.buff.readable) { buff := s₀.buff } bs := by
  intro h
  have hrun : (Usage.create 10 true).any (fun s₀ => s₀.buff.readable == [] &&
      (exec Reader.step { buff := s₀.buff } [.append ⟨[1, 2, 3, 4], by decide⟩ true,
        .retrieveAsString 4, .append ⟨[7], by decide⟩ true, .retrieveAsString 3]).any (fun t =>
          t.returned == some [1, 2, 3, 4, 7, 2, 3] && t.appended == [1, 2, 3, 4, 7])) = true := by
    decide +kernel
  obtain ⟨s₀, hinit, hp⟩ := (Option.any_eq_true _ _).1 hrun
  rw [Bool.and_eq_true, beq_iff_eq] at hp
  obtain ⟨t, ht, hq⟩ := Run.of_exec_any hp.2
  rw [Bool.and_eq_true, beq_iff_eq, beq_iff_eq] at hq
  obtain ⟨r, hr, hbegins⟩ := ht.of_allStates (h _ _ _ _ _ hinit ht).2
  cases hq.1.symm.trans hr
  rw [hp.1, hq.2] at hbegins
  exact absurd hbegins (by decide)

end Reader
end MuduoStudy
