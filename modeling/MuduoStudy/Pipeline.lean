import Mathlib.Data.List.Basic

set_option autoImplicit true

namespace Pipeline

/-- What a producer hands to a consumer: its messages, and the order to stop. -/
inductive Item (α : Type u) where
  | message (m : α)
  | stop

def Item.messages : Item α → List α
  | .message m => [m]
  | .stop => []

def messages (items : List (Item α)) : List α := items.flatMap Item.messages

@[simp] theorem messages_append (xs ys : List (Item α)) :
    messages (xs ++ ys) = messages xs ++ messages ys := List.flatMap_append ..

@[simp] theorem messages_cons (x : Item α) (xs : List (Item α)) :
    messages (x :: xs) = x.messages ++ messages xs := rfl

end Pipeline

open Pipeline in
/-- A producer that hands its messages to a consumer over a queue, and then the order to stop. An
item is first in the producer's `hand` and then among the `items` of the queue. -/
structure Pipeline (α : Type u) where
  isOpen : Bool
  accepted : List α
  hand : List (Item α)
  items : List (Item α)
  executed : List α

namespace Pipeline

inductive Move (p : Pipeline α) : Pipeline α → Prop where
  | stay : Move p p
  | start : p.hand = [] → p.items = [] → Move p { p with isOpen := true }
  | accept : p.isOpen = true → p.hand = [] →
      Move p { p with accepted := p.accepted ++ [m], hand := [.message m] }
  | stop : p.hand = [] → Move p { p with isOpen := false, hand := [.stop] }
  | post : Move p { p with hand := [], items := p.items ++ p.hand }
  | execute : p.items = .message m :: rest →
      Move p { p with items := rest, executed := p.executed ++ [m] }
  | finish : p.items = .stop :: rest → Move p { p with items := rest }

/-- No message is behind the order to stop. -/
def Ends : List (Item α) → Prop
  | [] => True
  | .message _ :: xs => Ends xs
  | .stop :: xs => messages xs = []

theorem Ends.of_messages {xs : List (Item α)} (h : messages xs = []) : Ends xs := by
  induction xs with
  | nil => trivial
  | cons x xs ih =>
    rw [messages_cons, List.append_eq_nil_iff] at h
    cases x with
    | message m => cases h.1
    | stop => exact h.2

theorem Ends.of_not_mem {xs : List (Item α)} (h : .stop ∉ xs) : Ends xs := by
  induction xs with
  | nil => trivial
  | cons x xs ih =>
    rw [List.mem_cons, not_or] at h
    cases x with
    | message m => exact ih h.2
    | stop => exact (h.1 rfl).elim

theorem Ends.tail {xs : List (Item α)} (h : Ends (x :: xs)) : Ends xs := by
  cases x with
  | message m => exact h
  | stop => exact .of_messages h

theorem Ends.stop {xs : List (Item α)} (h : Ends xs) : Ends (xs ++ [.stop]) := by
  induction xs with
  | nil => rfl
  | cons x xs ih =>
    cases x with
    | message m => exact ih h
    | stop =>
      have hnone : messages xs = [] := h
      have hmore : messages (xs ++ [Item.stop]) = [] := by
        rw [messages_append, hnone]
        rfl
      exact hmore

/-- Nothing is lost or reordered, and a producer that has stopped has no message left. -/
structure Sound (p : Pipeline α) : Prop where
  flow : p.executed ++ messages (p.items ++ p.hand) = p.accepted
  opened : p.isOpen = true → .stop ∉ p.items ++ p.hand
  closed : p.isOpen = false → messages p.hand = []
  ends : Ends (p.items ++ p.hand)

theorem Sound.move {p p' : Pipeline α} (h : p.Sound) (hm : Move p p') : p'.Sound := by
  obtain ⟨hflow, hopened, hclosed, hends⟩ := h
  cases hm with
  | stay => exact ⟨hflow, hopened, hclosed, hends⟩
  | start hhand hitems =>
    have hnone : .stop ∉ p.items ++ p.hand := by simp [hhand, hitems]
    exact ⟨hflow, fun _ => hnone, nofun, hends⟩
  | @accept m hopen hhand =>
    rw [hhand, List.append_nil] at hflow
    have hnone := hopened hopen
    rw [hhand, List.append_nil] at hnone
    have hstop : .stop ∉ p.items ++ [Item.message m] := by simp [hnone]
    have hmore : p.executed ++ messages (p.items ++ [Item.message m]) = p.accepted ++ [m] := by
      rw [messages_append, ← List.append_assoc, hflow]
      rfl
    exact ⟨hmore, fun _ => hstop, fun hc => (Bool.false_ne_true (hc.symm.trans hopen)).elim,
      .of_not_mem hstop⟩
  | stop hhand =>
    rw [hhand, List.append_nil] at hflow hends
    have hmore : p.executed ++ messages (p.items ++ [Item.stop]) = p.accepted := by
      rw [messages_append, ← List.append_assoc, hflow]
      exact List.append_nil _
    exact ⟨hmore, nofun, fun _ => rfl, hends.stop⟩
  | post =>
    have hsame : p.items ++ p.hand ++ [] = p.items ++ p.hand := List.append_nil _
    exact ⟨hsame.symm ▸ hflow, hsame.symm ▸ hopened, fun _ => rfl, hsame.symm ▸ hends⟩
  | @execute rest m hitems =>
    rw [hitems] at hflow hopened hends
    have hmore : p.executed ++ [m] ++ messages (rest ++ p.hand) = p.accepted := by
      rw [List.append_assoc]
      exact hflow
    exact ⟨hmore, fun ho hmem => hopened ho (List.mem_cons_of_mem _ hmem), hclosed, hends.tail⟩
  | @finish rest hitems =>
    rw [hitems] at hflow hopened hends
    exact ⟨hflow, fun ho hmem => hopened ho (List.mem_cons_of_mem _ hmem), hclosed, hends.tail⟩

/-- When the order to stop arrives, every message has been executed. -/
theorem Sound.executed_of_stop {p : Pipeline α} (h : p.Sound) (hi : p.items = .stop :: rest) :
    p.executed = p.accepted := by
  have hflow := h.flow
  have hnone : messages (rest ++ p.hand) = [] := by
    have hends := h.ends
    rw [hi] at hends
    exact hends
  rw [hi, List.cons_append, messages_cons, hnone] at hflow
  exact (List.append_nil _).symm.trans hflow

theorem Sound.waiting {p : Pipeline α} (h : p.Sound) (hc : p.isOpen = false) :
    p.accepted = p.executed ++ messages p.items := by
  have hflow := h.flow
  rw [messages_append, h.closed hc, List.append_nil] at hflow
  exact hflow.symm

end Pipeline
