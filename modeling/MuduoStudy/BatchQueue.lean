import Mathlib.Data.List.Basic

set_option autoImplicit true

/-- A queue that one consumer empties in batches. Producers append to `pending`; the consumer
exchanges `pending` with its empty `batch` and then pops the batch. `popped` and `pushed` record
what left and what entered the queue, in order. -/
structure BatchQueue (α : Type u) where
  popped : List α := []
  batch : List α := []
  pending : List α := []
  pushed : List α := []

namespace BatchQueue

/-- What the consumer still has to take, in the order it will take it. -/
def contents (q : BatchQueue α) : List α := q.batch ++ q.pending

def push (q : BatchQueue α) (a : α) : BatchQueue α :=
  { q with pending := q.pending ++ [a], pushed := q.pushed ++ [a] }

def pushAll (q : BatchQueue α) (as : List α) : BatchQueue α := as.foldl push q

def swap (q : BatchQueue α) : BatchQueue α :=
  { q with batch := q.pending, pending := q.batch }

def pop (q : BatchQueue α) : Option (α × BatchQueue α) :=
  match q.batch with
  | [] => none
  | a :: rest => some (a, { q with popped := q.popped ++ [a], batch := rest })

def map (f : α → β) (q : BatchQueue α) : BatchQueue β where
  popped := q.popped.map f
  batch := q.batch.map f
  pending := q.pending.map f
  pushed := q.pushed.map f

theorem map_push (f : α → β) (q : BatchQueue α) (a : α) :
    (q.push a).map f = (q.map f).push (f a) := by
  simp only [map, push, List.map_append, List.map_singleton]

theorem map_pushAll (f : α → β) (q : BatchQueue α) (as : List α) :
    (q.pushAll as).map f = (q.map f).pushAll (as.map f) := by
  induction as generalizing q with
  | nil => rfl
  | cons a as ih =>
    have hrest := ih (q.push a)
    rw [map_push] at hrest
    exact hrest

theorem map_swap (f : α → β) (q : BatchQueue α) : q.swap.map f = (q.map f).swap := rfl

theorem map_pop (f : α → β) (q : BatchQueue α) :
    (q.map f).pop = q.pop.map fun p => (f p.1, p.2.map f) := by
  cases hb : q.batch with
  | nil => simp only [pop, map, hb, List.map_nil, Option.map_none]
  | cons a rest =>
    simp only [pop, map, hb, List.map_cons, Option.map_some, List.map_append, List.map_nil]

theorem contents_map (f : α → β) (q : BatchQueue α) : (q.map f).contents = q.contents.map f :=
  (List.map_append ..).symm

@[simp] theorem contents_push (q : BatchQueue α) (a : α) :
    (q.push a).contents = q.contents ++ [a] := by
  simp only [contents, push, List.append_assoc]

theorem contents_pushAll (q : BatchQueue α) (as : List α) :
    (q.pushAll as).contents = q.contents ++ as := by
  induction as generalizing q with
  | nil => exact (List.append_nil _).symm
  | cons a as ih =>
    have hrest := ih (q.push a)
    rw [contents_push, List.append_assoc, List.singleton_append] at hrest
    exact hrest

theorem contents_swap {q : BatchQueue α} (h : q.batch = []) : q.swap.contents = q.contents := by
  simp only [contents, swap, h, List.append_nil, List.nil_append]

theorem contents_pop {q : BatchQueue α} (h : q.pop = some (a, q')) :
    q.contents = a :: q'.contents := by
  cases hb : q.batch with
  | nil => simp [pop, hb] at h
  | cons b rest =>
    simp only [pop, hb, Option.some.injEq, Prod.mk.injEq] at h
    obtain ⟨rfl, rfl⟩ := h
    simp only [contents, hb, List.cons_append]

theorem pending_pop {q : BatchQueue α} (h : q.pop = some (a, q')) : q'.pending = q.pending := by
  cases hb : q.batch with
  | nil => simp [pop, hb] at h
  | cons b rest =>
    simp only [pop, hb, Option.some.injEq, Prod.mk.injEq] at h
    obtain ⟨_, rfl⟩ := h
    rfl

theorem batch_of_pop_none {q : BatchQueue α} (h : q.pop = none) : q.batch = [] := by
  cases hb : q.batch with
  | nil => rfl
  | cons a rest => simp [pop, hb] at h

/-- Nothing is lost, duplicated or reordered. -/
def Fifo (q : BatchQueue α) : Prop := q.popped ++ q.contents = q.pushed

theorem Fifo.empty : ({} : BatchQueue α).Fifo := rfl

theorem Fifo.push {q : BatchQueue α} (h : q.Fifo) (a : α) : (q.push a).Fifo := by
  rw [Fifo, contents_push, ← List.append_assoc]
  exact congrArg (· ++ [a]) h

theorem Fifo.swap {q : BatchQueue α} (h : q.Fifo) (hb : q.batch = []) : q.swap.Fifo := by
  rw [Fifo, contents_swap hb]
  exact h

theorem Fifo.pop {q : BatchQueue α} (h : q.Fifo) (hp : q.pop = some (a, q')) : q'.Fifo := by
  have hc := contents_pop hp
  cases hb : q.batch with
  | nil => simp [BatchQueue.pop, hb] at hp
  | cons b rest =>
    simp only [BatchQueue.pop, hb, Option.some.injEq, Prod.mk.injEq] at hp
    obtain ⟨rfl, rfl⟩ := hp
    rw [Fifo, hc] at h
    simpa only [Fifo, List.append_assoc, List.singleton_append] using h

inductive Move : BatchQueue α → BatchQueue α → Prop where
  | stay (q) : Move q q
  | push (q a) : Move q (q.push a)
  | swap (q) : q.batch = [] → Move q q.swap
  | pop : q.pop = some (a, q') → Move q q'

theorem Move.fifo (h : Move q q') (hq : q.Fifo) : q'.Fifo := by
  cases h with
  | stay => exact hq
  | push _ a => exact hq.push a
  | swap _ hb => exact hq.swap hb
  | pop hp => exact hq.pop hp

def owned (q : BatchQueue α) : List α := q.popped ++ q.batch

end BatchQueue
