import MuduoStudy.World

namespace MuduoStudy.World
set_option autoImplicit true

/-- Other connections' functors are like the user's. -/
def Functor.view (i : Nat) : Functor → Server.Functor
  | .conn j f => if j = i then f else .other
  | .other => .other

def Phase.view (i : Nat) : Phase → Server.Phase
  | .poll => .poll
  | .activeChannels events => .activeChannels (events.lookup i)
  | .swap => .swap
  | .functors => .functors

/-- Other code runs on top of the frames: on a loop that the connection knows it is like code of the
user, and on other threads the connection does not see it. -/
def cover : Server.Thread → List Server.Frame → List Server.Frame
  | .loop _, .user :: rest => .user :: rest
  | .loop _, rest => .user :: rest
  | .user _, rest => rest

def shown (i : Nat) (u : Server.Thread) : List Frame → List Server.Frame
  | [] => []
  | .conn j f :: rest => if j = i then f :: shown i u rest else cover u (shown i u rest)
  | .user :: rest => cover u (shown i u rest)

def source (w : World) (i : Nat) : Server.Thread → Option Thread
  | .loop l => some (.loop (w.place i l))
  | .user 0 => none
  | .user (n + 1) =>
    if n % 2 = 1 then some (.user (n / 2))
    else if w.seen i (.io (n / 2)) = none then some (.loop (.io (n / 2)))
    else none

/-- The server with one of its connections, as far as it concerns this connection. -/
def view (w : World) (i : Nat) : Server :=
  { w.record i with
    phase := fun l => (w.phase (w.place i l)).view i
    queue := fun l => (w.queue (w.place i l)).map (Functor.view i)
    stack := fun u =>
      match w.source i u with
      | some t => shown i u (w.stack t)
      | none => [] }

theorem cover_cover (u : Server.Thread) (fs : List Server.Frame) :
    cover u (cover u fs) = cover u fs := by
  cases u with
  | user n => rfl
  | loop l =>
    cases fs with
    | nil => rfl
    | cons f fs => cases f <;> rfl

theorem shown_own (i : Nat) (u : Server.Thread) (fs : List Server.Frame) (rest : List Frame) :
    shown i u (fs.map (.conn i) ++ rest) = fs ++ shown i u rest := by
  induction fs with
  | nil => rfl
  | cons f fs ih => simp only [List.map_cons, List.cons_append, shown, ↓reduceIte, ih]

theorem shown_other (i : Nat) (u : Server.Thread) (hj : j ≠ i) (fs : List Server.Frame)
    (rest : List Frame) : shown i u (fs.map (.conn j) ++ rest) =
      if fs = [] then shown i u rest else cover u (shown i u rest) := by
  induction fs with
  | nil => rfl
  | cons f fs ih =>
    simp only [List.map_cons, List.cons_append, shown, if_neg hj, ih]
    split
    · rfl
    · exact cover_cover u _

section
variable (w : World) (i : Nat)

theorem place_io_ne : w.place i .io ≠ .base := by
  intro h
  cases hl : w.ioLoop i with
  | io k => simp only [place, hl, reduceCtorEq] at h
  | base => simp only [place, hl, reduceCtorEq] at h

theorem seen_base : w.seen i .base = some .base := rfl

theorem seen_io (k : Nat) : w.seen i (.io k) = if .io k = w.place i .io then some .io else none :=
  if_neg (by intro h; cases h)

theorem seen_eq_some_iff : w.seen i l = some l' ↔ w.place i l' = l := by
  cases l with
  | base =>
    rw [seen_base, Option.some.injEq]
    cases l' with
    | base => exact iff_of_true rfl rfl
    | io => exact iff_of_false (by intro h; cases h) (w.place_io_ne i)
  | io k =>
    rw [seen_io]
    cases l' with
    | base =>
      have hne : w.place i .base ≠ .io k := by
        intro h
        cases h
      refine iff_of_false ?_ hne
      split <;> exact fun h => by cases h
    | io =>
      split
      · rename_i hk
        exact iff_of_true rfl hk.symm
      · rename_i hk
        exact iff_of_false (by intro h; cases h) fun h => hk h.symm

theorem seen_place (l : Server.Loop) : w.seen i (w.place i l) = some l :=
  (w.seen_eq_some_iff i).2 rfl

theorem seen_ioLoop : w.seen i (w.ioLoop i) = some (w.record i).loop_ := by
  have hloop : (w.record i).loop_ = if w.ioLoop i = .base then .base else .io := rfl
  rw [hloop, seen_eq_some_iff]
  cases hl : w.ioLoop i with
  | base => rfl
  | io k =>
    have hne : Loop.io k ≠ .base := by
      intro h
      cases h
    simp only [if_neg hne, place, hl]

theorem place_inj (h : w.place i l = w.place i l') : l = l' := by
  have hseen := w.seen_place i l
  rw [h, w.seen_place i l'] at hseen
  exact (Option.some.inj hseen).symm

theorem role_loop (h : w.seen i l = some l') : w.role i (.loop l) = .loop l' := by
  simp only [role, h]

theorem role_other (h : w.seen i (.io k) = none) :
    w.role i (.loop (.io k)) = .user (2 * k + 1) := by
  simp only [role, h]

theorem source_eq_some_iff : w.source i u = some t ↔ w.role i t = u := by
  constructor
  · intro h
    cases u with
    | loop l =>
      cases h
      exact w.role_loop i (w.seen_place i l)
    | user n =>
      cases n with
      | zero => cases h
      | succ n =>
        rw [source] at h
        split at h
        · cases h
          rw [role]
          congr 1
          omega
        · split at h
          · rename_i hseen
            cases h
            rw [w.role_other i hseen]
            congr 1
            omega
          · cases h
  · rintro rfl
    cases t with
    | user n =>
      have hodd : (2 * n + 1) % 2 = 1 := by omega
      have hhalf : (2 * n + 1) / 2 = n := by omega
      rw [role, source, if_pos hodd, hhalf]
    | loop l =>
      cases hseen : w.seen i l with
      | some l' =>
        rw [w.role_loop i hseen, source, (w.seen_eq_some_iff i).1 hseen]
      | none =>
        cases l with
        | base => cases hseen
        | io k =>
          have heven : ¬ (2 * k) % 2 = 1 := by omega
          have hhalf : (2 * k) / 2 = k := by omega
          rw [w.role_other i hseen, source, if_neg heven, hhalf, if_pos hseen]

end

section
variable (w : World) (i : Nat)

theorem view_stack (t : Thread) :
    (w.view i).stack (w.role i t) = shown i (w.role i t) (w.stack t) := by
  have hsource := (w.source_eq_some_iff i).2 (rfl : w.role i t = w.role i t)
  simp only [view, hsource]

theorem view_goto (t : Thread) (fs : List Frame) :
    (w.goto t fs).view i = (w.view i).goto (w.role i t) (shown i (w.role i t) fs) := by
  have hstack : ((w.goto t fs).view i).stack =
      Function.update (w.view i).stack (w.role i t) (shown i (w.role i t) fs) := by
    funext u
    by_cases hu : u = w.role i t
    · subst u
      rw [Function.update_self]
      have hview := (w.goto t fs).view_stack i t
      have htop : (w.goto t fs).stack t = fs := Function.update_self ..
      rw [htop] at hview
      exact hview
    · rw [Function.update_of_ne hu]
      have hsource : (w.goto t fs).source i u = w.source i u := rfl
      simp only [view, hsource]
      cases ht : w.source i u with
      | none => rfl
      | some t' =>
        have hne : t' ≠ t := by
          rintro rfl
          exact hu ((w.source_eq_some_iff i).1 ht).symm
        simp only [goto, Function.update_of_ne hne]
  have hview : (w.goto t fs).view i =
      { w.view i with stack := ((w.goto t fs).view i).stack } := rfl
  rw [hview, hstack]
  rfl

theorem update_seen {β γ : Type} (g : β → γ) (m : Loop → β) (b : β) (h : w.seen i l = some l') :
    (fun u => g (Function.update m l b (w.place i u))) =
      Function.update (fun u => g (m (w.place i u))) l' (g b) := by
  cases (w.seen_eq_some_iff i).1 h
  funext u
  by_cases hu : u = l'
  · subst u
    rw [Function.update_self, Function.update_self]
  · have hne : w.place i u ≠ w.place i l' := fun he => hu (w.place_inj i he)
    rw [Function.update_of_ne hu, Function.update_of_ne hne]

theorem update_unseen {β γ : Type} (g : β → γ) (m : Loop → β) (b : β) (h : w.seen i l = none) :
    (fun u => g (Function.update m l b (w.place i u))) = fun u => g (m (w.place i u)) := by
  funext u
  have hne : w.place i u ≠ l := by
    intro he
    cases ((w.seen_eq_some_iff i).2 he).symm.trans h
  rw [Function.update_of_ne hne]

theorem view_setPhase (p : Phase) (h : w.seen i l = some l') :
    (w.setPhase l p).view i = (w.view i).setPhase l' (p.view i) := by
  have hphase := w.update_seen i (Phase.view i) w.phase p h
  have hview : (w.setPhase l p).view i = { w.view i with
    phase := fun u => (Function.update w.phase l p (w.place i u)).view i } := rfl
  rw [hview, hphase]
  rfl

theorem view_setPhase_other (p : Phase) (h : w.seen i l = none) :
    (w.setPhase l p).view i = w.view i := by
  have hphase := w.update_unseen i (Phase.view i) w.phase p h
  have hview : (w.setPhase l p).view i = { w.view i with
    phase := fun u => (Function.update w.phase l p (w.place i u)).view i } := rfl
  rw [hview, hphase]
  rfl

theorem view_setQueue (q : BatchQueue Functor) (h : w.seen i l = some l') :
    (w.setQueue l q).view i = (w.view i).setQueue l' (q.map (Functor.view i)) := by
  have hqueue := w.update_seen i (BatchQueue.map (Functor.view i)) w.queue q h
  have hview : (w.setQueue l q).view i = { w.view i with
    queue := fun u => (Function.update w.queue l q (w.place i u)).map (Functor.view i) } := rfl
  rw [hview, hqueue]
  rfl

theorem view_setQueue_other (q : BatchQueue Functor) (h : w.seen i l = none) :
    (w.setQueue l q).view i = w.view i := by
  have hqueue := w.update_unseen i (BatchQueue.map (Functor.view i)) w.queue q h
  have hview : (w.setQueue l q).view i = { w.view i with
    queue := fun u => (Function.update w.queue l q (w.place i u)).map (Functor.view i) } := rfl
  rw [hview, hqueue]
  rfl

end
end MuduoStudy.World
