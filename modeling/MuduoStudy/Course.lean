import MuduoStudy.Server

namespace MuduoStudy
open Server
set_option autoImplicit true

/-- What the thread of a connection's loop is about to do, as far as the connection's close
depends on it. -/
inductive Mark where
  | plain
  | handleClose
  | connectionCallback (caller : Caller)
  | setDisconnected

inductive Event where
  | other
  -- a function calls `handleClose`
  | enterClose
  | connectEstablished
  | handleClose
  | connectionCallback (caller : Caller)
  | connectDestroyed
  | setDisconnected
  | remove
  deriving DecidableEq

structure Course where
  state : StateE
  established : Nat
  closes : Nat
  destroys : Nat
  destroyed : Nat
  callbacks : List (Caller × Bool)

namespace Course

/-- Every way in which the course moves on, with the mark of the loop's thread. The user can shut
the connection down once the connection callback has been called. -/
inductive Move (c : Course) (m : Mark) : Event → Course → Mark → Prop where
  | other : st = c.state ∨ st = .kDisconnecting ∧ c.callbacks ≠ [] →
      Move c m .other { c with state := st } m
  | enterClose : m = .plain → 0 < c.established → Move c m .enterClose c .handleClose
  | connectEstablished : m = .plain → c.established = 0 → Move c m .connectEstablished
      { c with state := .kConnected, established := c.established + 1 }
      (.connectionCallback .connectEstablished)
  | handleClose : m = .handleClose → Move c m .handleClose { c with closes := c.closes + 1 }
      (.connectionCallback .handleClose)
  | connectionCallback : m = .connectionCallback caller → Move c m (.connectionCallback caller)
      { c with callbacks := c.callbacks ++ [(caller, decide (c.state = .kConnected))] } .plain
  | destroyConnected : m = .plain → c.state = .kConnected → Move c m .connectDestroyed
      { c with destroys := c.destroys + 1 } .setDisconnected
  | destroyLate : m = .plain → c.state ≠ .kConnected → Move c m .connectDestroyed
      { c with destroys := c.destroys + 1 } .plain
  | setDisconnected : m = .setDisconnected → Move c m .setDisconnected
      { c with state := .kDisconnected } (.connectionCallback .connectDestroyed)
  | remove : m = .plain → 0 < c.destroys → Move c m .remove
      { c with destroyed := c.destroyed + 1 } .plain

/-- `handleClose` has been called at most once, and not before it is called. -/
structure ClosedOnce (c : Course) (m : Mark) : Prop where
  once : c.closes ≤ 1
  first : m = .handleClose → c.closes = 0

theorem ClosedOnce.move {c c' : Course} (h : ClosedOnce c m) (hm : Move c m e c' m')
    (he : e = .enterClose → c.closes = 0) : ClosedOnce c' m' := by
  cases hm with
  | other => exact ⟨h.once, h.first⟩
  | enterClose => exact ⟨h.once, fun _ => he rfl⟩
  | handleClose hmark =>
    have hzero := h.first hmark
    exact ⟨by simp only; omega, nofun⟩
  | connectEstablished | connectionCallback | destroyConnected | destroyLate | setDisconnected
  | remove => exact ⟨h.once, nofun⟩

theorem Move.counts_le {c c' : Course} (hm : Move c m e c' m') :
    c.closes ≤ c'.closes ∧ c.destroys ≤ c'.destroys := by
  cases hm with
  | handleClose => exact ⟨Nat.le_succ _, Nat.le_refl _⟩
  | destroyConnected | destroyLate => exact ⟨Nat.le_refl _, Nat.le_succ _⟩
  | other | enterClose | connectEstablished | connectionCallback | setDisconnected | remove =>
    exact ⟨Nat.le_refl _, Nat.le_refl _⟩

theorem Move.closes_pos {c c' : Course} (hm : Move c m e c' m') (he : e = .handleClose) :
    0 < c'.closes := by
  cases hm with
  | handleClose => exact Nat.succ_pos _
  | _ => cases he

theorem Move.destroys_pos {c c' : Course} (hm : Move c m e c' m') (he : e = .remove) :
    0 < c.destroys := by
  cases hm with
  | remove _ hpos => exact hpos
  | _ => cases he

/-- Until `connectDestroyed` is called, an established connection does not become
`kDisconnected`. -/
structure Alive (c : Course) (m : Mark) : Prop where
  destroying : m = .setDisconnected → 0 < c.destroys
  state : 0 < c.established → c.destroys = 0 → c.state ≠ .kDisconnected

theorem Alive.move {c c' : Course} (h : Alive c m) (hm : Move c m e c' m') : Alive c' m' := by
  have hnone (n : Nat) (hz : n + 1 = 0) : c.state ≠ .kDisconnected := (Nat.succ_ne_zero n hz).elim
  cases hm with
  | @other st hst =>
    refine ⟨h.destroying, ?_⟩
    intro he hd
    rcases hst with rfl | ⟨rfl, _⟩
    · exact h.state he hd
    · nofun
  | enterClose | handleClose | connectionCallback | remove => exact ⟨nofun, h.state⟩
  | connectEstablished => exact ⟨nofun, fun _ _ => nofun⟩
  | destroyConnected => exact ⟨fun _ => Nat.succ_pos _, fun _ => hnone _⟩
  | destroyLate => exact ⟨nofun, fun _ => hnone _⟩
  | setDisconnected hmark =>
    exact ⟨nofun, fun _ hd => (Nat.ne_of_gt (h.destroying hmark) hd).elim⟩

/-- The condition under which the connection callback is told of one end of the connection. -/
def Orderly (c : Course) : Event → Prop
  | .enterClose => c.closes = 0 ∧ c.destroys = 0
  | .connectionCallback .handleClose => c.state ≠ .kConnected
  | .connectDestroyed => c.destroys = 0 → 0 < c.closes ∨ c.state = .kConnected
  | _ => True

instance (c : Course) (e : Event) : Decidable (c.Orderly e) :=
  match e with
  | .enterClose => inferInstanceAs (Decidable (_ ∧ _))
  | .connectionCallback .handleClose => inferInstanceAs (Decidable (_ ≠ _))
  | .connectDestroyed => inferInstanceAs (Decidable (_ → _))
  | .connectionCallback .connectEstablished | .connectionCallback .connectDestroyed | .other
  | .connectEstablished | .handleClose | .setDisconnected | .remove =>
    inferInstanceAs (Decidable True)

abbrev up : Caller × Bool := (.connectEstablished, true)

/-- What the connection callback has been told in each phase of an orderly life. -/
inductive Told (c : Course) : Mark → Prop where
  | fresh : c.established = 0 → c.closes = 0 → c.destroys = 0 → c.destroyed = 0 →
      c.state ≠ .kConnected → c.callbacks = [] → Told c .plain
  | establishing : 0 < c.established → c.closes = 0 → c.destroys = 0 → c.destroyed = 0 →
      c.state = .kConnected → c.callbacks = [] →
      Told c (.connectionCallback .connectEstablished)
  | active : 0 < c.established → c.closes = 0 → c.destroys = 0 → c.destroyed = 0 →
      c.callbacks = [up] → m = .plain ∨ m = .handleClose → Told c m
  | closing : 0 < c.established → 0 < c.closes → c.destroyed = 0 → c.callbacks = [up] →
      Told c (.connectionCallback .handleClose)
  | destroying : 0 < c.established → 0 < c.destroys → c.destroyed = 0 → c.callbacks = [up] →
      Told c .setDisconnected
  | disconnected : 0 < c.established → 0 < c.destroys → c.destroyed = 0 →
      c.state ≠ .kConnected → c.callbacks = [up] →
      Told c (.connectionCallback .connectDestroyed)
  | ended : 0 < c.established → 0 < c.closes ∨ 0 < c.destroys → c.state ≠ .kConnected →
      c.callbacks = [up, (caller, false)] → Told c .plain

theorem Told.move {c c' : Course} (h : Told c m) (hm : Move c m e c' m') (ho : c.Orderly e) :
    Told c' m' := by
  cases hm with
  | @other st hb =>
    have hdown (hc : c.state ≠ .kConnected) : st ≠ .kConnected := by
      rcases hb with rfl | ⟨rfl, _⟩
      · exact hc
      · nofun
    cases h with
    | fresh he hcl hd hdd hc hcb => exact .fresh he hcl hd hdd (hdown hc) hcb
    | establishing he hcl hd hdd hc hcb =>
      rcases hb with rfl | ⟨_, hne⟩
      · exact .establishing he hcl hd hdd hc hcb
      · exact (hne hcb).elim
    | active he hcl hd hdd hcb hmark => exact .active he hcl hd hdd hcb hmark
    | closing he hcl hdd hcb => exact .closing he hcl hdd hcb
    | destroying he hd hdd hcb => exact .destroying he hd hdd hcb
    | disconnected he hd hdd hc hcb => exact .disconnected he hd hdd (hdown hc) hcb
    | ended he hend hc hcb => exact .ended he hend (hdown hc) hcb
  | enterClose hmark hpos =>
    subst m
    cases h with
    | fresh he => exact (Nat.ne_of_gt hpos he).elim
    | active he hcl hd hdd hcb => exact .active he hcl hd hdd hcb (.inr rfl)
    | ended _ hend =>
      obtain ⟨hcl, hd⟩ := ho
      omega
  | connectEstablished hmark hzero =>
    subst m
    cases h with
    | fresh _ hcl hd hdd _ hcb => exact .establishing (Nat.succ_pos _) hcl hd hdd rfl hcb
    | active he | ended he => exact (Nat.ne_of_gt he hzero).elim
  | handleClose hmark =>
    subst m
    cases h with
    | active he _ _ hdd hcb => exact .closing he (Nat.succ_pos _) hdd hcb
  | connectionCallback hmark =>
    subst m
    have hdown (caller : Caller) (hcb : c.callbacks = [up]) (hc : c.state ≠ .kConnected) :
        c.callbacks ++ [(caller, decide (c.state = .kConnected))] = [up, (caller, false)] := by
      rw [hcb, decide_eq_false hc]
      rfl
    cases h with
    | establishing he hcl hd hdd hc hcb =>
      have hcall : c.callbacks ++ [(Caller.connectEstablished, decide (c.state = .kConnected))] =
          [up] := by
        rw [hcb, decide_eq_true hc]
        rfl
      exact .active he hcl hd hdd hcall (.inl rfl)
    | active _ _ _ _ _ hm => rcases hm with hm | hm <;> cases hm
    | closing he hcl _ hcb => exact .ended he (.inl hcl) ho (hdown .handleClose hcb ho)
    | disconnected he hd _ hc hcb =>
      exact .ended he (.inr hd) hc (hdown .connectDestroyed hcb hc)
  | destroyConnected hmark hc =>
    subst m
    cases h with
    | fresh _ _ _ _ hf => exact (hf hc).elim
    | active he _ _ hdd hcb => exact .destroying he (Nat.succ_pos _) hdd hcb
    | ended _ _ hf => exact (hf hc).elim
  | destroyLate hmark hc =>
    subst m
    have hnot (hcl : c.closes = 0) (hd : c.destroys = 0) : False := by
      rcases ho hd with hpos | ht
      · exact Nat.ne_of_gt hpos hcl
      · exact hc ht
    cases h with
    | fresh _ hcl hd => exact (hnot hcl hd).elim
    | active _ hcl hd => exact (hnot hcl hd).elim
    | ended he _ hc hcb => exact .ended he (.inr (Nat.succ_pos _)) hc hcb
  | setDisconnected hmark =>
    subst m
    cases h with
    | active _ _ _ _ _ hm => rcases hm with hm | hm <;> cases hm
    | destroying he hd hdd hcb => exact .disconnected he hd hdd nofun hcb
  | remove hmark hpos =>
    subst m
    cases h with
    | fresh _ _ hd => exact (Nat.ne_of_gt hpos hd).elim
    | active _ _ hd => exact (Nat.ne_of_gt hpos hd).elim
    | ended he hend hc hcb => exact .ended he hend hc hcb

theorem Told.callbacks {c : Course} (h : Told c m) : ∃ caller,
    c.callbacks <+: [up, (caller, false)] ∧
      (0 < c.destroyed → c.callbacks = [up, (caller, false)]) := by
  have hnone (hcb : c.callbacks = []) (hdd : c.destroyed = 0) : ∃ caller,
      c.callbacks <+: [up, (caller, false)] ∧
        (0 < c.destroyed → c.callbacks = [up, (caller, false)]) :=
    ⟨.handleClose, hcb ▸ List.nil_prefix, fun hpos => (Nat.ne_of_gt hpos hdd).elim⟩
  have hone (hcb : c.callbacks = [up]) (hdd : c.destroyed = 0) : ∃ caller,
      c.callbacks <+: [up, (caller, false)] ∧
        (0 < c.destroyed → c.callbacks = [up, (caller, false)]) :=
    ⟨.handleClose, hcb ▸ List.prefix_append [up] _, fun hpos => (Nat.ne_of_gt hpos hdd).elim⟩
  cases h with
  | fresh _ _ _ hdd _ hcb => exact hnone hcb hdd
  | establishing _ _ _ hdd _ hcb => exact hnone hcb hdd
  | active _ _ _ hdd hcb => exact hone hcb hdd
  | closing _ _ hdd hcb => exact hone hcb hdd
  | destroying _ _ hdd hcb => exact hone hcb hdd
  | disconnected _ _ hdd _ hcb => exact hone hcb hdd
  | ended _ _ _ hcb => exact ⟨_, hcb ▸ List.prefix_refl _, fun _ => hcb⟩

end Course
end MuduoStudy
