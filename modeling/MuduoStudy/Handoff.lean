import MuduoStudy.Placement

namespace MuduoStudy
set_option autoImplicit true

/-- What each message of a connection's life counts: `connectEstablished` on its way, a pending
`closeCallback_`, `removeConnectionInLoop` and `connectDestroyed` on their way, and a
`connectDestroyed` that has not finished. -/
structure Price where
  establish : Nat
  close : Nat
  remove : Nat
  destroy : Nat
  finish : Nat

/-- The life of a connection as the two loops hand it over. -/
structure Handoff where
  created : Bool
  registered : Bool
  alive : Bool
  established : Nat
  closes : Nat
  closeCallbacks : Nat
  destroyQueued : Nat
  destroys : Nat
  destroyed : Nat

namespace Handoff

/-- Every way in which the hand-over moves on, with the worth of the messages on their way. -/
inductive Move (h : Handoff) (w : Price → Nat) : Handoff → (Price → Nat) → Prop where
  | stay : (∀ p, w' p = w p) → Move h w h w'
  | newConnection : h.created = false → h.alive = true → (∀ p, w' p = w p + p.establish) →
      Move h w { h with created := true, registered := true } w'
  | connectEstablished : (∀ p, w' p + p.establish = w p) →
      Move h w { h with established := h.established + 1 } w'
  | handleClose : 0 < h.established → (∀ p, w' p = w p + p.close) →
      Move h w { h with closes := h.closes + 1 } w'
  | closeCallback : h.alive = true → (∀ p, w' p + p.close = w p + p.remove) →
      Move h w { h with closeCallbacks := h.closeCallbacks + 1 } w'
  | removeConnectionInLoop : h.alive = true → (∀ p, w' p + p.remove = w p + p.destroy) →
      Move h w { h with registered := false, destroyQueued := h.destroyQueued + 1 } w'
  | connectDestroyed : (∀ p, w' p + p.destroy = w p + p.finish) →
      Move h w { h with destroys := h.destroys + 1 } w'
  | remove : (∀ p, w' p + p.finish = w p) → Move h w { h with destroyed := h.destroyed + 1 } w'
  | destroyQueued : h.registered = true → (∀ p, w' p = w p + p.destroy) →
      Move h w { h with
        alive := false, registered := false, destroyQueued := h.destroyQueued + 1 } w'
  | destroyInLoop : h.registered = true → (∀ p, w' p = w p + p.destroy) →
      Move h w { h with alive := false, registered := false } w'
  | destroyIdle : (∀ p, w' p = w p) → Move h w { h with alive := false, registered := false } w'

theorem Move.established_le {h h' : Handoff} {w w' : Price → Nat} (hm : Move h w h' w') :
    h.established ≤ h'.established := by
  cases hm with
  | connectEstablished => exact Nat.le_succ _
  | stay | newConnection | handleClose | closeCallback | removeConnectionInLoop
  | connectDestroyed | remove | destroyQueued | destroyInLoop | destroyIdle => exact Nat.le_refl _

/-- No message is lost or doubled. -/
structure Sound (h : Handoff) (w : Price → Nat) : Prop where
  establish : w ⟨1, 0, 0, 0, 0⟩ + h.established = if h.created then 1 else 0
  close : w ⟨0, 1, 0, 0, 0⟩ + h.closeCallbacks = h.closes
  remove : h.alive = true → w ⟨0, 0, 1, 0, 0⟩ + h.destroyQueued = h.closeCallbacks
  finish : w ⟨0, 0, 0, 0, 1⟩ + h.destroyed = h.destroys
  bound : h.destroyQueued ≤ max 1 h.closeCallbacks
  registered : h.registered = true → h.destroyQueued = 0
  fresh : h.created = false → h.closes = 0

theorem worth_kinds {v w : Price → Nat} (h : ∀ p, v p = w p) :
    v ⟨1, 0, 0, 0, 0⟩ = w ⟨1, 0, 0, 0, 0⟩ ∧ v ⟨0, 1, 0, 0, 0⟩ = w ⟨0, 1, 0, 0, 0⟩ ∧
      v ⟨0, 0, 1, 0, 0⟩ = w ⟨0, 0, 1, 0, 0⟩ ∧ v ⟨0, 0, 0, 0, 1⟩ = w ⟨0, 0, 0, 0, 1⟩ :=
  ⟨h _, h _, h _, h _⟩

theorem Sound.move {h h' : Handoff} {w w' : Price → Nat} (hs : Sound h w)
    (hm : Move h w h' w') : Sound h' w' := by
  obtain ⟨he, hc, hr, hd, hb, hreg, hf⟩ := hs
  cases hm with
  | stay hw =>
    rw [← hw] at he hc hd
    exact ⟨he, hc, fun ha => hw _ ▸ hr ha, hd, hb, hreg, hf⟩
  | newConnection hcr ha hw =>
    obtain ⟨h1, h2, h3, h4⟩ := worth_kinds hw
    have hzero := hf hcr
    have hnone := hr ha
    rw [hcr, if_neg Bool.false_ne_true] at he
    simp only at h1 h2 h3 h4
    exact ⟨by simp only [↓reduceIte]; omega, by simp only; omega, fun _ => by simp only; omega,
      by simp only; omega, hb, fun _ => by simp only; omega, nofun⟩
  | connectEstablished hw =>
    obtain ⟨h1, h2, h3, h4⟩ := worth_kinds hw
    simp only at h1 h2 h3 h4
    exact ⟨by simp only; omega, by simp only; omega,
      fun ha => by have := hr ha; simp only; omega, by simp only; omega, hb, hreg, hf⟩
  | handleClose hpos hw =>
    obtain ⟨h1, h2, h3, h4⟩ := worth_kinds hw
    simp only at h1 h2 h3 h4
    have hnot (hcr : h.created = false) : h.closes + 1 = 0 := by
      rw [hcr, if_neg Bool.false_ne_true] at he
      omega
    exact ⟨by simp only; omega, by simp only; omega,
      fun ha => by have := hr ha; simp only; omega, by simp only; omega, hb, hreg, hnot⟩
  | closeCallback ha hw =>
    obtain ⟨h1, h2, h3, h4⟩ := worth_kinds hw
    simp only at h1 h2 h3 h4
    have hnone := hr ha
    exact ⟨by simp only; omega, by simp only; omega, fun _ => by simp only; omega,
      by simp only; omega, by simp only; omega, hreg, hf⟩
  | removeConnectionInLoop ha hw =>
    obtain ⟨h1, h2, h3, h4⟩ := worth_kinds hw
    simp only at h1 h2 h3 h4
    have hnone := hr ha
    exact ⟨by simp only; omega, by simp only; omega, fun _ => by simp only; omega,
      by simp only; omega, by simp only; omega, nofun, hf⟩
  | connectDestroyed hw | remove hw =>
    obtain ⟨h1, h2, h3, h4⟩ := worth_kinds hw
    simp only at h1 h2 h3 h4
    exact ⟨by simp only; omega, by simp only; omega,
      fun ha => by have := hr ha; simp only; omega, by simp only; omega, hb, hreg, hf⟩
  | destroyQueued hg hw =>
    obtain ⟨h1, h2, h3, h4⟩ := worth_kinds hw
    simp only at h1 h2 h3 h4
    have hzero := hreg hg
    exact ⟨by simp only; omega, by simp only; omega, nofun, by simp only; omega,
      by simp only; omega, nofun, hf⟩
  | destroyInLoop hg hw =>
    obtain ⟨h1, h2, h3, h4⟩ := worth_kinds hw
    simp only at h1 h2 h3 h4
    exact ⟨by simp only; omega, by simp only; omega, nofun, by simp only; omega, hb, nofun, hf⟩
  | destroyIdle hw =>
    rw [← hw] at he hc hd
    exact ⟨he, hc, nofun, hd, hb, nofun, hf⟩

/-- As long as the server lives, `connections_` or a `connectDestroyed` on its way holds the
connection, and no `connectDestroyed` is lost. -/
structure Custody (h : Handoff) (w : Price → Nat) : Prop where
  alive : h.alive = true
  destroy : w ⟨0, 0, 0, 1, 0⟩ + h.destroys = h.destroyQueued
  held : h.created = true → h.registered = true ∨ 0 < h.destroyQueued

theorem Custody.move {h h' : Handoff} {w w' : Price → Nat} (hc : Custody h w)
    (hm : Move h w h' w') (halive : h'.alive = true) : Custody h' w' := by
  obtain ⟨ha, hd, hh⟩ := hc
  cases hm with
  | stay hw => exact ⟨ha, hw _ ▸ hd, hh⟩
  | newConnection _ _ hw => exact ⟨ha, by rw [hw]; exact hd, fun _ => .inl rfl⟩
  | connectEstablished hw => exact ⟨ha, by rw [← hd, ← hw]; rfl, hh⟩
  | handleClose _ hw => exact ⟨ha, by rw [hw]; exact hd, hh⟩
  | closeCallback _ hw =>
    have hone := hw ⟨0, 0, 0, 1, 0⟩
    exact ⟨ha, hd ▸ congrArg (· + h.destroys) hone, hh⟩
  | removeConnectionInLoop _ hw =>
    have hone := hw ⟨0, 0, 0, 1, 0⟩
    simp only at hone
    exact ⟨ha, by simp only; omega, fun _ => .inr (Nat.succ_pos _)⟩
  | connectDestroyed hw =>
    have hone := hw ⟨0, 0, 0, 1, 0⟩
    simp only at hone
    exact ⟨ha, by simp only; omega, hh⟩
  | remove hw => exact ⟨ha, by rw [← hd, ← hw]; rfl, hh⟩
  | destroyQueued | destroyInLoop | destroyIdle => cases halive

/-- One `handleClose` leads to one call of `closeCallback_` and one `connectDestroyed` at most. -/
theorem Sound.once {h : Handoff} {w : Price → Nat} (hs : Sound h w) (hc : h.closes ≤ 1) :
    h.closeCallbacks ≤ 1 ∧ h.destroyQueued ≤ 1 := by
  have hclose := hs.close
  have hbound := hs.bound
  exact ⟨by omega, by omega⟩

theorem Sound.established_le {h : Handoff} {w : Price → Nat} (hs : Sound h w) :
    h.established ≤ 1 := by
  have he := hs.establish
  split at he <;> omega

end Handoff
end MuduoStudy
