import MuduoStudy.Destroyed
import MuduoStudy.Lifetime

namespace MuduoStudy
open Transition Server
set_option autoImplicit true

namespace Server

theorem Frame.uses_of_isCall {f : Frame} (h : f.isCall = true) : f.uses = true := by
  cases f with
  | exec g => cases g <;> first | rfl | cases h
  | user => cases h
  | _ => rfl

end Server

namespace Lifetime

/-- What is left when the last pointer to the connection is gone. -/
structure Unheld (x : Lifetime) : Prop where
  registered : x.server.registered = false
  refs : x.refs = []
  kept : ∀ t, x.kept t = false
  queued : ∀ l, ∀ f ∈ (x.server.queue l).contents, f.shared = false

section
variable {x y : Lifetime}

theorem Unheld.of_not (h : ¬ x.Held) : Unheld x := by
  obtain ⟨hr, hrefs, hl⟩ := not_or.1 h |>.imp_right not_or.1
  have hloop (l : Loop) := not_or.1 (not_exists.1 hl l)
  refine ⟨Bool.eq_false_iff.2 hr, not_not.1 hrefs, ?_, ?_⟩
  · intro t
    cases t with
    | loop l => exact Bool.eq_false_iff.2 (hloop l).1
    | user n => rfl
  · intro l f hf
    apply Bool.eq_false_iff.2
    intro hs
    exact (hloop l).2 (.inl ⟨f, hf, hs⟩)

/-- The connection has been destroyed, and no thread is in one of its functions. -/
structure Gone (x : Lifetime) : Prop where
  tended : Tended x
  created : x.server.created = true
  unheld : ¬ x.Held
  idle : ∀ t, ∀ f ∈ x.server.stack t, f.uses = false
  event : ∀ l revents, x.server.phase l ≠ .activeChannels (some revents)

theorem Tended.gone (hx : Tended x) (hc : x.server.created = true) (hn : ¬ x.Held)
    (hd : ¬ x.Dangling) : Gone x := by
  obtain ⟨hframes, hevents⟩ := not_or.1 fun h => hd ⟨hc, hn, h⟩
  refine ⟨hx, hc, hn, ?_, fun l revents hphase => hevents ⟨l, revents, hphase⟩⟩
  intro t
  obtain ⟨calls, rest, heq, hcalls, hrest⟩ := (Unheld.of_not hn).kept t ▸ hx.layered t
  cases calls with
  | nil =>
    have hstack : x.server.stack t = rest := heq
    exact hstack ▸ fun f hf => (hrest f hf).2 rfl
  | cons f fs =>
    have huses := Frame.uses_of_isCall (hcalls f List.mem_cons_self)
    exact (hframes ⟨t, by rw [heq]; exact huses⟩).elim

/-- A destroyed connection is never held again, and what can still come to it is what has been
queued before. -/
structure Fades (x y : Lifetime) : Prop where
  created : y.server.created = true
  unheld : ¬ y.Held
  loop_ : y.server.loop_ = x.server.loop_
  queued : ∀ l, ∀ f ∈ (y.server.queue l).contents, f = .other ∨ f ∈ (x.server.queue l).contents
  -- a functor leaves the queue to be called
  waits : ∀ l, ∀ f ∈ (x.server.queue l).contents,
    f ∈ (y.server.queue l).contents ∨ y.server.stack (.loop l) = [.exec f]
  idle : ∀ t, ∀ f ∈ y.server.stack t, f.uses = false ∨
    ∃ l g, t = .loop l ∧ f = .exec g ∧ g ∈ (x.server.queue l).contents
  event : ∀ l revents, y.server.phase l ≠ .activeChannels (some revents)

theorem Unheld.not_held (h : Unheld x)
    (hf : ∀ l, ∀ f ∈ x.server.stack (.loop l), f.holds = false) : ¬ x.Held := by
  rintro (hr | hrefs | ⟨l, hk | ⟨f, hmem, hs⟩ | ⟨f, hmem, hh⟩⟩)
  · exact Bool.false_ne_true (h.registered.symm.trans hr)
  · exact hrefs h.refs
  · exact Bool.false_ne_true ((h.kept (.loop l)).symm.trans hk)
  · exact Bool.false_ne_true ((h.queued l f hmem).symm.trans hs)
  · exact Bool.false_ne_true ((hf l f hmem).symm.trans hh)

theorem Frame.holds_of_idle {f : Frame} (h : f.uses = false) : f.holds = false := by
  cases f with
  | exec g => cases g <;> first | rfl | cases h
  | user => rfl
  | _ => cases h

section
variable {s : Server} {a : Server.Action}

theorem Gone.guards (hx : Gone x) (ha : a ≠ .newConnection) (l : Loop) :
    x.guards s a l = false := by
  have hnone (l : Loop) : x.guard l = false :=
    (Bool.or_eq_false_iff.1 ((Unheld.of_not hx.unheld).kept (.loop l))).1
  have hleave (l' : Loop) : (if s.stack (.loop l') = [] then Function.update x.guard l' false
      else x.guard) l = false := by
    split
    · by_cases hl : l = l'
      · subst l'
        exact Function.update_self _ _ _
      · rw [Function.update_of_ne hl]
        exact hnone l
    · exact hnone l
  cases a with
  | loop l' =>
    cases hphase : x.server.phase l' with
    | activeChannels revents =>
      cases revents with
      | some revents => exact (hx.event l' revents hphase).elim
      | none =>
        simp only [Lifetime.guards, hphase]
        exact hnone l
    | poll | swap | functors =>
      simp only [Lifetime.guards, hphase]
      exact hnone l
  | newConnection => exact (ha rfl).elim
  | go t k =>
    cases t with
    | loop l' => exact hleave l'
    | user n => exact hnone l
  | leave l' => exact hleave l'
  | poll | enter | call | post | destroy => exact hnone l

theorem Gone.calls (hx : Gone x) (a : Server.Action) (l : Loop) :
    (x.calls a l).any Functor.shared = false := by
  have hu := Unheld.of_not hx.unheld
  have hnone (l : Loop) : (x.spent l).any Functor.shared = false :=
    (Bool.or_eq_false_iff.1 (hu.kept (.loop l))).2
  have hturn (l' : Loop) {fs : List Functor} (hfs : fs.any Functor.shared = false) :
      (Function.update x.spent l' fs l).any Functor.shared = false := by
    by_cases hl : l = l'
    · subst l'
      rw [Function.update_self]
      exact hfs
    · rw [Function.update_of_ne hl]
      exact hnone l
  cases a with
  | loop l' =>
    cases hphase : x.server.phase l' with
    | functors =>
      cases hq : (x.server.queue l').pop with
      | none =>
        simp only [Lifetime.calls, hphase, hq]
        exact hturn l' rfl
      | some popped =>
        obtain ⟨f, q⟩ := popped
        have hf : f.shared = false :=
          hu.queued l' f (BatchQueue.contents_pop hq ▸ List.mem_cons_self)
        simp only [Lifetime.calls, hphase, hq]
        apply hturn l'
        simp only [List.any_append, hnone, List.any_cons, hf, List.any_nil, Bool.or_self]
    | poll | activeChannels | swap =>
      simp only [Lifetime.calls, hphase]
      exact hnone l
  | _ => exact hnone l

theorem Gone.unheld_advance (hx : Gone x) (ha : a ≠ .newConnection)
    (hr : s.registered = x.server.registered)
    (hq : ∀ l, ∀ f ∈ (s.queue l).contents, f = .other ∨ f ∈ (x.server.queue l).contents) :
    Unheld (x.advance a s) := by
  have hu := Unheld.of_not hx.unheld
  refine ⟨hr.trans hu.registered, hu.refs, ?_, ?_⟩
  · intro t
    cases t with
    | loop l => exact Bool.or_eq_false_iff.2 ⟨hx.guards ha l, hx.calls a l⟩
    | user n => rfl
  · intro l f hf
    rcases hq l f hf with rfl | hf
    · rfl
    · exact hu.queued l f hf

theorem Gone.quiet (hx : Gone x) (ha : a ≠ .newConnection)
    (hsame : s.created = x.server.created ∧ s.registered = x.server.registered ∧
      s.loop_ = x.server.loop_)
    (hqueued : ∀ l, ∀ f ∈ (s.queue l).contents, f = .other ∨ f ∈ (x.server.queue l).contents)
    (hwaits : ∀ l, ∀ f ∈ (x.server.queue l).contents, f ∈ (s.queue l).contents)
    (hidle : ∀ t, ∀ f ∈ s.stack t, f.uses = false)
    (hevent : ∀ l revents, s.phase l ≠ .activeChannels (some revents)) :
    Fades x (x.advance a s) := by
  have hu : Unheld (x.advance a s) := hx.unheld_advance ha hsame.2.1 hqueued
  exact ⟨hsame.1.trans hx.created,
    hu.not_held fun l f hf => Frame.holds_of_idle (hidle (.loop l) f hf), hsame.2.2, hqueued,
    fun l f hf => .inl (hwaits l f hf), fun t f hf => .inl (hidle t f hf), hevent⟩

theorem Gone.event_update (hx : Gone x) (l : Loop) {p : Phase}
    (hp : ∀ revents, p ≠ .activeChannels (some revents)) (l' : Loop) (revents : Events) :
    Function.update x.server.phase l p l' ≠ .activeChannels (some revents) := by
  by_cases hl : l' = l
  · subst l'
    rw [Function.update_self]
    exact hp revents
  · rw [Function.update_of_ne hl]
    exact hx.event l' revents

theorem Gone.advance (hx : Gone x) (hmay : x.mayStep a = true) (hs : x.server.step a = some s) :
    Fades x (x.advance a s) := by
  have hu := Unheld.of_not hx.unheld
  have hplaced := hx.tended.server.placed
  have hkept (l : Loop) (f : Functor) (hf : f ∈ (x.server.queue l).contents) :
      f = .other ∨ f ∈ (x.server.queue l).contents := .inr hf
  have hidle {t : Thread} {rest : List Frame} (fs : List Frame) (hfs : ∀ f ∈ fs, f.uses = false)
      (hrest : ∀ f ∈ rest, f ∈ x.server.stack t) :=
    frames_goto hx.idle fs hfs hrest
  cases Step.of_step hs with
  | @go t f rest k _ hstack hg =>
    have huses := hx.idle t f (hstack ▸ List.mem_cons_self)
    cases hg with
    | exec hc =>
      cases hc with
      | other =>
        exact hx.quiet (by intro h; cases h) ⟨rfl, rfl, rfl⟩ hkept (fun _ _ hf => hf)
          (hidle [.user] (List.forall_mem_singleton.2 rfl)
            fun g hg => hstack ▸ List.mem_cons_of_mem _ hg) hx.event
      | _ => cases huses
    | _ => cases huses
  | @activeChannel l revents _ hphase => exact (hx.event l revents hphase).elim
  | handled =>
    exact hx.quiet (by intro h; cases h) ⟨rfl, rfl, rfl⟩ hkept (fun _ _ hf => hf) hx.idle
      (hx.event_update _ fun _ h => by cases h)
  | endFunctors =>
    exact hx.quiet (by intro h; cases h) ⟨rfl, rfl, rfl⟩ hkept (fun _ _ hf => hf) hx.idle
      (hx.event_update _ fun _ h => by cases h)
  | @swap l _ hphase =>
    have hb := hplaced.batch l (by rw [hphase]; intro h; cases h)
    have hsame := contents_swap hb
    exact hx.quiet (by intro h; cases h) ⟨rfl, rfl, rfl⟩ (fun l' f hf => .inr (hsame l' ▸ hf))
      (fun l' f hf => (hsame l').symm ▸ hf) hx.idle (hx.event_update _ fun _ h => by cases h)
  | @callFunctor l f q hempty hphase hq =>
    have hcontents := BatchQueue.contents_pop hq
    have hqueued (l' : Loop) (g : Functor)
        (hg : g ∈ (Function.update x.server.queue l q l').contents) :
        g = .other ∨ g ∈ (x.server.queue l').contents := .inr (mem_pop hq hg)
    have hwaits (l' : Loop) (g : Functor) (hg : g ∈ (x.server.queue l').contents) :
        g ∈ (Function.update x.server.queue l q l').contents ∨
          Function.update x.server.stack (.loop l) [.exec f] (.loop l') = [.exec g] := by
      by_cases hl : l' = l
      · subst l'
        rw [hcontents] at hg
        rw [Function.update_self, Function.update_self]
        rcases List.mem_cons.1 hg with rfl | hg
        · exact .inr rfl
        · exact .inl hg
      · rw [Function.update_of_ne hl]
        exact .inl hg
    have hstack (t : Thread) (g : Frame)
        (hg : g ∈ Function.update x.server.stack (.loop l) [.exec f] t) : g.uses = false ∨
          ∃ l' f', t = .loop l' ∧ g = .exec f' ∧ f' ∈ (x.server.queue l').contents := by
      by_cases ht : t = .loop l
      · subst t
        rw [Function.update_self] at hg
        exact .inr ⟨l, f, rfl, List.mem_singleton.1 hg, hcontents ▸ List.mem_cons_self⟩
      · rw [Function.update_of_ne ht] at hg
        exact .inl (hx.idle t g hg)
    have hu' := hx.unheld_advance (s := (x.server.setQueue l q).goto (.loop l) [.exec f])
      (a := .loop l) (by intro h; cases h) rfl hqueued
    have hholds (l' : Loop) (g : Frame)
        (hg : g ∈ Function.update x.server.stack (.loop l) [.exec f] (.loop l')) :
        g.holds = false := by
      rcases hstack (.loop l') g hg with hidle | ⟨l'', f', _, rfl, hf'⟩
      · exact Frame.holds_of_idle hidle
      · exact hu.queued l'' f' hf'
    exact ⟨hx.created, hu'.not_held hholds, rfl, hqueued, hwaits, hstack, hx.event⟩
  | @poll l revents =>
    have hnone : revents = none := by
      cases revents with
      | none => rfl
      | some revents => exact (hx.unheld (of_decide_eq_true hmay)).elim
    subst hnone
    exact hx.quiet (by intro h; cases h) ⟨rfl, rfl, rfl⟩ hkept (fun _ _ hf => hf) hx.idle
      (hx.event_update _ fun _ h => by cases h)
  | @enter l =>
    exact hx.quiet (by intro h; cases h) ⟨rfl, rfl, rfl⟩ hkept (fun _ _ hf => hf)
      (hidle [.user] (List.forall_mem_singleton.2 rfl) fun g hg => (List.not_mem_nil hg).elim)
      hx.event
  | leave hstack =>
    exact hx.quiet (by intro h; cases h) ⟨rfl, rfl, rfl⟩ hkept (fun _ _ hf => hf)
      (hidle [] (fun g hg => (List.not_mem_nil hg).elim)
        fun g hg => hstack ▸ List.mem_cons_of_mem _ hg) hx.event
  | @call t b =>
    have hnot : x.mayStep (.call t b) = false := by
      simp [mayStep, hu.refs, hu.kept]
    exact (Bool.false_ne_true (hnot.symm.trans hmay)).elim
  | @post t l =>
    refine hx.quiet (by intro h; cases h) ⟨rfl, rfl, rfl⟩ (fun l' f hf => (mem_push hf).symm) ?_
      hx.idle hx.event
    intro l' f hf
    change f ∈ (Function.update x.server.queue l ((x.server.queue l).push .other) l').contents
    by_cases hl : l' = l
    · subst l'
      rw [Function.update_self, BatchQueue.contents_push]
      exact List.mem_append_left _ hf
    · rw [Function.update_of_ne hl]
      exact hf
  | newConnection _ _ _ hc => exact (Bool.false_ne_true (hc.symm.trans hx.created)).elim
  | destroy => exact (Bool.false_ne_true hmay).elim

end

theorem Gone.step {a : Action} (hx : Gone x) (h : x.step a = some y) : Fades x y := by
  have hu := Unheld.of_not hx.unheld
  cases Steps.of_step h with
  | server hmay hs => exact hx.advance hmay hs
  | acquire _ hheld => exact (hx.unheld hheld).elim
  | release _ ht =>
    rw [hu.refs] at ht
    cases ht

theorem Gone.raw (hx : Gone x) {f : Functor} (hf : f ∈ (x.server.queue l).contents)
    (huses : (Frame.exec f).uses = true) : x.Waits := by
  have hshared := (Unheld.of_not hx.unheld).queued l f hf
  have hraw : f.raw = true ∧ f.isLocal = true := by
    cases f with
    | sendInLoop | shutdownInLoop | startReadInLoop | stopReadInLoop => exact ⟨rfl, rfl⟩
    | other => cases huses
    | _ => cases hshared
  cases hx.tended.server.placed.carries.queued l f hf hraw.2
  exact ⟨f, hf, hraw.1⟩

theorem Gone.not_dangling (hx : Gone x) : ¬ x.Dangling := by
  rintro ⟨_, _, ⟨t, ht⟩ | ⟨l, revents, hphase⟩⟩
  · cases hs : x.server.stack t with
    | nil =>
      rw [hs] at ht
      cases ht
    | cons f rest =>
      rw [hs] at ht
      exact Bool.false_ne_true ((hx.idle t f (hs ▸ List.mem_cons_self)).symm.trans ht)
  · exact hx.event l revents hphase

theorem Gone.stays {a : Action} (hx : Gone x ∧ ¬ x.Waits) (h : x.step a = some y) :
    Gone y ∧ ¬ y.Waits := by
  obtain ⟨hx, hw⟩ := hx
  have hfades := hx.step h
  have hidle (t : Thread) (f : Frame) (hf : f ∈ y.server.stack t) : f.uses = false := by
    rcases hfades.idle t f hf with hidle | ⟨l, g, _, rfl, hg⟩
    · exact hidle
    · apply Bool.eq_false_iff.2
      intro huses
      exact hw (hx.raw hg huses)
  refine ⟨⟨hx.tended.step h, hfades.created, hfades.unheld, hidle, hfades.event⟩, ?_⟩
  rintro ⟨f, hf, hraw⟩
  rw [hfades.loop_] at hf
  rcases hfades.queued _ f hf with rfl | hf
  · cases hraw
  · exact hw ⟨f, hf, hraw⟩

/-- A functor that waits is either still there or about to use the connection. -/
theorem Gone.waits {a : Action} (hx : Gone x) (hw : x.Waits) (h : x.step a = some y) :
    y.Waits ∨ y.Dangling := by
  have hfades := hx.step h
  obtain ⟨f, hf, hraw⟩ := hw
  rcases hfades.waits _ f hf with hq | hs
  · rw [← hfades.loop_] at hq
    exact .inl ⟨f, hq, hraw⟩
  · have huses : (Frame.exec f).uses = true := Frame.uses_of_isCall hraw
    exact .inr ⟨hfades.created, hfades.unheld, .inl ⟨_, by rw [hs]; exact huses⟩⟩

/-- A step that one of the loops takes by itself. -/
def Action.inner (x : Lifetime) : Action → Bool
  | .server a => a.inner x.server
  | _ => false

theorem Gone.next {a : Action} (hx : Gone x) (hw : x.Waits) (h : x.step a = some y) :
    Gone y ∧ y.Waits ∨ y.Dangling := by
  by_cases hd : y.Dangling
  · exact .inr hd
  · have hfades := hx.step h
    exact .inl ⟨(hx.tended.step h).gone hfades.created hfades.unheld hd,
      (hx.waits hw h).resolve_right hd⟩

/-- The pointers in `connections_` and in the functors keep the connection until `connectDestroyed`
has finished. -/
theorem Tended.destroyed (hx : Tended x) (hc : x.server.created = true) (hn : ¬ x.Held) :
    0 < x.server.destroyed := by
  apply Nat.pos_of_ne_zero
  intro hzero
  have hu := Unheld.of_not hn
  have hframe {t : Thread} {f : Frame} (hf : f ∈ x.server.stack t) (hlocal : f.isLocal = true)
      (hholds : f.holds = true) : False := by
    have ht := Frame.home (hx.server.placed.carries.frames t f hf) hlocal
    subst t
    exact hn (.inr (.inr ⟨_, .inr (.inr ⟨f, hf, hholds⟩)⟩))
  rcases hx.server.held hc hzero with hr | ⟨l, hf⟩ | ⟨t, hf | hf⟩
  · exact Bool.false_ne_true (hu.registered.symm.trans hr)
  · exact Bool.false_ne_true ((hu.queued l _ hf).symm.trans rfl)
  · exact hframe hf rfl rfl
  · exact hframe hf rfl rfl

/-- A thread other than that of the connection's loop keeps a pointer as long as it is in a call. -/
def Owned (x : Lifetime) : Prop :=
  ∀ t, t ≠ .loop x.server.loop_ → ∀ f ∈ x.server.stack t, f.isCall = true → t ∈ x.refs

section
variable {s : Server} {a : Server.Action} {t : Thread} {rest : List Frame}

theorem Owned.goto (ho : Owned x) (a : Server.Action) (hloop : s.loop_ = x.server.loop_)
    (fs : List Frame) (hstack : s.stack = Function.update x.server.stack t (fs ++ rest))
    (hrest : ∀ f ∈ rest, f ∈ x.server.stack t)
    (hfs : t ≠ .loop x.server.loop_ → ∀ f ∈ fs, f.isCall = true → t ∈ x.refs) :
    Owned (x.advance a s) := by
  intro u hu f hf
  have hne : u ≠ .loop x.server.loop_ := hloop ▸ hu
  have hmem : f ∈ Function.update x.server.stack t (fs ++ rest) u := hstack ▸ hf
  have hold (v : Thread) (g : Frame) (hg : g ∈ x.server.stack v) (hv : v ≠ .loop x.server.loop_)
      (hc : g.isCall = true) : v ∈ x.refs := ho v hv g hg hc
  exact frames_goto hold fs (fun g hg ht hc => hfs ht g hg hc) hrest u f hmem hne

theorem Owned.advance (ho : Owned x) (hx : Tended x) (hmay : x.mayStep a = true)
    (hs : x.server.step a = some s) : Owned (x.advance a s) := by
  have hnone {t : Thread} {f : Frame} (hf : f.isCall = false) (_ : t ≠ .loop x.server.loop_) :
      ∀ g ∈ [f], g.isCall = true → t ∈ x.refs :=
    List.forall_mem_singleton.2 fun hc => (Bool.false_ne_true (hf.symm.trans hc)).elim
  cases Step.of_step hs with
  | @go t f rest k _ hstack hg =>
    obtain ⟨fs, hnew, hleads⟩ := hg.leads
    apply ho.goto _ hg.phase.2.1 fs hnew (fun g hg => hstack ▸ List.mem_cons_of_mem _ hg)
    intro ht g hmem hcall
    have hf : f ∈ x.server.stack t := hstack ▸ List.mem_cons_self
    cases hc : f.isCall with
    | true => exact ho t ht f hf hc
    | false =>
      rcases hleads.write hc with rfl | hnot
      · exact (ht (Frame.home (hx.server.placed.carries.frames t _ hf) rfl)).elim
      · exact (Bool.false_ne_true ((hnot g hmem).symm.trans hcall)).elim
  | activeChannel | newConnection | enter =>
    exact ho.goto _ rfl [_] rfl (List.forall_mem_nil _) (hnone rfl)
  | handled | swap | endFunctors | poll | post => exact ho
  | @callFunctor l f q _ _ hq =>
    refine ho.goto _ rfl [.exec f] rfl (List.forall_mem_nil _) ?_
    intro ht g hg hcall
    cases List.mem_singleton.1 hg
    have hlocal : f.isLocal = true := by
      cases f <;> first | rfl | cases hcall
    exact (ht (congrArg _ ((hx.server.placed.carries.dequeue hq).1 hlocal))).elim
  | leave hstack =>
    exact ho.goto _ rfl [] rfl (fun g hg => hstack ▸ List.mem_cons_of_mem _ hg)
      fun _ => List.forall_mem_nil _
  | @call t b =>
    refine ho.goto _ rfl [b.frame x.server t] rfl (fun _ hg => hg) ?_
    intro ht _ _ _
    simpa [mayStep, ht] using hmay
  | destroy => exact (Bool.false_ne_true hmay).elim

end

theorem Tended.user (hx : Tended x) (hu : x.server.inUserCode t = true) :
    ∀ f ∈ x.server.stack t, f.isCall = false := by
  cases t with
  | user n =>
    have hnil : x.server.stack (.user n) = [] := of_decide_eq_true hu
    rw [hnil]
    exact List.forall_mem_nil _
  | loop l =>
    have hhead : (x.server.stack (.loop l)).head? = some .user := of_decide_eq_true hu
    have hlayered := hx.layered (.loop l)
    cases hs : x.server.stack (.loop l) with
    | nil => exact List.forall_mem_nil _
    | cons f rest =>
      rw [hs] at hhead hlayered
      cases hhead
      exact fun g hg => (hlayered.below rfl g hg).1

theorem Owned.step {a : Action} (ho : Owned x) (hx : Tended x) (h : x.step a = some y) :
    Owned y := by
  cases Steps.of_step h with
  | server hmay hs => exact ho.advance hx hmay hs
  | acquire => exact fun t ht f hf hc => List.mem_cons_of_mem _ (ho t ht f hf hc)
  | @release u hu =>
    intro t ht f hf hc
    have hne : t ≠ u := by
      rintro rfl
      exact Bool.false_ne_true ((hx.user hu f hf).symm.trans hc)
    exact (List.mem_erase_of_ne hne).2 (ho t ht f hf hc)

theorem Owned.run (h : Run Lifetime.step (Lifetime.init config) as x) : Tended x ∧ Owned x := by
  have hinit : Tended (Lifetime.init config) ∧ Owned (Lifetime.init config) :=
    ⟨Tended.init config, fun _ _ _ hf => (List.not_mem_nil hf).elim⟩
  refine h.invariant (P := fun x => Tended x ∧ Owned x) hinit ?_
  intro x a y hx hstep
  exact ⟨hx.1.step hstep, hx.2.step hx.1 hstep⟩

theorem Owned.not_dangling (ho : Owned x) (hx : Tended x)
    (hl : ∀ l, (x.server.stack (.loop l)).head?.any Frame.uses = false)
    (hp : ∀ l revents, x.server.phase l ≠ .activeChannels (some revents)) : ¬ x.Dangling := by
  rintro ⟨_, hn, ⟨t, ht⟩ | ⟨l, revents, hphase⟩⟩
  · cases t with
    | loop l => exact Bool.false_ne_true ((hl l).symm.trans ht)
    | user n =>
      cases hs : x.server.stack (.user n) with
      | nil =>
        rw [hs] at ht
        cases ht
      | cons f rest =>
        rw [hs] at ht
        have hf : f ∈ x.server.stack (.user n) := hs ▸ List.mem_cons_self
        have hcall : f.isCall = true := by
          by_contra hc
          have hlayered := hx.layered (.user n)
          rw [hs] at hlayered
          have hbelow := hlayered.below (Bool.eq_false_iff.2 hc) f List.mem_cons_self
          exact Bool.false_ne_true ((hbelow.2 rfl).symm.trans ht)
        have hmem := ho (.user n) (by intro h; cases h) f hf hcall
        rw [(Unheld.of_not hn).refs] at hmem
        cases hmem
  · exact hp l revents hphase

end

end Lifetime
end MuduoStudy
