import MuduoStudy.Custody
import MuduoStudy.View
import MuduoStudy.WorldStep

namespace MuduoStudy.Server
set_option autoImplicit true

theorem Leads.of_eq {s s' : Server} (h : s = s') : Leads s s' := h ▸ .refl s

theorem Leads.posts (s : Server) (l : Loop) (fs : List Functor) (hs : s.stack (.user 0) = [])
    (hfs : ∀ f ∈ fs, f = .other) : Leads s (s.setQueue l ((s.queue l).pushAll fs)) := by
  induction fs generalizing s with
  | nil =>
    have hnone : (s.queue l).pushAll [] = s.queue l := rfl
    rw [hnone, setQueue, Function.update_eq_self]
    exact .refl s
  | cons f fs ih =>
    obtain ⟨rfl, hrest⟩ := List.forall_mem_cons.1 hfs
    have hpost : s.step (.post (.user 0) l) = some (s.post l .other) := by
      simp only [Server.step, inUserCode, hs, decide_true, ↓reduceIte]
    have hmore := ih (s.post l .other) hs hrest
    have heq : (s.post l .other).setQueue l (((s.post l .other).queue l).pushAll fs) =
        s.setQueue l ((s.queue l).pushAll (.other :: fs)) := by
      simp only [setQueue, post, Function.update_self, Function.update_idem]
      rfl
    exact (Leads.step hpost (by intro h; cases h)).trans (heq ▸ hmore)

theorem Leads.postsBoth (s : Server) (fs : Loop → List Functor) (hs : s.stack (.user 0) = [])
    (hfs : ∀ l, ∀ f ∈ fs l, f = .other) :
    Leads s { s with queue := fun l => (s.queue l).pushAll (fs l) } := by
  have hbase := Leads.posts s .base (fs .base) hs (hfs .base)
  have hio := Leads.posts (s.setQueue .base ((s.queue .base).pushAll (fs .base))) .io (fs .io) hs
    (hfs .io)
  have hqueue : Function.update
      (Function.update s.queue .base ((s.queue .base).pushAll (fs .base))) .io
      ((s.queue .io).pushAll (fs .io)) = fun l => (s.queue l).pushAll (fs l) := by
    funext l
    cases l <;> rfl
  have heq : (s.setQueue .base ((s.queue .base).pushAll (fs .base))).setQueue .io
      (((s.setQueue .base ((s.queue .base).pushAll (fs .base))).queue .io).pushAll (fs .io)) =
      { s with queue := fun l => (s.queue l).pushAll (fs l) } := by
    rw [← hqueue]
    rfl
  exact hbase.trans (heq ▸ hio)

end MuduoStudy.Server

namespace MuduoStudy.World
open Transition Server
set_option autoImplicit true

theorem goto_self (s : Server) (u : Server.Thread) : s.goto u (s.stack u) = s := by
  rw [Server.goto, Function.update_eq_self]

theorem leads_uncover {s : Server} (hs : s.stack u = cover u fs) : Leads s (s.goto u fs) := by
  have hsame (h : cover u fs = fs) : Leads s (s.goto u fs) := by
    rw [← h, ← hs, goto_self]
    exact .refl s
  cases u with
  | user n => exact hsame rfl
  | loop l =>
    have hleave (hc : cover (.loop l) fs = .user :: fs) : Leads s (s.goto (.loop l) fs) := by
      have hstep : s.step (.leave l) = some (s.goto (.loop l) fs) := by
        simp only [Server.step, hs, hc]
      exact .step hstep (by intro h; cases h)
    cases fs with
    | nil => exact hleave rfl
    | cons f rest => cases f <;> first | exact hsame rfl | exact hleave rfl


section
variable {w w' : World} {t : Thread} {s : Server} {rest : List Frame}

theorem record_eq {l : Server.Loop} {c r : Bool} (hl : s.loop_ = l) (hc : s.created = c)
    (hr : s.registered = r) :
    ({ s with loop_ := l, created := c, registered := r } : Server) = s := by
  subst hl hc hr
  rfl

theorem view_goto_same (i : Nat) (fs : List Frame)
    (h : shown i (w.role i t) fs = shown i (w.role i t) (w.stack t)) :
    (w.goto t fs).view i = w.view i := by
  rw [view_goto, h, ← view_stack, goto_self]

theorem leads_go_own (i : Nat) (hs : w.stack t = .conn i f :: rest)
    (h : (w.record i).statement (w.role i t) f k = some s) :
    Leads (w.view i)
      (((w.after t i f s).goto t ((s.stack (w.role i t)).map (.conn i) ++ rest)).view i) := by
  obtain ⟨hloop, hcreated, hregistered⟩ := statement_same h
  have hstack : (w.view i).stack (w.role i t) = f :: shown i (w.role i t) rest := by
    rw [view_stack, hs, shown, if_pos rfl]
  have hstep : (w.view i).step (.go (w.role i t) k) =
      some ((w.view i).resume s (w.role i t) (shown i (w.role i t) rest)) :=
    go_of_statement hstack h
  have hregistry : s.registered =
      decide ((w.after t i f s).connections_ (w.connName i) = some i) := by
    rw [hregistered, after]
    by_cases hf : f = .exec .removeConnectionInLoop
    · simp only [hf, ↓reduceIte, Function.update_self, ne_eq, not_true_eq_false, decide_false,
        Bool.and_false, reduceCtorEq]
    · simp only [hf, ↓reduceIte, ne_eq, not_false_eq_true, decide_true, Bool.and_true]
      rfl
  have hqueue : ((w.after t i f s).view i).queue =
      fun l => ((w.view i).queue l).pushAll (s.queue l).pending := by
    funext l
    have hown (fs : List Server.Functor) : (fs.map (Functor.conn i)).map (Functor.view i) = fs := by
      rw [List.map_map]
      have hid : Functor.view i ∘ Functor.conn i = id := funext fun f => if_pos rfl
      rw [hid, List.map_id]
    have hqueue : ((w.after t i f s).view i).queue l = ((w.queue (w.place i l)).pushAll
        ((posted s (w.seen i (w.place i l))).map (.conn i))).map (Functor.view i) := rfl
    rw [hqueue, w.seen_place, BatchQueue.map_pushAll, hown]
    rfl
  have hafter : (w.after t i f s).view i =
      { s with
        phase := (w.view i).phase
        queue := fun l => ((w.view i).queue l).pushAll (s.queue l).pending
        stack := (w.view i).stack } := by
    have hrecord : (w.after t i f s).record i = s := by
      have hconn : (w.after t i f s).conns i = s := Function.update_self ..
      rw [record, hconn]
      exact record_eq hloop hcreated hregistry
    rw [view, hrecord]
    exact congrArg (fun queue => ({ s with
      phase := (w.view i).phase, queue := queue, stack := (w.view i).stack } : Server)) hqueue
  have hview : ((w.after t i f s).goto t ((s.stack (w.role i t)).map (.conn i) ++ rest)).view i =
      (w.view i).resume s (w.role i t) (shown i (w.role i t) rest) := by
    rw [view_goto, shown_own, hafter]
    rfl
  exact hview ▸ .step hstep (by intro h; cases h)

theorem leads_go_other (hj : j ≠ i) (hs : w.stack t = .conn j f :: rest)
    (hregistry : (w.after t j f s).connections_ (w.connName i) = some i ↔
      w.connections_ (w.connName i) = some i) (frames : List Server.Frame) :
    Leads (w.view i)
      (((w.after t j f s).goto t (frames.map (.conn j) ++ rest)).view i) := by
  have hfree : (w.view i).stack (.user 0) = [] := rfl
  have hother (l : Server.Loop) : ∀ g ∈ ((posted s (w.seen j (w.place i l))).map
      (Functor.conn j)).map (Functor.view i), g = .other := by
    intro g hg
    rw [List.map_map] at hg
    obtain ⟨g', _, rfl⟩ := List.mem_map.1 hg
    exact if_neg hj
  have hposts := Leads.postsBoth (w.view i) _ hfree hother
  have hqueue : ((w.after t j f s).view i).queue = fun l => ((w.view i).queue l).pushAll
      (((posted s (w.seen j (w.place i l))).map (Functor.conn j)).map (Functor.view i)) := by
    funext l
    exact BatchQueue.map_pushAll ..
  have hafter : (w.after t j f s).view i = { w.view i with
      queue := ((w.after t j f s).view i).queue } := by
    have hrecord : (w.after t j f s).record i = w.record i := by
      have hconn : (w.after t j f s).conns i = w.conns i := Function.update_of_ne hj.symm ..
      rw [record, hconn]
      exact congrArg (fun b => ({ w.record i with registered := b } : Server))
        (decide_eq_decide.2 hregistry)
    rw [view, hrecord]
    rfl
  rw [hqueue] at hafter
  rw [← hafter] at hposts
  refine hposts.trans ?_
  rw [view_goto, shown_other i _ hj]
  have hstack : ((w.after t j f s).view i).stack (w.role i t) =
      cover (w.role i t) (shown i (w.role i t) rest) := by
    have hview := view_stack (w.after t j f s) i t
    have htop : (w.after t j f s).stack t = .conn j f :: rest := hs
    rw [htop, shown, if_neg hj] at hview
    exact hview
  split
  · exact leads_uncover hstack
  · have hsame := goto_self ((w.after t j f s).view i) (w.role i t)
    rw [hstack] at hsame
    exact Leads.of_eq hsame.symm

end

section
variable {w : World} {i : Nat} {l : Loop} {l' : Server.Loop} {f : Frame}

theorem role_unseen (h : w.seen i l = none) : ∃ n, w.role i (.loop l) = .user n := by
  cases l with
  | base => cases h
  | io k => exact ⟨_, w.role_other i h⟩

theorem view_phase (h : w.seen i l = some l') : (w.view i).phase l' = (w.phase l).view i := by
  cases (w.seen_eq_some_iff i).1 h
  rfl

theorem view_queue (h : w.seen i l = some l') :
    (w.view i).queue l' = (w.queue l).map (Functor.view i) := by
  cases (w.seen_eq_some_iff i).1 h
  rfl

theorem view_idle (h : w.seen i l = some l') (hs : w.stack (.loop l) = []) :
    (w.view i).stack (.loop l') = [] := by
  have hview := w.view_stack i (.loop l)
  rw [w.role_loop i h, hs] at hview
  exact hview

/-- A frame of another connection or of the user. -/
def Frame.Foreign (i : Nat) (f : Frame) : Prop := ∀ u, shown i u [f] = cover u []

theorem Frame.foreign_user (i : Nat) : Frame.Foreign i .user := fun _ => rfl

theorem Frame.foreign_conn (hj : j ≠ i) (f : Server.Frame) : Frame.Foreign i (.conn j f) :=
  fun _ => if_neg hj

theorem view_foreign (hseen : w.seen i l = none) (hs : w.stack (.loop l) = [])
    (hf : f.Foreign i) : (w.goto (.loop l) [f]).view i = w.view i := by
  obtain ⟨n, hrole⟩ := role_unseen hseen
  apply view_goto_same
  rw [hrole, hf, hs]
  rfl

theorem leads_foreign (hs : w.stack (.loop l) = []) (hp : (w.phase l).outside = true)
    (hf : f.Foreign i) : Leads (w.view i) ((w.goto (.loop l) [f]).view i) := by
  cases hseen : w.seen i l with
  | none => exact .of_eq (view_foreign hseen hs hf).symm
  | some l' =>
    have houtside : ((w.view i).phase l').outside = true := by
      rw [view_phase hseen]
      cases hphase : w.phase l with
      | poll | activeChannels => rfl
      | swap | functors =>
        rw [hphase] at hp
        cases hp
    have hstep : (w.view i).step (.enter l') = some ((w.view i).goto (.loop l') [.user]) := by
      simp only [Server.step, view_idle hseen hs, houtside, and_self, ↓reduceIte]
    rw [view_goto, w.role_loop i hseen, hf]
    exact .step hstep (by intro h; cases h)

theorem leads_loop {s : Server} (hs : (w.view i).stack (.loop l') = [])
    (h : (w.view i).loop l' = some s) : Leads (w.view i) s := by
  have hstep : (w.view i).step (.loop l') = some s := by
    simp only [Server.step, hs, ↓reduceIte, h]
  exact .step hstep (by intro h; cases h)

theorem leads_activeChannel (hs : w.stack (.loop l) = [])
    (hp : w.phase l = .activeChannels ((j, revents) :: events))
    (hevents : (((j, revents) :: events).map Prod.fst).Nodup) (hj : w.ioLoop j = l) :
    Leads (w.view i) (((w.setPhase l (.activeChannels events)).goto (.loop l)
      [.conn j (.handleEvent revents)]).view i) := by
  rw [List.map_cons, List.nodup_cons] at hevents
  by_cases hji : j = i
  · subst j
    have hseen := w.seen_ioLoop i
    rw [hj] at hseen
    generalize (w.record i).loop_ = l' at hseen
    have hphase : (w.view i).phase l' = .activeChannels (some revents) := by
      rw [view_phase hseen, hp, Phase.view, List.lookup_cons_self]
    have hnone : events.lookup i = none := by
      rw [List.lookup_eq_none_iff]
      intro e he
      have hne : i ≠ e.1 := by
        rintro rfl
        exact hevents.1 (List.mem_map.2 ⟨e, he, rfl⟩)
      exact bne_iff_ne.2 hne
    have hview : ((w.setPhase l (.activeChannels events)).goto (.loop l)
        [.conn i (.handleEvent revents)]).view i =
        ((w.view i).setPhase l' (.activeChannels none)).goto (.loop l') [.handleEvent revents] := by
      have hown : shown i (.loop l') [.conn i (.handleEvent revents)] = [.handleEvent revents] :=
        if_pos rfl
      have hrole : (w.setPhase l (.activeChannels events)).role i (.loop l) = .loop l' :=
        w.role_loop i hseen
      rw [view_goto, hrole, hown, w.view_setPhase i _ hseen, Phase.view, hnone]
    rw [hview]
    apply leads_loop (view_idle hseen hs)
    rw [Server.loop, hphase]
  · have hsame : (w.setPhase l (.activeChannels events)).view i = w.view i := by
      cases hseen : w.seen i l with
      | none => exact w.view_setPhase_other i _ hseen
      | some l' =>
        have hlookup : (Phase.activeChannels events).view i = (w.view i).phase l' := by
          have hne : (i == j) = false := beq_false_of_ne (Ne.symm hji)
          rw [view_phase hseen, hp, Phase.view, Phase.view, List.lookup_cons, hne]
        rw [w.view_setPhase i _ hseen, hlookup, Server.setPhase, Function.update_eq_self]
    have houtside : ((w.setPhase l (.activeChannels events)).phase l).outside = true := by
      simp only [setPhase, Function.update_self, Phase.outside]
    have hleads := leads_foreign (i := i) (w := w.setPhase l (.activeChannels events)) hs houtside
      (Frame.foreign_conn hji (.handleEvent revents))
    rwa [hsame] at hleads

theorem leads_setPhase (hs : w.stack (.loop l) = []) (p : Phase)
    (h : ∀ l', w.seen i l = some l' →
      (w.view i).loop l' = some ((w.view i).setPhase l' (p.view i))) :
    Leads (w.view i) ((w.setPhase l p).view i) := by
  cases hseen : w.seen i l with
  | none => exact .of_eq (w.view_setPhase_other i p hseen).symm
  | some l' =>
    rw [w.view_setPhase i p hseen]
    exact leads_loop (view_idle hseen hs) (h l' hseen)

theorem leads_handled (hs : w.stack (.loop l) = []) (hp : w.phase l = .activeChannels []) :
    Leads (w.view i) ((w.setPhase l .swap).view i) := by
  apply leads_setPhase hs
  intro l' hseen
  rw [Server.loop, view_phase hseen, hp]
  rfl

theorem leads_endFunctors (hs : w.stack (.loop l) = []) (hp : w.phase l = .functors)
    (hq : (w.queue l).pop = none) : Leads (w.view i) ((w.setPhase l .poll).view i) := by
  apply leads_setPhase hs
  intro l' hseen
  simp only [Server.loop, view_phase hseen, hp, view_queue hseen, BatchQueue.map_pop, hq,
    Phase.view, Option.map_none]

theorem leads_swap (hs : w.stack (.loop l) = []) (hp : w.phase l = .swap) :
    Leads (w.view i) (((w.setQueue l (w.queue l).swap).setPhase l .functors).view i) := by
  cases hseen : w.seen i l with
  | none =>
    apply Leads.of_eq
    have hseen' : (w.setQueue l (w.queue l).swap).seen i l = none := hseen
    rw [view_setPhase_other _ i _ hseen', w.view_setQueue_other i _ hseen]
  | some l' =>
    have hseen' : (w.setQueue l (w.queue l).swap).seen i l = some l' := hseen
    rw [view_setPhase _ i _ hseen', w.view_setQueue i _ hseen, BatchQueue.map_swap,
      ← view_queue hseen]
    apply leads_loop (view_idle hseen hs)
    simp only [Server.loop, view_phase hseen, hp, Phase.view]

theorem leads_callFunctor (hs : w.stack (.loop l) = []) (hp : w.phase l = .functors)
    (hq : (w.queue l).pop = some (g, q)) (hknown : ∀ f, g = .conn i f → w.seen i l ≠ none) :
    Leads (w.view i) (((w.setQueue l q).goto (.loop l) [g.frame]).view i) := by
  have hforeign (hg : ∀ f, g ≠ .conn i f) : g.frame.Foreign i := by
    cases g with
    | other => exact Frame.foreign_user i
    | conn j f =>
      apply Frame.foreign_conn
      rintro rfl
      exact hg f rfl
  cases hseen : w.seen i l with
  | none =>
    have hseen' : (w.setQueue l q).seen i l = none := hseen
    have hg (f : Server.Functor) : g ≠ .conn i f := fun hg => hknown f hg hseen
    apply Leads.of_eq
    rw [view_foreign hseen' hs (hforeign hg), w.view_setQueue_other i _ hseen]
  | some l' =>
    have hidle := view_idle hseen hs
    have hrole : (w.setQueue l q).role i (.loop l) = .loop l' := w.role_loop i hseen
    have hloop : (w.view i).loop l' = some
        (((w.view i).setQueue l' (q.map (Functor.view i))).goto (.loop l')
          [.exec (g.view i)]) := by
      simp only [Server.loop, view_phase hseen, hp, Phase.view, view_queue hseen,
        BatchQueue.map_pop, hq, Option.map_some]
    have hleads := leads_loop hidle hloop
    rw [view_goto, hrole, w.view_setQueue i _ hseen]
    by_cases hg : ∃ f, g = .conn i f
    · obtain ⟨f, rfl⟩ := hg
      have hview : shown i (.loop l') [(Functor.conn i f).frame] =
          [.exec ((Functor.conn i f).view i)] := by
        simp only [Functor.frame, shown, Functor.view, ↓reduceIte]
      rwa [hview]
    · have hg' (f : Server.Functor) : g ≠ .conn i f := fun h => hg ⟨f, h⟩
      have hview : g.view i = .other := by
        cases g with
        | other => rfl
        | conn j f =>
          apply if_neg
          rintro rfl
          exact hg' f rfl
      -- the functor is called, and runs code of the user
      rw [hview] at hleads
      refine hleads.trans ?_
      rw [hforeign hg']
      have hgo (s : Server) : (s.goto (.loop l') [.exec .other]).step (.go (.loop l') {}) =
          some (s.goto (.loop l') [.user]) := by
        simp only [Server.step, Server.go, Server.goto, Server.call, Function.update_self,
          Function.update_idem]
      exact .step (hgo _) (by intro h; cases h)

theorem leads_poll (hs : w.stack (.loop l) = []) (hp : w.phase l = .poll)
    (hr : ∀ e ∈ events, w.reports l e = true) :
    Leads (w.view i) ((w.setPhase l (.activeChannels events)).view i) := by
  cases hseen : w.seen i l with
  | none => exact .of_eq (w.view_setPhase_other i _ hseen).symm
  | some l' =>
    have hreports (he : (events.lookup i).isSome = true) : l' = (w.view i).loop_ ∧
        ((w.view i).conn.poller_.interest (w.view i).conn.channel_.fd_).isSome = true := by
      obtain ⟨revents, hlookup⟩ := Option.isSome_iff_exists.1 he
      obtain ⟨as, bs, rfl, _⟩ := List.lookup_eq_some_iff.1 hlookup
      have hreport := hr (i, revents) (List.mem_append_right _ List.mem_cons_self)
      obtain ⟨hl, hinterest⟩ := of_decide_eq_true hreport
      have hown := w.seen_ioLoop i
      rw [hl, hseen] at hown
      exact ⟨Option.some.inj hown, hinterest⟩
    have hstep : (w.view i).step (.poll l' (events.lookup i)) =
        some ((w.view i).setPhase l' (.activeChannels (events.lookup i))) := by
      have hphase : (w.view i).phase l' = .poll := by
        rw [view_phase hseen, hp]
        rfl
      simp only [Server.step, view_idle hseen hs, hphase, true_and]
      exact if_pos hreports
    rw [w.view_setPhase i _ hseen]
    exact .step hstep (by intro h; cases h)

theorem leads_leave (hs : w.stack (.loop l) = f :: rest) (hf : f.isUser = true)
    (hown : f = .conn i .user → w.seen i l ≠ none) :
    Leads (w.view i) ((w.goto (.loop l) rest).view i) := by
  have hstack := w.view_stack i (.loop l)
  rw [hs] at hstack
  rw [view_goto]
  cases f with
  | user => exact leads_uncover hstack
  | conn j g =>
    cases g with
    | user =>
      by_cases hj : j = i
      · subst j
        obtain ⟨l', hseen⟩ := Option.ne_none_iff_exists'.1 (hown rfl)
        rw [w.role_loop i hseen, shown, if_pos rfl] at hstack
        rw [w.role_loop i hseen]
        have hstep : (w.view i).step (.leave l') =
            some ((w.view i).goto (.loop l') (shown i (.loop l') rest)) := by
          simp only [Server.step, hstack]
        exact .step hstep (by intro h; cases h)
      · rw [shown, if_neg hj] at hstack
        exact leads_uncover hstack
    | _ => cases hf

theorem leads_post : Leads (w.view i) ((w.post l .other).view i) := by
  have hpost : w.post l .other = w.setQueue l ((w.queue l).push .other) := rfl
  rw [hpost]
  cases hseen : w.seen i l with
  | none => exact .of_eq (w.view_setQueue_other i _ hseen).symm
  | some l' =>
    rw [w.view_setQueue i _ hseen, BatchQueue.map_push, ← view_queue hseen]
    exact Leads.posts (w.view i) l' [.other] rfl (List.forall_mem_singleton.2 rfl)

theorem top_of_inUserCode (hu : w.inUserCode (.loop l) = true) :
    ∃ f rest, w.stack (.loop l) = f :: rest ∧ (f = .user ∨ ∃ j, f = .conn j .user) := by
  rw [inUserCode] at hu
  cases hs : w.stack (.loop l) with
  | nil =>
    rw [hs] at hu
    cases hu
  | cons f rest =>
    rw [hs] at hu
    refine ⟨f, rest, rfl, ?_⟩
    cases f with
    | user => exact .inl rfl
    | conn j g =>
      cases g with
      | user => exact .inr ⟨j, rfl⟩
      | _ => cases hu

theorem cover_of_inUserCode (hu : w.inUserCode t = true) :
    cover (w.role i t) (shown i (w.role i t) (w.stack t)) =
      shown i (w.role i t) (w.stack t) := by
  cases hrole : w.role i t with
  | user n => rfl
  | loop l' =>
    cases t with
    | user n => cases hrole
    | loop l =>
      obtain ⟨f, rest, hs, hf⟩ := top_of_inUserCode hu
      rw [hs]
      rcases hf with rfl | ⟨j, rfl⟩
      · exact cover_cover _ _
      · rw [shown]
        split
        · rfl
        · exact cover_cover _ _

theorem inUserCode_view (hu : w.inUserCode t = true)
    (hown : ∀ n, w.role i t = .user n → shown i (w.role i t) (w.stack t) = []) :
    (w.view i).inUserCode (w.role i t) = true := by
  have hstack := w.view_stack i t
  have hcover := cover_of_inUserCode (i := i) hu
  cases hrole : w.role i t with
  | user n =>
    have hempty := hown n hrole
    rw [hrole] at hstack hempty
    exact decide_eq_true (hstack.trans hempty)
  | loop l' =>
    have htop (fs : List Server.Frame) : (cover (.loop l') fs).head? = some .user := by
      cases fs with
      | nil => rfl
      | cons f fs => cases f <;> rfl
    rw [hrole] at hstack hcover
    rw [← hcover] at hstack
    exact decide_eq_true (hstack ▸ htop _)

theorem called_counts (w : World) (i : Nat) (calls : List Sent) (j : Nat) :
    ((w.called i calls).conns j).established = (w.conns j).established ∧
      ((w.called i calls).conns j).destroyQueued = (w.conns j).destroyQueued := by
  by_cases hj : j = i
  · subst j
    have hself : (w.called i calls).conns i = { w.record i with called := calls } :=
      Function.update_self ..
    rw [hself]
    exact ⟨rfl, rfl⟩
  · have hother : (w.called i calls).conns j = w.conns j := Function.update_of_ne hj ..
    rw [hother]
    exact ⟨rfl, rfl⟩

theorem leads_call_own (hu : w.inUserCode t = true) (he : (w.conns i).exposed = true)
    (hown : ∀ n, w.role i t = .user n → shown i (w.role i t) (w.stack t) = []) :
    Leads (w.view i) ((w.call t i a).view i) := by
  have hexposed : (w.view i).exposed = true := he
  have hstep : (w.view i).step (.call (w.role i t) a) =
      some (({ w.view i with called := a.record (w.view i) (w.role i t) } : Server).goto
        (w.role i t) (a.frame (w.view i) (w.role i t) :: (w.view i).stack (w.role i t))) := by
    simp only [Server.step, inUserCode_view hu hown, hexposed, and_self, ↓reduceIte]
  have hsame : a.record (w.view i) (w.role i t) = a.record (w.record i) (w.role i t) ∧
      a.frame (w.view i) (w.role i t) = a.frame (w.record i) (w.role i t) := by
    cases a <;> exact ⟨rfl, rfl⟩
  rw [hsame.1, hsame.2, view_stack] at hstep
  have hview : (w.call t i a).view i =
      ({ w.view i with called := a.record (w.record i) (w.role i t) } : Server).goto (w.role i t)
        (a.frame (w.record i) (w.role i t) :: shown i (w.role i t) (w.stack t)) := by
    have hown' : shown i (w.role i t) (.conn i (a.frame (w.record i) (w.role i t)) :: w.stack t) =
        a.frame (w.record i) (w.role i t) :: shown i (w.role i t) (w.stack t) := if_pos rfl
    have hrecord : (w.called i (a.record (w.record i) (w.role i t))).record i =
        { w.record i with called := a.record (w.record i) (w.role i t) } := by
      have hconn : (w.called i (a.record (w.record i) (w.role i t))).conns i =
          { w.record i with called := a.record (w.record i) (w.role i t) } :=
        Function.update_self ..
      rw [record, hconn]
      rfl
    have hrole : (w.called i (a.record (w.record i) (w.role i t))).role i t = w.role i t := rfl
    rw [call, view_goto, hrole, hown', view, hrecord]
    rfl
  exact hview ▸ .step hstep (by intro h; cases h)

theorem leads_call_other (hj : j ≠ i) (hu : w.inUserCode t = true) :
    Leads (w.view i) ((w.call t j a).view i) := by
  have hrecord : (w.called j (a.record (w.record j) (w.role j t))).view i = w.view i := by
    have hconn : (w.called j (a.record (w.record j) (w.role j t))).conns i = w.conns i :=
      Function.update_of_ne hj.symm ..
    rw [view, record, hconn]
    rfl
  have hstack : shown i (w.role i t) (.conn j (a.frame (w.record j) (w.role j t)) :: w.stack t) =
      shown i (w.role i t) (w.stack t) := by
    rw [shown, if_neg hj, cover_of_inUserCode hu]
  have hsame := view_goto_same (w := w.called j (a.record (w.record j) (w.role j t))) i _ hstack
  exact .of_eq (hrecord.symm.trans hsame.symm)

theorem view_addConnection (w : World) (i : Nat) (hdealt : w.getNextLoop.1 = w.ioLoop w.created) :
    w.addConnection.view i = { w.view i with
      created := decide (i < w.created + 1)
      registered :=
        decide (w.addConnection.connections_ (w.addConnection.connName i) = some i) } := by
  have heq : w.addConnection = { w with
      next_ := w.addConnection.next_
      nextConnId_ := w.addConnection.nextConnId_
      created := w.created + 1
      connName := w.addConnection.connName
      connections_ := w.addConnection.connections_ } := by
    simp only [addConnection, hdealt, Function.update_eq_self]
  rw [heq]
  rfl

theorem leads_new_own (hs : w.stack (.loop .base) = [])
    (hp : w.phase .base = .activeChannels events)
    (hdealt : w.getNextLoop.1 = w.ioLoop w.created) (halive : (w.view w.created).alive = true) :
    Leads (w.view w.created) (w.newConnection.view w.created) := by
  have hphase : (w.view w.created).phase .base = .activeChannels (events.lookup w.created) := by
    have hview : (w.view w.created).phase .base = (w.phase .base).view w.created :=
      view_phase rfl
    rw [hview, hp]
    rfl
  have hcreated : (w.view w.created).created = false := decide_eq_false (Nat.lt_irrefl _)
  have hidle : (w.view w.created).stack (.loop .base) = [] := view_idle (l := .base) rfl hs
  have hstep : (w.view w.created).step .newConnection =
      some (({ w.view w.created with created := true, registered := true } : Server).goto
        (.loop .base) [.runInloop .connectEstablished]) := by
    simp only [Server.step, hphase, hidle, halive, hcreated, Bool.not_false, and_self, ↓reduceIte]
  have hnow : decide (w.created < w.created + 1) = true := decide_eq_true (Nat.lt_succ_self _)
  have hentry : decide (w.addConnection.connections_ (w.addConnection.connName w.created) =
      some w.created) = true := by
    apply decide_eq_true
    simp only [addConnection, Function.update_self]
  have hadd := w.view_addConnection w.created hdealt
  rw [hnow, hentry] at hadd
  have hseen : w.addConnection.role w.created (.loop .base) = .loop .base := rfl
  have hown : shown w.created (.loop .base) [.conn w.created (.runInloop .connectEstablished)] =
      [.runInloop .connectEstablished] := if_pos rfl
  rw [newConnection, view_goto, hseen, hown, hadd]
  exact .step hstep (by intro h; cases h)

theorem leads_new_other (hs : w.stack (.loop .base) = [])
    (hp : w.phase .base = .activeChannels events) (hi : i ≠ w.created)
    (hdealt : w.getNextLoop.1 = w.ioLoop w.created)
    (hregistry : w.addConnection.connections_ (w.connName i) = some i ↔
      w.connections_ (w.connName i) = some i) :
    Leads (w.view i) (w.newConnection.view i) := by
  have hadd := w.view_addConnection i hdealt
  have hname : w.addConnection.connName i = w.connName i := Function.update_of_ne hi ..
  have hcreated : decide (i < w.created + 1) = decide (i < w.created) :=
    decide_eq_decide.2 ⟨fun h => by omega, fun h => by omega⟩
  rw [hname, hcreated, decide_eq_decide.2 hregistry] at hadd
  have hsame : w.addConnection.view i = w.view i := hadd
  have houtside : (w.addConnection.phase .base).outside = true := by
    have hphase : w.addConnection.phase .base = .activeChannels events := hp
    rw [hphase]
    rfl
  have hleads := leads_foreign (w := w.addConnection) (l := .base) hs houtside
    (Frame.foreign_conn hi.symm (.runInloop .connectEstablished))
  rwa [hsame] at hleads

end

end MuduoStudy.World
