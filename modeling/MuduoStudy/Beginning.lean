import MuduoStudy.Lifecycle

namespace MuduoStudy.Server
open Transition
set_option autoImplicit true

/-- The functors that can be in a queue before the connection is established. -/
def Functor.isFirst : Functor → Bool
  | .connectEstablished | .connectDestroyed | .other => true
  | _ => false

def Frame.isFirst : Frame → Bool
  | .user | .runInloop .connectEstablished | .exec .connectEstablished | .exec .other => true
  | _ => false

/-- A frame that leads to `connectEstablished`. -/
def Frame.establishes : Frame → Bool
  | .runInloop .connectEstablished | .exec .connectEstablished => true
  | _ => false

def establishing (frames : List Frame) : Prop := ∃ f rest, frames = f :: rest ∧ f.establishes = true

/-- The way of `connectEstablished` to its execution. No `connectDestroyed` is ahead of it. -/
inductive Awaits (s : Server) : Prop where
  | absent : s.created = false → s.registered = false →
      (∀ l, .connectDestroyed ∉ (s.queue l).contents) → Awaits s
  | base : establishing (s.stack (.loop .base)) →
      (∀ l, .connectDestroyed ∉ (s.queue l).contents) → Awaits s
  | queued (ahead behind : List Functor) : s.loop_ ≠ .base →
      (s.queue s.loop_).contents = ahead ++ .connectEstablished :: behind →
      .connectDestroyed ∉ ahead → Awaits s
  | home : establishing (s.stack (.loop s.loop_)) → Awaits s

abbrev First (stack : Thread → List Frame) (queue : Loop → BatchQueue Functor) : Prop :=
  Carries (fun t f => f.isFirst = true ∧ (f = .runInloop .connectEstablished → t = .loop .base))
    (fun _ f => f.isFirst = true) stack queue

/-- The connection is not established, and nothing else has been done with it. -/
structure Fresh (s : Server) : Prop where
  first : First s.stack s.queue
  destroys : s.destroys = 0
  awaits : Awaits s

theorem Fresh.init (config : Config) : Fresh (Server.init config) :=
  ⟨⟨fun _ _ => nofun, fun _ _ => nofun⟩, rfl, .absent rfl rfl fun _ => nofun⟩

theorem not_mem_post {queue : Loop → BatchQueue Functor} {f g : Functor} {l : Loop}
    (h : ∀ l, f ∉ (queue l).contents) (hg : f ≠ g) (l' : Loop) :
    f ∉ (Function.update queue l ((queue l).push g) l').contents := by
  by_cases hl : l' = l
  · subst l'
    rw [Function.update_self, BatchQueue.contents_push, List.mem_append, List.mem_singleton]
    rintro (hf | hf)
    · exact h l hf
    · exact hg hf
  · rw [Function.update_of_ne hl]
    exact h l'

theorem Awaits.goto {s s' : Server} (h : Awaits s) (ht : ¬ establishing (s.stack t))
    (hstack : s'.stack = Function.update s.stack t frames) (hqueue : s'.queue = s.queue)
    (hloop : s'.loop_ = s.loop_) (hcreated : s'.created = s.created)
    (hregistered : s'.registered = s.registered) : Awaits s' := by
  have hkeep (u : Thread) (hu : establishing (s.stack u)) : establishing (s'.stack u) := by
    have hne : u ≠ t := fun he => ht (he ▸ hu)
    rwa [hstack, Function.update_of_ne hne]
  cases h with
  | absent hc hr hq => exact .absent (hcreated.trans hc) (hregistered.trans hr) (hqueue ▸ hq)
  | base hb hq => exact .base (hkeep _ hb) (hqueue ▸ hq)
  | queued ahead behind hl hq ha =>
    exact .queued ahead behind (hloop ▸ hl) (by rw [hqueue, hloop, hq]) ha
  | home hh => exact .home (hloop ▸ hkeep _ hh)

theorem Awaits.post {s s' : Server} (h : Awaits s) (hstack : s'.stack = s.stack)
    (hqueue : s'.queue = Function.update s.queue l ((s.queue l).push f))
    (hf : .connectDestroyed ≠ f) (hloop : s'.loop_ = s.loop_) (hcreated : s'.created = s.created)
    (hregistered : s'.registered = s.registered) : Awaits s' := by
  cases h with
  | absent hc hr hq =>
    exact .absent (hcreated.trans hc) (hregistered.trans hr) (hqueue ▸ not_mem_post hq hf)
  | base hb hq => exact .base (hstack ▸ hb) (hqueue ▸ not_mem_post hq hf)
  | queued ahead behind hl hq ha =>
    by_cases hown : s.loop_ = l
    · subst l
      have hcontents : (s'.queue s'.loop_).contents =
          ahead ++ .connectEstablished :: (behind ++ [f]) := by
        rw [hqueue, hloop, Function.update_self, BatchQueue.contents_push, hq, List.append_assoc,
          List.cons_append]
      exact .queued ahead _ (hloop ▸ hl) hcontents ha
    · have hcontents : (s'.queue s'.loop_).contents = ahead ++ .connectEstablished :: behind := by
        rw [hqueue, hloop, Function.update_of_ne hown, hq]
      exact .queued ahead behind (hloop ▸ hl) hcontents ha
  | home hh => exact .home (hloop ▸ hstack ▸ hh)

theorem Awaits.same {s s' : Server} (h : Awaits s) (hstack : s'.stack = s.stack)
    (hqueue : ∀ l, (s'.queue l).contents = (s.queue l).contents) (hloop : s'.loop_ = s.loop_)
    (hcreated : s'.created = s.created)
    (hregistered : s.registered = false → s'.registered = false) : Awaits s' := by
  cases h with
  | absent hc hr hq =>
    exact .absent (hcreated.trans hc) (hregistered hr) fun l => hqueue l ▸ hq l
  | base hb hq => exact .base (hstack ▸ hb) fun l => hqueue l ▸ hq l
  | queued ahead behind hl hq ha =>
    exact .queued ahead behind (hloop ▸ hl) (by rw [hqueue, hloop, hq]) ha
  | home hh => exact .home (hloop ▸ hstack ▸ hh)

theorem Awaits.front {s : Server} {q : BatchQueue Functor} (h : Awaits s)
    (hs : s.stack (.loop l) = []) (hq : (s.queue l).pop = some (f, q))
    (hlocal : f.isLocal = true → l = s.loop_) : f ≠ .connectDestroyed := by
  have hcontents := BatchQueue.contents_pop hq
  rintro rfl
  cases hlocal rfl
  have hall (hn : ∀ l, .connectDestroyed ∉ (s.queue l).contents) : False :=
    hn s.loop_ (hcontents ▸ List.mem_cons_self)
  cases h with
  | absent _ _ hn => exact hall hn
  | base _ hn => exact hall hn
  | queued ahead behind _ hown ha =>
    rw [hcontents] at hown
    cases ahead with
    | nil => cases hown
    | cons g ahead => exact ha ((List.cons.inj hown).1 ▸ List.mem_cons_self)
  | home hh =>
    obtain ⟨g, rest, hg, _⟩ := hh
    cases hs.symm.trans hg

theorem Awaits.pop {s s' : Server} {q : BatchQueue Functor} (h : Awaits s)
    (hq : (s.queue l).pop = some (f, q)) (hf : f ≠ .connectEstablished)
    (hstack : s'.stack = s.stack) (hqueue : s'.queue = Function.update s.queue l q)
    (hloop : s'.loop_ = s.loop_) (hcreated : s'.created = s.created)
    (hregistered : s'.registered = s.registered) : Awaits s' := by
  have hcontents := BatchQueue.contents_pop hq
  have hrest (hall : ∀ l, .connectDestroyed ∉ (s.queue l).contents) (l' : Loop) :
      .connectDestroyed ∉ (s'.queue l').contents := by
    rw [hqueue]
    by_cases hl : l' = l
    · subst l'
      have hnot := hall l
      rw [hcontents] at hnot
      rw [Function.update_self]
      exact fun hmem => hnot (List.mem_cons_of_mem _ hmem)
    · rw [Function.update_of_ne hl]
      exact hall l'
  cases h with
  | absent hc hr hn => exact .absent (hcreated.trans hc) (hregistered.trans hr) (hrest hn)
  | base hb hn => exact .base (hstack ▸ hb) (hrest hn)
  | queued ahead behind hl hown ha =>
    by_cases hown' : s.loop_ = l
    · subst l
      rw [hcontents] at hown
      cases ahead with
      | nil => exact (hf (List.cons.inj hown).1).elim
      | cons g ahead =>
        have hnew : (s'.queue s'.loop_).contents = ahead ++ .connectEstablished :: behind := by
          rw [hqueue, hloop, Function.update_self]
          exact (List.cons.inj hown).2
        exact .queued ahead behind (hloop ▸ hl) hnew fun hmem => ha (List.mem_cons_of_mem _ hmem)
    · have hsame : (s'.queue s'.loop_).contents = ahead ++ .connectEstablished :: behind := by
        rw [hqueue, hloop, Function.update_of_ne hown', hown]
      exact .queued ahead behind (hloop ▸ hl) hsame ha
  | home hh => exact .home (hloop ▸ hstack ▸ hh)

theorem not_establishing_nil {s : Server} (hs : s.stack t = []) : ¬ establishing (s.stack t) := by
  rintro ⟨g, rest, hg, _⟩
  cases hs.symm.trans hg

theorem not_establishing_cons {s : Server} (hs : s.stack t = f :: rest)
    (hf : f.establishes = false) : ¬ establishing (s.stack t) := by
  rintro ⟨g, gs, hg, he⟩
  cases hs.symm.trans hg
  exact Bool.false_ne_true (hf.symm.trans he)

theorem not_establishing_user {s : Server} (h : s.inUserCode (.loop l) = true) :
    ¬ establishing (s.stack (.loop l)) := by
  have hhead : (s.stack (.loop l)).head? = some .user := of_decide_eq_true h
  rintro ⟨g, gs, hg, he⟩
  rw [hg] at hhead
  cases hhead
  cases he

theorem Frame.exec_ne (f g : Functor) : Frame.exec f ≠ .runInloop g := by
  intro h
  cases h

theorem Frame.user_ne (g : Functor) : Frame.user ≠ .runInloop g := by
  intro h
  cases h

theorem Fresh.goes {s s' : Server} (hf : Fresh s) (hs : s.stack t = f :: rest)
    (h : Goes s t rest k f s') : 0 < s'.established ∨ Fresh s' := by
  obtain ⟨hfirst, hbase⟩ := hf.first.frames t f (hs ▸ List.mem_cons_self)
  have hrest (g : Frame) (hg : g ∈ rest) : g ∈ s.stack t := hs ▸ List.mem_cons_of_mem _ hg
  have hgoto (g : Frame) (hg : g.isFirst = true) (hne : g ≠ .runInloop .connectEstablished) :
      First (Function.update s.stack t ([g] ++ rest)) s.queue :=
    hf.first.goto [g] (List.forall_mem_singleton.2 ⟨hg, fun he => (hne he).elim⟩) hrest
  cases h with
  | @runInLoop g ht =>
    cases g with
    | connectEstablished =>
      refine .inr ⟨hgoto (.exec .connectEstablished) rfl (Frame.exec_ne _ _), hf.destroys, ?_⟩
      apply Awaits.home
      simp only [goto, ht, Function.update_self]
      exact ⟨_, rest, rfl, rfl⟩
    | _ => cases hfirst
  | @runQueued g ht =>
    cases g with
    | connectEstablished =>
      have hown : s.loop_ ≠ .base := by
        intro hl
        exact ht ((hbase rfl).trans (congrArg _ hl.symm))
      have hfirst : First (Function.update s.stack t ([] ++ rest)) (Function.update s.queue s.loop_
          ((s.queue s.loop_).push .connectEstablished)) :=
        (hf.first.post rfl).goto [] (List.forall_mem_nil _) hrest
      refine .inr ⟨hfirst, hf.destroys, ?_⟩
      have hnew (hn : ∀ l, .connectDestroyed ∉ (s.queue l).contents) :
          Awaits ((s.post s.loop_ .connectEstablished).goto t rest) :=
        .queued (s.queue s.loop_).contents [] hown
          (by simp only [goto, post, Function.update_self, BatchQueue.contents_push]) (hn _)
      cases hf.awaits with
      | absent _ _ hn => exact hnew hn
      | base _ hn => exact hnew hn
      | queued ahead behind hl hq ha =>
        refine .queued ahead (behind ++ [.connectEstablished]) hl ?_ ha
        simp only [goto, post, Function.update_self, BatchQueue.contents_push, hq,
          List.append_assoc, List.cons_append]
      | home hh =>
        have hne : Thread.loop s.loop_ ≠ t := fun he => ht he.symm
        apply Awaits.home
        simp only [goto, post, Function.update_of_ne hne]
        exact hh
    | _ => cases hfirst
  | exec hc =>
    cases hc with
    | connectEstablished => exact .inl (Nat.succ_pos _)
    | other =>
      refine .inr ⟨hgoto .user rfl (Frame.user_ne _), hf.destroys, ?_⟩
      exact hf.awaits.goto (not_establishing_cons hs rfl) rfl rfl rfl rfl rfl
    | _ => cases hfirst
  | _ => cases hfirst

/-- As long as the connection is not established, no `connectDestroyed` overtakes
`connectEstablished`. -/
theorem Fresh.step {s s' : Server} (hp : Placed s) (hu : Untouched s) (hf : Fresh s)
    (h : s.step a = some s') : 0 < s'.established ∨ Fresh s' := by
  cases Step.of_step h with
  | go hs hg => exact hf.goes hs hg
  | activeChannel _ hphase => exact (hu.event _ _ hphase).elim
  | handled | endFunctors | poll =>
    exact .inr ⟨hf.first, hf.destroys, hf.awaits.same rfl (fun _ => rfl) rfl rfl id⟩
  | @swap l _ hphase =>
    have hb := hp.batch l (by rw [hphase]; nofun)
    have hsame (l' : Loop) : (Function.update s.queue l (s.queue l).swap l').contents =
        (s.queue l').contents := update_keeps BatchQueue.contents (BatchQueue.contents_swap hb) l'
    exact .inr ⟨hf.first.swap hb, hf.destroys, hf.awaits.same rfl hsame rfl rfl id⟩
  | @callFunctor l f q hs hphase hq =>
    obtain ⟨hfirst, hcarries⟩ := hf.first.dequeue hq
    obtain ⟨hlocal, _⟩ := hp.carries.dequeue hq
    have hcall (g : Frame) (hg : g.isFirst = true) (hne : g ≠ .runInloop .connectEstablished) :
        First (Function.update s.stack (.loop l) [g]) (Function.update s.queue l q) :=
      hcarries.goto [g] (List.forall_mem_singleton.2 ⟨hg, fun he => (hne he).elim⟩) fun _ => nofun
    cases f with
    | connectEstablished =>
      cases hlocal rfl
      refine .inr ⟨hcall (.exec .connectEstablished) rfl (Frame.exec_ne _ _), hf.destroys, ?_⟩
      apply Awaits.home
      simp only [goto, setQueue, Function.update_self]
      exact ⟨_, [], rfl, rfl⟩
    | connectDestroyed => exact (hf.awaits.front hs hq hlocal rfl).elim
    | other =>
      have hawaits : Awaits (s.setQueue l q) := hf.awaits.pop hq (by decide) rfl rfl rfl rfl rfl
      refine .inr ⟨hcall (.exec .other) rfl (Frame.exec_ne _ _), hf.destroys, ?_⟩
      exact hawaits.goto (not_establishing_nil hs) rfl rfl rfl rfl rfl
    | _ => cases hfirst
  | @enter l hs =>
    have hfits : Frame.isFirst .user = true ∧
        (.user = Frame.runInloop .connectEstablished → Thread.loop l = .loop .base) :=
      ⟨rfl, fun he => (Frame.user_ne _ he).elim⟩
    exact .inr ⟨hf.first.goto [.user] (List.forall_mem_singleton.2 hfits) fun _ => nofun,
      hf.destroys,
      hf.awaits.goto (not_establishing_nil hs) rfl rfl rfl rfl rfl⟩
  | leave hs =>
    exact .inr ⟨hf.first.goto [] (fun _ => nofun) fun g hg => hs ▸ List.mem_cons_of_mem _ hg,
      hf.destroys,
      hf.awaits.goto (not_establishing_cons hs rfl) rfl rfl rfl rfl rfl⟩
  | call _ he => cases hu.exposed.symm.trans he
  | post =>
    exact .inr ⟨hf.first.post rfl, hf.destroys, hf.awaits.post rfl rfl (by decide) rfl rfl rfl⟩
  | newConnection hs _ _ hc =>
    refine .inr ⟨hf.first.goto [.runInloop .connectEstablished]
      (List.forall_mem_singleton.2 ⟨rfl, fun _ => rfl⟩) fun _ => nofun, hf.destroys, ?_⟩
    have hbase : establishing (Function.update s.stack (.loop .base)
        [.runInloop .connectEstablished] (.loop .base)) := by
      rw [Function.update_self]
      exact ⟨_, [], rfl, rfl⟩
    cases hf.awaits with
    | absent _ _ hn => exact .base hbase hn
    | base _ hn => exact .base hbase hn
    | queued ahead behind hl hq ha => exact .queued ahead behind hl hq ha
    | home hh =>
      have hne : Thread.loop s.loop_ ≠ .loop .base := fun he =>
        not_establishing_nil hs (he ▸ hh)
      exact .home (by simpa only [goto, Function.update_of_ne hne] using hh)
  | destroy hu =>
    have hidle := not_establishing_user hu
    refine destroy_cases s ?_ ?_ ?_
    · intro hr hl
      cases hf.awaits with
      | absent _ hn => cases hn.symm.trans hr
      | base hb => exact (hidle hb).elim
      | queued _ _ hn => exact (hn hl).elim
      | home hh => exact (hidle (hl ▸ hh)).elim
    · intro hr hl
      refine .inr ⟨hf.first.post rfl, hf.destroys, ?_⟩
      cases hf.awaits with
      | absent _ hn => cases hn.symm.trans hr
      | base hb => exact (hidle hb).elim
      | queued ahead behind _ hq ha =>
        refine .queued ahead (behind ++ [.connectDestroyed]) hl ?_ ha
        simp only [post, Function.update_self, BatchQueue.contents_push, hq, List.append_assoc,
          List.cons_append]
      | home hh => exact .home hh
    · intro _
      exact .inr ⟨hf.first, hf.destroys, hf.awaits.same rfl (fun _ => rfl) rfl rfl fun _ => rfl⟩

/-- What holds before and after the connection is established. -/
structure Started (s : Server) : Prop where
  lived : Lived s
  fresh : 0 < s.established ∨ Untouched s ∧ Fresh s

theorem Started.init (config : Config) : Started (Server.init config) :=
  ⟨Lived.init config, .inr ⟨Untouched.init config, Fresh.init config⟩⟩

theorem Started.step {s s' : Server} (hi : Started s) (h : s.step a = some s') : Started s' := by
  have hmoves := Moves.step hi.lived.placed hi.lived.begun h
  refine ⟨hi.lived.step h, ?_⟩
  rcases hi.fresh with he | ⟨hu, hf⟩
  · exact .inl (Nat.lt_of_lt_of_le he hmoves.established_le)
  · rcases hu.step hi.lived.placed hi.lived.mirrored h with he | hu'
    · exact .inl he
    · rcases hf.step hi.lived.placed hu h with he | hf'
      · exact .inl he
      · exact .inr ⟨hu', hf'⟩

end MuduoStudy.Server
