import MuduoStudy.Interleaving

namespace MuduoStudy.World
open Transition Server
set_option autoImplicit true

/-- The pool deals the loops that the connections have. -/
structure Pooled (config : Config) (w : World) : Prop where
  size : w.numThreads_ = config.numThreads_
  ioLoop : w.ioLoop = config.ioLoop
  next : config.numThreads_ ≠ 0 → w.next_ = w.created % config.numThreads_

theorem Pooled.init (config : Config) : Pooled config (World.init config) :=
  ⟨rfl, rfl, fun _ => (Nat.zero_mod _).symm⟩

theorem Pooled.dealt {w : World} (h : Pooled config w) :
    w.getNextLoop.1 = w.ioLoop w.created := by
  rw [h.ioLoop, Config.ioLoop, getNextLoop, h.size]
  split
  · rfl
  · rename_i hn
    rw [h.next hn]

theorem Pooled.ioLoop_add {w : World} (h : Pooled config w) :
    w.addConnection.ioLoop = w.ioLoop := by
  have hupdate : w.addConnection.ioLoop =
      Function.update w.ioLoop w.created w.getNextLoop.1 := rfl
  rw [hupdate, h.dealt, Function.update_eq_self]

theorem wrap_eq (c : Nat) (hn : n ≠ 0) :
    (if n ≤ c % n + 1 then 0 else c % n + 1) = (c + 1) % n := by
  have hlt := Nat.mod_lt c (Nat.pos_of_ne_zero hn)
  rw [← Nat.mod_add_mod]
  split
  · rename_i hle
    have hn : c % n + 1 = n := Nat.le_antisymm hlt hle
    rw [hn, Nat.mod_self]
  · rename_i hle
    exact (Nat.mod_eq_of_lt (Nat.lt_of_not_le hle)).symm

theorem Pooled.step {w w' : World} (h : Pooled config w) (hs : Step w a w') :
    Pooled config w' := by
  cases hs with
  | newConnection =>
    refine ⟨h.size, h.ioLoop_add.trans h.ioLoop, ?_⟩
    intro hn
    have hnext : w.newConnection.next_ = w.getNextLoop.2 := rfl
    have hcreated : w.newConnection.created = w.created + 1 := rfl
    have hsize : ¬ w.numThreads_ = 0 := h.size ▸ hn
    have hwrap := wrap_eq w.created hn
    rw [← h.next hn] at hwrap
    rw [hnext, hcreated, getNextLoop, if_neg hsize, h.size]
    exact hwrap
  | go | activeChannel | handled | swap | endFunctors | callFunctor | poll | enter | leave | call
  | post => exact ⟨h.size, h.ioLoop, h.next⟩

/-- The new connection gets a name of its own. -/
def NewName (w : World) : Action → Prop
  | .newConnection => ∀ i < w.created, w.connName i ≠ TcpServer.connName w.name_ w.nextConnId_
  | _ => True

instance (w : World) (a : Action) : Decidable (NewName w a) :=
  match a with
  | .newConnection => inferInstanceAs (Decidable (∀ i < w.created, _ ≠ _))
  | .go _ _ | .loop _ | .poll _ _ | .enter _ | .leave _ | .call _ _ _ | .post _ _ => .isTrue trivial

/-- The connections have different names, and `connections_` knows them by these names. -/
structure Named (w : World) : Prop where
  apart : ∀ i j, i < w.created → j < w.created → w.connName i = w.connName j → i = j
  entry : ∀ n i, w.connections_ n = some i → i < w.created ∧ w.connName i = n

theorem Named.init (config : Config) : Named (World.init config) :=
  ⟨fun _ _ hi => (Nat.not_lt_zero _ hi).elim, fun _ _ h => by cases h⟩

theorem Named.step {w w' : World} (h : Named w) (hn : NewName w a) (hs : Step w a w') :
    Named w' := by
  cases hs with
  | @go t j f rest k s =>
    have hentry (n : List Char) (i : Nat) (hi : (w.after t j f s).connections_ n = some i) :
        w.connections_ n = some i := by
      rw [after] at hi
      by_cases hf : f = .exec .removeConnectionInLoop
      · simp only [hf, ↓reduceIte] at hi
        by_cases hname : n = w.connName j
        · rw [hname, Function.update_self] at hi
          cases hi
        · rwa [Function.update_of_ne hname] at hi
      · simpa only [hf, ↓reduceIte] using hi
    exact ⟨h.apart, fun n i hi => h.entry n i (hentry n i hi)⟩
  | newConnection =>
    have hnew : w.newConnection.connName w.created =
        TcpServer.connName w.name_ w.nextConnId_ := Function.update_self ..
    have hold (i : Nat) (hi : i < w.created) : w.newConnection.connName i = w.connName i :=
      Function.update_of_ne (Nat.ne_of_lt hi) ..
    have hlast (i : Nat) (hi : i < w.created + 1) : i < w.created ∨ i = w.created := by omega
    refine ⟨?_, ?_⟩
    · intro i j hi hj hij
      rcases hlast i hi with hi | rfl
      · rw [hold i hi] at hij
        rcases hlast j hj with hj | rfl
        · rw [hold j hj] at hij
          exact h.apart i j hi hj hij
        · rw [hnew] at hij
          exact (hn i hi hij).elim
      · rw [hnew] at hij
        rcases hlast j hj with hj | rfl
        · rw [hold j hj] at hij
          exact (hn j hj hij.symm).elim
        · rfl
    · intro n i hi
      have hupdate : w.newConnection.connections_ = Function.update w.connections_
          (TcpServer.connName w.name_ w.nextConnId_) (some w.created) := rfl
      rw [hupdate] at hi
      by_cases hname : n = TcpServer.connName w.name_ w.nextConnId_
      · rw [hname, Function.update_self] at hi
        cases hi
        exact ⟨Nat.lt_succ_self _, hnew.trans hname.symm⟩
      · rw [Function.update_of_ne hname] at hi
        obtain ⟨hlt, hn⟩ := h.entry n i hi
        exact ⟨Nat.lt_succ_of_lt hlt, (hold i hlt).trans hn⟩
  | activeChannel | handled | swap | endFunctors | callFunctor | poll | enter | leave | call
  | post => exact ⟨h.apart, h.entry⟩

/-- A loop handles at most one event of each connection, and only of its own. -/
def Listed (w : World) : Prop := ∀ l events, w.phase l = .activeChannels events →
  (events.map Prod.fst).Nodup ∧ ∀ e ∈ events, w.ioLoop e.1 = l

theorem Listed.setPhase {w : World} (h : Listed w) (p : Phase)
    (hp : ∀ events, p = .activeChannels events →
      (events.map Prod.fst).Nodup ∧ ∀ e ∈ events, w.ioLoop e.1 = l) :
    Listed (w.setPhase l p) := by
  intro l' events he
  by_cases hl : l' = l
  · subst l'
    simp only [World.setPhase, Function.update_self] at he
    exact hp events he
  · simp only [World.setPhase, Function.update_of_ne hl] at he
    exact h l' events he

theorem Listed.step {w w' : World} (hp : Pooled config w) (h : Listed w) (hs : Step w a w') :
    Listed w' := by
  cases hs with
  | @activeChannel l i revents events _ hphase =>
    obtain ⟨hnodup, hloop⟩ := h l _ hphase
    rw [List.map_cons, List.nodup_cons] at hnodup
    apply h.setPhase
    rintro _ ⟨⟩
    exact ⟨hnodup.2, fun e he => hloop e (List.mem_cons_of_mem _ he)⟩
  | handled | endFunctors => exact h.setPhase _ fun _ he => by cases he
  | swap => exact Listed.setPhase (w := w.setQueue _ _) h _ fun _ he => by cases he
  | @poll l events _ _ hnodup hreports =>
    apply h.setPhase
    rintro _ ⟨⟩
    exact ⟨hnodup, fun e he => (of_decide_eq_true (hreports e he)).1⟩
  | newConnection =>
    intro l events he
    have hioLoop : w.newConnection.ioLoop = w.ioLoop := hp.ioLoop_add
    rw [hioLoop]
    exact h l events he
  | go | callFunctor | enter | leave | call | post => exact h

def Frame.isBelow : Frame → Bool
  | .conn _ f => f.isBelow
  | .user => true

/-- A connection's frame is one of its own, and it calls the user only once it is established. -/
def Frame.Proper (w : World) : Frame → Prop
  | .conn i f => f.isOwn = true ∨ f = .user ∧ 0 < (w.conns i).established
  | .user => True

/-- A connection's functor is one of its own, on a loop that it knows. -/
def Functor.Proper (w : World) (l : Loop) : Functor → Prop
  | .conn i f => w.seen i l ≠ none ∧ f ≠ .other
  | .other => True

structure Arranged (w : World) : Prop where
  frames : ∀ t, ∀ f ∈ w.stack t, f.Proper w
  queued : ∀ l, ∀ f ∈ (w.queue l).contents, f.Proper w l
  below : ∀ t, ∀ f ∈ (w.stack t).tail, f.isBelow = true

section
variable {w w' : World} {t : Thread} {l : Loop} {f : Frame} {rest : List Frame}

theorem Frame.Proper.mono (h : ∀ i, (w.conns i).established ≤ (w'.conns i).established)
    (hf : f.Proper w) : f.Proper w' := by
  cases f with
  | user => trivial
  | conn i f => exact hf.imp id (And.imp id fun he => Nat.lt_of_lt_of_le he (h i))

theorem Arranged.goto (h : Arranged w) (fs : List Frame) (hfs : ∀ f ∈ fs, f.Proper w)
    (htail : ∀ f ∈ fs.tail, f.isBelow = true) (hrest : ∀ f ∈ rest, f ∈ w.stack t)
    (hbelow : ∀ f ∈ rest, f.isBelow = true) : Arranged (w.goto t (fs ++ rest)) := by
  refine ⟨frames_goto h.frames fs hfs hrest, h.queued, ?_⟩
  intro u f hf
  by_cases hu : u = t
  · subst u
    simp only [World.goto, Function.update_self] at hf
    cases fs with
    | nil => exact hbelow f (List.mem_of_mem_tail hf)
    | cons g gs =>
      rw [List.cons_append, List.tail_cons, List.mem_append] at hf
      exact hf.elim (htail f) (hbelow f)
  · simp only [World.goto, Function.update_of_ne hu] at hf
    exact h.below u f hf

theorem Arranged.setQueue {q : BatchQueue Functor} (h : Arranged w)
    (hq : ∀ f ∈ q.contents, f.Proper w l) : Arranged (w.setQueue l q) := by
  refine ⟨h.frames, ?_, h.below⟩
  intro l' f hf
  by_cases hl : l' = l
  · subst l'
    simp only [World.setQueue, Function.update_self] at hf
    exact hq f hf
  · simp only [World.setQueue, Function.update_of_ne hl] at hf
    exact h.queued l' f hf

theorem Arranged.setPhase (h : Arranged w) (p : Phase) : Arranged (w.setPhase l p) :=
  ⟨h.frames, h.queued, h.below⟩

theorem Arranged.user_below (h : Arranged w) (hu : w.inUserCode t = true) :
    ∀ f ∈ w.stack t, f.isBelow = true := by
  intro f hf
  cases t with
  | user n =>
    rw [of_decide_eq_true hu] at hf
    cases hf
  | loop l =>
    have hbelow := h.below (.loop l)
    obtain ⟨g, rest, hs, hg⟩ := top_of_inUserCode hu
    rw [hs] at hf hbelow
    rcases List.mem_cons.1 hf with rfl | hf
    · rcases hg with rfl | ⟨j, rfl⟩
      · rfl
      · rfl
    · exact hbelow f hf

theorem Arranged.belowTop (h : Arranged w) (hs : w.stack t = f :: rest) :
    (∀ g ∈ rest, g ∈ w.stack t) ∧ ∀ g ∈ rest, g.isBelow = true := by
  have hbelow := h.below t
  rw [hs] at hbelow ⊢
  exact ⟨fun g hg => List.mem_cons_of_mem _ hg, hbelow⟩

theorem Arranged.go {i : Nat} {f : Server.Frame} {s : Server} (h : Arranged w)
    (hs : w.stack t = .conn i f :: rest)
    (hstatement : (w.record i).statement (w.role i t) f k = some s) (hk : Kept (w.view i))
    (hk' : Kept (((w.after t i f s).goto t
      ((s.stack (w.role i t)).map (.conn i) ++ rest)).view i)) :
    Arranged ((w.after t i f s).goto t ((s.stack (w.role i t)).map (.conn i) ++ rest)) := by
  obtain ⟨g, gs, hg, hgoes⟩ := Goes.of_go hstatement
  cases hg
  obtain ⟨hrest, hbelow⟩ := h.belowTop hs
  have htop : (w.view i).stack (w.role i t) = f :: shown i (w.role i t) rest := by
    rw [view_stack, hs, shown, if_pos rfl]
  have hown : f.isOwn = true := by
    rcases h.frames t (.conn i f) (hs ▸ List.mem_cons_self) with hown | ⟨rfl, _⟩
    · exact hown
    · cases hgoes
  have hclean := hgoes.clean hown
  have hcount : (w.conns i).established ≤ s.established := (statement_counts hstatement).1
  have hself : (w.after t i f s).conns i = s := Function.update_self ..
  have hmono (j : Nat) : (w.conns j).established ≤ ((w.after t i f s).conns j).established := by
    by_cases hj : j = i
    · subst j
      rw [hself]
      exact hcount
    · have hother : (w.after t i f s).conns j = w.conns j := Function.update_of_ne hj ..
      rw [hother]
  have hafter : Arranged (w.after t i f s) := by
    refine ⟨fun u g hg => (h.frames u g hg).mono hmono, ?_, h.below⟩
    intro l g hg
    rw [after, BatchQueue.contents_pushAll, List.mem_append] at hg
    rcases hg with hg | hg
    · exact h.queued l g hg
    · obtain ⟨g', hg', rfl⟩ := List.mem_map.1 hg
      cases hseen : w.seen i l with
      | none =>
        rw [hseen] at hg'
        cases hg'
      | some l' =>
        rw [hseen] at hg'
        have hknown : (w.after t i f s).seen i l ≠ none := by
          have hsame : (w.after t i f s).seen i l = w.seen i l := rfl
          rw [hsame, hseen]
          exact Option.some_ne_none l'
        exact ⟨hknown, hclean.posted l' g' hg'⟩
  refine hafter.goto _ ?_ ?_ hrest hbelow
  · intro g hg
    obtain ⟨g', hg', rfl⟩ := List.mem_map.1 hg
    apply (hclean.frames g' hg').imp id
    rintro ⟨hu, hfirst⟩
    have hpos := hk.established (htop ▸ List.mem_cons_self) hfirst
    refine ⟨hu, ?_⟩
    rw [hself]
    exact Nat.lt_of_lt_of_le hpos hcount
  · -- what holds of the stack that the connection sees holds of the frames that it has left
    intro g hg
    rw [← List.map_tail] at hg
    obtain ⟨g', hg', rfl⟩ := List.mem_map.1 hg
    have hstack : (((w.after t i f s).goto t
        ((s.stack (w.role i t)).map (.conn i) ++ rest)).view i).stack (w.role i t) =
          s.stack (w.role i t) ++ shown i (w.role i t) rest := by
      have hrole : (w.after t i f s).role i t = w.role i t := rfl
      rw [view_goto, hrole, shown_own]
      exact Function.update_self ..
    have hbelow' := hk'.placed.below (w.role i t) g'
    rw [hstack] at hbelow'
    apply hbelow'
    cases hstack' : s.stack (w.role i t) with
    | nil =>
      rw [hstack'] at hg'
      cases hg'
    | cons f' fs =>
      rw [hstack'] at hg'
      exact List.mem_append_left _ hg'

theorem Arranged.step (hpool : Pooled config w) (h : Arranged w)
    (hk : ∀ i, Kept (w.view i)) (hk' : ∀ i, Kept (w'.view i)) (hs : Step w a w') :
    Arranged w' := by
  cases hs with
  | go hs hstatement => exact h.go hs hstatement (hk _) (hk' _)
  | @activeChannel l i revents events =>
    refine (h.setPhase (l := l) (.activeChannels events)).goto (t := .loop l)
      [.conn i (.handleEvent revents)] (List.forall_mem_singleton.2 (.inl rfl)) ?_ ?_ ?_
    · exact List.forall_mem_nil _
    · exact List.forall_mem_nil _
    · exact List.forall_mem_nil _
  | handled | endFunctors | poll => exact h.setPhase _
  | @swap l =>
    refine Arranged.setPhase (h.setQueue ?_) .functors
    intro f hf
    apply h.queued l f
    rw [BatchQueue.contents, List.mem_append] at hf ⊢
    exact hf.symm
  | @callFunctor l g q hs hphase hq =>
    have hqueued := h.queued l
    rw [BatchQueue.contents_pop hq] at hqueued
    obtain ⟨hg, hq⟩ := List.forall_mem_cons.1 hqueued
    have hframe : g.frame.Proper (w.setQueue l q) := by
      cases g with
      | other => trivial
      | conn i f =>
        left
        cases f <;> first | rfl | exact (hg.2 rfl).elim
    exact (h.setQueue hq).goto (t := .loop l) [g.frame] (List.forall_mem_singleton.2 hframe)
      (List.forall_mem_nil _) (List.forall_mem_nil _) (List.forall_mem_nil _)
  | @enter l =>
    exact h.goto (t := .loop l) [.user] (List.forall_mem_singleton.2 trivial)
      (List.forall_mem_nil _) (List.forall_mem_nil _) (List.forall_mem_nil _)
  | leave hs =>
    obtain ⟨hrest, hbelow⟩ := h.belowTop hs
    exact h.goto [] (List.forall_mem_nil _) (List.forall_mem_nil _) hrest hbelow
  | @call t i a hu =>
    have hmono (j : Nat) : (w.conns j).established ≤
        ((w.called i (a.record (w.record i) (w.role i t))).conns j).established :=
      (w.called_counts i _ j).1.ge
    have hcalled : Arranged (w.called i (a.record (w.record i) (w.role i t))) :=
      ⟨fun u g hg => (h.frames u g hg).mono hmono, h.queued, h.below⟩
    have hown : (a.frame (w.record i) (w.role i t)).isOwn = true := by
      cases a <;> rfl
    exact hcalled.goto [.conn i _] (List.forall_mem_singleton.2 (.inl hown))
      (List.forall_mem_nil _) (fun _ hg => hg) (h.user_below hu)
  | @post t l => 
    apply h.setQueue
    rw [BatchQueue.contents_push]
    exact List.forall_mem_append.2 ⟨h.queued l, List.forall_mem_singleton.2 trivial⟩
  | newConnection =>
    have hseen (i : Nat) (l : Loop) : w.addConnection.seen i l = w.seen i l := by
      have hplace : w.addConnection.place i .io = w.place i .io := by
        simp only [place, hpool.ioLoop_add]
      rw [seen, seen, hplace]
    have hqueued (l : Loop) (f : Functor) (hf : f ∈ (w.queue l).contents) :
        f.Proper w.addConnection l := by
      have hproper := h.queued l f hf
      cases f with
      | other => trivial
      | conn i f => exact ⟨hseen i l ▸ hproper.1, hproper.2⟩
    have hadd : Arranged w.addConnection := ⟨h.frames, hqueued, h.below⟩
    exact hadd.goto (t := .loop .base) [.conn w.created (.runInloop .connectEstablished)]
      (List.forall_mem_singleton.2 (.inl rfl)) (List.forall_mem_nil _) (List.forall_mem_nil _)
      (List.forall_mem_nil _)

end

/-- Every `connectDestroyed` has been queued by `removeConnectionInLoop` on the base loop. -/
def Recorded (w : World) : Prop :=
  ∀ i, 0 < (w.conns i).destroyQueued → (i, .loop .base) ∈ w.removals

theorem role_base {w : World} (h : w.role i t = .loop .base) : t = .loop .base :=
  (Option.some.inj ((w.source_eq_some_iff i).2 h)).symm

theorem Recorded.step {w w' : World} (h : Recorded w) (hk : ∀ i, Kept (w.view i))
    (hs : Step w a w') : Recorded w' := by
  cases hs with
  | @go t i f rest k s hs hstatement =>
    intro j hj
    have hmem (hj : 0 < (w.conns j).destroyQueued) :
        (j, .loop .base) ∈ (w.after t i f s).removals := by
      rw [after]
      by_cases hf : f = .exec .removeConnectionInLoop
      · simp only [hf, ↓reduceIte]
        exact List.mem_append_left _ (h j hj)
      · simp only [hf, ↓reduceIte]
        exact h j hj
    by_cases hji : j = i
    · subst j
      by_cases hf : f = .exec .removeConnectionInLoop
      · subst f
        have htop : .exec .removeConnectionInLoop ∈ (w.view i).stack (w.role i t) := by
          rw [view_stack, hs, shown, if_pos rfl]
          exact List.mem_cons_self
        have hbase : t = .loop .base := role_base ((hk i).remove htop).1
        subst t
        exact List.mem_append_right _ List.mem_cons_self
      · have hself : (w.after t i f s).conns i = s := Function.update_self ..
        have hsame : s.destroyQueued = (w.conns i).destroyQueued :=
          (statement_counts hstatement).2 hf
        have hpos : 0 < ((w.after t i f s).conns i).destroyQueued := hj
        rw [hself, hsame] at hpos
        exact hmem hpos
    · have hother : (w.after t i f s).conns j = w.conns j := Function.update_of_ne hji ..
      have hpos : 0 < ((w.after t i f s).conns j).destroyQueued := hj
      rw [hother] at hpos
      exact hmem hpos
  | @call t i a =>
    intro j hj
    have hpos : 0 < ((w.called i (a.record (w.record i) (w.role i t))).conns j).destroyQueued := hj
    rw [(w.called_counts i _ j).2] at hpos
    exact h j hpos
  | activeChannel | handled | swap | endFunctors | callFunctor | poll | enter | leave | post
  | newConnection => exact h

/-- What a connection is made of, as its own server sees it. -/
def Config.own (config : Config) (i : Nat) : Server.Config :=
  { config.conn i with loop_ := if config.ioLoop i = .base then .base else .io }

structure Sound (config : Config) (w : World) : Prop where
  leads : ∀ i, Leads (Server.init (config.own i)) (w.view i)
  pooled : Pooled config w
  named : Named w
  listed : Listed w
  arranged : Arranged w
  recorded : Recorded w

theorem Sound.kept {w : World} (h : Sound config w) (i : Nat) : Kept (w.view i) :=
  (h.leads i).kept (Kept.init _)

theorem view_init (config : Config) (i : Nat) :
    (World.init config).view i = Server.init (config.own i) := by
  have hstack : ((World.init config).view i).stack = fun _ => [] := by
    funext u
    simp only [view]
    cases (World.init config).source i u <;> rfl
  have hview : (World.init config).view i =
      { (World.init config).view i with stack := ((World.init config).view i).stack } := rfl
  rw [hview, hstack]
  rfl

theorem Sound.init (config : Config) : Sound config (World.init config) where
  leads i := .of_eq (view_init config i).symm
  pooled := .init config
  named := .init config
  listed := by
    intro l events h
    cases h
  arranged := ⟨fun _ => List.forall_mem_nil _, fun _ => List.forall_mem_nil _,
    fun _ => List.forall_mem_nil _⟩
  recorded := by
    intro i h
    cases h

section
variable {w w' : World} {t : Thread} {i j : Nat} {f : Server.Frame} {rest : List Frame}

theorem mem_shown (u : Server.Thread) {fs : List Frame} (h : .conn i f ∈ fs) :
    f ∈ shown i u fs := by
  have hcover {fs : List Server.Frame} (h : f ∈ fs) : f ∈ cover u fs := by
    cases u with
    | user n => exact h
    | loop l =>
      cases fs with
      | nil => cases h
      | cons g gs =>
        cases g <;> first | exact h | exact List.mem_cons_of_mem _ h
  induction fs with
  | nil => cases h
  | cons g gs ih =>
    rcases List.mem_cons.1 h with rfl | hmem
    · rw [shown, if_pos rfl]
      exact List.mem_cons_self
    · cases g with
      | user => exact hcover (ih hmem)
      | conn j g =>
        rw [shown]
        split
        · exact List.mem_cons_of_mem _ (ih hmem)
        · exact hcover (ih hmem)

theorem of_mem_shown {u : Server.Thread} {fs : List Frame} (h : f ∈ shown i u fs)
    (hf : f ≠ .user ∨ ∃ n, u = .user n) : .conn i f ∈ fs := by
  have hcover {fs : List Server.Frame} (h : f ∈ cover u fs) : f ∈ fs := by
    cases u with
    | user n => exact h
    | loop l =>
      have hne : f ≠ .user := hf.elim id fun ⟨n, hn⟩ => by cases hn
      cases fs with
      | nil => exact (hne (List.mem_singleton.1 h)).elim
      | cons g gs =>
        cases g <;> first | exact h | exact (List.mem_cons.1 h).resolve_left hne
  induction fs with
  | nil => cases h
  | cons g gs ih =>
    cases g with
    | user => exact List.mem_cons_of_mem _ (ih (hcover h))
    | conn j g =>
      rw [shown] at h
      split at h
      · rename_i hj
        rcases List.mem_cons.1 h with rfl | h
        · exact hj ▸ List.mem_cons_self
        · exact List.mem_cons_of_mem _ (ih h)
      · exact List.mem_cons_of_mem _ (ih (hcover h))

theorem Sound.api (h : Sound config w) (hrole : w.role i t = .user n) (hf : .conn i f ∈ w.stack t) :
    f.isApi = true := by
  have hmem := mem_shown (w.role i t) hf
  rw [← view_stack, hrole] at hmem
  exact (h.kept i).placed.carries.frames (.user n) f hmem

theorem Sound.idle (h : Sound config w) (hu : w.inUserCode t = true)
    (hrole : w.role i t = .user n) : shown i (w.role i t) (w.stack t) = [] := by
  apply List.eq_nil_iff_forall_not_mem.2
  intro f hf
  have hmem := of_mem_shown hf (.inr ⟨n, hrole⟩)
  have hapi := h.api hrole hmem
  have hbelow : f.isBelow = true := h.arranged.user_below hu _ hmem
  have htop : f.isBelow = false := by
    cases f <;> first | rfl | cases hapi
  exact Bool.false_ne_true (htop.symm.trans hbelow)

theorem Sound.erase (h : Sound config w) (hj : j ≠ i) (hs : w.stack t = .conn j f :: rest)
    (s : Server) : (w.after t j f s).connections_ (w.connName i) = some i ↔
      w.connections_ (w.connName i) = some i := by
  rw [after]
  by_cases hf : f = .exec .removeConnectionInLoop
  · subst f
    simp only [↓reduceIte]
    by_cases hname : w.connName i = w.connName j
    · have htop : .exec .removeConnectionInLoop ∈ (w.view j).stack (w.role j t) := by
        rw [view_stack, hs, shown, if_pos rfl]
        exact List.mem_cons_self
      have hcreated : j < w.created := of_decide_eq_true ((h.kept j).remove htop).2
      rw [hname, Function.update_self]
      refine iff_of_false (by intro hn; cases hn) ?_
      intro he
      obtain ⟨hi, _⟩ := h.named.entry _ _ he
      exact hj (h.named.apart j i hcreated hi hname.symm)
    · rw [Function.update_of_ne hname]
  · simp only [hf, ↓reduceIte]

theorem Sound.enter (h : Sound config w) (hi : i ≠ w.created) (hn : NewName w .newConnection) :
    w.addConnection.connections_ (w.connName i) = some i ↔
      w.connections_ (w.connName i) = some i := by
  have hupdate : w.addConnection.connections_ = Function.update w.connections_
      (TcpServer.connName w.name_ w.nextConnId_) (some w.created) := rfl
  rw [hupdate]
  by_cases hname : w.connName i = TcpServer.connName w.name_ w.nextConnId_
  · rw [hname, Function.update_self]
    refine iff_of_false (fun he => hi (Option.some.inj he).symm) ?_
    intro he
    obtain ⟨hlt, _⟩ := h.named.entry _ _ he
    exact hn i hlt hname
  · rw [Function.update_of_ne hname]

/-- What one step of the whole is to one connection. -/
theorem Sound.leads_step (h : Sound config w) (hn : NewName w a) (hs : Step w a w') (i : Nat) :
    Leads (w.view i) (w'.view i) := by
  cases hs with
  | @go t j f rest k s hs hstatement =>
    by_cases hj : j = i
    · subst j
      exact leads_go_own i hs hstatement
    · exact leads_go_other hj hs (h.erase hj hs s) _
  | activeChannel hs hp =>
    obtain ⟨hnodup, hloop⟩ := h.listed _ _ hp
    exact leads_activeChannel hs hp hnodup (hloop _ List.mem_cons_self)
  | handled hs hp => exact leads_handled hs hp
  | swap hs hp => exact leads_swap hs hp
  | endFunctors hs hp hq => exact leads_endFunctors hs hp hq
  | @callFunctor l g q hs hp hq =>
    apply leads_callFunctor hs hp hq
    rintro f rfl
    have hmem : .conn i f ∈ (w.queue l).contents :=
      BatchQueue.contents_pop hq ▸ List.mem_cons_self
    exact (h.arranged.queued l (.conn i f) hmem).1
  | poll hs hp _ hr => exact leads_poll hs hp hr
  | enter hs hp => exact leads_foreign hs hp (Frame.foreign_user i)
  | @leave l f rest hs hf =>
    apply leads_leave hs hf
    rintro rfl hseen
    obtain ⟨n, hrole⟩ := role_unseen hseen
    cases h.api hrole (hs ▸ List.mem_cons_self)
  | @call t j a hu he =>
    by_cases hj : j = i
    · subst j
      exact leads_call_own hu he fun n hrole => h.idle hu hrole
    · exact leads_call_other hj hu
  | post => exact leads_post
  | newConnection hs hp =>
    by_cases hi : i = w.created
    · subst i
      exact leads_new_own hs hp h.pooled.dealt (h.kept w.created).living.custody.alive
    · exact leads_new_other hs hp hi h.pooled.dealt (h.enter hi hn)

theorem Sound.step (h : Sound config w) (hn : NewName w a) (hstep : w.step a = some w') :
    Sound config w' := by
  have hs := Step.of_step hstep
  have hleads (i : Nat) := (h.leads i).trans (h.leads_step hn hs i)
  exact ⟨hleads, h.pooled.step hs, h.named.step hn hs, h.listed.step h.pooled hs,
    h.arranged.step h.pooled h.kept (fun i => (hleads i).kept (Kept.init _)) hs,
    h.recorded.step h.kept hs⟩

end

theorem Sound.run {w : World} (h : Run World.step (World.init config) as w)
    (hn : AllSteps World.step NewName (World.init config) as) : Sound config w :=
  h.invariant_when hn (Sound.init config) fun _ _ _ hw hn hs => hw.step hn hs

end MuduoStudy.World
