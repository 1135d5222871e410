import MuduoStudy.Quiescence

namespace MuduoStudy
open Transition Server
set_option autoImplicit true

namespace Server

/-- The functors that hold a `TcpConnectionPtr`. -/
def Functor.shared : Functor → Bool
  | .connectEstablished | .forceCloseInLoop | .connectDestroyed | .removeConnectionInLoop
  | .notice _ => true
  | .sendInLoop _ | .shutdownInLoop | .startReadInLoop | .stopReadInLoop | .other => false

/-- The functors of the connection that hold nothing but `this`. -/
def Functor.raw : Functor → Bool
  | .sendInLoop _ | .shutdownInLoop | .startReadInLoop | .stopReadInLoop => true
  | _ => false

/-- The frames whose function keeps a `TcpConnectionPtr` of its own: the argument of `runInloop`,
the functor that is being called, `guardThis` in `handleClose`. -/
def Frame.holds : Frame → Bool
  | .runInloop f | .exec f => f.shared
  | .closeCallback | .setDisconnected | .remove => true
  | _ => false

/-- The frames that go on in a function of the connection. -/
def Frame.uses : Frame → Bool
  | .user | .exec .other => false
  | _ => true

/-- The frames of the public operations, and of the functors that these queue. They may run without
a pointer that is kept for them. -/
def Frame.isCall : Frame → Bool
  | .send _ | .shutdown | .setDisconnecting | .forceClose | .queueForceClose
  | .queueNotice _ => true
  | .runInloop f | .exec f => f.raw
  | _ => false

end Server

/-- A server whose connection lives as long as there is a `TcpConnectionPtr` to it. -/
structure Lifetime where
  server : Server
  /-- the pointers that the user keeps, each with the thread that keeps it -/
  refs : List Thread := []
  /-- the functors of the current batch that have been called. `doPendingFunctors` destroys them
  when it ends. -/
  spent : Loop → List Functor := fun _ => []
  /-- what the loop's thread has entered keeps a pointer: `Channel::handleEvent` with its `guard`,
  or `newConnection` with its `conn` -/
  guard : Loop → Bool := fun _ => false

namespace Lifetime

/-- A pointer is kept until the thread has left all that it has entered. -/
def kept (x : Lifetime) : Thread → Bool
  | .loop l => x.guard l || (x.spent l).any Functor.shared
  | .user _ => false

/-- There is a `TcpConnectionPtr` to the connection. -/
def Held (x : Lifetime) : Prop :=
  x.server.registered = true ∨ x.refs ≠ [] ∨ ∃ l, x.kept (.loop l) = true ∨
    (∃ f ∈ (x.server.queue l).contents, f.shared = true) ∨
      ∃ f ∈ x.server.stack (.loop l), f.holds = true

instance (x : Lifetime) (l : Loop) : Decidable (x.kept (.loop l) = true ∨
    (∃ f ∈ (x.server.queue l).contents, f.shared = true) ∨
      ∃ f ∈ x.server.stack (.loop l), f.holds = true) :=
  inferInstanceAs (Decidable (_ ∨ _ ∨ _))

instance (x : Lifetime) : Decidable x.Held :=
  have : Decidable (∃ l, x.kept (.loop l) = true ∨
      (∃ f ∈ (x.server.queue l).contents, f.shared = true) ∨
        ∃ f ∈ x.server.stack (.loop l), f.holds = true) :=
    decidable_of_iff (_ ∨ _)
      ⟨fun h => h.elim (fun h => ⟨.base, h⟩) fun h => ⟨.io, h⟩, fun ⟨l, h⟩ => match l with
        | .base => .inl h
        | .io => .inr h⟩
  inferInstanceAs (Decidable (_ ∨ _ ∨ _))

/-- The functors of the batches that have been called, after a step. -/
def calls (x : Lifetime) : Server.Action → Loop → List Functor
  | .loop l =>
    match x.server.phase l with
    | .functors =>
      match (x.server.queue l).pop with
      | some (f, _) => Function.update x.spent l (x.spent l ++ [f])
      | none => Function.update x.spent l []
    | _ => x.spent
  | _ => x.spent

/-- The pointers of `handleEvent` and `newConnection`, after a step that has led to `s`. -/
def guards (x : Lifetime) (s : Server) : Server.Action → Loop → Bool
  | .loop l =>
    match x.server.phase l with
    -- `guard = tie_.lock()`
    | .activeChannels (some _) => Function.update x.guard l true
    | _ => x.guard
  | .newConnection => Function.update x.guard .base true
  | .go (.loop l) _ | .leave l =>
    if s.stack (.loop l) = [] then Function.update x.guard l false else x.guard
  | _ => x.guard

inductive Action where
  | server (a : Server.Action)
  -- the user copies a pointer, or gets one from a `weak_ptr`
  | acquire (t : Thread)
  | release (t : Thread)
  deriving DecidableEq

/-- The user calls a function of the connection through a pointer of the calling thread, or on the
connection's loop through one that is kept there. With the connection its socket is closed, of which
`epoll` then reports nothing. Nothing is said of a server that is destroyed. -/
def mayStep (x : Lifetime) : Server.Action → Bool
  | .call t _ => t ∈ x.refs || (t = .loop x.server.loop_ && x.kept t)
  | .poll _ (some _) => x.Held
  | .destroy => false
  | _ => true

def step (x : Lifetime) : Action → Option Lifetime
  | .server a =>
    if x.mayStep a then
      (x.server.step a).map fun s =>
        { x with server := s, spent := x.calls a, guard := x.guards s a }
    else none
  | .acquire t =>
    if x.server.inUserCode t ∧ x.server.exposed ∧ x.Held then some { x with refs := t :: x.refs }
    else none
  | .release t =>
    if x.server.inUserCode t ∧ t ∈ x.refs then some { x with refs := x.refs.erase t } else none

def init (config : Config) : Lifetime where
  server := Server.init config

/-- The connection has been destroyed, and a thread is about to go on in one of its functions or to
handle an event of its channel. -/
def Dangling (x : Lifetime) : Prop :=
  x.server.created = true ∧ ¬ x.Held ∧
    ((∃ t, (x.server.stack t).head?.any Frame.uses = true) ∨
      ∃ l revents, x.server.phase l = .activeChannels (some revents))

/-- A functor that holds nothing but `this` waits in the queue of the connection's loop. -/
def Waits (x : Lifetime) : Prop :=
  ∃ f ∈ (x.server.queue x.server.loop_).contents, f.raw = true

instance (x : Lifetime) : Decidable x.Waits := inferInstanceAs (Decidable (∃ f ∈ _, _))

end Lifetime

namespace Server

/-- Calls are on top of a stack. What is below them uses the connection only while a pointer to it
is kept. -/
def Layered (kept : Bool) (stack : List Frame) : Prop :=
  ∃ calls rest, stack = calls ++ rest ∧ (∀ f ∈ calls, f.isCall = true) ∧
    ∀ f ∈ rest, f.isCall = false ∧ (kept = false → f.uses = false)

section
variable {kept kept' : Bool} {stack fs rest : List Frame} {f : Frame}

theorem Layered.nil (kept : Bool) : Layered kept [] :=
  ⟨[], [], rfl, fun _ h => (List.not_mem_nil h).elim, fun _ h => (List.not_mem_nil h).elim⟩

theorem Layered.of_below (h : ∀ f ∈ fs, f.isCall = false ∧ (kept = false → f.uses = false)) :
    Layered kept fs :=
  ⟨[], fs, rfl, fun _ h => (List.not_mem_nil h).elim, h⟩

theorem Layered.of_kept (hk : kept = true) (h : ∀ f ∈ fs, f.isCall = false) : Layered kept fs :=
  .of_below fun f hf => ⟨h f hf, fun hn => (Bool.false_ne_true (hn.symm.trans hk)).elim⟩

theorem Layered.calls (h : Layered kept stack) (hfs : ∀ f ∈ fs, f.isCall = true) :
    Layered kept (fs ++ stack) := by
  obtain ⟨calls, rest, rfl, hcalls, hrest⟩ := h
  refine ⟨fs ++ calls, rest, (List.append_assoc ..).symm, ?_, hrest⟩
  intro f hf
  exact (List.mem_append.1 hf).elim (hfs f) (hcalls f)

theorem Layered.tail (h : Layered kept (f :: stack)) : Layered kept stack := by
  obtain ⟨calls, rest, heq, hcalls, hrest⟩ := h
  cases calls with
  | nil =>
    have hcons : f :: stack = rest := heq
    exact .of_below fun g hg => hrest g (hcons ▸ List.mem_cons_of_mem _ hg)
  | cons c cs =>
    obtain ⟨rfl, rfl⟩ := List.cons.inj heq
    exact ⟨cs, rest, rfl, fun g hg => hcalls g (List.mem_cons_of_mem _ hg), hrest⟩

theorem Layered.below (h : Layered kept (f :: stack)) (hf : f.isCall = false) :
    ∀ g ∈ f :: stack, g.isCall = false ∧ (kept = false → g.uses = false) := by
  obtain ⟨calls, rest, heq, hcalls, hrest⟩ := h
  cases calls with
  | nil =>
    have hcons : f :: stack = rest := heq
    exact hcons ▸ hrest
  | cons c cs =>
    obtain ⟨rfl, _⟩ := List.cons.inj heq
    exact (Bool.false_ne_true (hf.symm.trans (hcalls f List.mem_cons_self))).elim

theorem Layered.append (h : Layered kept fs)
    (hrest : ∀ f ∈ rest, f.isCall = false ∧ (kept = false → f.uses = false)) :
    Layered kept (fs ++ rest) := by
  obtain ⟨calls, below, rfl, hcalls, hbelow⟩ := h
  refine ⟨calls, below ++ rest, List.append_assoc .., hcalls, ?_⟩
  intro f hf
  exact (List.mem_append.1 hf).elim (hbelow f) (hrest f)

theorem Layered.mono (h : Layered kept stack) (hk : kept = true → kept' = true) :
    Layered kept' stack := by
  obtain ⟨calls, rest, rfl, hcalls, hrest⟩ := h
  refine ⟨calls, rest, rfl, hcalls, fun f hf => ⟨(hrest f hf).1, fun hn => (hrest f hf).2 ?_⟩⟩
  apply Bool.eq_false_iff.2
  intro ht
  exact Bool.false_ne_true (hn.symm.trans (hk ht))

end

section
variable {queue : Loop → BatchQueue Functor} {l l' : Loop} {f g : Functor}

theorem mem_push (h : f ∈ (Function.update queue l ((queue l).push g) l').contents) :
    f ∈ (queue l').contents ∨ f = g := by
  by_cases hl : l' = l
  · subst l'
    rw [Function.update_self, BatchQueue.contents_push, List.mem_append, List.mem_singleton] at h
    exact h
  · rw [Function.update_of_ne hl] at h
    exact .inl h

theorem mem_pop {q : BatchQueue Functor} (hq : (queue l).pop = some (g, q))
    (h : f ∈ (Function.update queue l q l').contents) : f ∈ (queue l').contents := by
  by_cases hl : l' = l
  · subst l'
    rw [Function.update_self] at h
    exact BatchQueue.contents_pop hq ▸ List.mem_cons_of_mem _ h
  · rw [Function.update_of_ne hl] at h
    exact h

theorem contents_swap (hb : (queue l).batch = []) (l' : Loop) :
    (Function.update queue l (queue l).swap l').contents = (queue l').contents :=
  update_keeps BatchQueue.contents (BatchQueue.contents_swap hb) l'

end

theorem isCall_notices (notices : List Notice) :
    ∀ g ∈ notices.map Frame.queueNotice, g.isCall = true := by
  intro g hg
  obtain ⟨n, _, rfl⟩ := List.mem_map.1 hg
  rfl

/-- What the frame `f` gives way to. Only `handleWrite` comes to calls without being one. -/
structure Frame.Leads (f : Frame) (fs : List Frame) : Prop where
  call : f.isCall = true → ∀ g ∈ fs, g.isCall = true
  layered : f.isCall = false → Layered f.uses fs
  write : f.isCall = false → f = .handleWrite ∨ ∀ g ∈ fs, g.isCall = false

theorem Frame.Leads.nil (f : Frame) : f.Leads [] :=
  ⟨fun _ _ h => (List.not_mem_nil h).elim, fun _ => .nil _,
    fun _ => .inr fun _ h => (List.not_mem_nil h).elim⟩

theorem Frame.Leads.calls {f : Frame} (hf : f.isCall = true) (h : ∀ g ∈ fs, g.isCall = true) :
    f.Leads fs := by
  have hnot {P : Prop} (hn : f.isCall = false) : P :=
    (Bool.false_ne_true (hn.symm.trans hf)).elim
  exact ⟨fun _ => h, hnot, hnot⟩

theorem Frame.Leads.below {f : Frame} (hf : f.isCall = false) (hu : f.uses = true)
    (h : ∀ g ∈ fs, g.isCall = false) : f.Leads fs :=
  ⟨fun hc => (Bool.false_ne_true (hf.symm.trans hc)).elim, fun _ => .of_kept hu h,
    fun _ => .inr h⟩

theorem Called.leads {s s' : Server} (h : Called s t rest k g s') :
    ∃ fs, s'.stack = Function.update s.stack t (fs ++ rest) ∧ (Frame.exec g).Leads fs := by
  have hone {f : Frame} (hf : f.isCall = false) : ∀ g ∈ [f], g.isCall = false :=
    List.forall_mem_singleton.2 hf
  cases h with
  | connectEstablished =>
    exact ⟨[.connectionCallback .connectEstablished], rfl, .below rfl rfl (hone rfl)⟩
  | sendInLoop => exact ⟨_, rfl, .calls rfl (isCall_notices _)⟩
  | forceCloseInLoop => exact ⟨[.handleClose], rfl, .below rfl rfl (hone rfl)⟩
  | destroyConnected =>
    exact ⟨[.setDisconnected, .remove], rfl,
      .below rfl rfl (List.forall_mem_cons.2 ⟨rfl, hone rfl⟩)⟩
  | destroyLate => exact ⟨[.remove], rfl, .below rfl rfl (hone rfl)⟩
  | notice => exact ⟨[.user], rfl, .below rfl rfl (hone rfl)⟩
  | other =>
    have huser : Layered false [.user] :=
      .of_below (List.forall_mem_singleton.2 ⟨rfl, fun _ => rfl⟩)
    exact ⟨[.user], rfl, fun hc => (Bool.false_ne_true hc).elim, fun _ => huser,
      fun _ => .inr (hone rfl)⟩
  | sendLate | shutdownInLoop | forceCloseLate | startReadInLoop | stopReadInLoop
  | removeConnectionInLoop => exact ⟨[], rfl, .nil _⟩

theorem Goes.leads {s s' : Server} (h : Goes s t rest k f s') :
    ∃ fs, s'.stack = Function.update s.stack t (fs ++ rest) ∧ f.Leads fs := by
  have hone {f : Frame} (hf : f.isCall = false) : ∀ g ∈ [f], g.isCall = false :=
    List.forall_mem_singleton.2 hf
  have hcall {f g : Frame} (hf : f.isCall = true) (hg : g.isCall = true) : f.Leads [g] :=
    .calls hf (List.forall_mem_singleton.2 hg)
  cases h with
  | handleEvent =>
    refine ⟨_, rfl, .below rfl rfl ?_⟩
    intro g hg
    rcases mem_dispatch hg with rfl | rfl | rfl <;> rfl
  | readData => exact ⟨[.user], rfl, .below rfl rfl (hone rfl)⟩
  | readEof => exact ⟨[.handleClose], rfl, .below rfl rfl (hone rfl)⟩
  | @drained c =>
    have hlast : Layered true [.ifDisconnecting] :=
      .of_below (List.forall_mem_singleton.2 ⟨rfl, fun hn => (Bool.false_ne_true hn.symm).elim⟩)
    have hframes : Layered true (drainedFrames c) := by
      apply hlast.calls
      intro g hg
      split at hg
      · exact List.mem_singleton.1 hg ▸ rfl
      · cases hg
    exact ⟨drainedFrames c, rfl, fun hc => (Bool.false_ne_true hc).elim, fun _ => hframes,
      fun _ => .inl rfl⟩
  | handleClose =>
    exact ⟨[.connectionCallback .handleClose, .closeCallback], rfl,
      .below rfl rfl (List.forall_mem_cons.2 ⟨rfl, hone rfl⟩)⟩
  | connectionCallback => exact ⟨[.user], rfl, .below rfl rfl (hone rfl)⟩
  | closeInLoop =>
    exact ⟨[.exec .removeConnectionInLoop], rfl, .below rfl rfl (hone rfl)⟩
  | setDisconnected =>
    exact ⟨[.connectionCallback .connectDestroyed], rfl, .below rfl rfl (hone rfl)⟩
  | @send m => exact ⟨[.runInloop (.sendInLoop m)], rfl, hcall rfl rfl⟩
  | shutdown => exact ⟨[.setDisconnecting], rfl, hcall rfl rfl⟩
  | setDisconnecting => exact ⟨[.runInloop .shutdownInLoop], rfl, hcall rfl rfl⟩
  | forceClose => exact ⟨[.queueForceClose], rfl, hcall rfl rfl⟩
  | @runInLoop g =>
    have hleads : (Frame.runInloop g).Leads [.exec g] := by
      cases hg : g.raw with
      | true => exact hcall hg hg
      | false => exact .below hg rfl (hone hg)
    exact ⟨[.exec g], rfl, hleads⟩
  | readError | handleWrite | ifDisconnecting | ifNotDisconnecting | closeQueued | remove
  | sendDropped | shutdownDropped | forceCloseDropped | runQueued | queueForceClose
  | queueNotice => exact ⟨[], rfl, .nil _⟩
  | exec hc => exact hc.leads

theorem Layered.leads {f : Frame} (h : Layered kept (f :: rest)) (hf : f.Leads fs) :
    Layered kept (fs ++ rest) := by
  cases hc : f.isCall with
  | true => exact h.tail.calls (hf.call hc)
  | false =>
    have hbelow := h.below hc
    have huses (hu : f.uses = true) : kept = true := by
      cases kept with
      | true => rfl
      | false => exact hu.symm.trans ((hbelow f List.mem_cons_self).2 rfl) |>.symm
    exact ((hf.layered hc).mono huses).append fun g hg => hbelow g (List.mem_cons_of_mem _ hg)

end Server

namespace Lifetime

inductive Steps (x : Lifetime) : Action → Lifetime → Prop where
  | server : x.mayStep a = true → x.server.step a = some s →
      Steps x (.server a) { x with server := s, spent := x.calls a, guard := x.guards s a }
  | acquire : x.server.inUserCode t = true → x.Held →
      Steps x (.acquire t) { x with refs := t :: x.refs }
  | release : x.server.inUserCode t = true → t ∈ x.refs →
      Steps x (.release t) { x with refs := x.refs.erase t }

theorem Steps.of_step {x y : Lifetime} (h : x.step a = some y) : Steps x a y := by
  cases a with
  | server a =>
    simp only [step, Option.ite_none_right_eq_some] at h
    obtain ⟨hmay, h⟩ := h
    obtain ⟨s, hs, rfl⟩ := Option.map_eq_some_iff.1 h
    exact .server hmay hs
  | acquire t =>
    simp only [step, Option.ite_none_right_eq_some, Option.some.injEq] at h
    obtain ⟨⟨hu, _, hheld⟩, rfl⟩ := h
    exact .acquire hu hheld
  | release t =>
    simp only [step, Option.ite_none_right_eq_some, Option.some.injEq] at h
    obtain ⟨⟨hu, ht⟩, rfl⟩ := h
    exact .release hu ht

section
variable {x y : Lifetime} {s : Server} {a : Server.Action} {l : Loop}

theorem update_true {m : Loop → Bool} (l' : Loop) (h : m l = true) :
    Function.update m l' true l = true := by
  by_cases hl : l = l'
  · subst l'
    exact Function.update_self _ _ _
  · rw [Function.update_of_ne hl]
    exact h

theorem guards_keep (hg : x.guard l = true) :
    x.guards s a l = true ∨ s.stack (.loop l) = [] := by
  have hleave (l' : Loop) : (if s.stack (.loop l') = [] then Function.update x.guard l' false
      else x.guard) l = true ∨ s.stack (.loop l) = [] := by
    split
    · rename_i hempty
      by_cases hl : l = l'
      · subst l'
        exact .inr hempty
      · rw [Function.update_of_ne hl]
        exact .inl hg
    · exact .inl hg
  cases a with
  | loop l' =>
    apply Or.inl
    cases hphase : x.server.phase l' with
    | activeChannels revents =>
      cases revents with
      | some revents =>
        simp only [guards, hphase]
        exact update_true l' hg
      | none =>
        simp only [guards, hphase]
        exact hg
    | poll | swap | functors =>
      simp only [guards, hphase]
      exact hg
  | newConnection => exact .inl (update_true .base hg)
  | go t k =>
    cases t with
    | loop l' => exact hleave l'
    | user n => exact .inl hg
  | leave l' => exact hleave l'
  | poll | enter | call | post | destroy => exact .inl hg

theorem calls_keep (hs : x.server.step a = some s) (hc : (x.spent l).any Functor.shared = true) :
    (x.calls a l).any Functor.shared = true ∨ s.stack (.loop l) = [] := by
  cases Step.of_step hs with
  | @activeChannel l' revents _ hphase | @handled l' _ hphase | @swap l' _ hphase =>
    rw [calls, hphase]
    exact .inl hc
  | @endFunctors l' hempty hphase hq =>
    rw [calls, hphase, hq]
    by_cases hl : l = l'
    · subst l'
      exact .inr hempty
    · simp only [Function.update_of_ne hl]
      exact .inl hc
  | @callFunctor l' f q _ hphase hq =>
    rw [calls, hphase, hq]
    apply Or.inl
    by_cases hl : l = l'
    · subst l'
      simp only [Function.update_self, List.any_append, hc, Bool.true_or]
    · simp only [Function.update_of_ne hl]
      exact hc
  | _ => exact .inl hc

theorem kept_keeps (hs : x.server.step a = some s) (t : Thread)
    (hk : x.kept t = true) :
    ({ x with server := s, spent := x.calls a, guard := x.guards s a } : Lifetime).kept t = true ∨
      s.stack t = [] := by
  cases t with
  | user n => cases hk
  | loop l =>
    rcases Bool.or_eq_true_iff.1 hk with hg | hc
    · exact (guards_keep hg).imp_left fun h => Bool.or_eq_true_iff.2 (.inl h)
    · exact (calls_keep hs hc).imp_left fun h => Bool.or_eq_true_iff.2 (.inr h)

end

/-- The server lives, and below calls nothing uses the connection unless a pointer is kept. -/
structure Tended (x : Lifetime) : Prop where
  server : Server.Kept x.server
  layered : ∀ t, Layered (x.kept t) (x.server.stack t)

theorem Tended.init (config : Config) : Tended (init config) :=
  ⟨Server.Kept.init config, fun _ => .nil _⟩

section
variable {x : Lifetime} {s : Server} {a : Server.Action}

/-- The state behind a step of the server. -/
def advance (x : Lifetime) (a : Server.Action) (s : Server) : Lifetime :=
  { x with server := s, spent := x.calls a, guard := x.guards s a }

theorem Tended.goto (hx : Tended x) (hs : x.server.step a = some s) {stack : List Frame}
    (hstack : s.stack = Function.update x.server.stack t stack)
    (hnew : Layered (x.kept t) stack ∨ Layered ((x.advance a s).kept t) stack) (u : Thread) :
    Layered ((x.advance a s).kept u) (s.stack u) := by
  have hold (h : Layered (x.kept u) (s.stack u)) :
      Layered ((x.advance a s).kept u) (s.stack u) := by
    cases hk : x.kept u with
    | false =>
      rw [hk] at h
      exact h.mono fun hf => (Bool.false_ne_true hf).elim
    | true =>
      rcases kept_keeps hs u hk with hkept | hempty
      · exact h.mono fun _ => hkept
      · exact hempty ▸ .nil _
  by_cases hu : u = t
  · subst u
    rw [hstack, Function.update_self] at hold ⊢
    exact hnew.elim hold id
  · apply hold
    rw [hstack, Function.update_of_ne hu]
    exact hx.layered u

theorem Api.frame_isCall (s : Server) (t : Thread) (a : Api) : (a.frame s t).isCall = true := by
  cases a <;> rfl

theorem Tended.advance (hx : Tended x) (hmay : x.mayStep a = true)
    (hs : x.server.step a = some s) : Tended (x.advance a s) := by
  have ha : a ≠ .destroy := by
    rintro rfl
    cases hmay
  have hsame (hstack : s.stack = x.server.stack) (t : Thread) :
      Layered ((x.advance a s).kept t) (s.stack t) := by
    have hself : s.stack = Function.update x.server.stack t (x.server.stack t) := by
      rw [hstack, Function.update_eq_self]
    exact hx.goto hs hself (.inl (hx.layered t)) t
  refine ⟨hx.server.step hs ha, ?_⟩
  cases Step.of_step hs with
  | @go t f rest k _ hstack hg =>
    obtain ⟨fs, hnew, hleads⟩ := hg.leads
    have hlayered := hx.layered t
    rw [hstack] at hlayered
    exact hx.goto hs hnew (.inl (hlayered.leads hleads))
  | @activeChannel l revents _ hphase =>
    apply hx.goto hs rfl (.inr (.of_kept _ (List.forall_mem_singleton.2 rfl)))
    simp [kept, Lifetime.advance, guards, hphase]
  | handled | swap | endFunctors | poll | post => exact hsame rfl
  | @callFunctor l f q _ hphase hq =>
    apply hx.goto hs rfl
    cases f with
    | sendInLoop | shutdownInLoop | startReadInLoop | stopReadInLoop =>
      exact .inl ((Layered.nil _).calls (List.forall_mem_singleton.2 rfl))
    | other => exact .inl (.of_below (List.forall_mem_singleton.2 ⟨rfl, fun _ => rfl⟩))
    | _ =>
      apply Or.inr
      apply Layered.of_kept _ (List.forall_mem_singleton.2 rfl)
      simp [kept, Lifetime.advance, calls, hphase, hq, Functor.shared]
  | enter =>
    exact hx.goto hs rfl (.inl (.of_below (List.forall_mem_singleton.2 ⟨rfl, fun _ => rfl⟩)))
  | @leave l rest hstack =>
    have hlayered := hx.layered (.loop l)
    rw [hstack] at hlayered
    exact hx.goto hs rfl (.inl hlayered.tail)
  | @call t b hu =>
    have hframe : ∀ f ∈ [b.frame x.server t], f.isCall = true :=
      List.forall_mem_singleton.2 (Api.frame_isCall x.server t b)
    exact hx.goto hs rfl (.inl ((hx.layered t).calls hframe))
  | newConnection =>
    apply hx.goto hs rfl (.inr (.of_kept _ (List.forall_mem_singleton.2 rfl)))
    simp [kept, Lifetime.advance, guards]
  | destroy => exact (ha rfl).elim

theorem Tended.step {x y : Lifetime} {a : Action} (hx : Tended x) (h : x.step a = some y) :
    Tended y := by
  cases Steps.of_step h with
  | server hmay hs => exact hx.advance hmay hs
  | acquire | release => exact ⟨hx.server, hx.layered⟩

theorem Tended.run {x : Lifetime} (h : Run Lifetime.step (Lifetime.init config) as x) : Tended x :=
  h.invariant (Tended.init config) fun _ _ _ => Tended.step

end

end Lifetime
end MuduoStudy
