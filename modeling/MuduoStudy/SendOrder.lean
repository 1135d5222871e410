import Mathlib.Data.List.Nodup
import MuduoStudy.Outbound

namespace MuduoStudy.Server
open Transition TcpConnection
set_option autoImplicit true

def Functor.sends : Functor → List Sent
  | .sendInLoop m => [m]
  | _ => []

/-- The message that a frame carries to its `sendInLoop`. -/
def Frame.sends : Frame → List Sent
  | .send m => [m]
  | .runInloop f => f.sends
  | .exec f => f.sends
  | _ => []

def carried (frames : List Frame) : List Sent := frames.flatMap Frame.sends

def waiting (q : BatchQueue Functor) : List Sent := q.contents.flatMap Functor.sends

def ofThread (u : Thread) (ms : List Sent) : List Sent := ms.filter fun m => m.thread = u

theorem carried_cons (f : Frame) (fs : List Frame) :
    carried (f :: fs) = f.sends ++ carried fs := List.flatMap_cons

@[simp] theorem carried_append (fs gs : List Frame) :
    carried (fs ++ gs) = carried fs ++ carried gs := by
  rw [carried, List.flatMap_append]
  rfl

@[simp] theorem ofThread_append (u : Thread) (ms ns : List Sent) :
    ofThread u (ms ++ ns) = ofThread u ms ++ ofThread u ns := List.filter_append _ _

theorem ofThread_eq_nil {ms : List Sent} (h : ∀ m ∈ ms, m.thread ≠ u) : ofThread u ms = [] :=
  List.filter_eq_nil_iff.2 fun m hm he => h m hm (of_decide_eq_true he)

theorem waiting_push (q : BatchQueue Functor) (f : Functor) :
    waiting (q.push f) = waiting q ++ f.sends := by
  simp [waiting]

theorem waiting_pop {q q' : BatchQueue Functor} (h : q.pop = some (f, q')) :
    waiting q = f.sends ++ waiting q' := by
  rw [waiting, BatchQueue.contents_pop h, List.flatMap_cons]
  rfl

theorem Functor.sends_of_not_local {f : Functor} (h : f.isLocal = false) : f.sends = [] := by
  cases f <;> first | rfl | cases h

theorem carried_below {fs : List Frame} (h : ∀ f ∈ fs, f.isBelow = true) : carried fs = [] := by
  apply List.flatMap_eq_nil_iff.2
  intro f hf
  have hb := h f hf
  cases f <;> first | rfl | cases hb

/-- The messages of a thread on their way: first those that the loop is about to send, then those
in its queue, then those still on the thread. -/
def transit (loop_ : Loop) (stack : Thread → List Frame) (queue : Loop → BatchQueue Functor)
    (u : Thread) : List Sent :=
  carried (stack (.loop loop_)) ++ waiting (queue loop_) ++
    if u = .loop loop_ then [] else carried (stack u)

/-- The messages of each thread keep the order of its calls all the way. -/
structure Order (loop_ : Loop) (stack : Thread → List Frame) (queue : Loop → BatchQueue Functor)
    (executed called : List Sent) : Prop where
  own : ∀ t, t ≠ .loop loop_ → ∀ m ∈ carried (stack t), m.thread = t
  queued : ∀ m ∈ waiting (queue loop_), m.thread ≠ .loop loop_
  order : ∀ u, (ofThread u (executed ++ transit loop_ stack queue u)).Sublist (ofThread u called)

abbrev Ordered (s : Server) : Prop := Order s.loop_ s.stack s.queue s.executed s.called

namespace Order
variable {loop_ : Loop} {stack stack' : Thread → List Frame} {queue : Loop → BatchQueue Functor}
  {executed called : List Sent} {t : Thread} {l : Loop} {f : Functor} {rest : List Frame}

theorem update_carried (hs : stack t = g :: rest) (hfs : (carried fs).Sublist g.sends)
    (u : Thread) : (carried (Function.update stack t (fs ++ rest) u)).Sublist
      (carried (stack u)) := by
  by_cases hu : u = t
  · subst u
    rw [Function.update_self, hs, carried_append]
    exact hfs.append_right _
  · rw [Function.update_of_ne hu]

theorem goto (h : Order loop_ stack queue executed called) (hs : stack t = g :: rest)
    (fs : List Frame) (hfs : (carried fs).Sublist g.sends) :
    Order loop_ (Function.update stack t (fs ++ rest)) queue executed called := by
  have hcarried := update_carried hs hfs
  have hown (u : Thread) (hu : u ≠ .loop loop_) (m : Sent)
      (hm : m ∈ carried (Function.update stack t (fs ++ rest) u)) : m.thread = u :=
    h.own u hu m ((hcarried u).subset hm)
  have horder (u : Thread) : (ofThread u (executed ++
      transit loop_ (Function.update stack t (fs ++ rest)) queue u)).Sublist
        (ofThread u called) := by
    have htransit : (transit loop_ (Function.update stack t (fs ++ rest)) queue u).Sublist
        (transit loop_ stack queue u) := by
      apply ((hcarried _).append (List.Sublist.refl _)).append
      split
      · exact List.Sublist.refl _
      · exact hcarried u
    exact (((List.Sublist.refl _).append htransit).filter _).trans (h.order u)
  exact ⟨hown, h.queued, horder⟩

theorem waiting_update (hf : f.sends = []) (l' : Loop) :
    waiting (Function.update queue l ((queue l).push f) l') = waiting (queue l') := by
  apply update_keeps waiting
  rw [waiting_push, hf, List.append_nil]

theorem post (h : Order loop_ stack queue executed called) (hf : f.sends = []) :
    Order loop_ stack (Function.update queue l ((queue l).push f)) executed called := by
  have hw : waiting (Function.update queue l ((queue l).push f) loop_) = waiting (queue loop_) :=
    waiting_update hf loop_
  have horder (u : Thread) : (ofThread u (executed ++
      transit loop_ stack (Function.update queue l ((queue l).push f)) u)).Sublist
        (ofThread u called) := by
    rw [transit, hw]
    exact h.order u
  exact ⟨h.own, hw ▸ h.queued, horder⟩

theorem runQueued (h : Order loop_ stack queue executed called)
    (hs : stack t = .runInloop f :: rest) (hrest : carried rest = []) (ht : t ≠ .loop loop_) :
    Order loop_ (Function.update stack t rest)
      (Function.update queue loop_ ((queue loop_).push f)) executed called := by
  have hcarried : carried (stack t) = f.sends := by
    rw [hs, carried_cons, hrest, List.append_nil]
    rfl
  have hmine (m : Sent) (hm : m ∈ f.sends) : m.thread = t := h.own t ht m (hcarried ▸ hm)
  have hgoto := h.goto hs [] (List.nil_sublist _)
  have hqueued (m : Sent)
      (hm : m ∈ waiting (Function.update queue loop_ ((queue loop_).push f) loop_)) :
      m.thread ≠ .loop loop_ := by
    rw [Function.update_self, waiting_push, List.mem_append] at hm
    rcases hm with hm | hm
    · exact h.queued m hm
    · exact (hmine m hm).symm ▸ ht
  have horder (u : Thread) : (ofThread u (executed ++ transit loop_ (Function.update stack t rest)
      (Function.update queue loop_ ((queue loop_).push f)) u)).Sublist (ofThread u called) := by
    have hloop : Function.update stack t rest (.loop loop_) = stack (.loop loop_) :=
      Function.update_of_ne (Ne.symm ht) _ _
    rw [transit, hloop, Function.update_self, waiting_push]
    by_cases hu : u = t
    · subst u
      have hold := h.order t
      rw [transit, if_neg ht, hcarried] at hold
      rw [if_neg ht, Function.update_self, hrest, List.append_nil]
      simpa only [List.append_assoc] using hold
    · have hnone : ofThread u f.sends = [] :=
        ofThread_eq_nil fun m hm he => hu (he.symm.trans (hmine m hm))
      have hold := h.order u
      rw [transit] at hold
      rw [Function.update_of_ne hu]
      simp only [ofThread_append, hnone, List.append_nil] at hold ⊢
      exact hold
  exact ⟨hgoto.own, hqueued, horder⟩

theorem execute (h : Order loop_ stack queue executed called)
    (hs : stack (.loop loop_) = .exec (.sendInLoop m) :: rest) (hrest : carried rest = [])
    (fs : List Frame) (hfs : carried fs = []) :
    Order loop_ (Function.update stack (.loop loop_) (fs ++ rest)) queue (executed ++ [m])
      called := by
  have hgoto := h.goto hs fs (hfs ▸ List.nil_sublist _)
  have horder (u : Thread) : (ofThread u (executed ++ [m] ++ transit loop_
      (Function.update stack (.loop loop_) (fs ++ rest)) queue u)).Sublist (ofThread u called) := by
    have hold := h.order u
    have hcarried : carried (stack (.loop loop_)) = [m] ++ carried rest := by
      rw [hs, carried_cons]
      rfl
    have htransit : [m] ++ transit loop_ (Function.update stack (.loop loop_) (fs ++ rest)) queue u
        = transit loop_ stack queue u := by
      rw [transit, transit, Function.update_self, carried_append, hfs, hrest, hcarried, hrest]
      by_cases hu : u = .loop loop_
      · simp [hu]
      · simp [hu]
    rw [List.append_assoc, htransit]
    exact hold
  exact ⟨hgoto.own, h.queued, horder⟩

theorem dequeue (h : Order loop_ stack queue executed called) (hs : stack (.loop l) = [])
    (hq : (queue l).pop = some (f, q)) (hf : f.isLocal = true → l = loop_) :
    Order loop_ (Function.update stack (.loop l) [.exec f]) (Function.update queue l q) executed
      called := by
  have hpop := waiting_pop hq
  by_cases hl : l = loop_
  · subst l
    have hown (u : Thread) (hu : u ≠ .loop loop_) (m : Sent)
        (hm : m ∈ carried (Function.update stack (.loop loop_) [.exec f] u)) : m.thread = u := by
      rw [Function.update_of_ne hu] at hm
      exact h.own u hu m hm
    have hqueued (m : Sent) (hm : m ∈ waiting (Function.update queue loop_ q loop_)) :
        m.thread ≠ .loop loop_ := by
      rw [Function.update_self] at hm
      exact h.queued m (hpop ▸ List.mem_append_right _ hm)
    have horder (u : Thread) : (ofThread u (executed ++ transit loop_
        (Function.update stack (.loop loop_) [.exec f]) (Function.update queue loop_ q) u)).Sublist
          (ofThread u called) := by
      have hold := h.order u
      have hnil : carried ([] : List Frame) = [] := rfl
      have hexec : carried [.exec f] = f.sends := by simp [carried, Frame.sends]
      rw [transit, hs, hpop, hnil, List.nil_append] at hold
      rw [transit, Function.update_self, Function.update_self, hexec]
      by_cases hu : u = .loop loop_
      · rw [if_pos hu] at hold ⊢
        exact hold
      · rw [if_neg hu] at hold ⊢
        rw [Function.update_of_ne hu]
        exact hold
    exact ⟨hown, hqueued, horder⟩
  · have hsends : f.sends = [] := by
      apply Functor.sends_of_not_local
      by_contra hlocal
      exact hl (hf (by simpa using hlocal))
    have hcarried (u : Thread) :
        carried (Function.update stack (.loop l) [.exec f] u) = carried (stack u) := by
      apply update_keeps carried
      rw [hs]
      simp [carried, Frame.sends, hsends]
    have hloop : Function.update queue l q loop_ = queue loop_ :=
      Function.update_of_ne (Ne.symm hl) _ _
    have hown (u : Thread) (hu : u ≠ .loop loop_) (m : Sent)
        (hm : m ∈ carried (Function.update stack (.loop l) [.exec f] u)) : m.thread = u :=
      h.own u hu m (hcarried u ▸ hm)
    have horder (u : Thread) : (ofThread u (executed ++ transit loop_
        (Function.update stack (.loop l) [.exec f]) (Function.update queue l q) u)).Sublist
          (ofThread u called) := by
      rw [transit, hloop, hcarried, hcarried]
      exact h.order u
    exact ⟨hown, hloop ▸ h.queued, horder⟩

theorem call (h : Order loop_ stack queue executed called) (hs : carried (stack t) = [])
    (hg : g.sends = [m]) (hm : m.thread = t) :
    Order loop_ (Function.update stack t (g :: stack t)) queue executed (called ++ [m]) := by
  have hcarried : carried (g :: stack t) = [m] := by
    rw [carried_cons, hs, hg, List.append_nil]
  have hown (u : Thread) (hu : u ≠ .loop loop_) (m' : Sent)
      (hm' : m' ∈ carried (Function.update stack t (g :: stack t) u)) : m'.thread = u := by
    by_cases hut : u = t
    · subst u
      rw [Function.update_self, hcarried, List.mem_singleton] at hm'
      exact hm' ▸ hm
    · rw [Function.update_of_ne hut] at hm'
      exact h.own u hu m' hm'
  have horder (u : Thread) : (ofThread u (executed ++ transit loop_
      (Function.update stack t (g :: stack t)) queue u)).Sublist (ofThread u (called ++ [m])) := by
    have hold := h.order u
    rw [transit] at hold
    rw [transit, ofThread_append u called]
    by_cases htl : t = .loop loop_
    · subst htl
      rw [hs, List.nil_append] at hold
      rw [Function.update_self, hcarried]
      by_cases hu : u = .loop loop_
      · subst u
        have hnone : ofThread (.loop loop_) (waiting (queue loop_)) = [] :=
          ofThread_eq_nil h.queued
        simp only [↓reduceIte, List.append_nil, ofThread_append, hnone] at hold ⊢
        exact hold.append (List.Sublist.refl _)
      · have hnone : ofThread u [m] = [] :=
          ofThread_eq_nil fun m' hm' he => hu (by
            rw [List.mem_singleton.1 hm', hm] at he
            exact he.symm)
        rw [Function.update_of_ne hu]
        simp only [if_neg hu, ofThread_append, hnone, List.nil_append, List.append_nil] at hold ⊢
        exact hold
    · rw [Function.update_of_ne (Ne.symm htl)]
      by_cases hu : u = t
      · subst u
        rw [if_neg htl, hs, List.append_nil] at hold
        rw [if_neg htl, Function.update_self, hcarried, ← List.append_assoc, ofThread_append]
        exact hold.append (List.Sublist.refl _)
      · rw [Function.update_of_ne hu]
        exact hold.trans (List.sublist_append_left _ _)
  exact ⟨hown, h.queued, horder⟩

theorem push (h : Order loop_ stack queue executed called) (hg : g.sends = []) :
    Order loop_ (Function.update stack t (g :: stack t)) queue executed called := by
  have hcarried (u : Thread) :
      carried (Function.update stack t (g :: stack t) u) = carried (stack u) := by
    apply update_keeps carried
    rw [carried_cons, hg, List.nil_append]
  have hown (u : Thread) (hu : u ≠ .loop loop_) (m : Sent)
      (hm : m ∈ carried (Function.update stack t (g :: stack t) u)) : m.thread = u :=
    h.own u hu m (hcarried u ▸ hm)
  have horder (u : Thread) : (ofThread u (executed ++ transit loop_
      (Function.update stack t (g :: stack t)) queue u)).Sublist (ofThread u called) := by
    rw [transit, hcarried, hcarried]
    exact h.order u
  exact ⟨hown, h.queued, horder⟩

end Order

theorem Ordered.init (config : Config) : Ordered (Server.init config) :=
  ⟨fun _ _ _ => nofun, fun _ => nofun, fun u => by
    simp [transit, Server.init, carried, waiting, BatchQueue.contents, ofThread]⟩

theorem carried_dispatch (revents : Events) : carried (dispatch revents) = [] := by
  apply List.flatMap_eq_nil_iff.2
  intro g hg
  rcases mem_dispatch hg with rfl | rfl | rfl <;> rfl

theorem Ordered.called {s s' : Server} (hp : Placed s) (ho : Ordered s)
    (hs : s.stack t = .exec f :: rest) (h : Called s t rest k f s') : Ordered s' := by
  have hrest := carried_below (hp.belowTop hs).2
  have hnone (fs : List Frame) (hfs : carried fs = []) :
      Order s.loop_ (Function.update s.stack t (fs ++ rest)) s.queue s.executed s.called :=
    ho.goto hs fs (hfs ▸ List.nil_sublist _)
  cases h with
  | connectEstablished => exact hnone [.connectionCallback .connectEstablished] rfl
  | @sendInLoop c notices m hstate hc =>
    cases Frame.home (hp.frame hs) rfl
    exact ho.execute hs hrest _ (carried_below (isBelow_notices notices))
  | sendLate | shutdownInLoop | forceCloseLate | startReadInLoop | stopReadInLoop =>
    exact hnone [] rfl
  | forceCloseInLoop => exact hnone [.handleClose] rfl
  | destroyConnected => exact hnone [.setDisconnected, .remove] rfl
  | destroyLate => exact hnone [.remove] rfl
  | removeConnectionInLoop => exact (ho.post rfl).goto hs [] (List.nil_sublist _)
  | notice | other => exact hnone [.user] rfl

theorem Ordered.goes {s s' : Server} (hp : Placed s) (ho : Ordered s)
    (hs : s.stack t = f :: rest) (h : Goes s t rest k f s') : Ordered s' := by
  have hnone (fs : List Frame) (hfs : carried fs = []) :
      Order s.loop_ (Function.update s.stack t (fs ++ rest)) s.queue s.executed s.called :=
    ho.goto hs fs (hfs ▸ List.nil_sublist _)
  cases h with
  | handleEvent => exact hnone _ (carried_dispatch _)
  | readData => exact hnone [.user] rfl
  | readEof => exact hnone [.handleClose] rfl
  | readError | handleWrite | ifDisconnecting | ifNotDisconnecting | remove | sendDropped
  | shutdownDropped | forceCloseDropped => exact hnone [] rfl
  | @drained c => exact hnone _ (carried_below (isBelow_drained c))
  | handleClose => exact hnone [.connectionCallback .handleClose, .closeCallback] rfl
  | connectionCallback => exact hnone [.user] rfl
  | closeInLoop => exact hnone [.exec .removeConnectionInLoop] rfl
  | closeQueued => exact (ho.post rfl).goto hs [] (List.nil_sublist _)
  | setDisconnected => exact hnone [.connectionCallback .connectDestroyed] rfl
  | @send m => exact ho.goto hs [.runInloop (.sendInLoop m)] (List.Sublist.refl _)
  | shutdown => exact hnone [.setDisconnecting] rfl
  | setDisconnecting => exact hnone [.runInloop .shutdownInLoop] rfl
  | forceClose => exact hnone [.queueForceClose] rfl
  | @runInLoop f =>
    have hsame : carried [.exec f] = f.sends := List.append_nil _
    exact ho.goto hs [.exec f] (hsame ▸ List.Sublist.refl _)
  | runQueued ht => exact ho.runQueued hs (carried_below (hp.belowTop hs).2) ht
  | queueForceClose | queueNotice => exact (ho.post rfl).goto hs [] (List.nil_sublist _)
  | exec hc => exact ho.called hp hs hc

theorem Ordered.step {s s' : Server} (hp : Placed s) (ho : Ordered s)
    (h : s.step a = some s') : Ordered s' := by
  cases Step.of_step h with
  | go hs hg => exact ho.goes hp hs hg
  | @activeChannel l revents hs =>
    have hpush := ho.push (t := .loop l) (g := .handleEvent revents) rfl
    rw [hs] at hpush
    exact hpush
  | handled | endFunctors | poll => exact ho
  | @swap l _ hphase =>
    have hb := hp.batch l (by rw [hphase]; nofun)
    have hw : waiting (Function.update s.queue l (s.queue l).swap s.loop_) =
        waiting (s.queue s.loop_) := by
      apply update_keeps waiting
      rw [waiting, waiting, BatchQueue.contents_swap hb]
    have horder (u : Thread) : (ofThread u (s.executed ++ transit s.loop_ s.stack
        (Function.update s.queue l (s.queue l).swap) u)).Sublist (ofThread u s.called) := by
      rw [transit, hw]
      exact ho.order u
    exact ⟨ho.own, hw ▸ ho.queued, horder⟩
  | @callFunctor l f q hs _ hq =>
    exact ho.dequeue hs hq (hp.carries.dequeue hq).1
  | @enter l hs =>
    have hpush := ho.push (t := .loop l) (g := .user) rfl
    rw [hs] at hpush
    exact hpush
  | leave hs => exact ho.goto hs [] (List.nil_sublist _)
  | @call t a hu =>
    have hs := carried_below (hp.user_below hu)
    cases a with
    | send message => exact ho.call hs rfl rfl
    | shutdown | forceClose | startRead | stopRead => exact ho.push rfl
  | post => exact ho.post rfl
  | newConnection hs =>
    have hpush := ho.push (t := .loop .base) (g := .runInloop .connectEstablished) rfl
    rw [hs] at hpush
    exact hpush
  | destroy =>
    refine destroy_cases s ?_ ?_ ?_
    · intro _ _
      exact ho.push rfl
    · intro _ _
      exact ho.post rfl
    · intro _
      exact ho

theorem called_step {s s' : Server} (h : s.step a = some s') : s'.called = s.called ∨
    ∃ t message, a = .call t (.send message) ∧
      s'.called = s.called ++ [⟨s.called.length, t, message⟩] := by
  cases Step.of_step h with
  | go _ hg =>
    cases hg with
    | exec hc => cases hc <;> exact .inl rfl
    | _ => exact .inl rfl
  | @call t a =>
    cases a with
    | send message => exact .inr ⟨t, message, rfl, rfl⟩
    | shutdown | forceClose | startRead | stopRead => exact .inl rfl
  | destroy => exact .inl (destroy_cases s (fun _ _ => rfl) (fun _ _ => rfl) fun _ => rfl)
  | _ => exact .inl rfl

theorem called_ids {s s' : Server} (hi : s.called.map (·.id) = List.range s.called.length)
    (h : s.step a = some s') : s'.called.map (·.id) = List.range s'.called.length := by
  rcases called_step h with hc | ⟨t, message, _, hc⟩
  · rw [hc]
    exact hi
  · rw [hc, List.map_append, hi, List.length_append, List.length_singleton, List.range_succ]
    rfl

theorem Ordered.run {s : Server} (h : Run Server.step (Server.init config) as s) : Ordered s := by
  have hboth := h.invariant (P := fun u => Placed u ∧ Ordered u)
    ⟨Placed.init config, Ordered.init config⟩
    fun _ _ _ hu hstep => ⟨hu.1.step hstep, hu.2.step hu.1 hstep⟩
  exact hboth.2

theorem called_nodup {s : Server} (h : Run Server.step (Server.init config) as s) :
    s.called.Nodup := by
  have hids := h.invariant (P := fun u => u.called.map (·.id) = List.range u.called.length) rfl
    fun _ _ _ => called_ids
  exact List.Nodup.of_map _ (hids ▸ List.nodup_range)

/-- A connection on an I/O loop of its own. -/
def ioConfig : Config := ⟨.io, 1, 7, 64 * 1024 * 1024, true, false⟩

def iterate (l : Loop) : List Action := [.loop l, .poll l none, .loop l, .loop l]

/-- A connection is accepted and established on its own loop. -/
def connecting : List Action :=
  [.poll .base none, .newConnection, .go (.loop .base) {}, .poll .io none, .loop .io, .loop .io,
    .loop .io, .go (.loop .io) {}, .go (.loop .io) {}, .leave .io]

def block (n x : UInt8) : Block where
  bytes := List.replicate n.toNat x
  bound := by
    rw [List.length_replicate]
    exact Nat.lt_trans n.toNat_lt (by decide)

/-- Two threads send. The first message goes out in two parts, and the socket fails at the third
one. -/
def sendingTwo : List Action := connecting ++
  [.call (.user 0) (.send (block 3 1)), .go (.user 0) {}, .go (.user 0) {},
    .call (.user 1) (.send (block 2 2)), .go (.user 1) {}, .go (.user 1) {}] ++
  iterate .io ++
  [.loop .io, .go (.loop .io) { write := .accepted 1 }, .loop .io, .go (.loop .io) {},
    .call (.user 0) (.send (block 1 3)), .go (.user 0) {}, .go (.user 0) {}]

def sendingFault : List Action := sendingTwo ++
  [.loop .io, .poll .io (some POLLOUT), .loop .io, .go (.loop .io) {},
    .go (.loop .io) { write := .accepted 4 }, .go (.loop .io) {}, .go (.loop .io) {}, .loop .io,
    .loop .io, .loop .io, .go (.loop .io) { write := .error .EPIPE }]

/-- Until the socket fails, the bytes written and the bytes still buffered are exactly the
messages whose `sendInLoop` has run, whole and in that order; after a failure the bytes written are
a prefix of them. Each thread's messages are sent in the order of its calls. -/
theorem outbound_stream {s : Server} (h : Run Server.step (Server.init config) as s) :
    (s.conn.faulted = false →
      s.conn.written ++ s.conn.outputBuffer_.readable = bytes s.executed) ∧
    (AllSteps Server.step Broken (Server.init config) as → s.conn.faulted = true →
      s.conn.written <+: bytes s.executed) ∧
    (∀ t, (ofThread t s.executed).Sublist (ofThread t s.called)) ∧ s.called.Nodup := by
  have horder (t : Thread) : (ofThread t s.executed).Sublist (ofThread t s.called) := by
    have ho := (Ordered.run h).order t
    rw [ofThread_append] at ho
    exact (List.sublist_append_left _ _).trans ho
  exact ⟨(Outbound.run h).exact, Behind.run h, horder, called_nodup h⟩

theorem outbound_stream_example :
    (∃ s, Run Server.step (Server.init ioConfig) sendingTwo s ∧
      s.conn.written ++ s.conn.outputBuffer_.readable = [1, 1, 1, 2, 2]) ∧
    ∃ s, Run Server.step (Server.init ioConfig) sendingFault s ∧
      s.conn.faulted = true ∧ s.conn.written <+: [1, 1, 1, 2, 2, 3] := by
  have hsent : (exec Server.step (Server.init ioConfig) sendingTwo).any (fun s =>
      !s.conn.faulted && bytes s.executed == [1, 1, 1, 2, 2]) = true := by decide +kernel
  have hfault : (exec Server.step (Server.init ioConfig) sendingFault).any (fun s =>
      s.conn.faulted && bytes s.executed == [1, 1, 1, 2, 2, 3]) = true := by decide +kernel
  obtain ⟨s, hs, hp⟩ := Run.of_exec_any hsent
  obtain ⟨t, ht, hq⟩ := Run.of_exec_any hfault
  simp only [Bool.and_eq_true, Bool.not_eq_true', beq_iff_eq] at hp hq
  exact ⟨⟨s, hs, hp.2 ▸ (outbound_stream hs).1 hp.1⟩,
    t, ht, hq.1, hq.2 ▸ (outbound_stream ht).2.1 (by decide +kernel) hq.1⟩

end MuduoStudy.Server
