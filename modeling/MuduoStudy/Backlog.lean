import MuduoStudy.SendOrder

namespace MuduoStudy
open Transition
set_option autoImplicit true

namespace TcpConnection

abbrev backlog (c : TcpConnection) : Nat := c.outputBuffer_.readableBytes

/-- `sendInLoop` meets `EPIPE` or `ECONNRESET`. -/
def fails (c : TcpConnection) : WriteResult → Bool
  | .accepted _ => false
  | .error e => c.idle && decide (e = .EPIPE ∨ e = .ECONNRESET)

/-- The high-water callback of a step that takes the backlog from below the mark to it. -/
def crossing (c c' : TcpConnection) : List Notice :=
  if c.backlog < c.highWaterMark_ ∧ c.highWaterMark_ ≤ c'.backlog then [.highWater c'.backlog]
  else []

theorem crossing_of_le {c c' : TcpConnection} (h : c'.backlog ≤ c.backlog) :
    crossing c c' = [] := by
  apply if_neg
  rintro ⟨hlt, hle⟩
  omega

theorem backlog_append {c : TcpConnection} {rest : List UInt8} (hwf : c.outputBuffer_.Wf)
    (hlen : rest.length < 2 ^ 63)
    (hb : c.outputBuffer_.append rest = some b) : b.readableBytes = c.backlog + rest.length ∧
      sizeAdd c.backlog rest.length = c.backlog + rest.length := by
  obtain ⟨hwf', hread⟩ := hwf.append hlen hb
  have hbound := hwf'.bound
  have hsum : b.readable.length = c.backlog + rest.length := by
    rw [hread, List.length_append, backlog, hwf.readableBytes]
  exact ⟨hwf'.readableBytes.trans hsum, sizeAdd_of_lt (by omega)⟩

theorem bufferRest_notices {c c' : TcpConnection} (hwf : c.outputBuffer_.Wf)
    (hlen : rest.length < 2 ^ 63) (hne : rest ≠ []) (hset : c.highWaterCallback_ = true)
    (h : c.bufferRest rest = some (c', notices)) :
    c'.backlog = c.backlog + rest.length ∧ notices = crossing c c' := by
  rw [bufferRest, if_pos (List.length_pos_iff.2 hne)] at h
  obtain ⟨b, hb, he⟩ := Option.map_eq_some_iff.1 h
  obtain ⟨hbacklog, hsum⟩ := backlog_append hwf hlen hb
  simp only [Prod.mk.injEq] at he
  obtain ⟨rfl, rfl⟩ := he
  have hnew : (if c.channel_.isWriting then ({ c with outputBuffer_ := b } : TcpConnection)
      else ({ c with outputBuffer_ := b } : TcpConnection).enableWriting).backlog =
        c.backlog + rest.length := by
    split
    · exact hbacklog
    · exact hbacklog
  refine ⟨hnew, ?_⟩
  rw [crossing, hnew, hsum]
  simp only [hset, and_true]
  exact if_congr and_comm rfl rfl

theorem idle_backlog {c : TcpConnection} (h : c.idle = true) : c.backlog = 0 := by
  simp only [idle, Bool.and_eq_true, beq_iff_eq] at h
  exact h.2

theorem sendInLoop_of_not_idle {c : TcpConnection} (hstate : c.state_ ≠ .kDisconnected)
    (hi : c.idle = false) : c.sendInLoop message w = c.bufferRest message := by
  rw [idle] at hi
  unfold sendInLoop
  rw [if_neg hstate, hi]
  rfl

theorem sendInLoop_accepted {c : TcpConnection} (hstate : c.state_ ≠ .kDisconnected)
    (hi : c.idle = true) : c.sendInLoop message (.accepted n) =
      if n ≤ message.length then
        if message.length - n = 0 then
          some (c.accept (message.take n),
            if c.writeCompleteCallback_ then [.writeComplete] else [])
        else (c.accept (message.take n)).bufferRest (message.drop n)
      else none := by
  rw [idle] at hi
  unfold sendInLoop
  rw [if_neg hstate, hi]
  rfl

theorem sendInLoop_error {c : TcpConnection} (hstate : c.state_ ≠ .kDisconnected)
    (hi : c.idle = true) : c.sendInLoop message (.error e) =
      if e = .EPIPE ∨ e = .ECONNRESET then some ({ c with faulted := true }, [])
      else c.bufferRest message := by
  rw [idle] at hi
  unfold sendInLoop
  rw [if_neg hstate, hi]
  rfl

def sendNotices (c : TcpConnection) (w : WriteResult) (c' : TcpConnection) : List Notice :=
  (if c.fails w = false ∧ c'.backlog = 0 then [.writeComplete] else []) ++ crossing c c'

theorem bufferRest_sendNotices {c c' : TcpConnection} (hwf : c.outputBuffer_.Wf)
    (hlen : rest.length < 2 ^ 63) (hne : rest ≠ []) (hset : c.highWaterCallback_ = true)
    (h : c.bufferRest rest = some (c', notices)) : notices = c.sendNotices w c' := by
  obtain ⟨hbacklog, hnotices⟩ := bufferRest_notices hwf hlen hne hset h
  have hpos := List.length_pos_iff.2 hne
  have hnone : ¬ (c.fails w = false ∧ c'.backlog = 0) := by
    rintro ⟨_, hzero⟩
    omega
  rw [sendNotices, if_neg hnone, List.nil_append, hnotices]

theorem sendInLoop_notices {c c' : TcpConnection} (hwf : c.outputBuffer_.Wf)
    (hlen : message.length < 2 ^ 63) (hne : message ≠ []) (hstate : c.state_ ≠ .kDisconnected)
    (hcomplete : c.writeCompleteCallback_ = true) (hset : c.highWaterCallback_ = true)
    (h : c.sendInLoop message w = some (c', notices)) : notices = c.sendNotices w c' := by
  cases hi : c.idle with
  | false =>
    rw [sendInLoop_of_not_idle hstate hi] at h
    exact bufferRest_sendNotices hwf hlen hne hset h
  | true =>
    have hzero := idle_backlog hi
    cases w with
    | accepted n =>
      rw [sendInLoop_accepted hstate hi, Option.ite_none_right_eq_some] at h
      obtain ⟨_, h⟩ := h
      by_cases hz : message.length - n = 0
      · rw [if_pos hz, Option.some.injEq, Prod.mk.injEq] at h
        obtain ⟨rfl, rfl⟩ := h
        have hsame : (c.accept (message.take n)).backlog = 0 := hzero
        have hnone := crossing_of_le (Nat.le_of_eq (hsame.trans hzero.symm))
        rw [if_pos hcomplete, sendNotices, if_pos ⟨rfl, hsame⟩, hnone, List.append_nil]
      · rw [if_neg hz] at h
        have hlen' : (message.drop n).length < 2 ^ 63 := by
          rw [List.length_drop]
          omega
        have hrest : message.drop n ≠ [] := by
          rw [← List.length_pos_iff, List.length_drop]
          omega
        have hwf' : (c.accept (message.take n)).outputBuffer_.Wf := hwf
        have hsend : notices = (c.accept (message.take n)).sendNotices (.accepted n) c' :=
          bufferRest_sendNotices hwf' hlen' hrest hset h
        exact hsend
    | error e =>
      rw [sendInLoop_error hstate hi] at h
      by_cases he : e = .EPIPE ∨ e = .ECONNRESET
      · rw [if_pos he, Option.some.injEq, Prod.mk.injEq] at h
        obtain ⟨rfl, rfl⟩ := h
        have hfails : c.fails (.error e) = true := by
          rw [fails, hi, decide_eq_true he]
          rfl
        have hsame : ({ c with faulted := true } : TcpConnection).backlog = c.backlog := rfl
        rw [sendNotices, hfails, crossing_of_le (Nat.le_of_eq hsame)]
        rfl
      · rw [if_neg he] at h
        exact bufferRest_sendNotices hwf hlen hne hset h

theorem handleWrite_done_iff {c c' : TcpConnection} (hwf : c.outputBuffer_.Wf)
    (h : Writes c w c' done) : c'.backlog ≤ c.backlog ∧
      (done = true ↔ (c.channel_.isWriting = true ∧ 0 < c.backlog) ∧ c'.backlog = 0) := by
  cases h with
  | nothing =>
    refine ⟨Nat.le_refl _, iff_of_false nofun ?_⟩
    rintro ⟨⟨_, hpos⟩, hzero⟩
    omega
  | @part n _ _ _ hne =>
    have hle : (c.drain n).backlog ≤ c.backlog := by
      obtain ⟨hwf', hread⟩ := hwf.retrieve n
      have hnew : (c.drain n).backlog = (c.outputBuffer_.readable.drop n).length := by
        rw [← hread, ← hwf'.readableBytes]
        rfl
      rw [hnew, List.length_drop, backlog, hwf.readableBytes]
      exact Nat.sub_le _ _
    exact ⟨hle, iff_of_false nofun fun hd => hne hd.2⟩
  | @drained n hw hpos hle hzero =>
    have hnew : (c.drain n).disableWriting.backlog = 0 := hzero
    have hbefore : 0 < c.backlog := Nat.lt_of_lt_of_le hpos hle
    exact ⟨by omega, iff_of_true rfl ⟨⟨hw, hbefore⟩, hnew⟩⟩

/-- What is set up before the connection is established. -/
def settings (c : TcpConnection) : Nat × Bool × Bool :=
  (c.highWaterMark_, c.writeCompleteCallback_, c.highWaterCallback_)

theorem Buffers.settings (h : Buffers c rest c') : c'.settings = c.settings := by
  cases h <;> rfl

theorem Sends.settings (h : Sends c message w c') : c'.settings = c.settings := by
  cases h with
  | written _ _ hb => exact hb.settings
  | fault => rfl
  | buffered _ hb => exact hb.settings

theorem Writes.settings (h : Writes c w c' done) : c'.settings = c.settings := by
  cases h <;> rfl

end TcpConnection

namespace Server

def Functor.notices : Functor → List Notice
  | .notice n => [n]
  | _ => []

def Frame.isNotice : Frame → Bool
  | .queueNotice _ | .runInloop (.notice _) => true
  | _ => false

/-- The callbacks that a thread queues before it does anything else. -/
def pendingNotices : List Frame → List Notice
  | .queueNotice n :: rest => n :: pendingNotices rest
  | _ => []

def queuedNotices (s : Server) : List Notice :=
  (s.queue s.loop_).pushed.flatMap Functor.notices

/-- The callbacks that have been queued, and then those that the loop's thread queues next. -/
def notices (s : Server) : List Notice :=
  s.queuedNotices ++ pendingNotices (s.stack (.loop s.loop_))

/-- The frame reports a drained buffer: a `sendInLoop` in a state other than `kDisconnected` that
does not fail, or a `handleWrite` that starts from a backlog with write interest. -/
def Frame.completes (c : TcpConnection) (k : Answer) : Frame → Bool
  | .exec (.sendInLoop _) => c.state_ ≠ .kDisconnected && !c.fails k.write
  | .handleWrite => c.channel_.isWriting && decide (0 < c.backlog)
  | _ => false

def completes (s : Server) : Action → Bool
  | .go t k =>
    match s.stack t with
    | [] => false
    | f :: _ => f.completes s.conn k
  | _ => false

/-- The callbacks that a step should queue. -/
def announced (s : Server) (a : Action) (s' : Server) : List Notice :=
  (if s.completes a = true ∧ s'.conn.backlog = 0 then [.writeComplete] else []) ++
    TcpConnection.crossing s.conn s'.conn

theorem completes_go {s : Server} (hs : s.stack t = f :: rest) :
    s.completes (.go t k) = f.completes s.conn k := by
  rw [completes, hs]

/-- A thread queues callbacks before it does anything else. -/
def Prompt : List Frame → Prop
  | .queueNotice _ :: rest => Prompt rest
  | frames => ∀ g ∈ frames, g.isNotice = false

theorem Prompt.cons (h : Prompt (f :: rest)) (hf : f.isNotice = false) :
    ∀ g ∈ f :: rest, g.isNotice = false := by
  cases f with
  | queueNotice => cases hf
  | _ => exact h

theorem prompt_of_none {fs : List Frame} (h : ∀ g ∈ fs, g.isNotice = false) :
    Prompt fs ∧ pendingNotices fs = [] := by
  cases fs with
  | nil => exact ⟨fun _ => nofun, rfl⟩
  | cons f fs =>
    cases f with
    | queueNotice => cases h _ List.mem_cons_self
    | _ => exact ⟨h, rfl⟩

theorem prompt_notices (ns : List Notice) {fs : List Frame} (h : ∀ g ∈ fs, g.isNotice = false) :
    Prompt (ns.map .queueNotice ++ fs) ∧ pendingNotices (ns.map .queueNotice ++ fs) = ns := by
  induction ns with
  | nil => exact prompt_of_none h
  | cons n ns ih => exact ⟨ih.1, congrArg _ ih.2⟩

/-- The step queues the callbacks, or leaves them to the loop's thread to queue next. -/
structure Announces (s : Server) (new : List Notice) (s' : Server) : Prop where
  notices : s'.notices = s.notices ++ new
  prompt : ∀ t, Prompt (s'.stack t)

section
variable {s s' : Server} {t : Thread} {f : Frame} {rest fs : List Frame}

theorem Announces.same (hq : ∀ t, Prompt (s.stack t)) (hstack : s'.stack = s.stack)
    (hloop : s'.loop_ = s.loop_) (hqueued : s'.queuedNotices = s.queuedNotices) :
    Announces s [] s' := by
  refine ⟨?_, hstack ▸ hq⟩
  rw [Server.notices, Server.notices, hqueued, hloop, hstack, List.append_nil]

theorem Announces.enter (hq : ∀ t, Prompt (s.stack t)) (hs : ∀ g ∈ s.stack t, g.isNotice = false)
    {ns : List Notice} (hns : ns = [] ∨ t = .loop s.loop_) (hfs : ∀ g ∈ fs, g.isNotice = false)
    (hstack : s'.stack = Function.update s.stack t (ns.map .queueNotice ++ fs))
    (hloop : s'.loop_ = s.loop_) (hqueued : s'.queuedNotices = s.queuedNotices) :
    Announces s ns s' := by
  obtain ⟨hprompt, hpending⟩ := prompt_notices ns hfs
  constructor
  · rw [Server.notices, Server.notices, hqueued, hloop, hstack, List.append_assoc]
    congr 1
    by_cases ht : Thread.loop s.loop_ = t
    · subst t
      rw [Function.update_self, hpending, (prompt_of_none hs).2]
      rfl
    · rw [Function.update_of_ne ht, hns.resolve_right (Ne.symm ht), List.append_nil]
  · intro u
    rw [hstack]
    by_cases hu : u = t
    · subst u
      rwa [Function.update_self]
    · rw [Function.update_of_ne hu]
      exact hq u

theorem Announces.goto (hq : ∀ t, Prompt (s.stack t)) (hs : s.stack t = f :: rest)
    (hf : f.isNotice = false) {ns : List Notice} (hns : ns = [] ∨ t = .loop s.loop_)
    (hfs : ∀ g ∈ fs, g.isNotice = false)
    (hstack : s'.stack = Function.update s.stack t (ns.map .queueNotice ++ (fs ++ rest)))
    (hloop : s'.loop_ = s.loop_) (hqueued : s'.queuedNotices = s.queuedNotices) :
    Announces s ns s' := by
  have hall := hq t
  rw [hs] at hall
  have hnone := hall.cons hf
  have hnew (g : Frame) (hg : g ∈ fs ++ rest) : g.isNotice = false :=
    (List.mem_append.1 hg).elim (hfs g) fun hg => hnone g (List.mem_cons_of_mem _ hg)
  exact .enter hq (hs ▸ hnone) hns hnew hstack hloop hqueued

end

theorem queuedNotices_post (s : Server) (l : Loop) {f : Functor} (hf : f.notices = []) :
    (s.post l f).queuedNotices = s.queuedNotices := by
  have hpush : ((s.queue l).push f).pushed.flatMap Functor.notices =
      (s.queue l).pushed.flatMap Functor.notices := by
    simp only [BatchQueue.push, List.flatMap_append, List.flatMap_singleton, hf, List.append_nil]
  exact update_keeps (fun q : BatchQueue Functor => q.pushed.flatMap Functor.notices) hpush s.loop_

/-- What the functions of the connection decide about the callbacks. -/
inductive Decides (s : Server) : Action → List Notice → Server → Prop where
  | nothing : s'.conn.backlog = s.conn.backlog → s.completes a = false → Decides s a [] s'
  | sendInLoop : s.stack t = .exec (.sendInLoop m) :: rest → s.conn.state_ ≠ .kDisconnected →
      s.conn.sendInLoop m.message.bytes k.write = some (s'.conn, new) → Decides s (.go t k) new s'
  | handleWrite : s.stack t = .handleWrite :: rest →
      s.conn.handleWrite k.write = some (s'.conn, done) →
      Decides s (.go t k)
        (if done && s'.conn.writeCompleteCallback_ then [.writeComplete] else []) s'

section
variable {s s' : Server} {t : Thread} {f : Frame} {rest : List Frame}

theorem isNotice_dispatch (revents : Events) : ∀ g ∈ dispatch revents, g.isNotice = false := by
  intro g hg
  rcases mem_dispatch hg with rfl | rfl | rfl <;> rfl

theorem Called.announces (hp : Placed s) (hq : ∀ t, Prompt (s.stack t))
    (hs : s.stack t = .exec g :: rest) (h : Called s t rest k g s') :
    ∃ new, Decides s (.go t k) new s' ∧ Announces s new s' := by
  have hgo (fs : List Frame) (hb : s'.conn.backlog = s.conn.backlog)
      (hc : (Frame.exec g).completes s.conn k = false) (hfs : ∀ g ∈ fs, g.isNotice = false)
      (hstack : s'.stack = Function.update s.stack t (fs ++ rest)) (hloop : s'.loop_ = s.loop_)
      (hqueued : s'.queuedNotices = s.queuedNotices) :
      ∃ new, Decides s (.go t k) new s' ∧ Announces s new s' :=
    ⟨[], .nothing hb ((completes_go hs).trans hc),
      .goto hq hs rfl (.inl rfl) hfs hstack hloop hqueued⟩
  have hone {f : Frame} (hf : f.isNotice = false) : ∀ f' ∈ [f], f'.isNotice = false :=
    List.forall_mem_singleton.2 hf
  have hnil : ∀ f ∈ ([] : List Frame), f.isNotice = false := fun _ => nofun
  cases h with
  | connectEstablished =>
    exact hgo [.connectionCallback .connectEstablished] rfl rfl (hone rfl) rfl rfl rfl
  | @sendInLoop c notices m hd hc =>
    exact ⟨notices, .sendInLoop hs hd hc,
      .goto hq hs rfl (.inr (Frame.home (hp.frame hs) rfl)) hnil rfl rfl rfl⟩
  | @sendLate m hd =>
    have hc : (Frame.exec (.sendInLoop m)).completes s.conn k = false := by
      simp [Frame.completes, hd]
    exact hgo [] rfl hc hnil rfl rfl rfl
  | shutdownInLoop =>
    have hb := congrArg Buff.readableBytes s.conn.shutdownInLoop_same.2.2.2
    exact hgo [] hb rfl hnil rfl rfl rfl
  | startReadInLoop =>
    have hb := congrArg Buff.readableBytes (TcpConnection.SameData.startReadInLoop s.conn).buffer
    exact hgo [] hb rfl hnil rfl rfl rfl
  | stopReadInLoop =>
    have hb := congrArg Buff.readableBytes (TcpConnection.SameData.stopReadInLoop s.conn).buffer
    exact hgo [] hb rfl hnil rfl rfl rfl
  | forceCloseInLoop => exact hgo [.handleClose] rfl rfl (hone rfl) rfl rfl rfl
  | forceCloseLate => exact hgo [] rfl rfl hnil rfl rfl rfl
  | destroyConnected =>
    exact hgo [.setDisconnected, .remove] rfl rfl (List.forall_mem_cons.2 ⟨rfl, hone rfl⟩) rfl rfl
      rfl
  | destroyLate => exact hgo [.remove] rfl rfl (hone rfl) rfl rfl rfl
  | removeConnectionInLoop =>
    exact hgo [] rfl rfl hnil rfl rfl (queuedNotices_post _ _ rfl)
  | notice | other => exact hgo [.user] rfl rfl (hone rfl) rfl rfl rfl

theorem Goes.announces (hp : Placed s) (hq : ∀ t, Prompt (s.stack t))
    (hs : s.stack t = f :: rest) (h : Goes s t rest k f s') :
    ∃ new, Decides s (.go t k) new s' ∧ Announces s new s' := by
  have hall := hq t
  rw [hs] at hall
  have hgo (fs : List Frame) (hf : f.isNotice = false) (hb : s'.conn.backlog = s.conn.backlog)
      (hc : f.completes s.conn k = false) (hfs : ∀ g ∈ fs, g.isNotice = false)
      (hstack : s'.stack = Function.update s.stack t (fs ++ rest)) (hloop : s'.loop_ = s.loop_)
      (hqueued : s'.queuedNotices = s.queuedNotices) :
      ∃ new, Decides s (.go t k) new s' ∧ Announces s new s' :=
    ⟨[], .nothing hb ((completes_go hs).trans hc),
      .goto hq hs hf (.inl rfl) hfs hstack hloop hqueued⟩
  have hone {g : Frame} (hg : g.isNotice = false) : ∀ g' ∈ [g], g'.isNotice = false :=
    List.forall_mem_singleton.2 hg
  have hnil : ∀ g ∈ ([] : List Frame), g.isNotice = false := fun _ => nofun
  cases h with
  | handleEvent => exact hgo _ rfl rfl rfl (isNotice_dispatch _) rfl rfl rfl
  | readData => exact hgo [.user] rfl rfl rfl (hone rfl) rfl rfl rfl
  | readEof => exact hgo [.handleClose] rfl rfl rfl (hone rfl) rfl rfl rfl
  | readError | ifNotDisconnecting | sendDropped | shutdownDropped | forceCloseDropped | remove =>
    exact hgo [] rfl rfl rfl hnil rfl rfl rfl
  | handleWrite hc => exact ⟨_, .handleWrite hs hc, .goto hq hs rfl (.inl rfl) hnil rfl rfl rfl⟩
  | @drained c hc =>
    have hframes (rest : List Frame) : drainedFrames c ++ rest =
        (if true && c.writeCompleteCallback_ then [Notice.writeComplete] else []).map
          .queueNotice ++ ([.ifDisconnecting] ++ rest) := by
      rw [drainedFrames, Bool.true_and, List.append_assoc]
      split <;> rfl
    exact ⟨_, .handleWrite hs hc, .goto hq hs rfl (.inr (Frame.home (hp.frame hs) rfl))
      (hone (g := .ifDisconnecting) rfl) (congrArg (Function.update s.stack t) (hframes rest)) rfl
      rfl⟩
  | ifDisconnecting =>
    have hb := congrArg Buff.readableBytes s.conn.shutdownInLoop_same.2.2.2
    exact hgo [] rfl hb rfl hnil rfl rfl rfl
  | handleClose =>
    exact hgo [.connectionCallback .handleClose, .closeCallback] rfl rfl rfl
      (List.forall_mem_cons.2 ⟨rfl, hone rfl⟩) rfl rfl rfl
  | connectionCallback => exact hgo [.user] rfl rfl rfl (hone rfl) rfl rfl rfl
  | closeInLoop => exact hgo [.exec .removeConnectionInLoop] rfl rfl rfl (hone rfl) rfl rfl rfl
  | closeQueued => exact hgo [] rfl rfl rfl hnil rfl rfl (queuedNotices_post _ _ rfl)
  | setDisconnected =>
    exact hgo [.connectionCallback .connectDestroyed] rfl rfl rfl (hone rfl) rfl rfl rfl
  | @send m => exact hgo [.runInloop (.sendInLoop m)] rfl rfl rfl (hone rfl) rfl rfl rfl
  | shutdown => exact hgo [.setDisconnecting] rfl rfl rfl (hone rfl) rfl rfl rfl
  | setDisconnecting =>
    exact hgo [.runInloop .shutdownInLoop] rfl rfl rfl (hone rfl) rfl rfl rfl
  | forceClose => exact hgo [.queueForceClose] rfl rfl rfl (hone rfl) rfl rfl rfl
  | @runInLoop g => exact hgo [.exec g] (hall _ List.mem_cons_self) rfl rfl (hone rfl) rfl rfl rfl
  | @runQueued g =>
    have hg := hall _ List.mem_cons_self
    have hnotices : g.notices = [] := by
      cases g <;> first | rfl | cases hg
    exact hgo [] hg rfl rfl hnil rfl rfl (queuedNotices_post _ _ hnotices)
  | queueForceClose => exact hgo [] rfl rfl rfl hnil rfl rfl (queuedNotices_post _ _ rfl)
  | @queueNotice n =>
    cases Frame.home (hp.frame hs) rfl
    have hsame : ((s.post s.loop_ (.notice n)).goto (.loop s.loop_) rest).notices =
        s.notices ++ [] := by
      simp only [notices, queuedNotices, post, goto, Function.update_self, BatchQueue.push, hs,
        pendingNotices, List.flatMap_append, List.flatMap_singleton, List.append_nil,
        List.append_assoc]
      rfl
    have hprompt (u : Thread) : Prompt (Function.update s.stack (.loop s.loop_) rest u) := by
      by_cases hu : u = .loop s.loop_
      · subst u
        rw [Function.update_self]
        exact hall
      · rw [Function.update_of_ne hu]
        exact hq u
    exact ⟨[], .nothing rfl (completes_go hs), hsame, hprompt⟩
  | exec hc => exact hc.announces hp hq hs

end

theorem pop_pushed {q q' : BatchQueue Functor} (h : q.pop = some (f, q')) :
    q'.pushed = q.pushed := by
  unfold BatchQueue.pop at h
  split at h
  · cases h
  · cases h
    rfl

theorem Announces.step {s s' : Server} (hp : Placed s) (hq : ∀ t, Prompt (s.stack t))
    (h : s.step a = some s') : ∃ new, Decides s a new s' ∧ Announces s new s' := by
  have hqueue (l : Loop) (q : BatchQueue Functor) (hpushed : q.pushed = (s.queue l).pushed) :
      (s.setQueue l q).queuedNotices = s.queuedNotices :=
    update_keeps (fun q : BatchQueue Functor => q.pushed.flatMap Functor.notices)
      (congrArg (List.flatMap Functor.notices) hpushed) s.loop_
  have hidle {t : Thread} (hs : s.stack t = []) : ∀ g ∈ s.stack t, g.isNotice = false := by
    rw [hs]
    exact fun _ => nofun
  have huser {t : Thread} (hu : s.inUserCode t = true) : ∀ g ∈ s.stack t, g.isNotice = false := by
    cases t with
    | user n => exact hidle (of_decide_eq_true hu)
    | loop l =>
      have hhead : (s.stack (.loop l)).head? = some .user := of_decide_eq_true hu
      have hprompt := hq (.loop l)
      cases hs : s.stack (.loop l) with
      | nil => exact fun _ => nofun
      | cons f rest =>
        rw [hs] at hhead hprompt
        cases hhead
        exact hprompt.cons rfl
  have hone {g : Frame} (hg : g.isNotice = false) : ∀ g' ∈ [g], g'.isNotice = false :=
    List.forall_mem_singleton.2 hg
  have hnil : ∀ g ∈ ([] : List Frame), g.isNotice = false := fun _ => nofun
  cases Step.of_step h with
  | go hs hg => exact hg.announces hp hq hs
  | activeChannel hs =>
    exact ⟨[], .nothing rfl rfl,
      .enter hq (hidle hs) (.inl rfl) (hone (g := .handleEvent _) rfl) rfl rfl rfl⟩
  | handled | endFunctors | poll => exact ⟨[], .nothing rfl rfl, .same hq rfl rfl rfl⟩
  | @swap l =>
    exact ⟨[], .nothing rfl rfl, .same hq rfl rfl (hqueue l _ rfl)⟩
  | @callFunctor l f q hs _ hpop =>
    exact ⟨[], .nothing rfl rfl, .enter hq (hidle hs) (.inl rfl) (hone (g := .exec f) rfl) rfl rfl
      (hqueue l q (pop_pushed hpop))⟩
  | enter hs =>
    exact ⟨[], .nothing rfl rfl,
      .enter hq (hidle hs) (.inl rfl) (hone (g := .user) rfl) rfl rfl rfl⟩
  | leave hs =>
    exact ⟨[], .nothing rfl rfl,
      .goto hq hs rfl (.inl rfl) hnil rfl rfl rfl⟩
  | @call t a hu =>
    have hframe : (a.frame s t).isNotice = false := by
      cases a <;> rfl
    exact ⟨[], .nothing rfl rfl, .enter hq (huser hu) (.inl rfl)
      (List.forall_mem_cons.2 ⟨hframe, huser hu⟩) rfl rfl rfl⟩
  | post => exact ⟨[], .nothing rfl rfl, .same hq rfl rfl (queuedNotices_post _ _ rfl)⟩
  | newConnection hs =>
    exact ⟨[], .nothing rfl rfl, .enter hq (hidle hs) (.inl rfl)
      (hone (g := .runInloop .connectEstablished) rfl) rfl rfl rfl⟩
  | destroy hu =>
    refine destroy_cases s ?_ ?_ ?_
    · intro _ _
      exact ⟨[], .nothing rfl rfl, .enter hq (huser hu) (.inl rfl)
        (List.forall_mem_cons.2 ⟨rfl, huser hu⟩) rfl rfl rfl⟩
    · intro _ _
      exact ⟨[], .nothing rfl rfl, .same hq rfl rfl (queuedNotices_post _ _ rfl)⟩
    · intro _
      exact ⟨[], .nothing rfl rfl, .same hq rfl rfl rfl⟩

theorem Runs.settings (h : Runs c k f c') : c'.settings = c.settings := by
  cases h with
  | sendInLoop _ hs => exact hs.settings
  | handleWrite hw => exact hw.settings
  | shutdownInLoop | ifDisconnecting =>
    obtain h | ⟨_, h⟩ := c.shutdownInLoop_cases
    · rw [h]
    · rw [h]
      rfl
  | startReadInLoop =>
    obtain h | h := c.startReadInLoop_cases
    · rw [h]
    · rw [h]
      rfl
  | stopReadInLoop =>
    obtain h | h := c.stopReadInLoop_cases
    · rw [h]
    · rw [h]
      rfl
  | connectEstablished | handleClose | setDisconnected | remove | setDisconnecting => rfl

theorem settings_step {s s' : Server} (h : s.step a = some s') :
    s'.conn.settings = s.conn.settings := by
  cases ConnStep.of_step h with
  | same hc => rw [hc]
  | runs _ hr => exact hr.settings

def Sizes (_ : Server) : Action → Prop
  | .call _ (.send message) => message.bytes ≠ []
  | _ => True

instance (s : Server) (a : Action) : Decidable (Sizes s a) :=
  match a with
  | .call _ (.send message) => inferInstanceAs (Decidable (message.bytes ≠ []))
  | .call _ .shutdown | .call _ .forceClose | .call _ .startRead | .call _ .stopRead | .go ..
  | .loop _ | .poll .. | .enter _ | .leave _ | .post .. | .newConnection | .destroy =>
    inferInstanceAs (Decidable True)

theorem Ordered.mem_called {s : Server} (ho : Ordered s)
    (hs : s.stack (.loop s.loop_) = .exec (.sendInLoop m) :: rest) : m ∈ s.called := by
  have hcarried : m ∈ carried (s.stack (.loop s.loop_)) := by
    rw [hs, carried_cons]
    exact List.mem_cons_self
  have htransit : m ∈ transit s.loop_ s.stack s.queue m.thread :=
    List.mem_append_left _ (List.mem_append_left _ hcarried)
  have hthread : m ∈ ofThread m.thread (s.executed ++ transit s.loop_ s.stack s.queue m.thread) :=
    List.mem_filter.2 ⟨List.mem_append_right _ htransit, decide_eq_true rfl⟩
  exact (List.mem_filter.1 ((ho.order m.thread).subset hthread)).1

/-- A connection with both callbacks set, whose messages are longer than nothing. -/
structure Noted (s : Server) : Prop where
  placed : Placed s
  ordered : Ordered s
  outbound : Outbound s.conn s.executed
  prompt : ∀ t, Prompt (s.stack t)
  complete : s.conn.writeCompleteCallback_ = true
  high : s.conn.highWaterCallback_ = true
  sizes : ∀ m ∈ s.called, m.message.bytes ≠ []

theorem Noted.init (hcomplete : config.writeCompleteCallback_ = true)
    (hhigh : config.highWaterCallback_ = true) : Noted (Server.init config) :=
  ⟨Placed.init config, Ordered.init config, Outbound.init config, fun _ _ => nofun, hcomplete,
    hhigh,
    fun _ => nofun⟩

theorem Noted.step {s s' : Server} (hn : Noted s) (hsize : Sizes s a) (h : s.step a = some s') :
    Noted s' := by
  obtain ⟨_, _, hannounces⟩ := Announces.step hn.placed hn.prompt h
  have hsettings := settings_step h
  simp only [TcpConnection.settings, Prod.mk.injEq] at hsettings
  obtain ⟨_, hcomplete, hhigh⟩ := hsettings
  have hsizes (m : Sent) (hm : m ∈ s'.called) : m.message.bytes ≠ [] := by
    rcases called_step h with hc | ⟨t, message, rfl, hc⟩
    · exact hn.sizes m (hc ▸ hm)
    · rw [hc, List.mem_append, List.mem_singleton] at hm
      rcases hm with hm | rfl
      · exact hn.sizes m hm
      · exact hsize
  exact ⟨hn.placed.step h, hn.ordered.step hn.placed h, hn.outbound.step h, hannounces.prompt,
    hcomplete.trans hn.complete, hhigh.trans hn.high, hsizes⟩

theorem Noted.decides {s s' : Server} (hn : Noted s) (hd : Decides s a new s')
    (hn' : Noted s') : new = s.announced a s' := by
  have hwf := hn.outbound.wf
  cases hd with
  | nothing hb hc =>
    rw [announced, hc, TcpConnection.crossing_of_le (Nat.le_of_eq hb)]
    rfl
  | @sendInLoop t rest m _ k _ hs hstate hc =>
    have hne : m.message.bytes ≠ [] := by
      cases Frame.home (hn.placed.frame hs) rfl
      exact hn.sizes m (hn.ordered.mem_called hs)
    have hcompletes : s.completes (.go t k) = !s.conn.fails k.write := by
      rw [completes_go hs]
      simp [Frame.completes, hstate]
    rw [TcpConnection.sendInLoop_notices hwf m.message.bound hne hstate hn.complete hn.high hc,
      TcpConnection.sendNotices, announced, hcompletes]
    simp
  | @handleWrite t rest done k _ hs hc =>
    obtain ⟨hle, hdone⟩ := TcpConnection.handleWrite_done_iff hwf (.of_handleWrite hc)
    have hcompletes : (s.completes (.go t k) = true ∧ s'.conn.backlog = 0) ↔ done = true := by
      rw [completes_go hs, hdone]
      simp [Frame.completes]
    rw [announced, TcpConnection.crossing_of_le hle, hn'.complete, Bool.and_true, List.append_nil]
    exact if_congr hcompletes.symm rfl rfl

/-- The step queues the callbacks that the backlog asks for, and no others. -/
def Notifies (s : Server) (a : Action) : Prop := ∀ s', s.step a = some s' →
  s'.notices = s.notices ++ s.announced a s'

theorem Noted.notifies {s : Server} (hn : Noted s) (hsize : Sizes s a) : Notifies s a := by
  intro s' h
  obtain ⟨new, hd, hannounces⟩ := Announces.step hn.placed hn.prompt h
  rw [hannounces.notices, hn.decides hd (hn.step hsize h)]

theorem Noted.above {s u : Server} (hn : Noted s) (h : Run Server.step s as u)
    (hsizes : AllSteps Server.step Sizes s as)
    (habove : AllStates Server.step (fun v => v.conn.highWaterMark_ ≤ v.conn.backlog) s as) :
    ∃ new, u.notices = s.notices ++ new ∧ ∀ n, .highWater n ∉ new := by
  induction h with
  | nil => exact ⟨[], (List.append_nil _).symm, fun _ => nofun⟩
  | @cons s t u a as hs _ ih =>
    obtain ⟨new, hnew, hnone⟩ := ih (hn.step hsizes.1 hs) (hsizes.2 t hs) (habove.2 t hs)
    have hle : s.conn.highWaterMark_ ≤ s.conn.backlog := habove.1
    have hcrossing : TcpConnection.crossing s.conn t.conn = [] := by
      apply if_neg
      rintro ⟨hlt, _⟩
      omega
    refine ⟨s.announced a t ++ new, ?_, ?_⟩
    · rw [hnew, hn.notifies hsizes.1 t hs, List.append_assoc]
    · intro n hmem
      rw [announced, hcrossing, List.append_nil] at hmem
      rcases List.mem_append.1 hmem with hmem | hmem
      · split at hmem
        · cases List.mem_singleton.1 hmem
        · cases hmem
      · exact hnone n hmem

/-- Every step queues the callbacks that the backlog asks for: the write-complete callback where it
drains the backlog, the high-water callback where it takes it to the mark. -/
theorem backlog_notices {s : Server} (h : Run Server.step (Server.init config) as s)
    (hcomplete : config.writeCompleteCallback_ = true) (hhigh : config.highWaterCallback_ = true)
    (hsizes : AllSteps Server.step Sizes (Server.init config) as) :
    AllSteps Server.step Notifies (Server.init config) as ∧
      ∀ bs u, Run Server.step s bs u → AllSteps Server.step Sizes s bs →
        AllStates Server.step (fun v => v.conn.highWaterMark_ ≤ v.conn.backlog) s bs →
        ∃ new, u.notices = s.notices ++ new ∧ ∀ n, .highWater n ∉ new := by
  have hinit := Noted.init hcomplete hhigh
  have hn : Noted s := h.invariant_when hsizes hinit fun _ _ _ => Noted.step
  exact ⟨h.allSteps_when hsizes hinit (fun _ _ _ => Noted.step) fun _ _ => Noted.notifies,
    fun _ _ => hn.above⟩

def markConfig : Config := ⟨.io, 1, 7, 3, true, true⟩

/-- Four bytes are buffered, and then go out. -/
def fillingUp : List Action := connecting ++
  [.call (.user 0) (.send (block 4 1)), .go (.user 0) {}, .go (.user 0) {}] ++ iterate .io ++
  [.loop .io, .go (.loop .io) {}, .go (.loop .io) {}, .loop .io, .poll .io (some POLLOUT),
    .loop .io, .go (.loop .io) {}, .go (.loop .io) { write := .accepted 4 }, .go (.loop .io) {}]

theorem backlog_notices_example : ∃ s, Run Server.step (Server.init markConfig) fillingUp s ∧
    s.queuedNotices = [.highWater 4, .writeComplete] ∧
    AllSteps Server.step Notifies (Server.init markConfig) fillingUp := by
  have hrun : (exec Server.step (Server.init markConfig) fillingUp).any (fun s =>
      s.queuedNotices == [.highWater 4, .writeComplete]) = true := by
    decide +kernel
  obtain ⟨s, hs, hp⟩ := Run.of_exec_any hrun
  exact ⟨s, hs, beq_iff_eq.1 hp, (backlog_notices hs rfl rfl (by decide +kernel)).1⟩

end Server
end MuduoStudy
