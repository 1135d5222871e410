import MuduoStudy.Server

namespace MuduoStudy.Server
set_option autoImplicit true

def drainedFrames (c : TcpConnection) : List Frame :=
  (if c.writeCompleteCallback_ then [.queueNotice .writeComplete] else []) ++
    [.ifDisconnecting]

theorem dispatch_cases (revents : Events) :
    ∃ fs, (∀ g ∈ fs, g = .handleRead ∨ g = .handleWrite) ∧ dispatch revents =
      if revents &&& POLLHUP ≠ 0 ∧ revents &&& POLLIN = 0 then .handleClose :: fs else fs := by
  refine ⟨(if revents &&& (POLLIN ||| POLLPRI ||| POLLRDHUP) ≠ 0 then [.handleRead] else []) ++
    (if revents &&& POLLOUT ≠ 0 then [.handleWrite] else []), ?_, ?_⟩
  · intro g hg
    rcases List.mem_append.1 hg with hg | hg
    · split at hg
      · exact .inl (List.mem_singleton.1 hg)
      · cases hg
    · split at hg
      · exact .inr (List.mem_singleton.1 hg)
      · cases hg
  · rw [dispatch, List.append_assoc]
    split
    · rfl
    · rfl

theorem mem_dispatch (h : g ∈ dispatch revents) :
    g = .handleClose ∨ g = .handleRead ∨ g = .handleWrite := by
  obtain ⟨fs, hfs, heq⟩ := dispatch_cases revents
  rw [heq] at h
  split at h
  · rcases List.mem_cons.1 h with hg | hg
    · exact .inl hg
    · exact .inr (hfs g hg)
  · exact .inr (hfs g h)

theorem mem_drained {c : TcpConnection} (h : g ∈ drainedFrames c) :
    g = .queueNotice .writeComplete ∨ g = .ifDisconnecting := by
  rcases List.mem_append.1 h with hg | hg
  · split at hg
    · exact .inl (List.mem_singleton.1 hg)
    · cases hg
  · exact .inr (List.mem_singleton.1 hg)

/-- Everything a functor's call can do, `rest` being the frames below it. -/
inductive Called (s : Server) (t : Thread) (rest : List Frame) (k : Answer) :
    Functor → Server → Prop where
  | connectEstablished : Called s t rest k .connectEstablished (({ s with
      conn := s.conn.connectEstablished
      established := s.established + 1 } : Server).goto t
        (.connectionCallback .connectEstablished :: rest))
  | sendInLoop : s.conn.state_ ≠ .kDisconnected →
      s.conn.sendInLoop m.message.bytes k.write = some (c, notices) →
      Called s t rest k (.sendInLoop m) (({ s with
        conn := c, executed := s.executed ++ [m] } : Server).goto t
          (notices.map .queueNotice ++ rest))
  | sendLate : s.conn.state_ = .kDisconnected →
      Called s t rest k (.sendInLoop m) (s.goto t rest)
  | shutdownInLoop : Called s t rest k .shutdownInLoop
      (({ s with conn := s.conn.shutdownInLoop } : Server).goto t rest)
  | forceCloseInLoop : s.conn.state_ = .kConnected ∨ s.conn.state_ = .kDisconnecting →
      Called s t rest k .forceCloseInLoop (s.goto t (.handleClose :: rest))
  | forceCloseLate : ¬ (s.conn.state_ = .kConnected ∨ s.conn.state_ = .kDisconnecting) →
      Called s t rest k .forceCloseInLoop (s.goto t rest)
  | startReadInLoop : Called s t rest k .startReadInLoop
      (({ s with conn := s.conn.startReadInLoop } : Server).goto t rest)
  | stopReadInLoop : Called s t rest k .stopReadInLoop
      (({ s with conn := s.conn.stopReadInLoop } : Server).goto t rest)
  | destroyConnected : s.conn.state_ = .kConnected →
      Called s t rest k .connectDestroyed (({ s with destroys := s.destroys + 1 } : Server).goto t
        (.setDisconnected :: .remove :: rest))
  | destroyLate : s.conn.state_ ≠ .kConnected →
      Called s t rest k .connectDestroyed (({ s with destroys := s.destroys + 1 } : Server).goto t
        (.remove :: rest))
  | removeConnectionInLoop : s.alive = true →
      Called s t rest k .removeConnectionInLoop ((({ s with
        registered := false
        destroyQueued := s.destroyQueued + 1 } : Server).post s.loop_ .connectDestroyed).goto t
          rest)
  | notice : Called s t rest k (.notice n) (s.goto t (.user :: rest))
  | other : Called s t rest k .other (s.goto t (.user :: rest))

/-- Everything the frame `f` on top of a thread's stack can do. -/
inductive Goes (s : Server) (t : Thread) (rest : List Frame) (k : Answer) :
    Frame → Server → Prop where
  | handleEvent : Goes s t rest k (.handleEvent revents) (s.goto t (dispatch revents ++ rest))
  | readData : k.read = .data → Goes s t rest k .handleRead (s.goto t (.user :: rest))
  | readEof : k.read = .eof → Goes s t rest k .handleRead (s.goto t (.handleClose :: rest))
  | readError : k.read = .error → Goes s t rest k .handleRead (s.goto t rest)
  | handleWrite : s.conn.handleWrite k.write = some (c, false) →
      Goes s t rest k .handleWrite (({ s with conn := c } : Server).goto t rest)
  | drained : s.conn.handleWrite k.write = some (c, true) →
      Goes s t rest k .handleWrite (({ s with conn := c } : Server).goto t
        (drainedFrames c ++ rest))
  | ifDisconnecting : s.conn.state_ = .kDisconnecting → Goes s t rest k .ifDisconnecting
      (({ s with conn := s.conn.shutdownInLoop } : Server).goto t rest)
  | ifNotDisconnecting : s.conn.state_ ≠ .kDisconnecting →
      Goes s t rest k .ifDisconnecting (s.goto t rest)
  | handleClose : Goes s t rest k .handleClose (({ s with
      conn := s.conn.disableAll, closes := s.closes + 1 } : Server).goto t
        (.connectionCallback .handleClose :: .closeCallback :: rest))
  | connectionCallback : Goes s t rest k (.connectionCallback caller) (({ s with
      callbacks := s.callbacks ++ [(caller, decide (s.conn.state_ = .kConnected))]
      exposed := true } : Server).goto t (.user :: rest))
  | closeInLoop : s.alive = true → t = .loop .base → Goes s t rest k .closeCallback
      (({ s with closeCallbacks := s.closeCallbacks + 1 } : Server).goto t
        (.exec .removeConnectionInLoop :: rest))
  | closeQueued : s.alive = true → t ≠ .loop .base → Goes s t rest k .closeCallback
      ((({ s with closeCallbacks := s.closeCallbacks + 1 } : Server).post .base
        .removeConnectionInLoop).goto t rest)
  | setDisconnected : Goes s t rest k .setDisconnected
      (({ s with conn := s.conn.setDisconnected } : Server).goto t
        (.connectionCallback .connectDestroyed :: rest))
  | remove : Goes s t rest k .remove
      (({ s with conn := s.conn.remove, destroyed := s.destroyed + 1 } : Server).goto t rest)
  | send : s.conn.state_ = .kConnected → Goes s t rest k (.send m)
      (({ s with accepted := s.accepted ++ [m] } : Server).goto t
        (.runInloop (.sendInLoop m) :: rest))
  | sendDropped : s.conn.state_ ≠ .kConnected → Goes s t rest k (.send m) (s.goto t rest)
  | shutdown : s.conn.state_ = .kConnected →
      Goes s t rest k .shutdown (s.goto t (.setDisconnecting :: rest))
  | shutdownDropped : s.conn.state_ ≠ .kConnected → Goes s t rest k .shutdown (s.goto t rest)
  | setDisconnecting : Goes s t rest k .setDisconnecting
      (({ s with conn := { s.conn with state_ := .kDisconnecting } } : Server).goto t
        (.runInloop .shutdownInLoop :: rest))
  | forceClose : s.conn.state_ = .kConnected ∨ s.conn.state_ = .kDisconnecting →
      Goes s t rest k .forceClose (s.goto t (.queueForceClose :: rest))
  | forceCloseDropped : ¬ (s.conn.state_ = .kConnected ∨ s.conn.state_ = .kDisconnecting) →
      Goes s t rest k .forceClose (s.goto t rest)
  | runInLoop : t = .loop s.loop_ → Goes s t rest k (.runInloop f) (s.goto t (.exec f :: rest))
  | runQueued : t ≠ .loop s.loop_ → Goes s t rest k (.runInloop f) ((s.post s.loop_ f).goto t rest)
  | queueForceClose : Goes s t rest k .queueForceClose
      ((s.post s.loop_ .forceCloseInLoop).goto t rest)
  | queueNotice : Goes s t rest k (.queueNotice n) ((s.post s.loop_ (.notice n)).goto t rest)
  | exec : Called s t rest k f s' → Goes s t rest k (.exec f) s'

inductive Step (s : Server) : Action → Server → Prop where
  | go : s.stack t = f :: rest → Goes s t rest k f s' → Step s (.go t k) s'
  | activeChannel : s.stack (.loop l) = [] → s.phase l = .activeChannels (some revents) →
      Step s (.loop l)
        ((s.setPhase l (.activeChannels none)).goto (.loop l) [.handleEvent revents])
  | handled : s.stack (.loop l) = [] → s.phase l = .activeChannels none →
      Step s (.loop l) (s.setPhase l .swap)
  | swap : s.stack (.loop l) = [] → s.phase l = .swap →
      Step s (.loop l) ((s.setQueue l (s.queue l).swap).setPhase l .functors)
  | endFunctors : s.stack (.loop l) = [] → s.phase l = .functors → (s.queue l).pop = none →
      Step s (.loop l) (s.setPhase l .poll)
  | callFunctor : s.stack (.loop l) = [] → s.phase l = .functors →
      (s.queue l).pop = some (f, q) → Step s (.loop l) ((s.setQueue l q).goto (.loop l) [.exec f])
  | poll : s.stack (.loop l) = [] → s.phase l = .poll → (revents.isSome = true →
      l = s.loop_ ∧ (s.conn.poller_.interest s.conn.channel_.fd_).isSome = true) →
      Step s (.poll l revents) (s.setPhase l (.activeChannels revents))
  | enter : s.stack (.loop l) = [] → (s.phase l).outside = true →
      Step s (.enter l) (s.goto (.loop l) [.user])
  | leave : s.stack (.loop l) = .user :: rest → Step s (.leave l) (s.goto (.loop l) rest)
  | call : s.inUserCode t = true → s.exposed = true → Step s (.call t a)
      (({ s with called := a.record s t } : Server).goto t (a.frame s t :: s.stack t))
  | post : s.inUserCode t = true → Step s (.post t l) (s.post l .other)
  | newConnection : s.stack (.loop .base) = [] → s.phase .base = .activeChannels revents →
      s.alive = true → s.created = false → Step s .newConnection
        (({ s with created := true, registered := true } : Server).goto (.loop .base)
          [.runInloop .connectEstablished])
  | destroy : s.inUserCode (.loop .base) = true → s.alive = true → Step s .destroy s.destroy

theorem Called.of_call {s s' : Server} (h : s.call t rest k f = some s') :
    Called s t rest k f s' := by
  cases f with
  | connectEstablished => cases h; exact .connectEstablished
  | sendInLoop m =>
    obtain ⟨⟨c, notices⟩, hc, rfl⟩ := Option.map_eq_some_iff.1 h
    by_cases hs : s.conn.state_ = .kDisconnected
    · simp only [TcpConnection.sendInLoop, hs, ↓reduceIte, Option.some.injEq,
        Prod.mk.injEq] at hc
      obtain ⟨rfl, rfl⟩ := hc
      simp only [hs, ↓reduceIte]
      exact .sendLate hs
    · simp only [hs, ↓reduceIte]
      exact .sendInLoop hs hc
  | shutdownInLoop => cases h; exact .shutdownInLoop
  | forceCloseInLoop =>
    by_cases hs : s.conn.state_ = .kConnected ∨ s.conn.state_ = .kDisconnecting
    · simp only [call, if_pos hs, Option.some.injEq] at h
      exact h ▸ .forceCloseInLoop hs
    · simp only [call, if_neg hs, Option.some.injEq] at h
      exact h ▸ .forceCloseLate hs
  | startReadInLoop => cases h; exact .startReadInLoop
  | stopReadInLoop => cases h; exact .stopReadInLoop
  | connectDestroyed =>
    by_cases hs : s.conn.state_ = .kConnected
    · simp only [call, if_pos hs, Option.some.injEq] at h
      exact h ▸ .destroyConnected hs
    · simp only [call, if_neg hs, Option.some.injEq] at h
      exact h ▸ .destroyLate hs
  | removeConnectionInLoop =>
    simp only [call, Option.ite_none_right_eq_some, Option.some.injEq] at h
    obtain ⟨ha, rfl⟩ := h
    exact .removeConnectionInLoop ha
  | notice n => cases h; exact .notice
  | other => cases h; exact .other

theorem Goes.of_go {s s' : Server} (h : s.go t k = some s') :
    ∃ f rest, s.stack t = f :: rest ∧ Goes s t rest k f s' := by
  cases hs : s.stack t with
  | nil => simp [go, hs] at h
  | cons f rest =>
    have hgoes : Goes s t rest k f s' := by
      cases f with
      | user => simp [go, hs] at h
      | handleEvent revents => simp only [go, hs, Option.some.injEq] at h; exact h ▸ .handleEvent
      | handleRead =>
        cases hk : k.read with
        | data => simp only [go, hs, hk, Option.some.injEq] at h; exact h ▸ .readData hk
        | eof => simp only [go, hs, hk, Option.some.injEq] at h; exact h ▸ .readEof hk
        | error => simp only [go, hs, hk, Option.some.injEq] at h; exact h ▸ .readError hk
      | handleWrite =>
        simp only [go, hs] at h
        obtain ⟨⟨c, drained⟩, hc, rfl⟩ := Option.map_eq_some_iff.1 h
        cases drained with
        | false => exact .handleWrite hc
        | true =>
          have hframes : drainedFrames c ++ rest =
              (if c.writeCompleteCallback_ then [.queueNotice .writeComplete] else []) ++
                .ifDisconnecting :: rest := by
            rw [drainedFrames, List.append_assoc]
            rfl
          simp only [↓reduceIte, ← hframes]
          exact .drained hc
      | ifDisconnecting =>
        simp only [go, hs, Option.some.injEq] at h
        subst s'
        by_cases hd : s.conn.state_ = .kDisconnecting
        · rw [if_pos hd]
          exact .ifDisconnecting hd
        · rw [if_neg hd]
          exact .ifNotDisconnecting hd
      | handleClose => simp only [go, hs, Option.some.injEq] at h; exact h ▸ .handleClose
      | connectionCallback caller =>
        simp only [go, hs, Option.some.injEq] at h
        exact h ▸ .connectionCallback
      | closeCallback =>
        simp only [go, hs, Option.ite_none_right_eq_some] at h
        obtain ⟨ha, h⟩ := h
        by_cases ht : t = .loop .base
        · rw [if_pos ht, Option.some.injEq] at h
          exact h ▸ .closeInLoop ha ht
        · rw [if_neg ht, Option.some.injEq] at h
          exact h ▸ .closeQueued ha ht
      | setDisconnected => simp only [go, hs, Option.some.injEq] at h; exact h ▸ .setDisconnected
      | remove => simp only [go, hs, Option.some.injEq] at h; exact h ▸ .remove
      | send m =>
        by_cases hc : s.conn.state_ = .kConnected
        · simp only [go, hs, if_pos hc, Option.some.injEq] at h
          exact h ▸ .send hc
        · simp only [go, hs, if_neg hc, Option.some.injEq] at h
          exact h ▸ .sendDropped hc
      | shutdown =>
        by_cases hc : s.conn.state_ = .kConnected
        · simp only [go, hs, if_pos hc, Option.some.injEq] at h
          exact h ▸ .shutdown hc
        · simp only [go, hs, if_neg hc, Option.some.injEq] at h
          exact h ▸ .shutdownDropped hc
      | setDisconnecting => simp only [go, hs, Option.some.injEq] at h; exact h ▸ .setDisconnecting
      | forceClose =>
        by_cases hc : s.conn.state_ = .kConnected ∨ s.conn.state_ = .kDisconnecting
        · simp only [go, hs, if_pos hc, Option.some.injEq] at h
          exact h ▸ .forceClose hc
        · simp only [go, hs, if_neg hc, Option.some.injEq] at h
          exact h ▸ .forceCloseDropped hc
      | runInloop f =>
        by_cases ht : t = .loop s.loop_
        · simp only [go, hs, if_pos ht, Option.some.injEq] at h
          exact h ▸ .runInLoop ht
        · simp only [go, hs, if_neg ht, Option.some.injEq] at h
          exact h ▸ .runQueued ht
      | queueForceClose => simp only [go, hs, Option.some.injEq] at h; exact h ▸ .queueForceClose
      | queueNotice n => simp only [go, hs, Option.some.injEq] at h; exact h ▸ .queueNotice
      | exec f =>
        simp only [go, hs] at h
        exact .exec (.of_call h)
    exact ⟨f, rest, rfl, hgoes⟩

theorem Step.of_loop {s s' : Server} (hs : s.stack (.loop l) = []) (h : s.loop l = some s') :
    Step s (.loop l) s' := by
  cases hp : s.phase l with
  | poll => simp [loop, hp] at h
  | activeChannels revents =>
    cases revents with
    | some revents =>
      simp only [loop, hp, Option.some.injEq] at h
      exact h ▸ .activeChannel hs hp
    | none =>
      simp only [loop, hp, Option.some.injEq] at h
      exact h ▸ .handled hs hp
  | swap =>
    simp only [loop, hp, Option.some.injEq] at h
    exact h ▸ .swap hs hp
  | functors =>
    cases hq : (s.queue l).pop with
    | none =>
      simp only [loop, hp, hq, Option.some.injEq] at h
      exact h ▸ .endFunctors hs hp hq
    | some popped =>
      simp only [loop, hp, hq, Option.some.injEq] at h
      exact h ▸ .callFunctor hs hp hq

theorem Step.of_step {s s' : Server} (h : s.step a = some s') : Step s a s' := by
  cases a with
  | go t k =>
    obtain ⟨f, rest, hs, hg⟩ := Goes.of_go h
    exact .go hs hg
  | loop l =>
    simp only [step, Option.ite_none_right_eq_some] at h
    exact .of_loop h.1 h.2
  | poll l revents =>
    simp only [step, Option.ite_none_right_eq_some, Option.some.injEq] at h
    obtain ⟨⟨hs, hp, hr⟩, rfl⟩ := h
    exact .poll hs hp hr
  | enter l =>
    simp only [step, Option.ite_none_right_eq_some, Option.some.injEq] at h
    obtain ⟨⟨hs, hp⟩, rfl⟩ := h
    exact .enter hs hp
  | leave l =>
    simp only [step] at h
    split at h
    · rename_i rest hs
      cases h
      exact .leave hs
    · cases h
  | call t a =>
    simp only [step, Option.ite_none_right_eq_some, Option.some.injEq] at h
    obtain ⟨⟨hu, he⟩, rfl⟩ := h
    exact .call hu he
  | post t l =>
    simp only [step, Option.ite_none_right_eq_some, Option.some.injEq] at h
    obtain ⟨hu, rfl⟩ := h
    exact .post hu
  | newConnection =>
    simp only [step] at h
    split at h
    · rename_i revents hp
      simp only [Option.ite_none_right_eq_some, Option.some.injEq, Bool.not_eq_true'] at h
      obtain ⟨⟨hs, ha, hc⟩, rfl⟩ := h
      exact .newConnection hs hp ha hc
    · cases h
  | destroy =>
    simp only [step, Option.ite_none_right_eq_some, Option.some.injEq] at h
    obtain ⟨⟨hu, ha⟩, rfl⟩ := h
    exact .destroy hu ha

/-- What the frame on top of a stack does to the connection. -/
inductive Runs (c : TcpConnection) (k : Answer) : Frame → TcpConnection → Prop where
  | connectEstablished : Runs c k (.exec .connectEstablished) c.connectEstablished
  | sendInLoop : c.state_ ≠ .kDisconnected → c.Sends m.message.bytes k.write c' →
      Runs c k (.exec (.sendInLoop m)) c'
  | shutdownInLoop : Runs c k (.exec .shutdownInLoop) c.shutdownInLoop
  | startReadInLoop : Runs c k (.exec .startReadInLoop) c.startReadInLoop
  | stopReadInLoop : Runs c k (.exec .stopReadInLoop) c.stopReadInLoop
  | handleWrite : c.Writes k.write c' done → Runs c k .handleWrite c'
  | ifDisconnecting : c.state_ = .kDisconnecting → Runs c k .ifDisconnecting c.shutdownInLoop
  | handleClose : Runs c k .handleClose c.disableAll
  | setDisconnected : Runs c k .setDisconnected c.setDisconnected
  | remove : Runs c k .remove c.remove
  | setDisconnecting : Runs c k .setDisconnecting { c with state_ := .kDisconnecting }

/-- The message that the frame sends, where it is not dropped. -/
def Frame.message : Frame → List Sent
  | .exec (.sendInLoop m) => [m]
  | _ => []

/-- What a step does to the connection. -/
inductive ConnStep (s : Server) : Action → Server → Prop where
  | same : s'.conn = s.conn → s'.executed = s.executed → ConnStep s a s'
  | runs : s.stack t = f :: rest → Runs s.conn k f s'.conn →
      s'.executed = s.executed ++ f.message → ConnStep s (.go t k) s'

theorem ConnStep.of_goes {s s' : Server} (hs : s.stack t = f :: rest)
    (h : Goes s t rest k f s') : ConnStep s (.go t k) s' := by
  have hnil : s.executed = s.executed ++ [] := (List.append_nil _).symm
  cases h with
  | handleWrite hc => exact .runs hs (.handleWrite (.of_handleWrite hc)) hnil
  | drained hc => exact .runs hs (.handleWrite (.of_handleWrite hc)) hnil
  | ifDisconnecting hd => exact .runs hs (.ifDisconnecting hd) hnil
  | handleClose => exact .runs hs .handleClose hnil
  | setDisconnected => exact .runs hs .setDisconnected hnil
  | remove => exact .runs hs .remove hnil
  | setDisconnecting => exact .runs hs .setDisconnecting hnil
  | handleEvent | readData | readEof | readError | ifNotDisconnecting | connectionCallback
  | closeInLoop | closeQueued | send | sendDropped | shutdown | shutdownDropped | forceClose
  | forceCloseDropped | runInLoop | runQueued | queueForceClose | queueNotice => exact .same rfl rfl
  | exec hc =>
    cases hc with
    | connectEstablished => exact .runs hs .connectEstablished hnil
    | sendInLoop hd hc => exact .runs hs (.sendInLoop hd (.of_sendInLoop hd hc)) rfl
    | shutdownInLoop => exact .runs hs .shutdownInLoop hnil
    | startReadInLoop => exact .runs hs .startReadInLoop hnil
    | stopReadInLoop => exact .runs hs .stopReadInLoop hnil
    | sendLate | forceCloseInLoop | forceCloseLate | destroyConnected | destroyLate
    | removeConnectionInLoop | notice | other => exact .same rfl rfl

@[elab_as_elim]
theorem destroy_cases {motive : Server → Prop} (s : Server)
    (inLoop : s.registered = true → s.loop_ = .base →
      motive (({ s with alive := false, registered := false } : Server).goto (.loop .base)
        (.exec .connectDestroyed :: s.stack (.loop .base))))
    (queued : s.registered = true → s.loop_ ≠ .base →
      motive (({ s with
        alive := false
        registered := false
        destroyQueued := s.destroyQueued + 1 } : Server).post s.loop_ .connectDestroyed))
    (idle : s.registered = false → motive { s with alive := false, registered := false }) :
    motive s.destroy := by
  by_cases hr : s.registered = true
  · by_cases hl : s.loop_ = .base
    · rw [destroy, if_pos hr, if_pos hl]
      exact inLoop hr hl
    · rw [destroy, if_pos hr, if_neg hl]
      exact queued hr hl
  · rw [destroy, if_neg hr]
    exact idle (Bool.eq_false_iff.2 hr)

theorem destroy_conn (s : Server) : s.destroy.conn = s.conn ∧ s.destroy.executed = s.executed := by
  refine destroy_cases s ?_ ?_ ?_
  · intro _ _
    exact ⟨rfl, rfl⟩
  · intro _ _
    exact ⟨rfl, rfl⟩
  · intro _
    exact ⟨rfl, rfl⟩

theorem ConnStep.of_step {s s' : Server} (h : s.step a = some s') : ConnStep s a s' := by
  cases Step.of_step h with
  | go hs hg => exact .of_goes hs hg
  | activeChannel | handled | swap | endFunctors | callFunctor | poll | enter | leave | call | post
  | newConnection => exact .same rfl rfl
  | destroy => exact .same s.destroy_conn.1 s.destroy_conn.2

/-- The poller and the kernel know of the connection's channel what its `index_` says. -/
abbrev Mirrored (s : Server) : Prop := s.conn.poller_.Mirrors s.conn.channel_

theorem Runs.mirrors (hm : c.poller_.Mirrors c.channel_) (h : Runs c k f c') :
    c'.poller_.Mirrors c'.channel_ := by
  have hset (c : TcpConnection) (events : Events) (hm : c.poller_.Mirrors c.channel_) :
      (c.setEvents events).poller_.Mirrors (c.setEvents events).channel_ :=
    (TcpConnection.Kept.setEvents c events).mirrors hm
  cases h with
  | connectEstablished => exact hset { c with state_ := .kConnected } _ hm
  | sendInLoop _ hs => exact hs.kept.mirrors hm
  | shutdownInLoop | ifDisconnecting =>
    obtain ⟨_, hchannel, hpoller, _⟩ := c.shutdownInLoop_same
    rw [hchannel, hpoller]
    exact hm
  | startReadInLoop => exact (TcpConnection.Kept.startReadInLoop c).mirrors hm
  | stopReadInLoop => exact (TcpConnection.Kept.stopReadInLoop c).mirrors hm
  | handleWrite hw => exact hw.kept.mirrors hm
  | handleClose => exact hset c _ hm
  | setDisconnected => exact hset { c with state_ := .kDisconnected } _ hm
  | remove => exact hm.removeChannel
  | setDisconnecting => exact hm

theorem Mirrored.step {s s' : Server} (hm : Mirrored s) (h : s.step a = some s') :
    Mirrored s' := by
  cases ConnStep.of_step h with
  | same hc => rwa [Mirrored, hc]
  | runs _ hr => exact hr.mirrors hm

theorem Mirrored.init (config : Config) : Mirrored (Server.init config) := ⟨rfl, rfl⟩

end MuduoStudy.Server
