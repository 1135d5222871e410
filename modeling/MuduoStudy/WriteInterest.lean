import MuduoStudy.Outbound
import MuduoStudy.Registration

namespace MuduoStudy
open Transition
set_option autoImplicit true

namespace TcpConnection

/-- The channel waits for the socket to become writable only with bytes to write. -/
def Backed (c : TcpConnection) : Prop :=
  c.channel_.isWriting = true → c.outputBuffer_.readable ≠ []

theorem Backed.of_not_writing (h : c.channel_.isWriting = false) : Backed c :=
  fun ht => (Bool.false_ne_true (h.symm.trans ht)).elim

theorem isWriting_of_none {c : Channel} (h : c.events_ = Channel.kNoneEvent) :
    c.isWriting = false := by
  rw [Channel.isWriting, h]
  decide

theorem isWriting_disableAll (c : TcpConnection) : c.disableAll.channel_.isWriting = false := by
  rw [disableAll, isWriting_setEvents]
  decide

theorem isWriting_disableWriting (c : TcpConnection) :
    c.disableWriting.channel_.isWriting = false := by
  rw [disableWriting, isWriting_setEvents, Channel.drop_and_self]
  rfl

theorem Buffers.backed (hwf : c.outputBuffer_.Wf) (hlen : rest.length < 2 ^ 63) (hb : Backed c)
    (h : Buffers c rest c') : Backed c' := by
  have happend {b : Buff} (hne : rest ≠ []) (hb : c.outputBuffer_.append rest = some b) :
      b.readable ≠ [] := by
    rw [(hwf.append hlen hb).2]
    intro hnil
    exact hne (List.append_eq_nil_iff.1 hnil).2
  cases h with
  | nothing => exact hb
  | writing hne hb =>
    intro _
    exact happend hne hb
  | enable hne hb =>
    intro _
    exact happend hne hb

theorem Sends.backed (hwf : c.outputBuffer_.Wf) (hlen : message.length < 2 ^ 63) (hb : Backed c)
    (h : Sends c message w c') : Backed c' := by
  cases h with
  | @written n _ _ _ hbuffers =>
    have hrest : (message.drop n).length < 2 ^ 63 := by
      rw [List.length_drop]
      omega
    have hacc : (c.accept (message.take n)).outputBuffer_.Wf := hwf
    exact hbuffers.backed hacc hrest hb
  | fault => exact hb
  | buffered _ hbuffers => exact hbuffers.backed hwf hlen hb

theorem Writes.backed (hwf : c.outputBuffer_.Wf) (hb : Backed c) (h : Writes c w c' done) :
    Backed c' := by
  cases h with
  | nothing => exact hb
  | @part n _ _ _ hne =>
    intro _ hnil
    have hwf' : (c.drain n).outputBuffer_.Wf := (hwf.retrieve n).1
    rw [hwf'.readableBytes, hnil] at hne
    exact hne rfl
  | drained => exact .of_not_writing (isWriting_disableWriting _)

end TcpConnection

namespace Server
open TcpConnection

theorem Runs.backed (hwf : c.outputBuffer_.Wf) (hb : c.Backed) (h : Runs c k f c') :
    c'.Backed := by
  cases h with
  | connectEstablished =>
    have hread := isWriting_enableReading { c with state_ := .kConnected }
    intro ht
    exact hb (hread.symm.trans ht)
  | @sendInLoop _ m _ hs => exact hs.backed hwf m.message.bound hb
  | shutdownInLoop | ifDisconnecting =>
    obtain ⟨_, hchannel, _, hbuffer⟩ := c.shutdownInLoop_same
    rw [Backed, hchannel, hbuffer]
    exact hb
  | startReadInLoop =>
    rw [Backed, isWriting_startReadInLoop, (SameData.startReadInLoop c).buffer]
    exact hb
  | stopReadInLoop =>
    rw [Backed, isWriting_stopReadInLoop, (SameData.stopReadInLoop c).buffer]
    exact hb
  | handleWrite hw => exact hw.backed hwf hb
  | handleClose => exact .of_not_writing (isWriting_disableAll c)
  | setDisconnected => exact .of_not_writing (isWriting_disableAll _)
  | remove | setDisconnecting => exact hb

theorem Runs.watched (hwf : c.outputBuffer_.Wf) (hw : c.Watched) (h : Runs c k f c')
    (hclose : f ≠ .handleClose) (hdestroy : f ≠ .setDisconnected) : c'.Watched := by
  cases h with
  | connectEstablished =>
    have hread := TcpConnection.isWriting_enableReading { c with state_ := .kConnected }
    intro hf
    exact hw (hread.symm.trans hf)
  | sendInLoop _ hs => exact hs.watched hw
  | shutdownInLoop | ifDisconnecting => exact hw.shutdownInLoop
  | startReadInLoop => exact hw.startReadInLoop
  | stopReadInLoop => exact hw.stopReadInLoop
  | handleWrite hwrite => exact hwrite.watched hwf hw
  | handleClose => exact (hclose rfl).elim
  | setDisconnected => exact (hdestroy rfl).elim
  | remove | setDisconnecting => exact hw

theorem open_frame {s s' : Server} (hl : Lived s) (ha : s.course.Alive s.mark)
    (hs : s.stack t = f :: rest) (h : s.step (.go t k) = some s') (hcloses : s'.closes = 0)
    (hdestroys : s'.destroys = 0) : f ≠ .handleClose ∧ f ≠ .setDisconnected ∧ f ≠ .remove := by
  have hmove := Follows.step hl h
  have hcounts : s.closes ≤ s'.closes ∧ s.destroys ≤ s'.destroys := hmove.counts_le
  have hevent : s.event (.go t k) = f.event s k := by
    rw [event, hs]
  refine ⟨?_, ?_, ?_⟩
  · rintro rfl
    have hpos : 0 < s'.closes := hmove.closes_pos hevent
    omega
  · rintro rfl
    have hpos : 0 < s.destroys := ha.destroying (mark_home hl hs rfl).2
    omega
  · rintro rfl
    have hpos : 0 < s.destroys := hmove.destroys_pos hevent
    omega

theorem watched_step {s s' : Server} (hl : Lived s) (hwf : s.conn.outputBuffer_.Wf)
    (ha : s.course.Alive s.mark) (hw : s.closes = 0 → s.destroys = 0 → s.conn.Watched)
    (h : s.step a = some s') (hcloses : s'.closes = 0) (hdestroys : s'.destroys = 0) :
    s'.conn.Watched := by
  have hcounts : s.closes ≤ s'.closes ∧ s.destroys ≤ s'.destroys := (Follows.step hl h).counts_le
  have hbefore := hw (by omega) (by omega)
  cases ConnStep.of_step h with
  | same hc => rwa [hc]
  | runs hs hr =>
    obtain ⟨hclose, hdestroy, _⟩ := open_frame hl ha hs h hcloses hdestroys
    exact hr.watched hwf hbefore hclose hdestroy

/-- The channel's interest in writing as the connection's functions keep it. -/
structure Tracked (s : Server) : Prop where
  lived : Lived s
  outbound : Outbound s.conn s.executed
  alive : s.course.Alive s.mark
  backed : s.conn.Backed
  watched : s.closes = 0 → s.destroys = 0 → s.conn.Watched
  fresh : s.closes = 0 → s.destroys = 0 → s.conn.channel_.index_ = .kNew →
    s.conn.channel_.events_ = 0

theorem Tracked.init (config : Config) : Tracked (Server.init config) :=
  ⟨Lived.init config, Outbound.init config, ⟨nofun, nofun⟩,
    .of_not_writing (isWriting_of_none rfl),
    fun _ _ _ => Buff.readable_new _, fun _ _ _ => rfl⟩

theorem Tracked.step {s s' : Server} (ht : Tracked s) (h : s.step a = some s') : Tracked s' := by
  have hmove := Follows.step ht.lived h
  have hcounts : s.closes ≤ s'.closes ∧ s.destroys ≤ s'.destroys := hmove.counts_le
  have hbacked : s'.conn.Backed := by
    cases ConnStep.of_step h with
    | same hc => exact hc ▸ ht.backed
    | runs _ hr => exact hr.backed ht.outbound.wf ht.backed
  have hfresh (hcloses : s'.closes = 0) (hdestroys : s'.destroys = 0)
      (hindex : s'.conn.channel_.index_ = .kNew) : s'.conn.channel_.events_ = 0 := by
    have hbefore := ht.fresh (by omega) (by omega)
    cases ConnStep.of_step h with
    | same hc =>
      rw [hc] at hindex ⊢
      exact hbefore hindex
    | runs hs hr =>
      obtain ⟨_, _, hremove⟩ := open_frame ht.lived ht.alive hs h hcloses hdestroys
      rcases hr.operates with hop | ⟨hf, _⟩
      · rcases hop.index with hsame | hknown
        · rw [hsame] at hindex ⊢
          exact hbefore hindex
        · exact (hknown hindex).elim
      · exact (hremove hf).elim
  exact ⟨ht.lived.step h, ht.outbound.step h, ht.alive.move hmove, hbacked,
    watched_step ht.lived ht.outbound.wf ht.alive ht.watched h, hfresh⟩

theorem Tracked.run {s : Server} (h : Run Server.step (Server.init config) as s) : Tracked s :=
  h.invariant (Tracked.init config) fun _ _ _ => Tracked.step

theorem Runs.shutdown (h : Runs c k f c') (hlt : c.shutdownWrites < c'.shutdownWrites) :
    c' = c.shutdownInLoop ∧ (f = .exec .shutdownInLoop ∨
      f = .ifDisconnecting ∧ c.state_ = .kDisconnecting) ∧ c.channel_.isWriting = false := by
  have hnot (hsame : c'.shutdownWrites = c.shutdownWrites) : False := by omega
  have hwriting (hlt : c.shutdownWrites < c.shutdownInLoop.shutdownWrites) :
      c.channel_.isWriting = false := by
    obtain h | ⟨hw, _⟩ := c.shutdownInLoop_cases
    · rw [h] at hlt
      exact (Nat.lt_irrefl _ hlt).elim
    · exact hw
  cases h with
  | shutdownInLoop => exact ⟨rfl, .inl rfl, hwriting hlt⟩
  | ifDisconnecting hd => exact ⟨rfl, .inr ⟨rfl, hd⟩, hwriting hlt⟩
  | sendInLoop _ hs => exact (hnot hs.kept.shutdown).elim
  | handleWrite hw => exact (hnot hw.kept.shutdown).elim
  | startReadInLoop => exact (hnot (Kept.startReadInLoop c).shutdown).elim
  | stopReadInLoop => exact (hnot (Kept.stopReadInLoop c).shutdown).elim
  | connectEstablished | handleClose | setDisconnected | remove | setDisconnecting =>
    exact (hnot rfl).elim

/-- The channel waits for the socket to become writable exactly while bytes wait to be written,
until the connection is closed. -/
theorem write_interest {s : Server} (h : Run Server.step (Server.init config) as s) :
    (s.conn.channel_.isWriting = true → 0 < s.conn.outputBuffer_.readableBytes) ∧
    (s.closes = 0 → s.destroys = 0 →
      (0 < s.conn.outputBuffer_.readableBytes → s.conn.channel_.isWriting = true ∧
        ∃ mask, s.conn.poller_.interest s.conn.channel_.fd_ = some (mask, s.conn.channel_.self) ∧
          mask &&& POLLOUT ≠ 0) ∧
      ∀ a s', s.step a = some s' → s.conn.shutdownWrites < s'.conn.shutdownWrites →
        s.conn.outputBuffer_.readableBytes = 0) := by
  have ht := Tracked.run h
  have hwf := ht.outbound.wf
  rw [hwf.readableBytes]
  refine ⟨fun hw => List.length_pos_of_ne_nil (ht.backed hw), fun hcloses hdestroys => ⟨?_, ?_⟩⟩
  · intro hpos
    have hwriting : s.conn.channel_.isWriting = true := by
      rw [← Bool.not_eq_false]
      intro hw
      exact List.ne_nil_of_length_pos hpos (ht.watched hcloses hdestroys hw)
    have hevents (hnone : s.conn.channel_.events_ = Channel.kNoneEvent) : False :=
      Bool.false_ne_true ((isWriting_of_none hnone).symm.trans hwriting)
    have hindex : s.conn.channel_.index_ = .kAdded := by
      cases hi : s.conn.channel_.index_ with
      | kNew => exact (hevents (ht.fresh hcloses hdestroys hi)).elim
      | kDeleted => exact (hevents ((faithful_run h).deleted () hi)).elim
      | kAdded => rfl
    have hinterest := ht.lived.mirrored.interest
    rw [if_pos hindex] at hinterest
    exact ⟨hwriting, _, hinterest, of_decide_eq_true hwriting⟩
  · intro a s' hstep hlt
    cases ConnStep.of_step hstep with
    | same hc =>
      rw [hc] at hlt
      exact (Nat.lt_irrefl _ hlt).elim
    | runs _ hr =>
      have hempty := ht.watched hcloses hdestroys (hr.shutdown hlt).2.2
      rw [hempty, List.length_nil]

/-- The first message has gone out in part. -/
theorem write_interest_example : ∃ s, Run Server.step (Server.init ioConfig) sendingTwo s ∧
    0 < s.conn.outputBuffer_.readableBytes ∧ s.conn.channel_.isWriting = true := by
  have hrun : (exec Server.step (Server.init ioConfig) sendingTwo).any (fun s =>
      s.closes = 0 ∧ s.destroys = 0 ∧ 0 < s.conn.outputBuffer_.readableBytes) = true := by
    decide +kernel
  obtain ⟨s, hs, hp⟩ := Run.of_exec_any hrun
  obtain ⟨hcloses, hdestroys, hpos⟩ := of_decide_eq_true hp
  exact ⟨s, hs, hpos, (((write_interest hs).2 hcloses hdestroys).1 hpos).1⟩

end Server
end MuduoStudy
