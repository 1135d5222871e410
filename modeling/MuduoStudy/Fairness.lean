import Mathlib.Algebra.Order.Ring.Nat
import Mathlib.Data.Fintype.Card
import MuduoStudy.Polling

namespace MuduoStudy.Polling
open Transition
set_option autoImplicit true

section
variable {ι : Type u} {s s' : Polling ι}

/-- The ready list holds every descriptor with an event to report, and no descriptor that has left
the interest set. -/
structure Listed (s : Polling ι) : Prop where
  faithful : s.channels.Faithful
  nodup : s.rdllist.Nodup
  registered : ∀ fd ∈ s.rdllist, s.channels.poller_.interest fd ≠ none
  ready : ∀ fd, s.ready fd = true → fd ∈ s.rdllist

theorem Listed.init {self fd : ι → Nat} (h : Function.Injective fd) :
    Listed (Polling.init self fd) :=
  ⟨.init h, .nil, fun _ => nofun, fun _ => nofun⟩

theorem ready_congr (hi : s'.channels.poller_.interest fd = s.channels.poller_.interest fd)
    (hl : s'.level fd = s.level fd) : s'.ready fd = s.ready fd := by
  have hevent : s'.event fd = s.event fd := by simp only [event, hi, hl]
  rw [Polling.ready, Polling.ready, hevent]

theorem ready_of_none (h : s.channels.poller_.interest fd = none) : s.ready fd = false := by
  simp only [Polling.ready, event, h]
  rfl

theorem Listed.relist (hf : s.channels.Faithful) (hn : s.rdllist.Nodup)
    (hreg : ∀ fd' ∈ s.rdllist, fd' ≠ fd → s.channels.poller_.interest fd' ≠ none)
    (hready : ∀ fd', fd' ≠ fd → s.ready fd' = true → fd' ∈ s.rdllist) :
    Listed (s.relist fd) := by
  have hsame (fd' : Nat) : (s.relist fd).ready fd' = s.ready fd' := rfl
  by_cases hnone : s.channels.poller_.interest fd = none
  · have hlist : (s.relist fd).rdllist = s.rdllist.erase fd := if_pos hnone
    refine ⟨hf, ?_, ?_, ?_⟩
    · rw [hlist]
      exact hn.erase fd
    · rw [hlist]
      intro fd' hmem
      obtain ⟨hne, hmem⟩ := hn.mem_erase_iff.1 hmem
      exact hreg fd' hmem hne
    · intro fd' hr
      rw [hsame] at hr
      have hne : fd' ≠ fd := by
        rintro rfl
        exact Bool.false_ne_true ((ready_of_none hnone).symm.trans hr)
      rw [hlist]
      exact hn.mem_erase_iff.2 ⟨hne, hready fd' hne hr⟩
  · by_cases hnew : s.ready fd = true ∧ fd ∉ s.rdllist
    · have hlist : (s.relist fd).rdllist = s.rdllist ++ [fd] := (if_neg hnone).trans (if_pos hnew)
      refine ⟨hf, ?_, ?_, ?_⟩
      · rw [hlist]
        exact List.concat_eq_append ▸ hn.concat hnew.2
      · rw [hlist]
        intro fd' hmem
        by_cases hfd : fd' = fd
        · exact hfd ▸ hnone
        · exact hreg fd' ((List.mem_append.1 hmem).resolve_right
            fun h => hfd (List.mem_singleton.1 h)) hfd
      · rw [hlist]
        intro fd' hr
        by_cases hfd : fd' = fd
        · exact List.mem_append_right _ (List.mem_singleton.2 hfd)
        · exact List.mem_append_left _ (hready fd' hfd hr)
    · have hlist : (s.relist fd).rdllist = s.rdllist := (if_neg hnone).trans (if_neg hnew)
      refine ⟨hf, hlist ▸ hn, ?_, ?_⟩
      · rw [hlist]
        intro fd' hmem
        by_cases hfd : fd' = fd
        · exact hfd ▸ hnone
        · exact hreg fd' hmem hfd
      · rw [hlist]
        intro fd' hr
        by_cases hfd : fd' = fd
        · subst fd'
          by_contra hmem
          exact hnew ⟨hr, hmem⟩
        · exact hready fd' hfd hr

theorem Listed.polled (h : Listed s) (hp : Polled s s') : Listed s' := by
  have hready (fd : Nat) : s'.ready fd = s.ready fd :=
    ready_congr (by rw [hp.channels]) (by rw [hp.level])
  refine ⟨hp.channels ▸ h.faithful, ?_, ?_, ?_⟩
  · rw [hp.rdllist]
    exact Rotation.nodup_turn h.nodup
  · rw [hp.rdllist, hp.channels]
    intro fd hmem
    exact h.registered fd (Rotation.mem_of_mem_turn hmem)
  · rw [hp.rdllist]
    intro fd hr
    rw [hready] at hr
    exact Rotation.mem_turn (h.ready fd hr) hr

variable [DecidableEq ι]

inductive Step (s : Polling ι) : Action ι → Polling ι → Prop where
  | op {c : Channels ι} : s.channels.step (i, op) = some c → Step s (.op i op)
      (({ s with channels := c } : Polling ι).relist (c.channel i).fd_)
  | level : Step s (.level fd events)
      (({ s with level := Function.update s.level fd events } : Polling ι).relist fd)
  | poll {s' : Polling ι} : Polled { s with activeChannels_ := [] } s' → Step s (.poll signal) s'

theorem Step.of_step (h : s.step a = some s') : Step s a s' := by
  cases a with
  | op i op =>
    simp only [Polling.step, Option.map_eq_some_iff] at h
    obtain ⟨c, hc, rfl⟩ := h
    exact .op hc
  | level fd events =>
    cases h
    exact .level
  | poll signal =>
    cases h
    exact .poll (Polling.polled _ signal)

theorem Listed.interest_of_ne (h : Listed s) {c : Channels ι}
    (hc : s.channels.step (i, op) = some c) (hne : fd ≠ (c.channel i).fd_) :
    c.poller_.interest fd = s.channels.poller_.interest fd := by
  have hfd : (c.channel i).fd_ = (s.channels.channel i).fd_ := (h.faithful.same hc i).1
  have hpoller : c.poller_ = s.channels.poller_.mirror (op.after (s.channels.channel i)) := by
    rw [h.faithful.step_eq hc]
  rw [hpoller]
  exact Function.update_of_ne (hfd ▸ hne) _ _

theorem Listed.step (h : Listed s) (hs : s.step a = some s') : Listed s' := by
  cases Step.of_step hs with
  | @op i op c hc =>
    apply Listed.relist
    · exact h.faithful.step hc
    · exact h.nodup
    · intro fd hmem hne
      have hinterest := h.interest_of_ne hc hne
      exact fun hnone => h.registered fd hmem (hinterest.symm.trans hnone)
    · intro fd hne hr
      have hsame : ({ s with channels := c } : Polling ι).ready fd = s.ready fd :=
        ready_congr (h.interest_of_ne hc hne) rfl
      exact h.ready fd (hsame.symm.trans hr)
  | @level fd events =>
    apply Listed.relist
    · exact h.faithful
    · exact h.nodup
    · exact fun fd' hmem _ => h.registered fd' hmem
    · intro fd' hne hr
      have hlevel : Function.update s.level fd events fd' = s.level fd' :=
        Function.update_of_ne hne _ _
      have hsame : ({ s with level := Function.update s.level fd events } : Polling ι).ready fd' =
          s.ready fd' := ready_congr rfl hlevel
      exact h.ready fd' (hsame.symm.trans hr)
  | poll hp =>
    have hcleared : Listed { s with activeChannels_ := [] } :=
      ⟨h.faithful, h.nodup, h.registered, h.ready⟩
    exact hcleared.polled hp

/-- The ready list of a channel's loop, with the channels where they were made. -/
structure Tracks (address fd : ι → Nat) (s : Polling ι) : Prop where
  listed : Listed s
  same : ∀ i, (s.channels.channel i).self = address i ∧ (s.channels.channel i).fd_ = fd i

theorem Tracks.step {self fd : ι → Nat} (h : Tracks self fd s) (hs : s.step a = some s') :
    Tracks self fd s' := by
  refine ⟨h.listed.step hs, ?_⟩
  intro j
  obtain ⟨hself, hfd⟩ := h.same j
  cases Step.of_step hs with
  | op hc =>
    obtain ⟨hfd', hself'⟩ := h.listed.faithful.same hc j
    exact ⟨hself'.trans hself, hfd'.trans hfd⟩
  | level => exact ⟨hself, hfd⟩
  | poll hp =>
    rw [hp.channels]
    exact ⟨hself, hfd⟩

theorem Tracks.run {self fd : ι → Nat} (hfd : Function.Injective fd)
    (h : Run Polling.step (Polling.init self fd) as s) : Tracks self fd s :=
  h.invariant ⟨.init hfd, fun _ => ⟨rfl, rfl⟩⟩ fun _ _ _ ht => ht.step

end

section
variable {ι : Type u} {s s' : Polling ι} {self fd : ι → Nat}

theorem Tracks.event (h : Tracks self fd s) (hr : s.ready n = true) :
    ∃ i, fd i = n ∧ (s.channels.channel i).index_ = .kAdded ∧ s.event n =
      ⟨s.level n &&& ((s.channels.channel i).events_ ||| POLLERR ||| POLLHUP), self i⟩ := by
  obtain ⟨entry, hentry⟩ := Option.ne_none_iff_exists'.1
    (h.listed.registered n (h.listed.ready n hr))
  obtain ⟨i, hi⟩ := h.listed.faithful.owned n entry hentry
  obtain ⟨hself, hfd⟩ := h.same i
  have hinterest := (h.listed.faithful.mirrors i).interest
  rw [hi, hself] at hinterest
  by_cases hadded : (s.channels.channel i).index_ = .kAdded
  · rw [if_pos hadded] at hinterest
    refine ⟨i, hfd.symm.trans hi, hadded, ?_⟩
    simp only [Polling.event, hinterest]
  · rw [if_neg hadded] at hinterest
    cases hentry.symm.trans hinterest

theorem of_mem_served (h : n ∈ s.served) : s.ready n = true :=
  (Rotation.of_mem_serve h).2

theorem Listed.nodup_served (h : Listed s) : s.served.Nodup := by
  rw [served, Rotation.serve_eq_take]
  exact (h.nodup.filter _).sublist (List.take_sublist _ _)

theorem Tracks.ptr (h : Tracks self fd s) (hr : s.ready (fd i) = true)
    (hfd : Function.Injective fd) : (s.event (fd i)).ptr = self i := by
  obtain ⟨j, hj, -, hevent⟩ := h.event hr
  cases hfd hj
  rw [hevent]

theorem Tracks.nodup (h : Tracks self fd s) (hself : Function.Injective self) :
    ((s.served.map s.event).map EpollEvent.ptr).Nodup := by
  rw [List.map_map]
  refine h.listed.nodup_served.map_on ?_
  intro n hn m hm heq
  obtain ⟨i, hi, -, hn'⟩ := h.event (of_mem_served hn)
  obtain ⟨j, hj, -, hm'⟩ := h.event (of_mem_served hm)
  rw [Function.comp_apply, Function.comp_apply, hn', hm'] at heq
  have hij : i = j := hself heq
  rw [← hi, ← hj, hij]

theorem foldl_update_of_not_mem {es : List EpollEvent} (h : a ∉ es.map EpollEvent.ptr)
    (r : Nat → Events) : es.foldl (fun r e => Function.update r e.ptr e.events) r a = r a := by
  induction es generalizing r with
  | nil => rfl
  | cons e es ih =>
    obtain ⟨hne, hrest⟩ := List.ne_and_not_mem_of_not_mem_cons h
    rw [List.foldl_cons, ih hrest, Function.update_of_ne hne]

theorem foldl_update_of_mem {es : List EpollEvent} (h : (es.map EpollEvent.ptr).Nodup)
    (he : e ∈ es) (r : Nat → Events) :
    es.foldl (fun r e => Function.update r e.ptr e.events) r e.ptr = e.events := by
  induction es generalizing r with
  | nil => cases he
  | cons x es ih =>
    obtain ⟨hnew, hrest⟩ := List.nodup_cons.1 h
    rw [List.foldl_cons]
    cases he with
    | head => rw [foldl_update_of_not_mem hnew, Function.update_self]
    | tail _ he => exact ih hrest he _

theorem Tracks.revents (h : Tracks self fd s) (hself : Function.Injective self)
    (hp : Polled s s') (hn : n ∈ s.served) :
    s'.revents_ (s.event n).ptr = (s.event n).events := by
  rw [hp.revents]
  exact foldl_update_of_mem (h.nodup hself) (List.mem_map_of_mem hn) _

end

/-- Two channels that wait for data, which one of them gets. -/
def serving : List (Action Bool) :=
  [.op false .enableReading, .op true .enableReading, .level 7 POLLIN]

theorem descriptors_injective : Function.Injective fun b : Bool => cond b 7 5 := by
  intro b c h
  cases b <;> cases c <;> first | rfl | cases h

theorem addresses_injective : Function.Injective fun b : Bool => cond b 2 1 := by
  intro b c h
  cases b <;> cases c <;> first | rfl | cases h

section
variable {ι : Type u} [Fintype ι] {s s' : Polling ι} {self fd : ι → Nat}

def registered (s : Polling ι) : Finset ι :=
  Finset.univ.filter fun i => (s.channels.channel i).index_ = .kAdded

def readyChannels (s : Polling ι) : Finset ι :=
  Finset.univ.filter fun i => s.ready (s.channels.channel i).fd_ = true

theorem Tracks.length_rdllist (h : Tracks self fd s) : s.rdllist.length ≤ s.registered.card := by
  rw [← List.toFinset_card_of_nodup h.listed.nodup]
  refine le_trans (Finset.card_le_card ?_) (Finset.card_image_le (f := fd))
  intro n hn
  obtain ⟨entry, hentry⟩ := Option.ne_none_iff_exists'.1
    (h.listed.registered n (List.mem_toFinset.1 hn))
  obtain ⟨i, hi⟩ := h.listed.faithful.owned n entry hentry
  have hinterest := (h.listed.faithful.mirrors i).interest
  rw [hi] at hinterest
  have hadded : (s.channels.channel i).index_ = .kAdded := by
    by_contra hne
    rw [if_neg hne] at hinterest
    cases hentry.symm.trans hinterest
  exact Finset.mem_image.2
    ⟨i, Finset.mem_filter.2 ⟨Finset.mem_univ i, hadded⟩, (h.same i).2.symm.trans hi⟩

theorem Tracks.length_ready (h : Tracks self fd s) (hfd : Function.Injective fd) :
    (s.rdllist.filter s.ready).length = s.readyChannels.card := by
  rw [← List.toFinset_card_of_nodup (h.listed.nodup.filter _),
    ← Finset.card_image_of_injective s.readyChannels hfd]
  congr 1
  ext n
  simp only [List.mem_toFinset, List.mem_filter, Finset.mem_image, readyChannels,
    Finset.mem_filter, Finset.mem_univ, true_and]
  constructor
  · rintro ⟨_, hr⟩
    obtain ⟨i, hi, -⟩ := h.event hr
    exact ⟨i, by rw [(h.same i).2, hi]; exact hr, hi⟩
  · rintro ⟨i, hr, rfl⟩
    rw [(h.same i).2] at hr
    exact ⟨h.listed.ready _ hr, hr⟩

theorem Tracks.length_served (h : Tracks self fd s) (hfd : Function.Injective fd) :
    s.served.length = min s.events_.length s.readyChannels.card := by
  rw [served, Rotation.length_serve, h.length_ready hfd]

variable [DecidableEq ι]

/-- The vector has its first size or has been doubled from there, and never holds more than twice
the channels of the loop. -/
structure Sized (s : Polling ι) : Prop where
  power : ∃ k, s.events_.length = kInitEventListSize * 2 ^ k
  bounded : s.events_.length ≤ max kInitEventListSize (2 * Fintype.card ι)

omit [DecidableEq ι] in
theorem Sized.init (self fd : ι → Nat) : Sized (Polling.init self fd) :=
  ⟨⟨0, rfl⟩, Nat.le_max_left _ _⟩

theorem Sized.step (h : Sized s) (ht : Tracks self fd s) (hfd : Function.Injective fd)
    (hs : s.step a = some s') : Sized s' := by
  cases Step.of_step hs with
  | op => exact ⟨h.power, h.bounded⟩
  | level => exact ⟨h.power, h.bounded⟩
  | poll hp =>
    have hlength : s'.events_.length = s.grown := hp.length
    by_cases hgrows : s.served.length = s.events_.length ∧ s.served ≠ []
    · have hgrown : s.grown = 2 * s.events_.length := if_pos hgrows
      have hcard : s.events_.length ≤ Fintype.card ι := by
        rw [← hgrows.1, ht.length_served hfd]
        exact (Nat.min_le_right _ _).trans (Finset.card_le_univ _)
      obtain ⟨k, hk⟩ := h.power
      refine ⟨⟨k + 1, ?_⟩, ?_⟩
      · rw [hlength, hgrown, hk, Nat.pow_succ]
        exact (Nat.mul_comm _ _).trans (Nat.mul_assoc _ _ _)
      · rw [hlength, hgrown]
        exact (Nat.mul_le_mul_left 2 hcard).trans (Nat.le_max_right _ _)
    · have hgrown : s.grown = s.events_.length := if_neg hgrows
      exact ⟨hlength.trans hgrown ▸ h.power, hlength.trans hgrown ▸ h.bounded⟩

/-- In every run, `poll` reports different channels, each of them registered and with no event
that it has not asked for, and as many of those with an event as the vector has room for. The
vector never outgrows twice the channels of the loop. -/
theorem poll_reports (hself : Function.Injective self) (hfd : Function.Injective fd)
    (h : Run Polling.step (Polling.init self fd) as s) (hs : s.step (.poll signal) = some s') :
    s'.activeChannels_.Nodup ∧
    s'.activeChannels_.length = min s.events_.length s.readyChannels.card ∧
    (∀ a ∈ s'.activeChannels_, ∃ i, self i = a ∧ (s.channels.channel i).index_ = .kAdded ∧
      s'.revents_ a ≠ 0 ∧ s'.revents_ a =
        s.level (fd i) &&& ((s.channels.channel i).events_ ||| POLLERR ||| POLLHUP)) ∧
    (∃ k, s'.events_.length = kInitEventListSize * 2 ^ k) ∧
    s'.events_.length ≤ max kInitEventListSize (2 * Fintype.card ι) := by
  have htracks := Tracks.run hfd h
  have hinit : Tracks self fd (Polling.init self fd) ∧ Sized (Polling.init self fd) :=
    ⟨.run hfd (.nil _), .init self fd⟩
  have hsized : Tracks self fd s ∧ Sized s := by
    refine Run.invariant (P := fun s => Tracks self fd s ∧ Sized s) h hinit ?_
    intro s a t hi hs
    exact ⟨hi.1.step hs, hi.2.step hi.1 hfd hs⟩
  have hsized' := hsized.2.step htracks hfd hs
  cases Step.of_step hs with
  | poll hp =>
    have hactive : s'.activeChannels_ = (s.served.map s.event).map EpollEvent.ptr := hp.active
    refine ⟨?_, ?_, ?_, hsized'.power, hsized'.bounded⟩
    · rw [hactive]
      exact htracks.nodup hself
    · rw [hactive, List.length_map, List.length_map]
      exact htracks.length_served hfd
    · intro a ha
      rw [hactive, List.map_map] at ha
      obtain ⟨n, hn, rfl⟩ := List.mem_map.1 ha
      have hready : s.ready n = true := of_mem_served hn
      have hcleared : Tracks self fd { s with activeChannels_ := [] } :=
        ⟨⟨htracks.listed.faithful, htracks.listed.nodup, htracks.listed.registered,
          htracks.listed.ready⟩, htracks.same⟩
      have hrevents : s'.revents_ (s.event n).ptr = (s.event n).events :=
        hcleared.revents hself hp hn
      obtain ⟨i, rfl, hadded, hevent⟩ := htracks.event hready
      have hne : (s.event (fd i)).events ≠ 0 := of_decide_eq_true hready
      rw [Function.comp_apply]
      refine ⟨i, ?_, hadded, hrevents ▸ hne, ?_⟩
      · rw [hevent]
      · rw [hrevents, hevent]

theorem poll_reports_example : ∃ s s' : Polling Bool, s.step (.poll false) = some s' ∧
    s'.activeChannels_.length = min s.events_.length s.readyChannels.card ∧
    s'.events_.length ≤ max kInitEventListSize (2 * Fintype.card Bool) := by
  have hrun : (exec Polling.step (Polling.init (fun b : Bool => cond b 2 1) fun b => cond b 7 5)
      serving).any (fun s => (s.step (.poll false)).isSome) = true := by
    decide +kernel
  obtain ⟨s, hs, hp⟩ := Run.of_exec_any hrun
  obtain ⟨s', hs'⟩ := Option.isSome_iff_exists.1 hp
  obtain ⟨-, hlength, -, -, hbound⟩ :=
    poll_reports addresses_injective descriptors_injective hs hs'
  exact ⟨s, s', hs', hlength, hbound⟩

omit [Fintype ι] in
/-- Who waits gets no place back, and gets as many forward as `poll` serves others. -/
theorem Listed.advances (h : Listed s) (hs : s.step a = some s') (hr : s.ready n = true)
    (hr' : s'.ready n = true) (hn : a.isPoll = true → n ∉ s.served) :
    s'.rdllist.idxOf n + (if a.isPoll then s.events_.length else 0) ≤ s.rdllist.idxOf n := by
  have hmem := h.ready n hr
  -- a look at one descriptor puts it at the back or takes it out
  have hrelist (u : Polling ι) (hlist : u.rdllist = s.rdllist) (hu : u.ready n = true) (m : Nat) :
      (u.relist m).rdllist.idxOf n ≤ s.rdllist.idxOf n := by
    simp only [Polling.relist, hlist]
    split
    · rename_i hnone
      have hne : n ≠ m := by
        rintro rfl
        exact Bool.false_ne_true ((ready_of_none hnone).symm.trans hu)
      exact Rotation.idxOf_erase_le hne s.rdllist
    · split
      · rw [List.idxOf_append_of_mem hmem]
      · exact Nat.le_refl _
  cases Step.of_step hs with
  | @op _ _ c => exact hrelist { s with channels := c } rfl hr' _
  | @level fd events =>
    exact hrelist { s with level := Function.update s.level fd events } rfl hr' _
  | poll hp =>
    rw [hp.rdllist]
    exact Rotation.idxOf_turn hmem hr (hn rfl)

omit [Fintype ι] in
theorem le_length_events (hs : s.step a = some s') : s.events_.length ≤ s'.events_.length := by
  cases Step.of_step hs with
  | op => exact Nat.le_refl _
  | level => exact Nat.le_refl _
  | poll hp =>
    have hgrown : s'.events_.length = s.grown := hp.length
    rw [hgrown, grown]
    split
    · exact Nat.le_mul_of_pos_left _ Nat.two_pos
    · exact Nat.le_refl _

/-- The address of the channel is among those that a step gives to `loop`. -/
def Reports (n : Nat) (s : Polling ι) (a : Action ι) : Prop :=
  ∃ s', s.step a = some s' ∧ a.isPoll = true ∧ n ∈ s'.activeChannels_

/-- No channel is starved, however the others behave: in every run in which a channel has an event
to report throughout and in which `poll` is called often enough to serve all channels that were
registered at its beginning, one of the calls reports the channel. -/
theorem poll_fair (hfd : Function.Injective fd) (h : Run Polling.step (Polling.init self fd) as s)
    (hr : Run Polling.step s bs t)
    (hready : AllStates Polling.step (fun s => s.ready (fd i) = true) s bs)
    (hpolls : s.registered.card ≤ bs.countP Action.isPoll * s.events_.length) :
    ∃ before a after u u', bs = before ++ a :: after ∧ Run Polling.step s before u ∧
      u.step a = some u' ∧ a.isPoll = true ∧ self i ∈ u'.activeChannels_ := by
  have htracks := Tracks.run hfd h
  by_cases hreports : AllSteps Polling.step (fun s a => ¬ Reports (self i) s a) s bs
  · -- unreported, the channel would have got further forward than its place
    have hcount := hr.count_le
      (I := fun u => Tracks self fd u ∧ s.events_.length ≤ u.events_.length)
      (fun u => u.rdllist.idxOf (fd i)) Action.isPoll s.events_.length
      (hreports.and hready.allSteps) ⟨htracks, Nat.le_refl _⟩ ?_
    · have hplace : s.rdllist.idxOf (fd i) < s.rdllist.length :=
        List.idxOf_lt_length_of_mem (htracks.listed.ready _ hready.head)
      have hlist := htracks.length_rdllist
      omega
    · rintro u a u' ⟨hu, hlong⟩ ⟨hnot, hwaits, hwaits'⟩ hs
      refine ⟨⟨hu.step hs, hlong.trans (le_length_events hs)⟩, ?_⟩
      have hadvances := hu.listed.advances hs hwaits (hwaits' u' hs) ?_
      · split at hadvances
        · rename_i hpoll
          rw [if_pos hpoll]
          omega
        · rename_i hpoll
          rwa [if_neg hpoll]
      · intro hpoll hserved
        refine hnot ⟨u', hs, hpoll, ?_⟩
        cases Step.of_step hs with
        | op => cases hpoll
        | level => cases hpoll
        | poll hp =>
          rw [hp.active, List.nil_append, ← hu.ptr hwaits hfd]
          exact List.mem_map_of_mem (List.mem_map_of_mem hserved)
  · obtain ⟨before, a, after, u, v, hbs, hu, -, hnot⟩ := hr.exists_step hreports
    obtain ⟨u', hu', hpoll, hmem⟩ := not_not.1 hnot
    exact ⟨before, a, after, u, u', hbs, hu, hu', hpoll, hmem⟩

/-- One channel more than the vector has room for, each with data. -/
def crowd : List (Action (Fin 17)) :=
  (List.finRange 17).map (.op · .enableReading) ++
    (List.finRange 17).map fun i => .level (i + 5) POLLIN

theorem poll_fair_example : ∃ s s' : Polling (Fin 17), s.step (.poll true) = some s' ∧
    17 ∉ s'.activeChannels_ ∧ ∃ before after, ∃ a : Action (Fin 17), ∃ u u' : Polling (Fin 17),
      [.poll true, .poll false] = before ++ a :: after ∧ Run Polling.step s before u ∧
        u.step a = some u' ∧ a.isPoll = true ∧ 17 ∈ u'.activeChannels_ := by
  have hrun : (exec Polling.step (Polling.init (fun i : Fin 17 => i + 1) fun i => i + 5)
      crowd).any (fun s =>
        (s.step (.poll true)).any (fun s' => decide (17 ∉ s'.activeChannels_)) &&
          (exec Polling.step s [.poll true, .poll false]).isSome &&
          decide (AllStates Polling.step (fun s => s.ready 21 = true) s
            [.poll true, .poll false]) &&
          decide (s.registered.card ≤
            [Action.poll true, .poll false].countP
              (Action.isPoll : Action (Fin 17) → Bool) * s.events_.length)) = true := by
    decide +kernel
  obtain ⟨s, hs, hp⟩ := Run.of_exec_any hrun
  simp only [Bool.and_eq_true, decide_eq_true_eq] at hp
  obtain ⟨⟨⟨hfull, hexec⟩, hready⟩, hpolls⟩ := hp
  obtain ⟨s', hs', hleft⟩ := (Option.any_eq_true ..).1 hfull
  obtain ⟨t, ht⟩ := Option.isSome_iff_exists.1 hexec
  have hfd : Function.Injective fun i : Fin 17 => (i : Nat) + 5 :=
    (add_left_injective 5).comp Fin.val_injective
  obtain ⟨before, a, after, u, u', hbs, hu, hu', hpoll, hmem⟩ :=
    poll_fair (i := 16) hfd hs (Run.of_exec ht) hready hpolls
  exact ⟨s, s', hs', of_decide_eq_true hleft, before, after, a, u, u', hbs, hu, hu', hpoll, hmem⟩

end
end MuduoStudy.Polling
