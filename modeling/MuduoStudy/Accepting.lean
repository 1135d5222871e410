import MuduoStudy.Acceptor

namespace MuduoStudy.Acceptor
open Transition Descriptors
set_option autoImplicit true

/-- The descriptor of a connection that is accepted and not yet handed over or closed. -/
def Pc.inFlight (idleFd_ : Option Nat) : Pc → Option (Nat × Nat)
  | .ifCallback connfd k => some (connfd, k)
  | .closeAccepted (some k) => idleFd_.map fun fd => (fd, k)
  | _ => none

/-- The locations at which `idleFd_` stands for `/dev/null`, unless it is -1. -/
def Pc.holdsIdle : Pc → Bool
  | .ready | .accept | .ifCallback .. | .logError | .ifEmfile | .closeIdleFd
  | .destroyIdleFd => true
  | .acceptIdleFd | .closeAccepted _ | .openIdleFd | .destroySocket | .destroyed => false

def Pc.taken : Pc → Option Nat
  | .ifCallback _ k => some k
  | .closeAccepted k => k
  | _ => none

theorem taken_of_inFlight {p : Pc} (h : p.inFlight i = some (fd, k)) : p.taken = some k := by
  cases p with
  | ifCallback =>
    cases h
    rfl
  | closeAccepted taken =>
    cases taken with
    | none => cases h
    | some =>
      obtain ⟨_, _, heq⟩ := Option.map_eq_some_iff.1 h
      cases heq
      rfl
  | _ => cases h

/-- Every connection that has arrived waits, is in flight or has met its fate, each of them once
and in the order of arrival. -/
def Numbered (s : Acceptor) : Prop :=
  s.fates.map Fate.conn ++ s.pc.taken.toList ++ s.backlog = List.range s.arrivals

theorem Numbered.goto {s t : Acceptor} (hn : Numbered s) (hfates : t.fates = s.fates)
    (hbacklog : t.backlog = s.backlog) (harrivals : t.arrivals = s.arrivals)
    (htaken : t.pc.taken = s.pc.taken) : Numbered t := by
  rw [Numbered, hfates, htaken, hbacklog, harrivals]
  exact hn

theorem Numbered.step {s t : Acceptor} (hn : Numbered s) (h : Step s a t) : Numbered t := by
  cases h with
  | handleRead hpc | acceptFails hpc | logError hpc | emfile hpc | notEmfile hpc
  | acceptIdleFails hpc | openIdleFd hpc | openFails hpc | destroy hpc | destroySocket hpc =>
    exact hn.goto rfl rfl rfl (by rw [hpc]; rfl)
  | closeIdleFd hpc | destroyIdleFd hpc => exact hn.goto rfl rfl rfl (by rw [hpc]; rfl)
  | accepted hpc hb | acceptedIdle hpc hb =>
    rw [Numbered, hpc, hb] at hn
    simpa [Numbered, Pc.taken] using hn
  | hands hpc | closes hpc =>
    rw [Numbered, hpc] at hn
    simpa [Numbered, Pc.taken, Fate.conn] using hn
  | @closeAccepted k _ _ hpc =>
    rw [Numbered, hpc] at hn
    cases k <;> simpa [Numbered, Pc.taken, Fate.conn, closeFd] using hn
  | arrive =>
    rw [Numbered, List.range_succ, ← hn, ← List.append_assoc]
  | openOther | closeForeign | closeConn => exact hn

theorem Numbered.fresh {s : Acceptor} (hn : Numbered s) (hk : s.pc.taken = some k) :
    k ∉ s.fates.map Fate.conn := by
  have hnodup := List.nodup_range (n := s.arrivals)
  rw [← hn, hk, List.append_assoc] at hnodup
  intro hmem
  exact (List.nodup_append.1 hnodup).2.2 k hmem k (List.mem_append_left _ List.mem_cons_self) rfl

/-- Every descriptor is accounted for. -/
structure Owned (s : Acceptor) : Prop where
  listens : ∀ fd, file s.table fd = some .listenSocket ↔ fd = s.acceptFd ∧ s.pc ≠ .destroyed
  idles : ∀ fd, file s.table fd = some .devNull ↔ s.idleFd_ = some fd ∧ s.pc.holdsIdle = true
  conns : ∀ fd k, file s.table fd = some (.conn k) →
    s.pc.inFlight s.idleFd_ = some (fd, k) ∨ .handed k fd ∈ s.fates
  inFlight : ∀ fd k, s.pc.inFlight s.idleFd_ = some (fd, k) → file s.table fd = some (.conn k)
  handed : ∀ fd k, .handed k fd ∈ s.fates → k ∈ s.ended ∨ file s.table fd = some (.conn k)
  second : ∀ k, s.pc = .closeAccepted k → s.idleFd_.isSome = k.isSome

theorem Owned.goto {s : Acceptor} (hs : Owned s) (p : Pc) (e : AcceptErrno)
    (hholds : p.holdsIdle = s.pc.holdsIdle) (hflight : ∀ i, p.inFlight i = s.pc.inFlight i)
    (hends : p ≠ .destroyed ∧ s.pc ≠ .destroyed) (hp : ∀ k, p ≠ .closeAccepted k) :
    Owned { s with errno := e, pc := p } where
  listens fd := (hs.listens fd).trans
    ⟨fun h => ⟨h.1, hends.1⟩, fun h => ⟨h.1, hends.2⟩⟩
  idles fd := by
    rw [hs.idles, ← hholds]
  conns := by
    rw [hflight]
    exact hs.conns
  inFlight := by
    rw [hflight]
    exact hs.inFlight
  handed := hs.handed
  second k h := (hp k h).elim

theorem Owned.accepted {s : Acceptor} (hs : Owned s)
    (ho : openFile s.table (.conn k) = some (fd, slots)) (p : Pc) (i : Option Nat) (rest : List Nat)
    (hp : p.inFlight i = some (fd, k)) (hflight : ∀ i, s.pc.inFlight i = none)
    (hidles : ∀ fd, s.idleFd_ = some fd ∧ s.pc.holdsIdle = true ↔ i = some fd ∧ p.holdsIdle = true)
    (hends : p ≠ .destroyed ∧ s.pc ≠ .destroyed)
    (hsecond : ∀ k, p = .closeAccepted k → i.isSome = k.isSome) :
    Owned { s with table := slots, backlog := rest, idleFd_ := i, pc := p } := by
  constructor
  · intro fd'
    rw [file_openFile_iff ho, hs.listens]
    exact ⟨fun h => ⟨(h.resolve_left fun hn => (nomatch hn.2)).1, hends.1⟩,
      fun h => .inr ⟨h.1, hends.2⟩⟩
  · intro fd'
    rw [file_openFile_iff ho, hs.idles, hidles]
    exact ⟨fun h => h.resolve_left fun hn => (nomatch hn.2), .inr⟩
  · intro fd' k' h
    rcases (file_openFile_iff ho).1 h with ⟨rfl, hk⟩ | h
    · cases hk
      exact .inl hp
    · exact .inr ((hs.conns fd' k' h).resolve_left (by rw [hflight]; nofun))
  · intro fd' k' h
    cases hp.symm.trans h
    exact (file_openFile_iff ho).2 (.inl ⟨rfl, rfl⟩)
  · intro fd' k' h
    exact (hs.handed fd' k' h).imp_right fun hf => (file_openFile_iff ho).2 (.inr hf)
  · exact hsecond

theorem Owned.closes {s : Acceptor} (hs : Owned s) (hn : Numbered s) (p : Pc)
    (hflight : s.pc.inFlight s.idleFd_ = some (fd, k)) (htaken : s.pc.taken = some k)
    (hp : ∀ i, p.inFlight i = none) (hp' : ∀ k, p ≠ .closeAccepted k)
    (hidles : ∀ fd, s.idleFd_ = some fd ∧ s.pc.holdsIdle = true ↔
      s.idleFd_ = some fd ∧ p.holdsIdle = true)
    (hends : p ≠ .destroyed ∧ s.pc ≠ .destroyed) :
    Owned { s with
      table := closeFile s.table fd, fates := s.fates ++ [.closed k], pc := p } := by
  have hf := hs.inFlight fd k hflight
  constructor
  · intro fd'
    refine (file_closeFile_other (k := .listenSocket) hf nofun).trans ((hs.listens fd').trans ?_)
    exact ⟨fun h => ⟨h.1, hends.1⟩, fun h => ⟨h.1, hends.2⟩⟩
  · intro fd'
    exact (file_closeFile_other (k := .devNull) hf nofun).trans ((hs.idles fd').trans (hidles fd'))
  · intro fd' k' h
    obtain ⟨hne, h⟩ := file_closeFile_iff.1 h
    rcases hs.conns fd' k' h with hflight' | hmem
    · cases hflight.symm.trans hflight'
      exact (hne rfl).elim
    · exact .inr (List.mem_append_left _ hmem)
  · intro fd' k' h
    cases (hp _).symm.trans h
  · intro fd' k' h
    have hmem : Fate.handed k' fd' ∈ s.fates := by simpa using h
    have hne : k' ≠ k := by
      rintro rfl
      exact hn.fresh htaken (List.mem_map_of_mem hmem)
    refine (hs.handed fd' k' hmem).imp_right fun hf' => ?_
    exact (file_closeFile_other hf fun h => hne (File.conn.inj h)).2 hf'
  · exact fun k' h => (hp' k' h).elim

theorem Owned.closesIdle {s : Acceptor} (hs : Owned s) (p : Pc) (hholds : s.pc.holdsIdle = true)
    (hp : p.holdsIdle = false) (hflight : ∀ i, p.inFlight i = none ∧ s.pc.inFlight i = none)
    (hends : p ≠ .destroyed ∧ s.pc ≠ .destroyed) (hp' : ∀ k, p ≠ .closeAccepted k) :
    Owned { s.closeFd s.idleFd_ with pc := p } := by
  have closed {f : File} (hne : f ≠ .devNull) (fd' : Nat) :
      file (s.closeFd s.idleFd_).table fd' = some f ↔ file s.table fd' = some f := by
    cases hidle : s.idleFd_ with
    | none => exact Iff.rfl
    | some fd => exact file_closeFile_other ((hs.idles fd).2 ⟨hidle, hholds⟩) hne
  constructor
  · intro fd'
    refine (closed (f := .listenSocket) nofun fd').trans ((hs.listens fd').trans ?_)
    exact ⟨fun h => ⟨h.1, hends.1⟩, fun h => ⟨h.1, hends.2⟩⟩
  · intro fd'
    constructor
    · intro h
      exfalso
      cases hidle : s.idleFd_ with
      | none =>
        simp only [closeFd, hidle] at h
        cases hidle.symm.trans ((hs.idles fd').1 h).1
      | some fd =>
        simp only [closeFd, hidle] at h
        obtain ⟨hne, h⟩ := file_closeFile_iff.1 h
        exact hne (Option.some.inj (((hs.idles fd').1 h).1.symm.trans hidle))
    · intro h
      cases hp.symm.trans h.2
  · intro fd' k' h
    have hk := hs.conns fd' k' ((closed (f := .conn k') nofun fd').1 h)
    rw [(hflight _).2] at hk
    exact .inr (hk.resolve_left nofun)
  · intro fd' k' h
    cases (hflight _).1.symm.trans h
  · intro fd' k' h
    exact (hs.handed fd' k' h).imp_right (closed (f := .conn k') nofun fd').2
  · exact fun k' h => (hp' k' h).elim

theorem Owned.loses {s : Acceptor} (hs : Owned s) (p : Pc) (e : AcceptErrno)
    (hholds : s.pc.holdsIdle = false) (hflight : p.inFlight none = none)
    (hflight' : ∀ i, s.pc.inFlight i = none) (hends : p ≠ .destroyed ∧ s.pc ≠ .destroyed)
    (hsecond : ∀ k, p = .closeAccepted k → k = none) :
    Owned { s with errno := e, idleFd_ := none, pc := p } := by
  constructor
  · intro fd
    exact (hs.listens fd).trans ⟨fun h => ⟨h.1, hends.1⟩, fun h => ⟨h.1, hends.2⟩⟩
  · intro fd
    refine (hs.idles fd).trans ⟨fun h => ?_, fun h => ?_⟩
    · cases hholds.symm.trans h.2
    · cases h.1
  · intro fd k h
    have hk := hs.conns fd k h
    rw [hflight'] at hk
    exact .inr (hk.resolve_left nofun)
  · intro fd k h
    cases hflight.symm.trans h
  · exact hs.handed
  · intro k h
    rw [hsecond k h]

theorem Owned.hands {s : Acceptor} (hs : Owned s) (hpc : s.pc = .ifCallback fd k) :
    Owned { s with fates := s.fates ++ [.handed k fd], pc := .ready } := by
  have hf := hs.inFlight fd k (by rw [hpc]; rfl)
  have hidles := hs.idles
  have hconns := hs.conns
  rw [hpc] at hidles hconns
  constructor
  · intro fd'
    refine (hs.listens fd').trans ⟨fun h => ⟨h.1, nofun⟩, fun h => ⟨h.1, ?_⟩⟩
    rw [hpc]
    nofun
  · exact hidles
  · intro fd' k' h
    rcases hconns fd' k' h with hflight | hmem
    · cases hflight
      exact .inr (List.mem_append_right _ List.mem_cons_self)
    · exact .inr (List.mem_append_left _ hmem)
  · exact fun fd' k' h => nomatch h
  · intro fd' k' h
    rcases List.mem_append.1 h with h | h
    · exact hs.handed fd' k' h
    · cases List.mem_singleton.1 h
      exact .inr hf
  · exact fun k' h => nomatch h

theorem Owned.reopens {s : Acceptor} (hs : Owned s) (hpc : s.pc = .openIdleFd)
    (ho : openFile s.table .devNull = some (fd, slots)) :
    Owned { s with table := slots, idleFd_ := some fd, pc := .ready } := by
  have hidles := hs.idles
  have hconns := hs.conns
  rw [hpc] at hidles hconns
  constructor
  · intro fd'
    refine (file_openFile_iff ho).trans ⟨fun h => ⟨?_, nofun⟩, fun h => .inr ?_⟩
    · exact ((hs.listens fd').1 (h.resolve_left fun hn => (nomatch hn.2))).1
    · exact (hs.listens fd').2 ⟨h.1, by rw [hpc]; nofun⟩
  · intro fd'
    refine (file_openFile_iff ho).trans ⟨fun h => ?_, fun h => .inl ⟨?_, rfl⟩⟩
    · rcases h with ⟨rfl, -⟩ | h
      · exact ⟨rfl, rfl⟩
      · cases ((hidles fd').1 h).2
    · exact (Option.some.inj h.1).symm
  · intro fd' k' h
    have h := ((file_openFile_iff ho).1 h).resolve_left fun hn => (nomatch hn.2)
    exact .inr ((hconns fd' k' h).resolve_left nofun)
  · exact fun fd' k' h => nomatch h
  · intro fd' k' h
    exact (hs.handed fd' k' h).imp_right fun hf => (file_openFile_iff ho).2 (.inr hf)
  · exact fun k' h => nomatch h

theorem Owned.destroySocket {s : Acceptor} (hs : Owned s) (hpc : s.pc = .destroySocket) :
    Owned { s with table := closeFile s.table s.acceptFd, pc := .destroyed } := by
  have hf : file s.table s.acceptFd = some .listenSocket :=
    (hs.listens _).2 ⟨rfl, by rw [hpc]; nofun⟩
  have hidles := hs.idles
  have hconns := hs.conns
  rw [hpc] at hidles hconns
  constructor
  · intro fd'
    refine file_closeFile_iff.trans ⟨fun h => ?_, fun h => (h.2 rfl).elim⟩
    exact (h.1 ((hs.listens fd').1 h.2).1).elim
  · intro fd'
    exact (file_closeFile_other (k := .devNull) hf nofun).trans (hidles fd')
  · intro fd' k' h
    have h := (file_closeFile_other (k := .conn k') hf nofun).1 h
    exact .inr ((hconns fd' k' h).resolve_left nofun)
  · exact fun fd' k' h => nomatch h
  · intro fd' k' h
    exact (hs.handed fd' k' h).imp_right (file_closeFile_other (k := .conn k') hf nofun).2
  · exact fun k' h => nomatch h

theorem Owned.openOther {s : Acceptor} (hs : Owned s)
    (ho : openFile s.table .foreign = some (fd, slots)) : Owned { s with table := slots } := by
  have same {f : File} (hne : f ≠ .foreign) (fd' : Nat) :
      file slots fd' = some f ↔ file s.table fd' = some f :=
    (file_openFile_iff ho).trans ⟨fun h => h.resolve_left fun hn => hne hn.2, .inr⟩
  constructor
  · exact fun fd' => (same (f := .listenSocket) nofun fd').trans (hs.listens fd')
  · exact fun fd' => (same (f := .devNull) nofun fd').trans (hs.idles fd')
  · exact fun fd' k' h => hs.conns fd' k' ((same (f := .conn k') nofun fd').1 h)
  · exact fun fd' k' h => (same (f := .conn k') nofun fd').2 (hs.inFlight fd' k' h)
  · exact fun fd' k' h => (hs.handed fd' k' h).imp_right (same (f := .conn k') nofun fd').2
  · exact hs.second

theorem Owned.closeForeign {s : Acceptor} (hs : Owned s) (hf : file s.table fd = some .foreign) :
    Owned { s with table := closeFile s.table fd } := by
  have same {f : File} (hne : f ≠ .foreign) (fd' : Nat) :
      file (closeFile s.table fd) fd' = some f ↔ file s.table fd' = some f :=
    file_closeFile_other hf hne
  constructor
  · exact fun fd' => (same (f := .listenSocket) nofun fd').trans (hs.listens fd')
  · exact fun fd' => (same (f := .devNull) nofun fd').trans (hs.idles fd')
  · exact fun fd' k' h => hs.conns fd' k' ((same (f := .conn k') nofun fd').1 h)
  · exact fun fd' k' h => (same (f := .conn k') nofun fd').2 (hs.inFlight fd' k' h)
  · exact fun fd' k' h => (hs.handed fd' k' h).imp_right (same (f := .conn k') nofun fd').2
  · exact hs.second

theorem Owned.closeConn {s : Acceptor} (hs : Owned s) (hn : Numbered s)
    (hf : file s.table fd = some (.conn k)) (hk : .handed k fd ∈ s.fates) :
    Owned { s with table := closeFile s.table fd, ended := k :: s.ended } := by
  constructor
  · intro fd'
    exact (file_closeFile_other (k := .listenSocket) hf nofun).trans (hs.listens fd')
  · intro fd'
    exact (file_closeFile_other (k := .devNull) hf nofun).trans (hs.idles fd')
  · exact fun fd' k' h => hs.conns fd' k' (file_closeFile_iff.1 h).2
  · intro fd' k' h
    refine file_closeFile_iff.2 ⟨?_, hs.inFlight fd' k' h⟩
    rintro rfl
    cases (hs.inFlight fd' k' h).symm.trans hf
    exact hn.fresh (taken_of_inFlight h) (List.mem_map_of_mem hk)
  · intro fd' k' h
    by_cases hkk : k' = k
    · exact .inl (hkk ▸ List.mem_cons_self)
    · rcases hs.handed fd' k' h with hended | hf'
      · exact .inl (List.mem_cons_of_mem _ hended)
      · exact .inr ((file_closeFile_other hf fun h => hkk (File.conn.inj h)).2 hf')
  · exact hs.second

theorem Owned.step {s t : Acceptor} (hn : Numbered s) (hs : Owned s) (h : Step s a t) :
    Owned t := by
  cases h with
  | handleRead hpc =>
    exact hs.goto .accept s.errno (by rw [hpc]; rfl) (fun _ => by rw [hpc]; rfl)
      (by rw [hpc]; decide) nofun
  | accepted hpc hb ho =>
    refine hs.accepted ho (.ifCallback _ _) s.idleFd_ _ rfl (fun _ => by rw [hpc]; rfl) ?_ ?_ nofun
    · rw [hpc]
      exact fun _ => Iff.rfl
    · rw [hpc]
      exact ⟨nofun, nofun⟩
  | acceptFails hpc =>
    exact hs.goto .logError _ (by rw [hpc]; rfl) (fun _ => by rw [hpc]; rfl)
      (by rw [hpc]; decide) nofun
  | hands hpc => exact hs.hands hpc
  | closes hpc =>
    refine hs.closes hn .ready (by rw [hpc]; rfl) (by rw [hpc]; rfl) (fun _ => rfl) nofun ?_ ?_
    · rw [hpc]
      exact fun _ => Iff.rfl
    · rw [hpc]
      exact ⟨nofun, nofun⟩
  | logError hpc =>
    exact hs.goto .ifEmfile _ (by rw [hpc]; rfl) (fun _ => by rw [hpc]; rfl)
      (by rw [hpc]; decide) nofun
  | emfile hpc =>
    exact hs.goto .closeIdleFd s.errno (by rw [hpc]; rfl) (fun _ => by rw [hpc]; rfl)
      (by rw [hpc]; decide) nofun
  | notEmfile hpc =>
    exact hs.goto .ready s.errno (by rw [hpc]; rfl) (fun _ => by rw [hpc]; rfl)
      (by rw [hpc]; decide) nofun
  | closeIdleFd hpc =>
    exact hs.closesIdle .acceptIdleFd (by rw [hpc]; rfl) rfl
      (by rw [hpc]; exact fun _ => ⟨rfl, rfl⟩) (by rw [hpc]; decide) nofun
  | acceptedIdle hpc hb ho =>
    refine hs.accepted ho (.closeAccepted (some _)) (some _) _ rfl (fun _ => by rw [hpc]; rfl)
      ?_ ?_ ?_
    · rw [hpc]
      exact fun _ => ⟨nofun, nofun⟩
    · rw [hpc]
      exact ⟨nofun, nofun⟩
    · intro k' h
      cases h
      rfl
  | acceptIdleFails hpc =>
    refine hs.loses (.closeAccepted none) _ (by rw [hpc]; rfl) rfl (by rw [hpc]; exact fun _ => rfl)
      (by rw [hpc]; decide) ?_
    intro k h
    cases h
    rfl
  | @closeAccepted k _ _ hpc =>
    have hsecond := hs.second k hpc
    cases hidle : s.idleFd_ with
    | none =>
      rw [hidle] at hsecond
      cases k with
      | none =>
        have hgoto := hs.goto .openIdleFd s.errno (by rw [hpc]; rfl) (fun _ => by rw [hpc]; rfl)
          (by rw [hpc]; decide) nofun
        simpa only [closeFd, Option.map_none, Option.toList_none, List.append_nil, hidle]
          using hgoto
      | some => cases hsecond
    | some fd =>
      rw [hidle] at hsecond
      cases k with
      | none => cases hsecond
      | some k =>
        have hflight : s.pc.inFlight s.idleFd_ = some (fd, k) := by
          rw [hpc, hidle]
          rfl
        have hcloses := hs.closes hn .openIdleFd hflight (by rw [hpc]; rfl) (fun _ => rfl) nofun
          (by rw [hpc]; exact fun _ => Iff.rfl) (by rw [hpc]; exact ⟨nofun, nofun⟩)
        simpa only [closeFd, Option.map_some, Option.toList_some, hidle] using hcloses
  | openIdleFd hpc ho => exact hs.reopens hpc ho
  | openFails hpc ho =>
    exact hs.loses .ready _ (by rw [hpc]; rfl) rfl (by rw [hpc]; exact fun _ => rfl)
      (by rw [hpc]; decide) nofun
  | destroy hpc =>
    exact hs.goto .destroyIdleFd s.errno (by rw [hpc]; rfl) (fun _ => by rw [hpc]; rfl)
      (by rw [hpc]; decide) nofun
  | destroyIdleFd hpc =>
    exact hs.closesIdle .destroySocket (by rw [hpc]; rfl) rfl
      (by rw [hpc]; exact fun _ => ⟨rfl, rfl⟩) (by rw [hpc]; decide) nofun
  | destroySocket hpc => exact hs.destroySocket hpc
  | arrive => exact { hs with }
  | openOther ho => exact hs.openOther ho
  | closeForeign hf => exact hs.closeForeign hf
  | closeConn hf hk => exact hs.closeConn hn hf hk

theorem file_others (others : List Bool) (fd : Nat) (f : File)
    (h : file (others.map fun o => if o then some File.foreign else none) fd = some f) :
    f = .foreign := by
  simp only [file, List.getD_eq_getElem?_getD, List.getElem?_map] at h
  cases hx : others[fd]? with
  | none =>
    rw [hx] at h
    cases h
  | some o =>
    rw [hx] at h
    cases o <;> cases h
    rfl

theorem construct_sound {s : Acceptor} (h : construct others callback = some s) :
    Numbered s ∧ Owned s := by
  obtain ⟨⟨acceptFd, slots⟩, ho, rfl⟩ := Option.map_eq_some_iff.1 h
  have hforeign := file_others others
  have hlisten (fd : Nat) (f : File) : file slots fd = some f →
      fd = acceptFd ∧ f = .listenSocket ∨ f = .foreign :=
    fun hf => ((file_openFile_iff ho).1 hf).imp_right (hforeign fd f)
  have hself : file slots acceptFd = some .listenSocket :=
    (file_openFile_iff ho).2 (.inl ⟨rfl, rfl⟩)
  -- the constructor opens `idleFd_` as `handleRead` does
  have hs : Owned ⟨slots, acceptFd, none, callback, .EAGAIN, .openIdleFd, [], 0, [], []⟩ := by
    refine ⟨fun fd => ⟨fun hf => ⟨?_, nofun⟩, fun hf => ?_⟩, fun fd => ⟨fun hf => ?_, nofun⟩, ?_,
      fun _ _ => nofun, fun _ _ => nofun, fun _ => nofun⟩
    · exact ((hlisten fd _ hf).resolve_right nofun).1
    · rw [hf.1]
      exact hself
    · rcases hlisten fd _ hf with ⟨-, hn⟩ | hn <;> cases hn
    · intro fd k hf
      rcases hlisten fd _ hf with ⟨-, hn⟩ | hn <;> cases hn
  cases hidle : openFile slots .devNull with
  | none =>
    simp only [hidle]
    exact ⟨rfl, hs.loses .ready .EAGAIN rfl rfl (fun _ => rfl) ⟨nofun, nofun⟩ nofun⟩
  | some p =>
    simp only [hidle]
    exact ⟨rfl, hs.reopens rfl hidle⟩

/-- The descriptor belongs to other code, or to the owner of a connection who has not closed it. -/
def Theirs (s : Acceptor) (fd : Nat) : Prop :=
  file s.table fd = some .foreign ∨ ∃ k, .handed k fd ∈ s.fates ∧ k ∉ s.ended

/-- A statement of the acceptor leaves the descriptors of others alone. -/
def Spares (s : Acceptor) : Action → Prop
  | .next fails clobbers => ∀ t, s.next fails clobbers = some t → ∀ fd, s.Theirs fd →
    file t.table fd = file s.table fd
  | _ => True

theorem Owned.spares {s : Acceptor} (hs : Owned s) (hn : Numbered s) (a : Action) :
    Spares s a := by
  cases a with
  | next fails clobbers =>
    intro t h fd hfd
    obtain ⟨f, hf, hkind⟩ : ∃ f, file s.table fd = some f ∧
        (f = .foreign ∨ ∃ k, f = .conn k ∧ k ∈ s.fates.map Fate.conn) := by
      rcases hfd with hf | ⟨k, hk, hended⟩
      · exact ⟨_, hf, .inl rfl⟩
      · exact ⟨_, (hs.handed fd k hk).resolve_left hended, .inr ⟨k, rfl, List.mem_map_of_mem hk⟩⟩
    have closed {g : File} {fd' : Nat} (hg : file s.table fd' = some g) (hne : f ≠ g) :
        file (closeFile s.table fd') fd = some f :=
      (file_closeFile_other hg hne).2 hf
    have closedIdle (hholds : s.pc.holdsIdle = true) :
        file (s.closeFd s.idleFd_).table fd = some f := by
      cases hidle : s.idleFd_ with
      | none => exact hf
      | some i =>
        refine closed ((hs.idles i).2 ⟨hidle, hholds⟩) ?_
        rcases hkind with rfl | ⟨k, rfl, -⟩ <;> nofun
    have flying {k : Nat} (htaken : s.pc.taken = some k) : f ≠ .conn k := by
      rintro rfl
      rcases hkind with hn' | ⟨k', hk, hmem⟩
      · cases hn'
      · cases hk
        exact hn.fresh htaken hmem
    rw [hf]
    cases Step.of_next h with
    | acceptFails | hands | logError | emfile | notEmfile | acceptIdleFails | openFails => exact hf
    | accepted _ _ ho | acceptedIdle _ _ ho | openIdleFd _ ho =>
      exact (file_openFile_iff ho).2 (.inr hf)
    | closes hpc =>
      exact closed (hs.inFlight _ _ (by rw [hpc]; rfl)) (flying (by rw [hpc]; rfl))
    | closeIdleFd hpc | destroyIdleFd hpc => exact closedIdle (by rw [hpc]; rfl)
    | @closeAccepted k _ _ hpc =>
      have hsecond := hs.second k hpc
      cases hidle : s.idleFd_ with
      | none => exact hf
      | some i =>
        rw [hidle] at hsecond
        cases k with
        | none => cases hsecond
        | some k =>
          refine closed (hs.inFlight i k ?_) (flying (by rw [hpc]; rfl))
          rw [hpc, hidle]
          rfl
    | destroySocket hpc =>
      refine closed ((hs.listens _).2 ⟨rfl, by rw [hpc]; nofun⟩) ?_
      rcases hkind with rfl | ⟨k, rfl, -⟩ <;> nofun
  | _ => trivial

theorem sound_run {s t : Acceptor} (hs : Numbered s ∧ Owned s) (h : Run step s as t) :
    Numbered t ∧ Owned t :=
  h.invariant (P := fun s => Numbered s ∧ Owned s) hs fun _ _ _ hu hstep =>
    ⟨hu.1.step (Step.of_step hstep), hu.2.step hu.1 (Step.of_step hstep)⟩

/-- Whatever the rest of the process does with its descriptors meanwhile, the acceptor closes none
that is not its own, keeps none that it has no use for, loses no connection, and takes none twice
or out of order. -/
theorem acceptor_descriptors {s₀ s : Acceptor} (hinit : construct others callback = some s₀)
    (h : Run step s₀ as s) :
    AllSteps step Spares s₀ as ∧
      s.fates.map Fate.conn ++ s.pc.taken.toList ++ s.backlog = List.range s.arrivals ∧
      (∀ fd k, .handed k fd ∈ s.fates → k ∈ s.ended ∨ file s.table fd = some (.conn k)) ∧
      ∀ fd f, file s.table fd = some f → match f with
        | .listenSocket => fd = s.acceptFd ∧ s.pc ≠ .destroyed
        | .devNull => s.idleFd_ = some fd ∧ s.pc.holdsIdle = true
        | .conn k => s.pc.inFlight s.idleFd_ = some (fd, k) ∨ .handed k fd ∈ s.fates
        | .foreign => True := by
  have hspares := h.allSteps_when (I := fun s => Numbered s ∧ Owned s) (C := fun _ _ => True)
    (E := Spares) (.of_mem fun _ _ _ => trivial) (construct_sound hinit)
    (fun _ _ _ hu _ hstep => ⟨hu.1.step (Step.of_step hstep), hu.2.step hu.1 (Step.of_step hstep)⟩)
    fun _ a hu _ => hu.2.spares hu.1 a
  obtain ⟨hn, hs⟩ := sound_run (construct_sound hinit) h
  refine ⟨hspares, hn, hs.handed, ?_⟩
  intro fd f hf
  cases f with
  | listenSocket => exact (hs.listens fd).1 hf
  | devNull => exact (hs.idles fd).1 hf
  | conn k => exact hs.conns fd k hf
  | foreign => trivial

/-- A connection is accepted and handed over while other code opens a file, which leaves no
descriptor for the next connection. -/
def acceptAndShed : List Action :=
  [.arrive, .handleRead, .next false none, .openOther, .next false none, .arrive, .handleRead] ++
    List.replicate 7 (.next false none)

theorem acceptor_descriptors_example : ∃ s₀ s, construct [true, false, false, false, false] true =
    some s₀ ∧ Run step s₀ acceptAndShed s ∧ s.fates = [.handed 0 3, .closed 1] ∧
      file s.table 3 = some (.conn 0) := by
  have hrun : ((construct [true, false, false, false, false] true).bind fun s₀ =>
      exec step s₀ acceptAndShed).any (fun s =>
        s.fates = [.handed 0 3, .closed 1] ∧ s.ended = []) = true := by
    decide +kernel
  obtain ⟨s, hs, hp⟩ := (Option.any_eq_true _ _).1 hrun
  obtain ⟨s₀, hinit, hs⟩ := Option.bind_eq_some_iff.1 hs
  obtain ⟨hfates, hended⟩ := of_decide_eq_true hp
  have hrun := Run.of_exec hs
  refine ⟨s₀, s, hinit, hrun, hfates, ?_⟩
  refine ((acceptor_descriptors hinit hrun).2.2.1 3 0 ?_).resolve_left ?_
  · rw [hfates]
    exact List.mem_cons_self
  · rw [hended]
    exact List.not_mem_nil

end MuduoStudy.Acceptor
