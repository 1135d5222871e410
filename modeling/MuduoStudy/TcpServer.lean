import Mathlib.Algebra.Order.Ring.Nat
import Mathlib.Data.List.Nodup
import MuduoStudy.Transition

namespace MuduoStudy
set_option autoImplicit true

/-- A `TcpConnectionPtr` as the registry sees it: the object's allocation number, the value of
`nextConnId_` that named it, and its name. A `Char` of a name stands for one `char`, so a name's
length is its number of bytes. -/
structure ConnPtr where
  serial : Nat
  id : BitVec 32
  name : List Char
  deriving DecidableEq, Repr

structure TcpServer where
  name_ : List Char
  nextConnId_ : BitVec 32 := 1
  connections_ : List Char → Option ConnPtr := fun _ => none
  /-- every connection that `newConnection` has made -/
  created : List ConnPtr := []
  /-- the connections that were accepted and not yet removed -/
  live : List ConnPtr := []

namespace TcpServer
open Transition

/-- What a C string holds of a `std::string`: everything before the first null character. -/
def cStr (text : List Char) : List Char := text.takeWhile (· ≠ Char.ofNat 0)

/-- `snprintf` keeps one byte of the buffer for the terminating null character. -/
def snprintf (size : Nat) (text : List Char) : List Char := text.take (size - 1)

/-- `%d` -/
def decimal (n : BitVec 32) : List Char := (toString n.toInt).toList

def connName (name : List Char) (id : BitVec 32) : List Char :=
  name ++ snprintf 64 ('-' :: (cStr name ++ '#' :: decimal id))

def newConnection (s : TcpServer) : TcpServer :=
  let conn : ConnPtr := ⟨s.created.length, s.nextConnId_, connName s.name_ s.nextConnId_⟩
  { s with
    nextConnId_ := s.nextConnId_ + 1
    connections_ := Function.update s.connections_ conn.name (some conn)
    created := s.created ++ [conn]
    live := s.live ++ [conn] }

def removeConnectionInLoop (s : TcpServer) (conn : ConnPtr) : TcpServer :=
  { s with
    connections_ := Function.update s.connections_ conn.name none
    live := s.live.filter (· ≠ conn) }

inductive Call where
  | newConnection
  | removeConnectionInLoop (conn : ConnPtr)
  deriving DecidableEq, Repr

/-- Only a connection that `newConnection` has made can be removed, but it can be removed again. -/
def step (s : TcpServer) : Call → Option TcpServer
  | .newConnection => some s.newConnection
  | .removeConnectionInLoop conn =>
    if conn ∈ s.created then some (s.removeConnectionInLoop conn) else none

/-- `connections_` holds exactly one entry for each live connection, under its own name. -/
structure Exact (s : TcpServer) : Prop where
  entry : ∀ c ∈ s.live, s.connections_ c.name = some c
  only : ∀ n c, s.connections_ n = some c → c ∈ s.live ∧ c.name = n

theorem Exact.name_inj {s : TcpServer} (h : Exact s) (hc : c ∈ s.live) (hd : d ∈ s.live)
    (hn : c.name = d.name) : c = d := by
  have hcd := h.entry c hc
  rw [hn, h.entry d hd] at hcd
  exact (Option.some.inj hcd).symm

/-- The bytes of an id's decimal text that the 64-byte buffer has room for. -/
def cutId (name : List Char) (id : BitVec 32) : List Char :=
  (decimal id).take (61 - (cStr name).length)

theorem connName_eq_iff (name : List Char) (i j : BitVec 32) :
    connName name i = connName name j ↔ cutId name i = cutId name j := by
  have hname (k : BitVec 32) : connName name k =
      (name ++ ('-' :: (cStr name ++ ['#'])).take 63) ++ cutId name k := by
    have htext : '-' :: (cStr name ++ '#' :: decimal k) =
        ('-' :: (cStr name ++ ['#'])) ++ decimal k := by
      simp only [List.cons_append, List.append_assoc, List.nil_append]
    have hlen : 63 - ('-' :: (cStr name ++ ['#'])).length = 61 - (cStr name).length := by
      simp only [List.length_cons, List.length_append, List.length_nil]
      omega
    rw [connName, snprintf, htext, List.take_append, hlen, cutId, List.append_assoc]
  rw [hname, hname]
  exact List.append_right_inj _

/-- The buffer keeps the id of the call's connection apart from the other live connections' ids. -/
def IdsApart (s : TcpServer) : Call → Prop
  | .newConnection => ∀ d ∈ s.live, cutId s.name_ d.id ≠ cutId s.name_ s.nextConnId_
  | .removeConnectionInLoop c =>
    ∀ d ∈ s.live, d ≠ c → cutId s.name_ d.id ≠ cutId s.name_ c.id

instance (s : TcpServer) (a : Call) : Decidable (IdsApart s a) :=
  match a with
  | .newConnection => inferInstanceAs (Decidable (∀ d ∈ _, _ ≠ _))
  | .removeConnectionInLoop _ => inferInstanceAs (Decidable (∀ d ∈ _, _ ≠ _ → _ ≠ _))

structure Numbered (s : TcpServer) : Prop where
  serial : ∀ c ∈ s.created, c.serial < s.created.length
  name : ∀ c ∈ s.created, c.name = connName s.name_ c.id
  live : ∀ c ∈ s.live, c ∈ s.created

theorem Numbered.init (name : List Char) : Numbered { name_ := name } :=
  ⟨fun _ => nofun, fun _ => nofun, fun _ => nofun⟩

theorem Numbered.step {s t : TcpServer} (hn : Numbered s) (h : s.step a = some t) :
    Numbered t := by
  cases a with
  | newConnection =>
    cases h
    have hmem (c : ConnPtr) (hc : c ∈ s.newConnection.created) : c ∈ s.created ∨
        c = ⟨s.created.length, s.nextConnId_, connName s.name_ s.nextConnId_⟩ := by
      simpa only [newConnection, List.mem_append, List.mem_singleton] using hc
    have hlen : s.newConnection.created.length = s.created.length + 1 := by
      simp only [newConnection, List.length_append, List.length_singleton]
    have hserial (c : ConnPtr) (hc : c ∈ s.newConnection.created) :
        c.serial < s.newConnection.created.length := by
      rw [hlen]
      rcases hmem c hc with hc | rfl
      · exact Nat.lt_succ_of_lt (hn.serial c hc)
      · exact Nat.lt_succ_self _
    have hname (c : ConnPtr) (hc : c ∈ s.newConnection.created) :
        c.name = connName s.name_ c.id := by
      rcases hmem c hc with hc | rfl
      · exact hn.name c hc
      · rfl
    have hlive (c : ConnPtr) (hc : c ∈ s.newConnection.live) : c ∈ s.newConnection.created := by
      simp only [newConnection, List.mem_append] at hc ⊢
      rcases hc with hc | hc
      · exact .inl (hn.live c hc)
      · exact .inr hc
    exact ⟨hserial, hname, hlive⟩
  | removeConnectionInLoop conn =>
    simp only [TcpServer.step, Option.ite_none_right_eq_some, Option.some.injEq] at h
    obtain ⟨_, rfl⟩ := h
    exact ⟨hn.serial, hn.name, fun c hc => hn.live c (List.mem_filter.1 hc).1⟩

theorem Exact.newConnection_iff {s : TcpServer} (hn : Numbered s) (he : Exact s) :
    Exact s.newConnection ↔ IdsApart s .newConnection := by
  have hnew : ⟨s.created.length, s.nextConnId_, connName s.name_ s.nextConnId_⟩ ∉ s.live := by
    intro hm
    exact Nat.lt_irrefl _ (hn.serial _ (hn.live _ hm))
  have hiff (d : ConnPtr) (hd : d ∈ s.live) : d.name = connName s.name_ s.nextConnId_ ↔
      cutId s.name_ d.id = cutId s.name_ s.nextConnId_ := by
    rw [hn.name d (hn.live d hd)]
    exact connName_eq_iff _ _ _
  constructor
  · intro h d hd hcut
    have hentry := h.entry d (List.mem_append_left _ hd)
    simp only [newConnection, (hiff d hd).2 hcut, Function.update_self, Option.some.injEq] at hentry
    exact hnew (hentry ▸ hd)
  · intro h
    have hne (d : ConnPtr) (hd : d ∈ s.live) : d.name ≠ connName s.name_ s.nextConnId_ :=
      fun hname => h d hd ((hiff d hd).1 hname)
    have hentry (c : ConnPtr) (hc : c ∈ s.newConnection.live) :
        s.newConnection.connections_ c.name = some c := by
      simp only [newConnection, List.mem_append, List.mem_singleton] at hc ⊢
      rcases hc with hc | rfl
      · rw [Function.update_of_ne (hne c hc)]
        exact he.entry c hc
      · exact Function.update_self _ _ _
    have honly (n : List Char) (c : ConnPtr) (hc : s.newConnection.connections_ n = some c) :
        c ∈ s.newConnection.live ∧ c.name = n := by
      simp only [newConnection, List.mem_append, List.mem_singleton] at hc ⊢
      by_cases hname : n = connName s.name_ s.nextConnId_
      · subst n
        rw [Function.update_self] at hc
        cases hc
        exact ⟨.inr rfl, rfl⟩
      · rw [Function.update_of_ne hname] at hc
        obtain ⟨hl, hcn⟩ := he.only n c hc
        exact ⟨.inl hl, hcn⟩
    exact ⟨hentry, honly⟩

theorem Exact.removeConnectionInLoop_iff {s : TcpServer} (hn : Numbered s) (he : Exact s)
    (hc : conn ∈ s.created) :
    Exact (s.removeConnectionInLoop conn) ↔ IdsApart s (.removeConnectionInLoop conn) := by
  have hiff (d : ConnPtr) (hd : d ∈ s.live) : d.name = conn.name ↔
      cutId s.name_ d.id = cutId s.name_ conn.id := by
    rw [hn.name d (hn.live d hd), hn.name conn hc]
    exact connName_eq_iff _ _ _
  have hlive (d : ConnPtr) :
      d ∈ (s.removeConnectionInLoop conn).live ↔ d ∈ s.live ∧ d ≠ conn := by
    simp only [removeConnectionInLoop, List.mem_filter, decide_eq_true_eq]
  constructor
  · intro h d hd hne hcut
    have hentry := h.entry d ((hlive d).2 ⟨hd, hne⟩)
    simp only [removeConnectionInLoop, (hiff d hd).2 hcut, Function.update_self] at hentry
    cases hentry
  · intro h
    have hentry (d : ConnPtr) (hd : d ∈ (s.removeConnectionInLoop conn).live) :
        (s.removeConnectionInLoop conn).connections_ d.name = some d := by
      obtain ⟨hl, hne⟩ := (hlive d).1 hd
      have hname : d.name ≠ conn.name := fun hname => h d hl hne ((hiff d hl).1 hname)
      simp only [removeConnectionInLoop, Function.update_of_ne hname]
      exact he.entry d hl
    have honly (n : List Char) (d : ConnPtr)
        (hd : (s.removeConnectionInLoop conn).connections_ n = some d) :
        d ∈ (s.removeConnectionInLoop conn).live ∧ d.name = n := by
      simp only [removeConnectionInLoop] at hd
      by_cases hname : n = conn.name
      · rw [hname, Function.update_self] at hd
        cases hd
      · rw [Function.update_of_ne hname] at hd
        obtain ⟨hl, hdn⟩ := he.only n d hd
        have hne : d ≠ conn := fun hdc => hname (hdn.symm.trans (congrArg _ hdc))
        exact ⟨(hlive d).2 ⟨hl, hne⟩, hdn⟩
    exact ⟨hentry, honly⟩

theorem Exact.step_iff {s t : TcpServer} (hn : Numbered s) (he : Exact s)
    (h : s.step a = some t) : Exact t ↔ IdsApart s a := by
  cases a with
  | newConnection =>
    cases h
    exact he.newConnection_iff hn
  | removeConnectionInLoop conn =>
    simp only [TcpServer.step, Option.ite_none_right_eq_some, Option.some.injEq] at h
    obtain ⟨hc, rfl⟩ := h
    exact he.removeConnectionInLoop_iff hn hc

theorem Exact.allStates_iff {s t : TcpServer} (hn : Numbered s) (he : Exact s)
    (h : Run TcpServer.step s as t) :
    AllStates TcpServer.step Exact s as ↔ AllSteps TcpServer.step IdsApart s as :=
  h.allStates_iff hn he (fun _ _ _ => Numbered.step) (fun _ _ _ hn he => he.step_iff hn)

theorem Exact.init (name : List Char) : Exact { name_ := name } :=
  ⟨fun _ => nofun, fun _ _ => nofun⟩

/-- The registry of a server stays exact over a sequence of calls precisely when every call's id
is told apart from the other live ids by what the name buffer keeps of them. -/
theorem registry_exact_iff (name : List Char) {t : TcpServer}
    (h : Run TcpServer.step { name_ := name } as t) :
    AllStates TcpServer.step Exact { name_ := name } as ↔
      AllSteps TcpServer.step IdsApart { name_ := name } as :=
  (Exact.init name).allStates_iff (Numbered.init name) h

/-- Two clients of a server whose name leaves no room for the id. -/
def longName : List Char := List.replicate 61 'a'

/-- The second connection of a server with a long name takes the registry entry of the first. -/
theorem registry_loses_connection : ¬ ∀ (name : List Char) (as : List Call) (t : TcpServer),
    Run TcpServer.step { name_ := name } as t → Exact t := by
  intro hall
  have hr : Run TcpServer.step { name_ := longName } [.newConnection, .newConnection] _ :=
    .of_exec rfl
  have hexact := hall longName _ _ hr
  have hsame := hexact.name_inj (List.mem_cons_self) (List.mem_cons_of_mem _ List.mem_cons_self)
    (by decide)
  cases hsame

/-- Two clients of a server with a short name. -/
theorem registry_exact_example : ∃ t, Run TcpServer.step { name_ := ['e', 'c', 'h', 'o'] }
    [.newConnection, .newConnection] t ∧
    AllStates TcpServer.step Exact { name_ := ['e', 'c', 'h', 'o'] }
      [.newConnection, .newConnection] := by
  have hr : Run TcpServer.step { name_ := ['e', 'c', 'h', 'o'] }
      [.newConnection, .newConnection] _ := .of_exec rfl
  exact ⟨_, hr, (registry_exact_iff _ hr).2 (by decide)⟩

theorem decimal_eq {id : BitVec 32} (h : id.toNat < 2 ^ 31) :
    decimal id = Nat.toDigits 10 id.toNat := by
  have hint : id.toInt = id.toNat := BitVec.toInt_eq_toNat_of_lt (by omega)
  have hnat : toString (id.toNat : Int) = id.toNat.repr := rfl
  rw [decimal, hint, hnat, Nat.toList_repr]

/-- Ten digits fit behind a name of at most 51 characters, so nothing is cut off. -/
theorem cutId_inj {name : List Char} {i j : BitVec 32} (hname : name.length ≤ 51)
    (hi : i.toNat < 2 ^ 31) (hj : j.toNat < 2 ^ 31) (h : cutId name i = cutId name j) : i = j := by
  have hroom : 10 ≤ 61 - (cStr name).length := by
    have hlen : (cStr name).length ≤ name.length := (List.takeWhile_sublist _).length_le
    omega
  have hcut {k : BitVec 32} (hk : k.toNat < 2 ^ 31) : cutId name k = Nat.toDigits 10 k.toNat := by
    have hdigits : (Nat.toDigits 10 k.toNat).length ≤ 10 :=
      (Nat.length_toDigits_le_iff (by decide) (by decide)).2 (by omega)
    rw [cutId, decimal_eq hk, List.take_of_length_le (Nat.le_trans hdigits hroom)]
  rw [hcut hi, hcut hj] at h
  apply BitVec.eq_of_toNat_eq
  have hvalue := congrArg (fun ds => Nat.ofDigitChars 10 ds 0) h
  simpa only [Nat.ofDigitChars_ten_toDigits] using hvalue

/-- While the counter has not wrapped, a connection's number determines its id. -/
structure Counted (s : TcpServer) : Prop where
  next : s.nextConnId_ = BitVec.ofNat 32 (s.created.length + 1)
  id : ∀ c ∈ s.created, c.id = BitVec.ofNat 32 (c.serial + 1)

theorem Counted.step {s t : TcpServer} (hs : Counted s) (h : s.step a = some t) : Counted t := by
  cases a with
  | newConnection =>
    cases h
    have hnext : s.newConnection.nextConnId_ =
        BitVec.ofNat 32 (s.newConnection.created.length + 1) := by
      simp only [newConnection, hs.next, List.length_append, List.length_singleton]
      exact (BitVec.ofNat_add _ 1).symm
    have hid (c : ConnPtr) (hc : c ∈ s.newConnection.created) :
        c.id = BitVec.ofNat 32 (c.serial + 1) := by
      simp only [newConnection, List.mem_append, List.mem_singleton] at hc
      rcases hc with hc | rfl
      · exact hs.id c hc
      · exact hs.next
    exact ⟨hnext, hid⟩
  | removeConnectionInLoop conn =>
    simp only [TcpServer.step, Option.ite_none_right_eq_some, Option.some.injEq] at h
    obtain ⟨_, rfl⟩ := h
    exact ⟨hs.next, hs.id⟩

theorem Counted.id_toNat {s : TcpServer} (hn : Numbered s) (hs : Counted s)
    (hlen : s.created.length < 2 ^ 31) (hc : c ∈ s.created) : c.id.toNat = c.serial + 1 := by
  have hserial := hn.serial c hc
  rw [hs.id c hc, BitVec.toNat_ofNat]
  exact Nat.mod_eq_of_lt (by omega)

theorem Counted.apart {s : TcpServer} (hn : Numbered s) (hs : Counted s)
    (hlen : s.created.length < 2 ^ 31) (hname : s.name_.length ≤ 51) (hc : c ∈ s.created)
    (hd : d ∈ s.created) (hcut : cutId s.name_ c.id = cutId s.name_ d.id) : c = d := by
  have hcid := hs.id_toNat hn hlen hc
  have hdid := hs.id_toNat hn hlen hd
  have hcs := hn.serial c hc
  have hds := hn.serial d hd
  have hid : c.id = d.id := cutId_inj hname (by omega) (by omega) hcut
  have hserial : c.serial = d.serial := by
    rw [hid] at hcid
    omega
  have hnames : c.name = d.name := by rw [hn.name c hc, hn.name d hd, hid]
  cases c
  cases d
  simp_all

theorem created_mono {s t : TcpServer} (h : s.step a = some t) :
    t.name_ = s.name_ ∧ s.created.length ≤ t.created.length := by
  cases a with
  | newConnection =>
    cases h
    exact ⟨rfl, by simp [newConnection]⟩
  | removeConnectionInLoop conn =>
    simp only [TcpServer.step, Option.ite_none_right_eq_some, Option.some.injEq] at h
    obtain ⟨_, rfl⟩ := h
    exact ⟨rfl, Nat.le_refl _⟩

theorem IdsApart.of_short_name {s t : TcpServer} (hn : Numbered s) (hs : Counted s)
    (hname : s.name_.length ≤ 51) (hlen : t.created.length < 2 ^ 31) (h : s.step a = some t) :
    IdsApart s a := by
  have hmono := (created_mono h).2
  have hn' := hn.step h
  have hs' := hs.step h
  cases a with
  | newConnection =>
    intro d hd hcut
    cases h
    have hnew : ⟨s.created.length, s.nextConnId_, connName s.name_ s.nextConnId_⟩ ∈
        s.newConnection.created := List.mem_append_right _ List.mem_cons_self
    have hold : d ∈ s.newConnection.created := List.mem_append_left _ (hn.live d hd)
    have heq := hs'.apart hn' hlen hname hold hnew hcut
    have hserial := hn.serial d (hn.live d hd)
    rw [heq] at hserial
    exact Nat.lt_irrefl _ hserial
  | removeConnectionInLoop conn =>
    intro d hd hne hcut
    simp only [TcpServer.step, Option.ite_none_right_eq_some, Option.some.injEq] at h
    exact hne (hs.apart hn (Nat.lt_of_le_of_lt hmono hlen) hname (hn.live d hd) h.1 hcut)

/-- A server with a short name keeps its registry exact until its 32-bit counter overflows. -/
theorem registry_exact_of_short_name {name : List Char} (hname : name.length ≤ 51)
    {t : TcpServer} (h : Run TcpServer.step { name_ := name } as t)
    (hlen : t.created.length < 2 ^ 31) : AllStates TcpServer.step Exact { name_ := name } as := by
  have hapart {s t : TcpServer} {as : List Call} (h : Run TcpServer.step s as t) (hn : Numbered s)
      (hs : Counted s) (hname : s.name_.length ≤ 51) (hlen : t.created.length < 2 ^ 31) :
      s.created.length ≤ t.created.length ∧ AllSteps TcpServer.step IdsApart s as := by
    induction h with
    | nil => exact ⟨Nat.le_refl _, trivial⟩
    | @cons s u t a as hstep hr ih =>
      obtain ⟨hu, hmono⟩ := created_mono hstep
      obtain ⟨hut, hall⟩ := ih (hn.step hstep) (hs.step hstep) (hu ▸ hname) hlen
      have hfirst := IdsApart.of_short_name hn hs hname (Nat.lt_of_le_of_lt hut hlen) hstep
      have hrest (v : TcpServer) (hv : s.step a = some v) :
          AllSteps TcpServer.step IdsApart v as := by
        cases hstep.symm.trans hv
        exact hall
      exact ⟨Nat.le_trans hmono hut, hfirst, hrest⟩
  have hall := (hapart h (Numbered.init name) ⟨rfl, fun _ => nofun⟩ hname hlen).2
  exact ((Exact.init name).allStates_iff (Numbered.init name) h).2 hall

end TcpServer
end MuduoStudy
