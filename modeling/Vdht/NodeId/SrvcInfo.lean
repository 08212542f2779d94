import Vdht.NodeId.AddrBlock
import Vdht.NodeId.Token

/-!
# Service infos

`vsrvcInfo`: a service hash, the id of the host and the addresses under which the service is
reached. Its types are compared as a whole and asserted to be below `VSOCKADDR_BUTT`.
-/

namespace Vdht.NodeId

open Lib

/-- `vsrvcInfo`: the hash of the service, the host that has it, the load of that host and the
protocol, and its addresses. -/
structure VsrvcInfo extends AddrBlock where
  hash : Token
  hostid : Token
  nice : Int16
  proto : Int16

/-- The addresses that a new record has room for, and by which a full one grows. -/
def VSRVCINFO_MIN_ADDRS : Nat := 2

/-- How service infos keep their addresses: by their whole type, which has to be a base type, and
with another type taken over. -/
def srvcRule : AddrRule where
  min := VSRVCINFO_MIN_ADDRS
  min_pos := by decide
  min_dvd := by decide
  allowed := fun type => type < VSOCKADDR_BUTT
  key := id
  retype := fun old type => if old ≠ type then type else old

/-- The capacity is that of the array, as service infos grow. -/
abbrev VsrvcInfo.Fitting (s : VsrvcInfo) : Prop := s.toAddrBlock.Fitting srvcRule

/-- The capacity is that of the array, as service infos grow, and there are no more addresses than
it. -/
abbrev VsrvcInfo.Sound (s : VsrvcInfo) : Prop := s.toAddrBlock.Sound srvcRule

/-- The record of `DECL_VSRVC_RELAX`, with room for all addresses. -/
def vsrvcInfoRelax : VsrvcInfo where
  naddrs := 0
  capc := MAX_ADDRS
  addrs := List.replicate MAX_ADDRS.toNat zeroAddr
  hash := Block.zero VTOKEN_LEN
  hostid := Block.zero VTOKEN_LEN
  nice := 0
  proto := 0

/-- `vsrvcInfo_alloc`: a cleared record with room for two addresses. -/
def vsrvcInfoAlloc : VsrvcInfo where
  naddrs := 0
  capc := VSRVCINFO_MIN_ADDRS
  addrs := List.replicate VSRVCINFO_MIN_ADDRS zeroAddr
  hash := Block.zero VTOKEN_LEN
  hostid := Block.zero VTOKEN_LEN
  nice := 0
  proto := 0

/-- `vsrvcInfo_add_addr`: a known address gets the new type in its place, a new one is inserted by
its type; -1 when there are twelve. -/
def vsrvcInfoAddAddr (s : VsrvcInfo) (addr : SockaddrIn) (type : UInt32) :
    Res (VsrvcInfo × Int) :=
  match addAddr srvcRule s.toAddrBlock addr type with
  | .error e => .error e
  | .ok (b, r) => .ok ({ s with toAddrBlock := b }, if r < 0 then -1 else 0)

/-- `vsrvcInfo_copy`: the header is taken over, and the addresses are added one by one; the slots
are not cleared before. -/
def vsrvcInfoCopy (dest src : VsrvcInfo) : Res (VsrvcInfo × Int) :=
  match copyAddrs srvcRule src.addrs src.naddrs.toNat { dest.toAddrBlock with naddrs := 0 } with
  | .error e => .error e
  | .ok (b, fit) =>
    .ok (⟨b, src.hash, src.hostid, src.nice, src.proto⟩, if fit then 0 else -1)

/-- The bytes in front of the addresses. -/
def VSRVCINFO_HEADER : Int := 48

/-- `vsrvcInfo_size`: the bytes of the record up to its last address. -/
def vsrvcInfoSize (s : VsrvcInfo) : Int := VSRVCINFO_HEADER + s.naddrs * 20

/-- A record that may be announced. -/
structure VsrvcInfo.WellFormed (s : VsrvcInfo) : Prop where
  pos : 1 ≤ s.naddrs
  le_max : s.naddrs ≤ MAX_ADDRS
  stored : s.naddrs ≤ s.addrs.length
  types : ∀ a ∈ s.used, a.type < VSOCKADDR_BUTT

/-- A record whose addresses can be copied. -/
structure VsrvcInfo.Copyable (s : VsrvcInfo) : Prop where
  le_max : s.naddrs ≤ MAX_ADDRS
  stored : s.naddrs ≤ s.addrs.length
  types : ∀ a ∈ s.used, a.type < VSOCKADDR_BUTT

theorem VsrvcInfo.WellFormed.copyable {s : VsrvcInfo} (h : s.WellFormed) : s.Copyable :=
  ⟨h.le_max, h.stored, h.types⟩

theorem vsrvcInfoCopy_ok {dest src : VsrvcInfo} (hd : dest.Fitting) (hs : src.Copyable) :
    ∃ d, vsrvcInfoCopy dest src = .ok (d, 0) ∧ d.Sound ∧ d.hash = src.hash ∧
      d.hostid = src.hostid ∧ d.nice = src.nice ∧ d.proto = src.proto ∧
      d.used = putAddrs srvcRule [] src.used := by
  have hmax := hs.le_max
  have hst := hs.stored
  have hzero : (0 : Int) ≤ MAX_ADDRS := by decide
  have hsound : AddrBlock.Sound srvcRule { dest.toAddrBlock with naddrs := 0 } :=
    ⟨⟨hd.capc_nonneg, hd.capc_le, hd.capc_dvd, hd.slots⟩, Int.le_refl _, hd.capc_nonneg⟩
  obtain ⟨b, hb, hbs, -, hused⟩ := @copyAddrs_ok srvcRule src.addrs src.naddrs.toNat _ hsound
    (by omega) (by dsimp only; omega) (fun a ha => by simpa [srvcRule] using hs.types a ha)
  refine ⟨⟨b, src.hash, src.hostid, src.nice, src.proto⟩, ?_, hbs, rfl, rfl, rfl, rfl, ?_⟩
  · unfold vsrvcInfoCopy
    rw [hb]
    rfl
  · show b.used = _
    rw [hused]
    rfl

/-! ## Own services -/

/-- `vsrvcInfo_init`, for a new record; a negative load fails an assertion. -/
def vsrvcInfoInit (s : VsrvcInfo) (hash hostid : Token) (nice proto : Int16) : Res VsrvcInfo :=
  if nice < 0 then .error .assertion
  else .ok { s with hash, hostid, nice, proto, naddrs := 0, capc := VSRVCINFO_MIN_ADDRS }

/-- The search of `vsrvcInfo_del_addr` among the first `n` slots. -/
def findSlot (addr : SockaddrIn) : List VsockaddrIn → Nat → Res (Option Nat)
  | _, 0 => .ok none
  | [], _ + 1 => .error .bounds
  | a :: slots, n + 1 =>
    if vsockaddrEqual a.addr addr then .ok (some 0)
    else
      match findSlot addr slots n with
      | .error e => .error e
      | .ok none => .ok none
      | .ok (some i) => .ok (some (i + 1))

/-- The loop over `memcpy`, `n` turns from the index `i` on. -/
def shiftDown (slots : List VsockaddrIn) (i : Nat) : Nat → Res (List VsockaddrIn)
  | 0 => .ok slots
  | n + 1 =>
    match getSlot slots (i + 1) with
    | .error e => .error e
    | .ok next =>
      match setSlot slots i next with
      | .error e => .error e
      | .ok slots => shiftDown slots (i + 1) n

/-- `vsrvcInfo_del_addr`: the addresses behind the one that is deleted move up; nothing happens when
it is not there. -/
def vsrvcInfoDelAddr (s : VsrvcInfo) (addr : SockaddrIn) : Res VsrvcInfo :=
  match findSlot addr s.addrs s.naddrs.toNat with
  | .error e => .error e
  | .ok none => .ok s
  | .ok (some i) =>
    match shiftDown s.addrs i (s.naddrs.toNat - 1 - i) with
    | .error e => .error e
    | .ok addrs => .ok { s with addrs := addrs, naddrs := s.naddrs - 1 }

/-- `vsrvcInfo_is_empty`: the record has no address. -/
def vsrvcInfoIsEmpty (s : VsrvcInfo) : Bool := s.naddrs = 0

/-- The list without the address. -/
def delAddr (l : List VsockaddrIn) (addr : SockaddrIn) : List VsockaddrIn :=
  l.eraseP fun a => vsockaddrEqual a.addr addr

theorem findSlot_append (addr : SockaddrIn) (l free : List VsockaddrIn) :
    findSlot addr (l ++ free) l.length =
      .ok (l.findIdx? fun a => vsockaddrEqual a.addr addr) := by
  induction l with
  | nil => cases free <;> rfl
  | cons a l ih =>
    rw [List.cons_append, List.length_cons, findSlot, List.findIdx?_cons]
    split
    · rfl
    · rw [ih]
      cases l.findIdx? fun a => vsockaddrEqual a.addr addr with
      | none => rfl
      | some i => rfl

/-- A known address is taken out at the index of the search. -/
theorem delAddr_split {l : List VsockaddrIn} {addr : SockaddrIn} (h : HasAddr l addr) :
    ∃ m a r, l = m ++ a :: r ∧ vsockaddrEqual a.addr addr = true ∧
      (l.findIdx? fun a => vsockaddrEqual a.addr addr) = some m.length ∧
      delAddr l addr = m ++ r := by
  obtain ⟨x, hx, heq⟩ := h
  obtain ⟨a, m, r, hm, ha, hl, hdel⟩ :=
    @List.exists_of_eraseP _ (fun a => vsockaddrEqual a.addr addr) _ _ hx heq
  refine ⟨m, a, r, hl, ha, ?_, hdel⟩
  rw [hl, List.findIdx?_append, List.findIdx?_eq_none_iff.mpr (by simpa using hm),
    List.findIdx?_cons, if_pos ha]
  simp

/-- The addresses behind the gap move forward; the last slot keeps what it held. -/
theorem shiftDown_append (m l free : List VsockaddrIn) (a : VsockaddrIn) :
    ∃ b, shiftDown (m ++ a :: (l ++ free)) m.length l.length = .ok (m ++ (l ++ b :: free)) := by
  induction l generalizing m a with
  | nil => exact ⟨a, rfl⟩
  | cons c l ih =>
    have hget : getSlot (m ++ a :: (c :: l ++ free)) (m.length + 1) = .ok c := by
      rw [getSlot_ok (by simp)]
      simp
    have hset : setSlot (m ++ a :: (c :: l ++ free)) m.length c =
        .ok (m ++ [c] ++ c :: (l ++ free)) := by
      rw [setSlot_behind]
      simp
    obtain ⟨b, hb⟩ := ih (m ++ [c]) c
    rw [List.length_append, List.length_singleton] at hb
    refine ⟨b, ?_⟩
    rw [List.length_cons, shiftDown, hget]
    dsimp only
    rw [hset]
    dsimp only
    rw [hb]
    simp

/-- Deleting an address from a sound record. -/
theorem vsrvcInfoDelAddr_ok {s : VsrvcInfo} (h : s.Sound) (addr : SockaddrIn) :
    ∃ b : AddrBlock, vsrvcInfoDelAddr s addr = .ok { s with toAddrBlock := b } ∧
      b.Sound srvcRule ∧ b.used = delAddr s.used addr := by
  have h0 := h.naddrs_nonneg
  have hlen : s.used.length = s.naddrs.toNat := by
    have := h.length_used
    omega
  have hsplit := s.toAddrBlock.used_append
  have hfind := findSlot_append addr s.used (s.addrs.drop s.naddrs.toNat)
  rw [hsplit, hlen] at hfind
  by_cases hknown : HasAddr s.used addr
  · obtain ⟨m, a, l, hused, -, hidx, hdel⟩ := delAddr_split hknown
    have hturns : s.naddrs.toNat - 1 - m.length = l.length := by
      rw [← hlen, hused, List.length_append, List.length_cons]
      omega
    obtain ⟨b, hb⟩ := shiftDown_append m l (s.addrs.drop s.naddrs.toNat) a
    have hslots : m ++ a :: (l ++ s.addrs.drop s.naddrs.toNat) = s.addrs := by
      rw [← List.cons_append, ← List.append_assoc, ← hused, hsplit]
    rw [hslots, ← hturns] at hb
    have hnew : (m ++ l).length = (s.naddrs - 1).toNat := by
      rw [hused, List.length_append, List.length_cons] at hlen
      rw [List.length_append]
      omega
    refine ⟨{ s.toAddrBlock with
      addrs := m ++ (l ++ b :: s.addrs.drop s.naddrs.toNat), naddrs := s.naddrs - 1 }, ?_,
      ⟨⟨h.capc_nonneg, h.capc_le, h.capc_dvd, ?_⟩, ?_, ?_⟩, ?_⟩
    · rw [vsrvcInfoDelAddr, hfind, hidx]
      dsimp only
      rw [hb]
    · have hcap := h.slots
      rw [← hslots] at hcap
      simp only [List.length_append, List.length_cons] at hcap ⊢
      omega
    · show 0 ≤ s.naddrs - 1
      rw [hused, List.length_append, List.length_cons] at hlen
      omega
    · show s.naddrs - 1 ≤ s.capc
      have := h.naddrs_le
      omega
    · show (m ++ (l ++ b :: _)).take (s.naddrs - 1).toNat = _
      rw [hdel, ← List.append_assoc]
      exact List.take_left' hnew
  · have hnone : ∀ a ∈ s.used, ¬ vsockaddrEqual a.addr addr = true :=
      fun a ha heq => hknown ⟨a, ha, heq⟩
    refine ⟨s.toAddrBlock, ?_, h, (List.eraseP_of_forall_not hnone).symm⟩
    rw [vsrvcInfoDelAddr, hfind, List.findIdx?_eq_none_iff.mpr (by simpa using hnone)]

theorem vsrvcInfoAlloc_sound : vsrvcInfoAlloc.Sound :=
  ⟨⟨by decide, by decide, by decide, by decide⟩, by decide, by decide⟩

theorem fitting_vsrvcInfoRelax : vsrvcInfoRelax.Fitting := by
  refine ⟨by decide, by decide, by decide, by decide⟩

theorem vsrvcInfoInit_ok (hash hostid : Token) {nice : Int16} (proto : Int16) (h : 0 ≤ nice) :
    ∃ s, vsrvcInfoInit vsrvcInfoAlloc hash hostid nice proto = .ok s ∧ s.Sound ∧
      s.used = [] ∧ s.hash = hash ∧ s.hostid = hostid ∧ s.proto = proto := by
  have hsound := vsrvcInfoAlloc_sound
  exact ⟨_, if_neg (Int16.not_lt.mpr h), ⟨⟨hsound.capc_nonneg, hsound.capc_le, hsound.capc_dvd,
    hsound.slots⟩, hsound.naddrs_nonneg, hsound.naddrs_le⟩, rfl, rfl, rfl, rfl⟩

end Vdht.NodeId
