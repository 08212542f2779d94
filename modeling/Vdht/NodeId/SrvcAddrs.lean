import Vdht.NodeId.SrvcInfo
import Vdht.Lib.Keyed

/-!
# The addresses of a service as a map

Addresses are compared without `sin_zero`, so an address stands for the other three fields. A
service info without repeated addresses is a map from addresses to types. Adding an address sets
its type, deleting it takes it out, and neither touches another address.
-/

namespace Vdht.NodeId

open Lib

/-- What `vsockaddr_equal` compares. -/
structure AddrKey where
  family : UInt16
  port : UInt16
  addr : UInt32
deriving DecidableEq

/-- What `vsockaddr_equal` looks at. -/
def SockaddrIn.key (a : SockaddrIn) : AddrKey := ⟨a.sin_family, a.sin_port, a.sin_addr⟩

theorem vsockaddrEqual_iff_key {a b : SockaddrIn} :
    vsockaddrEqual a b = true ↔ a.key = b.key := by
  rw [vsockaddrEqual_iff, SockaddrIn.key, SockaddrIn.key, AddrKey.mk.injEq]
  exact and_congr_right fun _ => and_comm

/-- What `vsockaddr_equal` looks at, without the type. -/
def addrKey (a : VsockaddrIn) : AddrKey := a.addr.key

/-- The types of the addresses as a map; of an address that comes twice, that of its first place. -/
def addrTypes (l : List VsockaddrIn) : AddrKey → Option UInt32 :=
  table addrKey VsockaddrIn.type l

theorem distinctAddrs_iff {l : List VsockaddrIn} :
    DistinctAddrs l ↔ (l.map addrKey).Nodup := by
  rw [List.Nodup, List.pairwise_map, DistinctAddrs]
  apply List.Pairwise.iff
  intro a b
  rw [← Bool.not_eq_true, vsockaddrEqual_iff_key]
  rfl

theorem hasAddr_iff {l : List VsockaddrIn} {addr : SockaddrIn} :
    HasAddr l addr ↔ addr.key ∈ l.map addrKey := by
  simp only [HasAddr, vsockaddrEqual_iff_key, List.mem_map]
  rfl

/-! ## Adding and deleting -/

theorem distinctAddrs_putAddr {rule : AddrRule} {l : List VsockaddrIn} (h : DistinctAddrs l)
    (addr : SockaddrIn) (type : UInt32) : DistinctAddrs (putAddr rule l addr type) := by
  unfold putAddr
  cases hf : findAddr rule.retype addr type l with
  | none =>
    refine (distinctAddrs_perm (insertAddr_perm rule.key ⟨addr, type⟩ l)).mpr ?_
    refine List.pairwise_cons.mpr ⟨fun x hx => ?_, h⟩
    rw [← Bool.not_eq_true]
    exact fun heq => findAddr_eq_none.mp hf ⟨x, hx, vsockaddrEqual_symm heq⟩
  | some l' =>
    obtain ⟨m, a, s, rfl, -, rfl⟩ := findAddr_split hf
    rw [distinctAddrs_iff] at h ⊢
    rw [List.map_append, List.map_cons] at h ⊢
    exact h

theorem srvcRule_retype (old type : UInt32) : srvcRule.retype old type = type := by
  show (if old ≠ type then type else old) = type
  split
  · rfl
  · rename_i h
    exact not_not.mp h

/-- Adding an address sets its type and leaves the other addresses as they are. -/
theorem putAddr_types {l : List VsockaddrIn} (h : DistinctAddrs l) (addr : SockaddrIn)
    (type : UInt32) :
    DistinctAddrs (putAddr srvcRule l addr type) ∧
      addrTypes (putAddr srvcRule l addr type) =
        Function.update (addrTypes l) addr.key (some type) := by
  refine ⟨distinctAddrs_putAddr h addr type, ?_⟩
  rw [distinctAddrs_iff] at h
  rw [putAddr]
  cases hf : findAddr srvcRule.retype addr type l with
  | none =>
    have hperm := insertAddr_perm srvcRule.key ⟨addr, type⟩ l
    have hnew : addr.key ∉ l.map addrKey := mt hasAddr_iff.mpr (findAddr_eq_none.mp hf)
    have hnodup : ((⟨addr, type⟩ :: l).map addrKey).Nodup := List.nodup_cons.mpr ⟨hnew, h⟩
    exact (table_perm ((hperm.map addrKey).nodup_iff.mpr hnodup) hperm).trans (table_cons _ _)
  | some l' =>
    obtain ⟨m, a, r, rfl, ha, rfl⟩ := findAddr_split hf
    rw [srvcRule_retype, ← vsockaddrEqual_iff_key.mp ha]
    exact table_replace h rfl

theorem mem_putAddr {l : List VsockaddrIn} {addr : SockaddrIn} {type : UInt32} {a : VsockaddrIn}
    (h : a ∈ putAddr srvcRule l addr type) : a.type = type ∨ a ∈ l := by
  rw [putAddr] at h
  cases hf : findAddr srvcRule.retype addr type l with
  | none =>
    rw [hf] at h
    rcases List.mem_cons.mp ((insertAddr_perm _ _ _).mem_iff.mp h) with rfl | h
    · exact Or.inl rfl
    · exact Or.inr h
  | some l' =>
    rw [hf] at h
    obtain ⟨m, b, r, rfl, -, rfl⟩ := findAddr_split hf
    rcases List.mem_append.mp h with h | h
    · exact Or.inr (List.mem_append_left _ h)
    · rcases List.mem_cons.mp h with rfl | h
      · exact Or.inl (srvcRule_retype _ _)
      · exact Or.inr (List.mem_append_right _ (List.mem_cons_of_mem _ h))

/-- Deleting an address takes it out and leaves the other addresses as they are. -/
theorem delAddr_types {l : List VsockaddrIn} (h : DistinctAddrs l) (addr : SockaddrIn) :
    DistinctAddrs (delAddr l addr) ∧
      addrTypes (delAddr l addr) = Function.update (addrTypes l) addr.key none := by
  refine ⟨h.sublist List.eraseP_sublist, ?_⟩
  rw [distinctAddrs_iff] at h
  by_cases hknown : HasAddr l addr
  · obtain ⟨m, a, r, rfl, ha, -, hdel⟩ := delAddr_split hknown
    rw [hdel, ← vsockaddrEqual_iff_key.mp ha]
    exact table_remove h
  · have hnone : addrTypes l addr.key = none :=
      table_eq_none.mpr fun a ha heq => hknown (hasAddr_iff.mpr (heq ▸ List.mem_map_of_mem ha))
    rw [delAddr, List.eraseP_of_forall_not fun a ha heq => hknown ⟨a, ha, heq⟩, ← hnone,
      Function.update_eq_self]

/-! ## The operations of a service info -/

/-- What holds of the block of a registered service. -/
structure VsrvcInfo.Kept (s : VsrvcInfo) : Prop where
  sound : s.Sound
  distinct : DistinctAddrs s.used
  types : ∀ a ∈ s.used, a.type < VSOCKADDR_BUTT

/-- The addresses and their types. -/
def VsrvcInfo.types (s : VsrvcInfo) : AddrKey → Option UInt32 := addrTypes s.used

theorem VsrvcInfo.Kept.encard {s : VsrvcInfo} (h : s.Kept) :
    {a | s.types a ≠ none}.encard = s.used.length :=
  encard_table (distinctAddrs_iff.mp h.distinct)

theorem vsrvcInfoAddAddr_full {s : VsrvcInfo} (h : MAX_ADDRS ≤ s.naddrs) (addr : SockaddrIn)
    {type : UInt32} (htype : type < VSOCKADDR_BUTT) :
    vsrvcInfoAddAddr s addr type = .ok (s, -1) := by
  rw [vsrvcInfoAddAddr, addAddr_full h addr (decide_eq_true htype)]
  rfl

theorem vsrvcInfoAddAddr_rejected (s : VsrvcInfo) (addr : SockaddrIn) {type : UInt32}
    (htype : ¬ type < VSOCKADDR_BUTT) :
    vsrvcInfoAddAddr s addr type = .error .assertion := by
  rw [vsrvcInfoAddAddr, addAddr_rejected _ addr (decide_eq_false htype)]

theorem vsrvcInfoAddAddr_room {s : VsrvcInfo} (h : s.Kept) (hlt : s.naddrs < MAX_ADDRS)
    (addr : SockaddrIn) {type : UInt32} (htype : type < VSOCKADDR_BUTT) :
    ∃ b : AddrBlock, vsrvcInfoAddAddr s addr type = .ok ({ s with toAddrBlock := b }, 0) ∧
      VsrvcInfo.Kept { s with toAddrBlock := b } ∧ 1 ≤ b.naddrs ∧
      VsrvcInfo.types { s with toAddrBlock := b } =
        Function.update s.types addr.key (some type) := by
  obtain ⟨b, r, hadd, hr, hsound, hused, -, -⟩ :=
    addAddr_ok h.sound hlt addr (decide_eq_true htype)
  obtain ⟨hdistinct, htypes⟩ := putAddr_types h.distinct addr type
  have hpos : HasAddr b.used addr := by
    rw [hused, hasAddr_putAddr]
    exact Or.inr (vsockaddrEqual_refl _)
  refine ⟨b, ?_, ⟨hsound, ?_, ?_⟩, b.naddrs_pos_of_hasAddr hpos, ?_⟩
  · rw [vsrvcInfoAddAddr, hadd]
    dsimp only
    rw [if_neg (by omega)]
  · show DistinctAddrs b.used
    rwa [hused]
  · intro a ha
    have hmem : a ∈ putAddr srvcRule s.used addr type := hused ▸ ha
    rcases mem_putAddr hmem with heq | hold
    · rwa [heq]
    · exact h.types a hold
  · show addrTypes b.used = _
    rw [hused, htypes]
    rfl

theorem vsrvcInfoDelAddr_kept {s : VsrvcInfo} (h : s.Kept) (addr : SockaddrIn) :
    ∃ b : AddrBlock, vsrvcInfoDelAddr s addr = .ok { s with toAddrBlock := b } ∧
      VsrvcInfo.Kept { s with toAddrBlock := b } ∧
      VsrvcInfo.types { s with toAddrBlock := b } = Function.update s.types addr.key none := by
  obtain ⟨b, hdel, hsound, hused⟩ := vsrvcInfoDelAddr_ok h.sound addr
  obtain ⟨hdistinct, htypes⟩ := delAddr_types h.distinct addr
  refine ⟨b, hdel, ⟨hsound, ?_, ?_⟩, ?_⟩
  · show DistinctAddrs b.used
    rwa [hused]
  · intro a ha
    have hmem : a ∈ delAddr s.used addr := hused ▸ ha
    exact h.types a (List.mem_of_mem_eraseP hmem)
  · show addrTypes b.used = _
    rw [hused, htypes]
    rfl

theorem VsrvcInfo.Kept.naddrs_eq_zero {s : VsrvcInfo} (h : s.Kept) :
    s.naddrs = 0 ↔ s.types = fun _ => none := by
  have hlen := h.sound.length_used
  constructor
  · intro hzero
    have hnil : s.used = [] := List.eq_nil_of_length_eq_zero (by omega)
    rw [VsrvcInfo.types, hnil]
    rfl
  · intro hnone
    have hnil : s.used = [] := by
      apply List.eq_nil_iff_forall_not_mem.mpr
      intro a ha
      exact table_eq_none.mp (congrFun hnone (addrKey a)) a ha rfl
    rw [← hlen, hnil]
    rfl

/-- Whatever adding an address returns, the addresses stay distinct and of known types. -/
theorem VsrvcInfo.Kept.addAddr {s : VsrvcInfo} (h : s.Kept) {b : AddrBlock} {addr : SockaddrIn}
    {type : UInt32} {r : Int} (hadd : NodeId.addAddr srvcRule s.toAddrBlock addr type = .ok (b, r)) :
    VsrvcInfo.Kept { s with toAddrBlock := b } := by
  cases htype : srvcRule.allowed type with
  | false =>
    rw [addAddr_rejected s.toAddrBlock addr htype] at hadd
    cases hadd
  | true =>
    rcases Int.lt_or_le s.naddrs MAX_ADDRS with hlt | hge
    · obtain ⟨c, r', hc, -, hcs, hused, -, -⟩ := addAddr_ok h.sound hlt addr htype
      rw [hc] at hadd
      cases hadd
      refine ⟨hcs, ?_, ?_⟩
      · show DistinctAddrs b.used
        rw [hused]
        exact distinctAddrs_putAddr h.distinct addr type
      · show ∀ a ∈ b.used, a.type < VSOCKADDR_BUTT
        rw [hused]
        intro a ha
        rcases mem_putAddr ha with rfl | ha
        · exact of_decide_eq_true htype
        · exact h.types a ha
    · rw [addAddr_full hge addr htype] at hadd
      cases hadd
      exact h

/-- What a copy leaves, whatever the source is. -/
theorem vsrvcInfoCopy_kept {dest src d : VsrvcInfo} {r : Int} (hd : dest.Fitting)
    (h : vsrvcInfoCopy dest src = .ok (d, r)) : d.Kept := by
  unfold vsrvcInfoCopy at h
  split at h
  · cases h
  · rename_i b fit hb
    cases h
    have hstart : VsrvcInfo.Kept { src with toAddrBlock := { dest.toAddrBlock with naddrs := 0 } } :=
      ⟨⟨⟨hd.capc_nonneg, hd.capc_le, hd.capc_dvd, hd.slots⟩, Int.le_refl _, hd.capc_nonneg⟩,
        List.Pairwise.nil, fun a ha => absurd ha List.not_mem_nil⟩
    exact copyAddrs_invariant (P := fun b => VsrvcInfo.Kept { src with toAddrBlock := b })
      (fun _ _ _ _ _ hk hadd => hk.addAddr hadd) hstart hb

theorem VsrvcInfo.Kept.copyable {s : VsrvcInfo} (h : s.Kept) : s.Copyable := by
  have hslots := h.sound.slots
  have hle := h.sound.naddrs_le
  exact ⟨h.sound.naddrs_le_max, by omega, h.types⟩

theorem VsrvcInfo.Sound.kept_empty {s : VsrvcInfo} (h : s.Sound) (hused : s.used = []) :
    s.Kept ∧ s.naddrs = 0 := by
  have hlen := h.length_used
  rw [hused] at hlen
  exact ⟨⟨h, hused ▸ List.Pairwise.nil, by simp [hused]⟩, hlen.symm⟩

/-- A copy into a fresh record holds the same addresses, in some order. -/
theorem vsrvcInfoCopy_perm {s : VsrvcInfo} (h : s.Kept) :
    ∃ d, vsrvcInfoCopy vsrvcInfoRelax s = .ok (d, 0) ∧ d.Sound ∧ d.hash = s.hash ∧
      d.proto = s.proto ∧ d.used.Perm s.used := by
  obtain ⟨d, hd, hsound, hhash, -, -, hproto, hused⟩ :=
    vsrvcInfoCopy_ok fitting_vsrvcInfoRelax h.copyable
  have hperm : (putAddrs srvcRule [] s.used).Perm s.used := putAddrs_perm h.distinct
  exact ⟨d, hd, hsound, hhash, hproto, hused ▸ hperm⟩

end Vdht.NodeId
