import Vdht.NodeId.AddrBlock
import Vdht.NodeId.Token

/-!
# Node infos

`vnodeInfo` and its operations: adding an address, copying one record over another and merging
an announced record into a stored one. A record is fake while its version is unknown, that is
all zero; a fake source only contributes addresses.
-/

namespace Vdht.NodeId

open Lib

/-- `vnodeInfo`: the id of the node, its version and weight, and its addresses. -/
structure VnodeInfo extends AddrBlock where
  id : Token
  ver : Token
  weight : Int32

/-- The addresses that a new record has room for, and by which a full one grows. -/
def VNODEINFO_MIN_ADDRS : Nat := 4

/-- The version of a node that is known by its address alone. -/
def vnodeVerUnknown : Token := Block.zero VTOKEN_LEN

/-- Base types are compared; a known base type replaces a different one. -/
def nodeRule : AddrRule where
  min := VNODEINFO_MIN_ADDRS
  min_pos := by decide
  min_dvd := by decide
  allowed := fun _ => true
  key := vsockaddrType
  retype := fun old type =>
    if vsockaddrType type ≠ VSOCKADDR_UNKNOWN ∧ vsockaddrType old ≠ vsockaddrType type then type
    else old

/-- The capacity is that of the array, as node infos grow. -/
abbrev VnodeInfo.Fitting (n : VnodeInfo) : Prop := n.toAddrBlock.Fitting nodeRule

/-- The capacity is that of the array, as node infos grow, and there are no more addresses than it.
-/
abbrev VnodeInfo.Sound (n : VnodeInfo) : Prop := n.toAddrBlock.Sound nodeRule

/-- The record of `DECL_VNODE_RELAX` and `vnodeInfo_relax_alloc`, with room for all addresses. -/
def vnodeInfoRelax : VnodeInfo where
  naddrs := 0
  capc := MAX_ADDRS
  addrs := List.replicate MAX_ADDRS.toNat zeroAddr
  id := Block.zero VTOKEN_LEN
  ver := Block.zero VTOKEN_LEN
  weight := 0

/-- `vnodeInfo_relax_init`, for the fixed form: there is room for twelve addresses and none of them
is there. -/
def vnodeInfoRelaxInit (n : VnodeInfo) (id ver : Token) (weight : Int32) : Res VnodeInfo :=
  if weight < 0 then .error .assertion
  else .ok { n with id := id, ver := ver, weight := weight, naddrs := 0, capc := MAX_ADDRS }

/-- `vnodeInfo_add_addr`: a known address gets the new type in its place, a new one is inserted by
its base type; -1 when there are twelve. -/
def vnodeInfoAddAddr (n : VnodeInfo) (addr : SockaddrIn) (type : UInt32) :
    Res (VnodeInfo × Int) :=
  match addAddr nodeRule n.toAddrBlock addr type with
  | .error e => .error e
  | .ok (b, r) => .ok ({ n with toAddrBlock := b }, r)

/-- The loop of `vnodeInfo_has_addr`. -/
def hasAddrLoop (addr : SockaddrIn) : List VsockaddrIn → Nat → Res Bool
  | _, 0 => .ok false
  | [], _ + 1 => .error .bounds
  | a :: slots, n + 1 =>
    if vsockaddrEqual a.addr addr then .ok true else hasAddrLoop addr slots n

/-- `vnodeInfo_has_addr`: whether the address is there, with any type. -/
def vnodeInfoHasAddr (b : AddrBlock) (addr : SockaddrIn) : Res Bool :=
  hasAddrLoop addr b.addrs b.naddrs.toNat

/-- The memory that `vnodeInfo_copy` clears before it adds the addresses. -/
def clearAddrs (b : AddrBlock) : Res AddrBlock :=
  if b.capc < 0 ∨ b.addrs.length < b.capc then .error .bounds
  else
    .ok { b with
      naddrs := 0
      addrs := List.replicate b.capc.toNat zeroAddr ++ b.addrs.drop b.capc.toNat }

/-- `vnodeInfo_copy`: the header is taken over, and the addresses are added one by one to a record
that has none. -/
def vnodeInfoCopy (dest src : VnodeInfo) : Res (VnodeInfo × Int) :=
  match clearAddrs dest.toAddrBlock with
  | .error e => .error e
  | .ok b =>
    match copyAddrs nodeRule src.addrs src.naddrs.toNat b with
    | .error e => .error e
    | .ok (b, fit) =>
      .ok (⟨b, src.id, src.ver, src.weight⟩,
        if fit then (if 0 < src.naddrs then 1 else 0) else -1)

/-- `vnodeInfo_is_fake`: the version is the unknown one. -/
def vnodeInfoIsFake (n : VnodeInfo) : Bool := vtokenEqual n.ver vnodeVerUnknown

/-- The loop of `vnodeInfo_merge` over the addresses of a fake source. -/
def mergeFake : List VsockaddrIn → Nat → AddrBlock → Bool → Res (AddrBlock × Int)
  | _, 0, b, updated => .ok (b, if updated then 1 else 0)
  | [], _ + 1, _, _ => .error .bounds
  | a :: src, n + 1, b, updated =>
    match vnodeInfoHasAddr b a.addr with
    | .error e => .error e
    | .ok true => mergeFake src n b updated
    | .ok false =>
      match addAddr nodeRule b a.addr a.type with
      | .error e => .error e
      | .ok (b, r) => if r < 0 then .ok (b, -1) else mergeFake src n b true

/-- The loop of `vnodeInfo_merge` over two lists of the same length. -/
def mergeSame : List VsockaddrIn → List VsockaddrIn → Nat → Res (List VsockaddrIn × Bool)
  | dest, _, 0 => .ok (dest, false)
  | d :: dest, s :: src, n + 1 =>
    match mergeSame dest src n with
    | .error e => .error e
    | .ok (rest, updated) =>
      if vsockaddrEqual d.addr s.addr then .ok (d :: rest, updated)
      else .ok (⟨s.addr, vsockaddrType d.type⟩ :: rest, true)
  | _, _, _ + 1 => .error .bounds

/-- `vnodeInfo_merge` on the values of the records. The function looks up every address through the
pointer it had at the beginning, so this is what it does as long as `realloc` leaves the block of
`dest` in its place; `VnodeRecord.merge` is the function in memory, where the block may move. -/
def vnodeInfoMerge (dest src : VnodeInfo) : Res (VnodeInfo × Int) :=
  if vtokenEqual dest.id src.id = false then .ok (dest, 0)
  else if vnodeInfoIsFake src then
    match mergeFake src.addrs src.naddrs.toNat dest.toAddrBlock false with
    | .error e => .error e
    | .ok (b, r) => .ok ({ dest with toAddrBlock := b }, r)
  else if dest.naddrs ≠ src.naddrs then
    match vnodeInfoCopy dest src with
    | .error e => .error e
    | .ok (d, r) => .ok (d, if r < 0 then -1 else 1)
  else
    match mergeSame dest.addrs src.addrs src.naddrs.toNat with
    | .error e => .error e
    | .ok (addrs, updated) =>
      .ok ({ dest with ver := src.ver, weight := src.weight, addrs := addrs },
        if updated then 1 else 0)

/-- `&addrs[naddrs-1]` -/
def vnodeInfoWorstAddr (n : VnodeInfo) : Res SockaddrIn :=
  if n.naddrs ≤ 0 then .error .bounds
  else
    match getSlot n.addrs (n.naddrs - 1).toNat with
    | .error e => .error e
    | .ok a => .ok a.addr

/-- The bytes in front of the addresses. -/
def VNODEINFO_HEADER : Int := 48

/-- `vnodeInfo_size`: the bytes of the record up to its last address. -/
def vnodeInfoSize (n : VnodeInfo) : Int := VNODEINFO_HEADER + n.naddrs * 20

/-- A record that may be announced: between one and twelve addresses, all of them there. -/
structure VnodeInfo.WellFormed (n : VnodeInfo) : Prop where
  pos : 1 ≤ n.naddrs
  le_max : n.naddrs ≤ MAX_ADDRS
  stored : n.naddrs ≤ n.addrs.length

/-! ## Facts about single operations -/

theorem fitting_relax : vnodeInfoRelax.Fitting := by
  refine ⟨by decide, by decide, by decide, by decide⟩

theorem clearAddrs_ok {b : AddrBlock} (h : b.Fitting nodeRule) :
    ∃ c, clearAddrs b = .ok c ∧ c.Sound nodeRule ∧ c.naddrs = 0 := by
  have hs := h.slots
  have h0 := h.capc_nonneg
  unfold clearAddrs
  rw [if_neg (by omega)]
  refine ⟨_, rfl, ⟨⟨h0, h.capc_le, h.capc_dvd, ?_⟩, Int.le_refl _, h0⟩, rfl⟩
  simp only [List.length_append, List.length_replicate, List.length_drop]
  omega

theorem AddrBlock.used_eq_nil {b : AddrBlock} (h : b.naddrs = 0) : b.used = [] := by
  simp [AddrBlock.used, h]

/-- Copying a record of at most twelve addresses. -/
theorem vnodeInfoCopy_ok {dest src : VnodeInfo} (hd : dest.Fitting)
    (hmax : src.naddrs ≤ MAX_ADDRS) (hstored : src.naddrs ≤ src.addrs.length) :
    ∃ d r, vnodeInfoCopy dest src = .ok (d, r) ∧ 0 ≤ r ∧ d.Sound ∧ d.id = src.id ∧
      d.ver = src.ver ∧ d.weight = src.weight ∧ d.used = putAddrs nodeRule [] src.used := by
  obtain ⟨c, hc, hcs, hc0⟩ := clearAddrs_ok hd
  have hmax' : (src.naddrs.toNat : Int) ≤ MAX_ADDRS := by
    have : (0 : Int) ≤ MAX_ADDRS := by decide
    omega
  obtain ⟨b, hb, hbs, -, hused⟩ := @copyAddrs_ok nodeRule src.addrs src.naddrs.toNat c hcs
    (by omega) (by omega) (fun _ _ => rfl)
  refine ⟨⟨b, src.id, src.ver, src.weight⟩, if 0 < src.naddrs then 1 else 0, ?_, ?_, hbs, rfl,
    rfl, rfl, ?_⟩
  · unfold vnodeInfoCopy
    rw [hc]
    dsimp only
    rw [hb]
    rfl
  · split <;> omega
  · show b.used = _
    rw [hused, c.used_eq_nil hc0]
    rfl

theorem vnodeInfoCopy_ids {dest src d : VnodeInfo} {r : Int}
    (h : vnodeInfoCopy dest src = .ok (d, r)) : d.id = src.id ∧ d.ver = src.ver := by
  unfold vnodeInfoCopy at h
  split at h
  · cases h
  · split at h
    · cases h
    · cases h
      exact ⟨rfl, rfl⟩

theorem vnodeInfoCopy_inv {dest src d : VnodeInfo} {r : Int} (hd : dest.Fitting)
    (h : vnodeInfoCopy dest src = .ok (d, r)) : d.Sound ∧ d.id = src.id ∧ d.ver = src.ver := by
  refine ⟨?_, vnodeInfoCopy_ids h⟩
  obtain ⟨c, hc, hcs, -⟩ := clearAddrs_ok hd
  unfold vnodeInfoCopy at h
  rw [hc] at h
  dsimp only at h
  split at h
  · cases h
  · rename_i b fit hb
    cases h
    exact copyAddrs_sound hcs hb

/-- The loop looks through the addresses in use. -/
theorem hasAddrLoop_eq {addr : SockaddrIn} {slots : List VsockaddrIn} {n : Nat}
    (h : n ≤ slots.length) :
    hasAddrLoop addr slots n = .ok ((slots.take n).any fun x => vsockaddrEqual x.addr addr) := by
  induction slots generalizing n with
  | nil =>
    cases n with
    | zero => rfl
    | succ n => simp at h
  | cons a slots ih =>
    cases n with
    | zero => rfl
    | succ n =>
      unfold hasAddrLoop
      split
      · rename_i ha
        simp [ha]
      · rename_i ha
        rw [ih (by simpa using h)]
        simp [ha]

theorem vnodeInfoHasAddr_eq {b : AddrBlock} (h : b.Sound nodeRule) (addr : SockaddrIn) :
    vnodeInfoHasAddr b addr = .ok (b.used.any fun x => vsockaddrEqual x.addr addr) := by
  have hs := h.slots
  have hle := h.naddrs_le
  exact hasAddrLoop_eq (by omega)

/-- What adding an unknown address keeps is kept by the loop. -/
theorem mergeFake_invariant {I : AddrBlock → Prop}
    (hadd : ∀ b b' addr type r, I b → vnodeInfoHasAddr b addr = .ok false →
      addAddr nodeRule b addr type = .ok (b', r) → I b')
    {src : List VsockaddrIn} {n : Nat} {b b' : AddrBlock} {updated : Bool} {r : Int} (h : I b)
    (hm : mergeFake src n b updated = .ok (b', r)) : I b' := by
  induction src generalizing n b updated with
  | nil =>
    cases n with
    | zero =>
      cases hm
      exact h
    | succ n => cases hm
  | cons a src ih =>
    cases n with
    | zero =>
      cases hm
      exact h
    | succ n =>
      unfold mergeFake at hm
      split at hm
      · cases hm
      · exact ih h hm
      · rename_i hnew
        split at hm
        · cases hm
        · rename_i c r' hc
          have hI := hadd b c _ _ r' h hnew hc
          split at hm
          · cases hm
            exact hI
          · exact ih hI hm

theorem mergeFake_inv {src : List VsockaddrIn} {n : Nat} {b b' : AddrBlock} {updated : Bool}
    {r : Int} (h : b.Sound nodeRule) (hm : mergeFake src n b updated = .ok (b', r)) :
    b'.Sound nodeRule ∧ b.naddrs ≤ b'.naddrs ∧ ∀ a, HasAddr b.used a → HasAddr b'.used a := by
  refine mergeFake_invariant
    (I := fun c => c.Sound nodeRule ∧ b.naddrs ≤ c.naddrs ∧
      ∀ a, HasAddr b.used a → HasAddr c.used a) ?_ ⟨h, Int.le_refl _, fun _ ha => ha⟩ hm
  intro c c' addr type r' ⟨hs, hle, hhas⟩ _ hadd
  obtain ⟨hs', hle', hhas'⟩ := addAddr_keeps hs hadd
  exact ⟨hs', Int.le_trans hle hle', fun a ha => hhas' a (hhas a ha)⟩

theorem mergeFake_total {src : List VsockaddrIn} {n : Nat} {b : AddrBlock} (updated : Bool)
    (h : b.Sound nodeRule) (hn : n ≤ src.length) :
    ∃ b' r, mergeFake src n b updated = .ok (b', r) := by
  induction src generalizing n b updated with
  | nil =>
    cases n with
    | zero => exact ⟨b, _, rfl⟩
    | succ n => simp at hn
  | cons a src ih =>
    cases n with
    | zero => exact ⟨b, _, rfl⟩
    | succ n =>
      unfold mergeFake
      rw [vnodeInfoHasAddr_eq h]
      cases b.used.any fun x => vsockaddrEqual x.addr a.addr with
      | true => exact ih updated h (by simpa using hn)
      | false =>
        dsimp only
        rcases Int.lt_or_le b.naddrs MAX_ADDRS with hlt | hge
        · obtain ⟨c, r', hadd, hr, hc, -, -, -⟩ := @addAddr_ok nodeRule b h hlt a.addr a.type rfl
          rw [hadd]
          dsimp only
          rw [if_neg (by omega)]
          exact ih true hc (by simpa using hn)
        · rw [@addAddr_full nodeRule b hge a.addr a.type rfl]
          exact ⟨b, -1, rfl⟩

theorem mergeSame_length {dest src rest : List VsockaddrIn} {n : Nat} {updated : Bool}
    (h : mergeSame dest src n = .ok (rest, updated)) : rest.length = dest.length := by
  induction dest generalizing src n rest updated with
  | nil =>
    cases n with
    | zero =>
      unfold mergeSame at h
      cases h
      rfl
    | succ n =>
      unfold mergeSame at h
      cases h
  | cons d dest ih =>
    cases n with
    | zero =>
      unfold mergeSame at h
      cases h
      rfl
    | succ n =>
      cases src with
      | nil =>
        unfold mergeSame at h
        cases h
      | cons s src =>
        unfold mergeSame at h
        split at h
        · cases h
        · rename_i rest' updated' hrest
          split at h <;> cases h <;> simp [ih hrest]

theorem mergeSame_total {dest src : List VsockaddrIn} {n : Nat} (hd : n ≤ dest.length)
    (hs : n ≤ src.length) : ∃ rest updated, mergeSame dest src n = .ok (rest, updated) := by
  induction n generalizing dest src with
  | zero => exact ⟨dest, false, by unfold mergeSame; rfl⟩
  | succ n ih =>
    cases dest with
    | nil => simp at hd
    | cons d dest =>
      cases src with
      | nil => simp at hs
      | cons s src =>
        obtain ⟨rest, updated, hrest⟩ := @ih dest src (by simpa using hd) (by simpa using hs)
        unfold mergeSame
        rw [hrest]
        dsimp only
        split
        · exact ⟨_, _, rfl⟩
        · exact ⟨_, _, rfl⟩

theorem vnodeInfoCopy_id {dest src d : VnodeInfo} {r : Int}
    (h : vnodeInfoCopy dest src = .ok (d, r)) : d.id = src.id := (vnodeInfoCopy_ids h).1

theorem vnodeInfoMerge_id {dest src d : VnodeInfo} {r : Int}
    (h : vnodeInfoMerge dest src = .ok (d, r)) : d.id = dest.id := by
  unfold vnodeInfoMerge at h
  by_cases hid : vtokenEqual dest.id src.id = false
  · rw [if_pos hid] at h
    cases h
    rfl
  · rw [if_neg hid] at h
    rw [Bool.not_eq_false, vtokenEqual_iff] at hid
    split at h
    · split at h
      · cases h
      · cases h
        rfl
    · split at h
      · split at h
        · cases h
        · rename_i c r' hc
          cases h
          rw [vnodeInfoCopy_id hc, hid]
      · split at h
        · cases h
        · cases h
          rfl

/-- A merge leaves a sound record. -/
theorem vnodeInfoMerge_inv {dest src d : VnodeInfo} {r : Int} (hd : dest.Sound)
    (h : vnodeInfoMerge dest src = .ok (d, r)) : d.Sound ∧ d.id = dest.id := by
  refine ⟨?_, vnodeInfoMerge_id h⟩
  unfold vnodeInfoMerge at h
  split at h
  · cases h
    exact hd
  · split at h
    · split at h
      · cases h
      · rename_i b r' hb
        cases h
        exact (mergeFake_inv hd hb).1
    · split at h
      · split at h
        · cases h
        · rename_i c r' hc
          cases h
          exact (vnodeInfoCopy_inv hd.toFitting hc).1
      · split at h
        · cases h
        · rename_i addrs updated hm
          cases h
          refine ⟨⟨hd.capc_nonneg, hd.capc_le, hd.capc_dvd, ?_⟩, hd.naddrs_nonneg,
            hd.naddrs_le⟩
          show (addrs.length : Int) = _
          rw [mergeSame_length hm]
          exact hd.slots

/-- The first address of a well-formed record. -/
theorem VnodeInfo.WellFormed.hasAddr {n : VnodeInfo} (h : n.WellFormed) :
    ∃ a, HasAddr n.used a := by
  have hpos := h.pos
  have hst := h.stored
  have hne : n.used ≠ [] := by
    intro hnil
    have hlen := congrArg List.length hnil
    simp only [AddrBlock.used, List.length_take, List.length_nil] at hlen
    omega
  obtain ⟨x, l, hx⟩ := List.exists_cons_of_ne_nil hne
  exact ⟨x.addr, x, by rw [hx]; exact List.mem_cons_self, by simp⟩

/-- Copying a well-formed record leaves a record with an address. -/
theorem vnodeInfoCopy_wellFormed {dest src : VnodeInfo} (hd : dest.Fitting)
    (hs : src.WellFormed) :
    ∃ d r, vnodeInfoCopy dest src = .ok (d, r) ∧ 0 ≤ r ∧ d.Sound ∧ d.id = src.id ∧
      1 ≤ d.naddrs := by
  obtain ⟨d, r, hcopy, hr, hsound, hid, -, -, hused⟩ := vnodeInfoCopy_ok hd hs.le_max hs.stored
  obtain ⟨a, ha⟩ := hs.hasAddr
  refine ⟨d, r, hcopy, hr, hsound, hid, ?_⟩
  apply @AddrBlock.naddrs_pos_of_hasAddr _ a
  rw [hused, hasAddr_putAddrs]
  exact Or.inr ha

/-- Merging a well-formed record into a sound one. -/
theorem vnodeInfoMerge_total {dest src : VnodeInfo} (hd : dest.Sound) (hpos : 1 ≤ dest.naddrs)
    (hs : src.WellFormed) : ∃ d r, vnodeInfoMerge dest src = .ok (d, r) ∧ 1 ≤ d.naddrs := by
  have hst := hs.stored
  unfold vnodeInfoMerge
  split
  · exact ⟨dest, 0, rfl, hpos⟩
  · split
    · obtain ⟨b, r, hb⟩ := @mergeFake_total src.addrs src.naddrs.toNat dest.toAddrBlock false hd
        (by omega)
      rw [hb]
      refine ⟨_, r, rfl, ?_⟩
      have := (mergeFake_inv hd hb).2.1
      show 1 ≤ b.naddrs
      omega
    · split
      · obtain ⟨d, r, hcopy, -, -, -, hd1⟩ := vnodeInfoCopy_wellFormed hd.toFitting hs
        rw [hcopy]
        exact ⟨d, _, rfl, hd1⟩
      · rename_i hne
        rw [ne_eq, not_not] at hne
        have hslots := hd.slots
        have hle := hd.naddrs_le
        obtain ⟨rest, updated, hm⟩ := @mergeSame_total dest.addrs src.addrs src.naddrs.toNat
          (by omega) (by omega)
        rw [hm]
        exact ⟨_, _, rfl, hpos⟩

theorem vnodeInfoWorstAddr_total {n : VnodeInfo} (h : n.Sound) (hpos : 1 ≤ n.naddrs) :
    ∃ a, vnodeInfoWorstAddr n = .ok a := by
  have hs := h.slots
  have hle := h.naddrs_le
  unfold vnodeInfoWorstAddr
  rw [if_neg (by omega), getSlot_ok (by omega)]
  exact ⟨_, rfl⟩

end Vdht.NodeId
