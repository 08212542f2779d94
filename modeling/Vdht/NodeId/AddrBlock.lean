import Vdht.NodeId.Sockaddr
import Mathlib.Data.List.DropRight

/-!
# Address lists that grow in place

`vnodeInfo` and `vsrvcInfo` end in an array of addresses of which `naddrs` are used and which
is allocated with room for `capc` of them, at least for the `MIN_ADDRS` the structure declares.
The two records share the loops over this array: the search for an address, the insertion
behind the last address that is not of a greater type, and the copy of another record's
addresses. They differ in the growth step, in the types they accept, in the part of the type that is
compared and in what a repeated announcement does to the stored type; these are parameters.

`Sound` is the invariant of a record, `putAddr` what adding an address does to its list.
-/

namespace Vdht.NodeId

/-- `VNODEINFO_MAX_ADDRS` and `VSRVCINFO_MAX_ADDRS`. -/
def MAX_ADDRS : Int := 12

/-- The part that node infos and service infos share: the number of addresses, the capacity, and the
array behind them. -/
structure AddrBlock where
  naddrs : Int
  capc : Int
  /-- all slots of the allocated array -/
  addrs : List VsockaddrIn

/-- How a record orders its addresses and updates the type of a known one. -/
structure AddrRule where
  /-- slots declared by the structure, and the growth step -/
  min : Nat
  min_pos : 0 < min
  min_dvd : (min : Int) ∣ MAX_ADDRS
  /-- the types that pass the assertion -/
  allowed : UInt32 → Bool
  /-- the part of the type that is compared -/
  key : UInt32 → UInt32
  /-- the type kept when an address of the first type is announced with the second -/
  retype : UInt32 → UInt32 → UInt32

variable (rule : AddrRule)

/-- The address of a cleared slot. -/
def zeroAddr : VsockaddrIn := ⟨⟨0, 0, 0, Lib.Block.zero 8⟩, 0⟩

/-- `realloc` for `MIN_ADDRS` more addresses when the capacity is used up; the block stays where
it is. -/
def growBlock (b : AddrBlock) : AddrBlock :=
  if b.naddrs ≥ b.capc then
    let n := (rule.min + b.capc).toNat
    { b with
      capc := b.capc + rule.min
      addrs := b.addrs.take n ++ List.replicate (n - b.addrs.length) zeroAddr }
  else b

/-- The search for an address among the first `n` slots; the new slots when it is found. -/
def searchAddr (retype : UInt32 → UInt32 → UInt32) (addr : SockaddrIn) (type : UInt32) :
    List VsockaddrIn → Nat → Res (Option (List VsockaddrIn))
  | _, 0 => .ok none
  | [], _ + 1 => .error .bounds
  | a :: slots, n + 1 =>
    if vsockaddrEqual a.addr addr then
      .ok (some ({ a with type := retype a.type type } :: slots))
    else
      match searchAddr retype addr type slots n with
      | .error e => .error e
      | .ok none => .ok none
      | .ok (some slots) => .ok (some (a :: slots))

/-- The insertion loop with `i` at the free slot. -/
def insertShift (key : UInt32 → UInt32) (new : VsockaddrIn) (slots : List VsockaddrIn) :
    Nat → Res (List VsockaddrIn)
  | 0 => setSlot slots 0 new
  | i + 1 =>
    match getSlot slots i with
    | .error e => .error e
    | .ok prev =>
      if key prev.type > key new.type then
        match setSlot slots (i + 1) prev with
        | .error e => .error e
        | .ok slots => insertShift key new slots i
      else setSlot slots (i + 1) new

/-- The common part of `vnodeInfo_add_addr` and `vsrvcInfo_add_addr`: the block and `-1` when
it is full, `0` when the address was there and `1` when it was added. -/
def addAddr (b : AddrBlock) (addr : SockaddrIn) (type : UInt32) : Res (AddrBlock × Int) :=
  if rule.allowed type = false then .error .assertion
  else if b.naddrs ≥ MAX_ADDRS then .ok (b, -1)
  else
    match searchAddr rule.retype addr type (growBlock rule b).addrs b.naddrs.toNat with
    | .error e => .error e
    | .ok (some addrs) => .ok ({ growBlock rule b with addrs := addrs }, 0)
    | .ok none =>
      if b.naddrs < 0 then .error .bounds
      else
        match insertShift rule.key ⟨addr, type⟩ (growBlock rule b).addrs b.naddrs.toNat with
        | .error e => .error e
        | .ok addrs => .ok ({ growBlock rule b with addrs := addrs, naddrs := b.naddrs + 1 }, 1)

/-- The loop that adds the first `n` addresses of `src`; `false` when it returned `-1`. -/
def copyAddrs (src : List VsockaddrIn) (n : Nat) (b : AddrBlock) : Res (AddrBlock × Bool) :=
  match src, n with
  | _, 0 => .ok (b, true)
  | [], _ + 1 => .error .bounds
  | a :: src, n + 1 =>
    match addAddr rule b a.addr a.type with
    | .error e => .error e
    | .ok (b, r) => if r < 0 then .ok (b, false) else copyAddrs src n b

/-! ## The address list -/

/-- The addresses that the record has; what is in the slots behind them has no meaning. -/
def AddrBlock.used (b : AddrBlock) : List VsockaddrIn := b.addrs.take b.naddrs.toNat

/-- The list with the type of a known address updated, `none` when the address is new. -/
def findAddr (retype : UInt32 → UInt32 → UInt32) (addr : SockaddrIn) (type : UInt32) :
    List VsockaddrIn → Option (List VsockaddrIn)
  | [] => none
  | a :: l =>
    if vsockaddrEqual a.addr addr then some ({ a with type := retype a.type type } :: l)
    else (findAddr retype addr type l).map (a :: ·)

/-- The list with `new` behind the last address that is not of a greater type. -/
def insertAddr (key : UInt32 → UInt32) (new : VsockaddrIn) (l : List VsockaddrIn) :
    List VsockaddrIn :=
  l.rdropWhile (fun a => key a.type > key new.type) ++
    new :: l.rtakeWhile (fun a => key a.type > key new.type)

/-- The list after the address was announced with the type. -/
def putAddr (l : List VsockaddrIn) (addr : SockaddrIn) (type : UInt32) : List VsockaddrIn :=
  match findAddr rule.retype addr type l with
  | some l => l
  | none => insertAddr rule.key ⟨addr, type⟩ l

/-- The allocation behind a record. -/
structure AddrBlock.Fitting (b : AddrBlock) : Prop where
  capc_nonneg : 0 ≤ b.capc
  capc_le : b.capc ≤ MAX_ADDRS
  capc_dvd : (rule.min : Int) ∣ b.capc
  slots : (b.addrs.length : Int) = max b.capc rule.min

/-- The capacity is that of the array and there are no more addresses than it. -/
structure AddrBlock.Sound (b : AddrBlock) : Prop extends b.Fitting rule where
  naddrs_nonneg : 0 ≤ b.naddrs
  naddrs_le : b.naddrs ≤ b.capc

variable {rule}

theorem AddrBlock.Sound.naddrs_le_max {b : AddrBlock} (h : b.Sound rule) :
    b.naddrs ≤ MAX_ADDRS :=
  Int.le_trans h.naddrs_le h.capc_le

theorem AddrBlock.Sound.length_used {b : AddrBlock} (h : b.Sound rule) :
    (b.used.length : Int) = b.naddrs := by
  have hs := h.slots
  have h0 := h.naddrs_nonneg
  have hle := h.naddrs_le
  simp only [AddrBlock.used, List.length_take]
  omega

/-- The slots are the used addresses followed by the free slots. -/
theorem AddrBlock.used_append (b : AddrBlock) :
    b.used ++ b.addrs.drop b.naddrs.toNat = b.addrs :=
  List.take_append_drop _ _

theorem AddrBlock.naddrs_pos_of_hasAddr {b : AddrBlock} {a : SockaddrIn} (h : HasAddr b.used a) :
    1 ≤ b.naddrs := by
  obtain ⟨x, hx, -⟩ := h
  by_contra hneg
  have h0 : b.naddrs.toNat = 0 := by omega
  rw [AddrBlock.used, h0] at hx
  simp at hx

/-- A known address keeps its place. -/
theorem findAddr_split {retype : UInt32 → UInt32 → UInt32} {addr : SockaddrIn} {type : UInt32}
    {l l' : List VsockaddrIn} (h : findAddr retype addr type l = some l') :
    ∃ m a r, l = m ++ a :: r ∧ vsockaddrEqual a.addr addr = true ∧
      l' = m ++ { a with type := retype a.type type } :: r := by
  induction l generalizing l' with
  | nil => cases h
  | cons a l ih =>
    rw [findAddr] at h
    split at h
    · rename_i heq
      cases h
      exact ⟨[], a, l, rfl, heq, rfl⟩
    · obtain ⟨k, hk, rfl⟩ := Option.map_eq_some_iff.mp h
      obtain ⟨m, b, r, rfl, hb, rfl⟩ := ih hk
      exact ⟨a :: m, b, r, rfl, hb, rfl⟩

theorem length_findAddr {retype : UInt32 → UInt32 → UInt32} {addr : SockaddrIn} {type : UInt32}
    {l l' : List VsockaddrIn} (h : findAddr retype addr type l = some l') :
    l'.length = l.length := by
  obtain ⟨m, a, r, rfl, -, rfl⟩ := findAddr_split h
  simp

theorem findAddr_eq_none {retype : UInt32 → UInt32 → UInt32} {addr : SockaddrIn} {type : UInt32}
    {l : List VsockaddrIn} : findAddr retype addr type l = none ↔ ¬ HasAddr l addr := by
  induction l with
  | nil => simp [findAddr, HasAddr]
  | cons a l ih =>
    unfold findAddr
    split
    · rename_i ha
      simp [HasAddr, ha]
    · rename_i ha
      rw [Option.map_eq_none_iff, ih]
      simp [HasAddr, ha]

theorem insertAddr_perm (key : UInt32 → UInt32) (new : VsockaddrIn) (l : List VsockaddrIn) :
    (insertAddr key new l).Perm (new :: l) := by
  unfold insertAddr
  have h := @List.perm_middle _ new (l.rdropWhile fun a => key a.type > key new.type)
    (l.rtakeWhile fun a => key a.type > key new.type)
  rwa [List.rdropWhile_append_rtakeWhile] at h

/-! ## The loops -/

theorem searchAddr_append {retype : UInt32 → UInt32 → UInt32} {addr : SockaddrIn}
    {type : UInt32} (l free : List VsockaddrIn) :
    searchAddr retype addr type (l ++ free) l.length =
      .ok ((findAddr retype addr type l).map (· ++ free)) := by
  induction l with
  | nil => cases free <;> rfl
  | cons a l ih =>
    simp only [List.cons_append, List.length_cons, searchAddr, findAddr]
    split
    · rfl
    · rw [ih]
      cases findAddr retype addr type l with
      | none => rfl
      | some m => rfl

theorem insertAddr_concat (key : UInt32 → UInt32) (new a : VsockaddrIn) (l : List VsockaddrIn) :
    insertAddr key new (l ++ [a]) =
      if key a.type > key new.type then insertAddr key new l ++ [a] else l ++ [a] ++ [new] := by
  unfold insertAddr
  by_cases h : key a.type > key new.type
  · rw [if_pos h, List.rdropWhile_concat_pos _ _ _ (by simpa using h),
      List.rtakeWhile_concat_pos _ _ _ (by simpa using h)]
    simp
  · rw [if_neg h, List.rdropWhile_concat_neg _ _ _ (by simpa using h),
      List.rtakeWhile_concat_neg _ _ _ (by simpa using h)]

/-- The shifting loop inserts the address and uses up the first free slot. -/
theorem insertShift_append {key : UInt32 → UInt32} {new : VsockaddrIn} (l : List VsockaddrIn) :
    ∀ (f : VsockaddrIn) (free : List VsockaddrIn),
      insertShift key new (l ++ f :: free) l.length = .ok (insertAddr key new l ++ free) := by
  induction l using List.reverseRecOn with
  | nil =>
    intro f free
    rfl
  | append_singleton l a ih =>
    intro f free
    have hget : getSlot (l ++ [a] ++ f :: free) l.length = .ok a := by
      rw [List.append_assoc]
      exact getSlot_behind a
    have hset : ∀ x, setSlot (l ++ [a] ++ f :: free) (l.length + 1) x =
        .ok (l ++ [a] ++ x :: free) := by
      intro x
      have h := @setSlot_behind _ (l ++ [a]) free f x
      rwa [List.length_append] at h
    rw [List.length_append, List.length_singleton]
    unfold insertShift
    rw [hget, insertAddr_concat]
    dsimp only
    split
    · rw [hset]
      dsimp only
      rw [List.append_assoc, List.append_assoc]
      exact ih a (a :: free)
    · rw [hset]
      simp

/-! ## Adding an address -/

theorem growBlock_ok {b : AddrBlock} (h : b.Sound rule) (hlt : b.naddrs < MAX_ADDRS) :
    (growBlock rule b).Sound rule ∧ (growBlock rule b).used = b.used ∧
      (growBlock rule b).naddrs = b.naddrs ∧ b.naddrs < (growBlock rule b).capc := by
  have hs := h.slots
  have h0 := h.naddrs_nonneg
  have hle := h.naddrs_le
  have hpos := rule.min_pos
  unfold growBlock
  by_cases hfull : b.naddrs ≥ b.capc
  · rw [if_pos hfull]
    have hcap : b.capc = b.naddrs := by omega
    obtain ⟨k, hk⟩ := h.capc_dvd
    obtain ⟨m, hm⟩ := rule.min_dvd
    have hkm : k < m := by
      have hlt' : (rule.min : Int) * k < rule.min * m := by rw [← hk, ← hm]; omega
      exact Int.lt_of_mul_lt_mul_left hlt' (by omega)
    have hmul : (rule.min : Int) * (k + 1) ≤ rule.min * m :=
      Int.mul_le_mul_of_nonneg_left (by omega) (by omega)
    have hcapc : b.capc + rule.min ≤ MAX_ADDRS := by
      rw [hm, hk]
      rw [Int.mul_add, Int.mul_one] at hmul
      exact hmul
    have hlen : b.addrs.length ≤ (rule.min + b.capc).toNat := by omega
    refine ⟨⟨⟨?_, hcapc, ?_, ?_⟩, h0, ?_⟩, ?_, rfl, ?_⟩
    · show 0 ≤ b.capc + rule.min
      omega
    · exact Int.dvd_add h.capc_dvd (Int.dvd_refl _)
    · show ((b.addrs.take _ ++ List.replicate _ zeroAddr).length : Int) = _
      simp only [List.length_append, List.length_take, List.length_replicate]
      omega
    · show b.naddrs ≤ b.capc + rule.min
      omega
    · show (b.addrs.take _ ++ List.replicate _ zeroAddr).take b.naddrs.toNat = b.used
      rw [List.take_of_length_le hlen, List.take_append_of_le_length (by omega)]
      rfl
    · show b.naddrs < b.capc + rule.min
      omega
  · rw [if_neg hfull]
    exact ⟨h, rfl, rfl, by omega⟩

/-- Adding an address to a record that is not full. -/
theorem addAddr_ok {b : AddrBlock} (h : b.Sound rule) (hlt : b.naddrs < MAX_ADDRS)
    (addr : SockaddrIn) {type : UInt32} (htype : rule.allowed type = true) :
    ∃ b' r, addAddr rule b addr type = .ok (b', r) ∧ 0 ≤ r ∧ b'.Sound rule ∧
      b'.used = putAddr rule b.used addr type ∧ b'.naddrs ≤ b.naddrs + 1 ∧
      b.naddrs ≤ b'.naddrs := by
  obtain ⟨hg, hused, hn, hroom⟩ := growBlock_ok h hlt
  have hlen : (growBlock rule b).used.length = b.naddrs.toNat := by
    have := hg.length_used
    omega
  have hsplit := (growBlock rule b).used_append
  have hsearch : searchAddr rule.retype addr type (growBlock rule b).addrs b.naddrs.toNat =
      .ok ((findAddr rule.retype addr type b.used).map
        (· ++ (growBlock rule b).addrs.drop (growBlock rule b).naddrs.toNat)) := by
    rw [← hlen, ← hused, ← searchAddr_append, hsplit]
  have h0 := h.naddrs_nonneg
  unfold addAddr
  rw [if_neg (by simp [htype]), if_neg (by omega), hsearch]
  cases hf : findAddr rule.retype addr type b.used with
  | some l =>
    have hl := length_findAddr hf
    have hput : putAddr rule b.used addr type = l := by rw [putAddr, hf]
    refine ⟨{ growBlock rule b with
      addrs := l ++ (growBlock rule b).addrs.drop (growBlock rule b).naddrs.toNat },
      0, rfl, by omega, ⟨⟨hg.capc_nonneg, hg.capc_le, hg.capc_dvd, ?_⟩, hg.naddrs_nonneg,
        hg.naddrs_le⟩, ?_, ?_, ?_⟩
    · have hslots := hg.slots
      rw [← hsplit] at hslots
      simp only [List.length_append] at hslots ⊢
      rw [hl, ← hused]
      exact hslots
    · show (l ++ _).take (growBlock rule b).naddrs.toNat = _
      rw [hput, hn]
      apply List.take_left'
      rw [hl, ← hused, hlen]
    · show (growBlock rule b).naddrs ≤ _
      omega
    · show b.naddrs ≤ (growBlock rule b).naddrs
      omega
  | none =>
    have hput : putAddr rule b.used addr type = insertAddr rule.key ⟨addr, type⟩ b.used := by
      rw [putAddr, hf]
    have hfree : (growBlock rule b).addrs.drop (growBlock rule b).naddrs.toNat ≠ [] := by
      have hslots := hg.slots
      intro hnil
      have := List.drop_eq_nil_iff.mp hnil
      omega
    obtain ⟨f, free, hff⟩ := List.exists_cons_of_ne_nil hfree
    have hshift : insertShift rule.key ⟨addr, type⟩ (growBlock rule b).addrs b.naddrs.toNat =
        .ok (insertAddr rule.key ⟨addr, type⟩ b.used ++ free) := by
      rw [← hlen, ← hsplit, hff, hused]
      exact insertShift_append b.used f free
    have hins : (insertAddr rule.key ⟨addr, type⟩ b.used).length = b.used.length + 1 := by
      rw [(insertAddr_perm _ _ _).length_eq, List.length_cons]
    have hul : b.used.length = b.naddrs.toNat := by rw [← hused, hlen]
    dsimp only [Option.map_none]
    rw [if_neg (by omega), hshift]
    refine ⟨_, 1, rfl, by omega, ⟨⟨hg.capc_nonneg, hg.capc_le, hg.capc_dvd, ?_⟩, ?_, ?_⟩,
      ?_, ?_, ?_⟩
    · have hslots := hg.slots
      rw [← hsplit, hff, hused] at hslots
      simp only [List.length_append, List.length_cons] at hslots ⊢
      omega
    · show 0 ≤ b.naddrs + 1
      omega
    · show b.naddrs + 1 ≤ (growBlock rule b).capc
      omega
    · show (insertAddr rule.key ⟨addr, type⟩ b.used ++ free).take (b.naddrs + 1).toNat = _
      rw [hput]
      apply List.take_left'
      omega
    · exact Int.le_refl _
    · show b.naddrs ≤ b.naddrs + 1
      omega

theorem addAddr_full {b : AddrBlock} (h : MAX_ADDRS ≤ b.naddrs) (addr : SockaddrIn)
    {type : UInt32} (htype : rule.allowed type = true) :
    addAddr rule b addr type = .ok (b, -1) := by
  unfold addAddr
  rw [if_neg (by simp [htype]), if_pos h]

theorem addAddr_rejected (b : AddrBlock) (addr : SockaddrIn) {type : UInt32}
    (htype : rule.allowed type = false) : addAddr rule b addr type = .error .assertion := by
  unfold addAddr
  rw [if_pos htype]

/-- Copying a list of addresses into a record that has room for all of them. -/
theorem copyAddrs_ok {src : List VsockaddrIn} {n : Nat} {b : AddrBlock} (h : b.Sound rule)
    (hn : n ≤ src.length) (hroom : b.naddrs + n ≤ MAX_ADDRS)
    (htype : ∀ a ∈ src.take n, rule.allowed a.type = true) :
    ∃ b', copyAddrs rule src n b = .ok (b', true) ∧ b'.Sound rule ∧ b.naddrs ≤ b'.naddrs ∧
      b'.used = (src.take n).foldl (fun l a => putAddr rule l a.addr a.type) b.used := by
  induction src generalizing n b with
  | nil =>
    cases n with
    | zero => exact ⟨b, rfl, h, Int.le_refl _, rfl⟩
    | succ n => simp at hn
  | cons a src ih =>
    cases n with
    | zero => exact ⟨b, rfl, h, Int.le_refl _, rfl⟩
    | succ n =>
      rw [List.take_succ_cons, List.forall_mem_cons] at htype
      obtain ⟨m, r, hadd, hr, hm, hused, hle, hge⟩ :=
        addAddr_ok h (by omega) a.addr htype.1
      obtain ⟨b', hb', hs', hge', hused'⟩ := ih hm (by simpa using hn) (by omega) htype.2
      refine ⟨b', ?_, hs', by omega, ?_⟩
      · unfold copyAddrs
        rw [hadd]
        dsimp only
        rw [if_neg (by omega), hb']
      · rw [hused', hused]
        rfl

/-! ## Copies of whole lists -/

theorem hasAddr_middle {m r : List VsockaddrIn} {x : VsockaddrIn} {a : SockaddrIn} :
    HasAddr (m ++ x :: r) a ↔ HasAddr (m ++ r) a ∨ vsockaddrEqual x.addr a = true := by
  simp only [HasAddr, List.mem_append, List.mem_cons]
  constructor
  · intro ⟨y, hy, hya⟩
    rcases hy with hy | rfl | hy
    · exact Or.inl ⟨y, Or.inl hy, hya⟩
    · exact Or.inr hya
    · exact Or.inl ⟨y, Or.inr hy, hya⟩
  · intro h
    rcases h with ⟨y, hy, hya⟩ | hx
    · exact ⟨y, hy.imp_right Or.inr, hya⟩
    · exact ⟨x, Or.inr (Or.inl rfl), hx⟩

theorem hasAddr_putAddr {l : List VsockaddrIn} {addr a : SockaddrIn} {type : UInt32} :
    HasAddr (putAddr rule l addr type) a ↔ HasAddr l a ∨ vsockaddrEqual addr a = true := by
  unfold putAddr
  cases hf : findAddr rule.retype addr type l with
  | none =>
    dsimp only
    rw [insertAddr, hasAddr_middle, List.rdropWhile_append_rtakeWhile]
  | some l' =>
    obtain ⟨m, x, r, rfl, hx, rfl⟩ := findAddr_split hf
    dsimp only
    rw [hasAddr_middle, hasAddr_middle]
    have hsame : vsockaddrEqual addr a = true → vsockaddrEqual x.addr a = true :=
      vsockaddrEqual_trans hx
    exact ⟨Or.inl, fun h => h.elim id fun ha => Or.inr (hsame ha)⟩

/-- Whatever adding an address returns, the record stays sound and keeps its addresses. -/
theorem addAddr_keeps {b b' : AddrBlock} {addr : SockaddrIn} {type : UInt32} {r : Int}
    (h : b.Sound rule) (hadd : addAddr rule b addr type = .ok (b', r)) :
    b'.Sound rule ∧ b.naddrs ≤ b'.naddrs ∧ ∀ a, HasAddr b.used a → HasAddr b'.used a := by
  cases htype : rule.allowed type with
  | false =>
    rw [addAddr_rejected b addr htype] at hadd
    cases hadd
  | true =>
    rcases Int.lt_or_le b.naddrs MAX_ADDRS with hlt | hge
    · obtain ⟨c, r', hc, -, hs, hused, -, hle⟩ := addAddr_ok h hlt addr htype
      rw [hc] at hadd
      cases hadd
      refine ⟨hs, hle, fun a ha => ?_⟩
      rw [hused, hasAddr_putAddr]
      exact Or.inl ha
    · rw [addAddr_full hge addr htype] at hadd
      cases hadd
      exact ⟨h, Int.le_refl _, fun _ ha => ha⟩

/-- Copying keeps what adding an address keeps, whether or not all addresses fit. -/
theorem copyAddrs_invariant {P : AddrBlock → Prop}
    (hadd : ∀ b b' addr type r, P b → addAddr rule b addr type = .ok (b', r) → P b')
    {src : List VsockaddrIn} {n : Nat} {b b' : AddrBlock} {fit : Bool} (h : P b)
    (hcopy : copyAddrs rule src n b = .ok (b', fit)) : P b' := by
  induction src generalizing n b with
  | nil =>
    cases n with
    | zero =>
      cases hcopy
      exact h
    | succ n => cases hcopy
  | cons a src ih =>
    cases n with
    | zero =>
      cases hcopy
      exact h
    | succ n =>
      unfold copyAddrs at hcopy
      split at hcopy
      · cases hcopy
      · rename_i m r hm
        have hP := hadd b m a.addr a.type r h hm
        split at hcopy
        · cases hcopy
          exact hP
        · exact ih hP hcopy

/-- Whatever is copied and whether or not it fits, the record stays sound. -/
theorem copyAddrs_sound {src : List VsockaddrIn} {n : Nat} {b b' : AddrBlock} {fit : Bool}
    (h : b.Sound rule) (hcopy : copyAddrs rule src n b = .ok (b', fit)) : b'.Sound rule :=
  copyAddrs_invariant (P := fun b => b.Sound rule)
    (fun _ _ _ _ _ hb hadd => (addAddr_keeps hb hadd).1) h hcopy

variable (rule) in
/-- The list a record holds after the addresses of `l` were added one by one. -/
def putAddrs (m l : List VsockaddrIn) : List VsockaddrIn :=
  l.foldl (fun l a => putAddr rule l a.addr a.type) m

theorem hasAddr_putAddrs {m l : List VsockaddrIn} {a : SockaddrIn} :
    HasAddr (putAddrs rule m l) a ↔ HasAddr m a ∨ HasAddr l a := by
  induction l generalizing m with
  | nil => simp [putAddrs, HasAddr]
  | cons b l ih =>
    show HasAddr (putAddrs rule (putAddr rule m b.addr b.type) l) a ↔ _
    rw [ih, hasAddr_putAddr, or_assoc]
    have hcons : HasAddr (b :: l) a ↔ vsockaddrEqual b.addr a = true ∨ HasAddr l a := by
      simp [HasAddr]
    rw [hcons]

theorem not_hasAddr_of_pairwise {m l : List VsockaddrIn} {b : VsockaddrIn}
    (h : DistinctAddrs (m ++ b :: l)) : ¬ HasAddr m b.addr := by
  rintro ⟨x, hx, hxb⟩
  have hne := (List.pairwise_append.mp h).2.2 x hx b List.mem_cons_self
  rw [hne] at hxb
  cases hxb

theorem distinctAddrs_perm {l m : List VsockaddrIn} (h : l.Perm m) :
    DistinctAddrs l ↔ DistinctAddrs m := by
  apply h.pairwise_iff
  intro x y hxy
  by_contra hyx
  rw [Bool.not_eq_false] at hyx
  rw [vsockaddrEqual_symm hyx] at hxy
  cases hxy

theorem insertAddr_append_perm (key : UInt32 → UInt32) (b : VsockaddrIn) (m l : List VsockaddrIn) :
    (insertAddr key b m ++ l).Perm (m ++ b :: l) :=
  ((insertAddr_perm _ _ _).append_right l).trans List.perm_middle.symm

/-- The first of some new addresses goes to its place, and the others stay new. -/
theorem putAddrs_cons_new {m l : List VsockaddrIn} {b : VsockaddrIn}
    (h : DistinctAddrs (m ++ b :: l)) :
    putAddrs rule m (b :: l) = putAddrs rule (insertAddr rule.key b m) l ∧
      DistinctAddrs (insertAddr rule.key b m ++ l) := by
  have hput : putAddr rule m b.addr b.type = insertAddr rule.key b m := by
    rw [putAddr, findAddr_eq_none.mpr (not_hasAddr_of_pairwise h)]
  constructor
  · show putAddrs rule (putAddr rule m b.addr b.type) l = _
    rw [hput]
  · exact (distinctAddrs_perm (insertAddr_append_perm _ _ _ _)).mpr h

/-- Distinct addresses all find their place. -/
theorem putAddrs_perm {m l : List VsockaddrIn} (h : DistinctAddrs (m ++ l)) :
    (putAddrs rule m l).Perm (m ++ l) := by
  induction l generalizing m with
  | nil => simp [putAddrs]
  | cons b l ih =>
    obtain ⟨hput, hnext⟩ := @putAddrs_cons_new rule _ _ _ h
    rw [hput]
    exact (ih hnext).trans (insertAddr_append_perm _ _ _ _)

/-- The types never decrease along the list. -/
def SortedAddrs (key : UInt32 → UInt32) (l : List VsockaddrIn) : Prop :=
  l.Pairwise fun x y => key x.type ≤ key y.type

theorem insertAddr_last {key : UInt32 → UInt32} {m : List VsockaddrIn} {b : VsockaddrIn}
    (h : ∀ x ∈ m, key x.type ≤ key b.type) : insertAddr key b m = m ++ [b] := by
  rcases List.eq_nil_or_concat' m with rfl | ⟨l, a, rfl⟩
  · rfl
  · rw [insertAddr_concat, if_neg]
    exact UInt32.not_lt.mpr (h a (by simp))

theorem sortedAddrs_concat {key : UInt32 → UInt32} {l : List VsockaddrIn} {a : VsockaddrIn} :
    SortedAddrs key (l ++ [a]) ↔ SortedAddrs key l ∧ ∀ b ∈ l, key b.type ≤ key a.type := by
  simp only [SortedAddrs, List.pairwise_append, List.pairwise_singleton, List.mem_singleton,
    forall_eq, true_and]

/-- An address that is inserted leaves the order. -/
theorem sortedAddrs_insertAddr {key : UInt32 → UInt32} {new : VsockaddrIn} {l : List VsockaddrIn}
    (hl : SortedAddrs key l) : SortedAddrs key (insertAddr key new l) := by
  induction l using List.reverseRecOn with
  | nil => exact List.pairwise_singleton _ _
  | append_singleton l a ih =>
    obtain ⟨hl', hla⟩ := sortedAddrs_concat.mp hl
    rw [insertAddr_concat]
    split
    · rename_i hgt
      refine sortedAddrs_concat.mpr ⟨ih hl', fun b hb => ?_⟩
      rcases List.mem_cons.mp ((insertAddr_perm _ _ _).mem_iff.mp hb) with rfl | hb
      · exact UInt32.le_of_lt hgt
      · exact hla b hb
    · rename_i hle
      have hanew : key a.type ≤ key new.type := UInt32.not_lt.mp hle
      refine sortedAddrs_concat.mpr ⟨hl, fun b hb => ?_⟩
      rcases List.mem_append.mp hb with hb | hb
      · exact UInt32.le_trans (hla b hb) hanew
      · rw [List.mem_singleton.mp hb]
        exact hanew

/-- Distinct addresses that are added one by one end up in order. -/
theorem sortedAddrs_putAddrs {m l : List VsockaddrIn} (hd : DistinctAddrs (m ++ l))
    (hm : SortedAddrs rule.key m) : SortedAddrs rule.key (putAddrs rule m l) := by
  induction l generalizing m with
  | nil => exact hm
  | cons b l ih =>
    obtain ⟨hput, hnext⟩ := putAddrs_cons_new hd
    rw [hput]
    exact ih hnext (sortedAddrs_insertAddr hm)

/-- A sorted list of distinct addresses is copied as it is. -/
theorem putAddrs_sorted {m l : List VsockaddrIn} (hd : DistinctAddrs (m ++ l))
    (hs : SortedAddrs rule.key (m ++ l)) : putAddrs rule m l = m ++ l := by
  induction l generalizing m with
  | nil => simp [putAddrs]
  | cons b l ih =>
    have hlast : ∀ x ∈ m, rule.key x.type ≤ rule.key b.type := fun x hx =>
      (List.pairwise_append.mp hs).2.2 x hx b List.mem_cons_self
    have happ : m ++ [b] ++ l = m ++ b :: l := by simp
    obtain ⟨hput, hnext⟩ := @putAddrs_cons_new rule _ _ _ hd
    rw [insertAddr_last hlast] at hput hnext
    rw [hput, ih hnext (by rw [happ]; exact hs), happ]

end Vdht.NodeId
