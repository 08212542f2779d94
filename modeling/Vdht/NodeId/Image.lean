import Vdht.NodeId.NodeInfo
import Vdht.NodeId.SrvcInfo

/-!
# Records in memory

The bytes of `struct vnodeInfo` and `struct vsrvcInfo`. Both start with 44 bytes of their own,
followed by `naddrs`, `capc` and the addresses, without padding. A message carries the front
part of a record, up to its last used address; the receiver copies these bytes over the front
of a cleared record with room for twelve addresses and reads the fields from there.
-/

namespace Vdht.NodeId

open Lib

/-- `sizeof(vnodeInfo_relax)`, which is also `sizeof(vsrvcInfo_relax)`. -/
def RELAX_SIZE : Nat := 288

/-- The bytes in front of `naddrs`. -/
def HEAD_SIZE : Nat := 44

/-! ## The addresses -/

/-- The two numbers and all slots, as they are in memory. -/
def addrBlockBytes (b : AddrBlock) : List UInt8 :=
  putI16 (Int16.ofInt b.naddrs) ++ (putI16 (Int16.ofInt b.capc) ++ b.addrs.flatMap vsockaddrBytes)

/-- The first `k` addresses of an array. -/
def readAddrs : Nat → List UInt8 → List VsockaddrIn
  | 0, _ => []
  | k + 1, s => vsockaddrOfBytes s :: readAddrs k (s.drop 20)

/-- The numbers that the bytes begin with, and the twelve slots of the fixed form behind them. -/
def addrBlockOfBytes (s : List UInt8) : AddrBlock where
  naddrs := (getI16 s).toInt
  capc := (getI16 (s.drop 2)).toInt
  addrs := readAddrs MAX_ADDRS.toNat (s.drop 4)

@[simp] theorem length_readAddrs (k : Nat) (s : List UInt8) : (readAddrs k s).length = k := by
  induction k generalizing s with
  | zero => rfl
  | succ k ih => simp [readAddrs, ih]

theorem length_flatMap_bytes (l : List VsockaddrIn) :
    (l.flatMap vsockaddrBytes).length = 20 * l.length := by
  induction l with
  | nil => rfl
  | cons a l ih =>
    rw [List.flatMap_cons, List.length_append, length_vsockaddrBytes, ih, List.length_cons]
    omega

/-- The size of a record, with all addresses that are allocated. -/
theorem length_recordBytes {head : List UInt8} (hh : head.length = HEAD_SIZE) (b : AddrBlock) :
    (head ++ addrBlockBytes b).length = 48 + 20 * b.addrs.length := by
  simp only [addrBlockBytes, List.length_append, length_putI16, length_flatMap_bytes, hh,
    HEAD_SIZE]
  omega

theorem readAddrs_bytes (l : List VsockaddrIn) (k : Nat) (rest : List UInt8) :
    readAddrs (l.length + k) (l.flatMap vsockaddrBytes ++ rest) = l ++ readAddrs k rest := by
  induction l with
  | nil =>
    rw [List.length_nil, Nat.zero_add]
    rfl
  | cons a l ih =>
    have hlen : (a :: l).length + k = (l.length + k) + 1 := by
      rw [List.length_cons]
      omega
    rw [hlen, List.flatMap_cons, List.append_assoc, readAddrs, vsockaddrOfBytes_append,
      List.drop_left' (length_vsockaddrBytes a), ih, List.cons_append]

/-! ## The part that is sent -/

/-- A record that a message can carry: its fields fit their types and its addresses are there. -/
structure AddrBlock.Sendable (b : AddrBlock) : Prop where
  naddrs_nonneg : 0 ≤ b.naddrs
  naddrs_le : b.naddrs ≤ MAX_ADDRS
  stored : b.naddrs ≤ b.addrs.length
  capc_ge : -2 ^ 15 ≤ b.capc
  capc_lt : b.capc < 2 ^ 15

/-- The bytes of a record up to its last used address. -/
def frontBytes (head : List UInt8) (b : AddrBlock) : List UInt8 :=
  head ++ (putI16 (Int16.ofInt b.naddrs) ++
    (putI16 (Int16.ofInt b.capc) ++ b.used.flatMap vsockaddrBytes))

namespace AddrBlock.Sendable

variable {b : AddrBlock} (h : b.Sendable)
include h

theorem length_used : (b.used.length : Int) = b.naddrs := by
  have h0 := h.naddrs_nonneg
  have hst := h.stored
  simp only [AddrBlock.used, List.length_take]
  omega

theorem length_front {head : List UInt8} (hh : head.length = HEAD_SIZE) :
    ((frontBytes head b).length : Int) = 48 + b.naddrs * 20 := by
  have hused := h.length_used
  simp only [frontBytes, List.length_append, length_putI16, length_flatMap_bytes, hh, HEAD_SIZE]
  omega

/-- The front part is what the size of the record cuts off its bytes. -/
theorem take_bytes {head : List UInt8} (hh : head.length = HEAD_SIZE) :
    (head ++ addrBlockBytes b).take (48 + b.naddrs * 20).toNat = frontBytes head b := by
  have hlen := h.length_front hh
  have hsplit : head ++ addrBlockBytes b =
      frontBytes head b ++ (b.addrs.drop b.naddrs.toNat).flatMap vsockaddrBytes := by
    have haddrs : b.addrs.flatMap vsockaddrBytes = b.used.flatMap vsockaddrBytes ++
        (b.addrs.drop b.naddrs.toNat).flatMap vsockaddrBytes := by
      rw [← List.flatMap_append, b.used_append]
    simp only [frontBytes, addrBlockBytes, haddrs, List.append_assoc]
  rw [hsplit]
  exact List.take_left' (by omega)

theorem bytes_long (head : List UInt8) (hh : head.length = HEAD_SIZE) :
    (48 + b.naddrs * 20 : Int) ≤ (head ++ addrBlockBytes b).length := by
  have h0 := h.naddrs_nonneg
  have hst := h.stored
  rw [length_recordBytes hh]
  omega

/-- Reading the fields back. -/
theorem read_front {head : List UInt8} (hh : head.length = HEAD_SIZE) (rest : List UInt8) :
    addrBlockOfBytes ((frontBytes head b ++ rest).drop HEAD_SIZE) =
      ⟨b.naddrs, b.capc, b.used ++ readAddrs (MAX_ADDRS - b.naddrs).toNat rest⟩ := by
  have h0 := h.naddrs_nonneg
  have hmax := h.naddrs_le
  have hused := h.length_used
  have hdrop : (frontBytes head b ++ rest).drop HEAD_SIZE =
      putI16 (Int16.ofInt b.naddrs) ++ (putI16 (Int16.ofInt b.capc) ++
        (b.used.flatMap vsockaddrBytes ++ rest)) := by
    simp only [frontBytes, List.append_assoc]
    exact List.drop_left' hh
  have h2 : ∀ x y : List UInt8, (putI16 (Int16.ofInt b.naddrs) ++ (x ++ y)).drop 2 = x ++ y :=
    fun x y => List.drop_left' (length_putI16 _)
  have h4 : ∀ y : List UInt8, (putI16 (Int16.ofInt b.naddrs) ++
      (putI16 (Int16.ofInt b.capc) ++ y)).drop 4 = y := by
    intro y
    rw [← List.append_assoc]
    exact List.drop_left' (by simp)
  have hmaxval : MAX_ADDRS = 12 := rfl
  have hcount : MAX_ADDRS.toNat = b.used.length + (MAX_ADDRS - b.naddrs).toNat := by omega
  rw [hdrop]
  unfold addrBlockOfBytes
  rw [getI16_put, h2, getI16_put, h4, hcount, readAddrs_bytes,
    Int16.toInt_ofInt_of_le (by omega) (by omega),
    Int16.toInt_ofInt_of_le h.capc_ge h.capc_lt]

end AddrBlock.Sendable

/-! ## Node infos -/

/-- Id, version and weight. -/
def vnodeInfoHead (n : VnodeInfo) : List UInt8 := n.id.data ++ (n.ver.data ++ putI32 n.weight)

/-- A node info as it is in memory, of which a message takes as many bytes as the record says it
has. -/
def vnodeInfoBytes (n : VnodeInfo) : List UInt8 := vnodeInfoHead n ++ addrBlockBytes n.toAddrBlock

/-- The node info of the fixed form that the bytes are, whatever numbers they have. -/
def vnodeInfoOfBytes (s : List UInt8) : VnodeInfo where
  toAddrBlock := addrBlockOfBytes (s.drop HEAD_SIZE)
  id := Block.ofList VTOKEN_LEN s
  ver := Block.ofList VTOKEN_LEN (s.drop 20)
  weight := getI32 (s.drop 40)

@[simp] theorem length_vnodeInfoHead (n : VnodeInfo) : (vnodeInfoHead n).length = HEAD_SIZE := by
  simp [vnodeInfoHead, HEAD_SIZE, VTOKEN_LEN]

/-- The bytes of a node info that a message carries. -/
def vnodeInfoFront (n : VnodeInfo) : List UInt8 := frontBytes (vnodeInfoHead n) n.toAddrBlock

/-- The fields of a received record are those of the one that was sent. -/
structure SameNode (n m : VnodeInfo) : Prop where
  id : n.id = m.id
  ver : n.ver = m.ver
  weight : n.weight = m.weight
  naddrs : n.naddrs = m.naddrs
  capc : n.capc = m.capc
  used : n.used = m.used

theorem used_of_append {k c : Int} {l rest : List VsockaddrIn} (h : (l.length : Int) = k) :
    AddrBlock.used ⟨k, c, l ++ rest⟩ = l :=
  List.take_left' (by dsimp only; omega)

theorem vnodeInfoOfBytes_front {n : VnodeInfo} (h : n.Sendable) (rest : List UInt8) :
    SameNode (vnodeInfoOfBytes (vnodeInfoFront n ++ rest)) n := by
  have hread := h.read_front (length_vnodeInfoHead n) rest
  have hhead : ∃ tail, vnodeInfoFront n ++ rest =
      n.id.data ++ (n.ver.data ++ (putI32 n.weight ++ tail)) := by
    refine ⟨putI16 (Int16.ofInt n.naddrs) ++ (putI16 (Int16.ofInt n.capc) ++
      (n.used.flatMap vsockaddrBytes ++ rest)), ?_⟩
    simp only [vnodeInfoFront, frontBytes, vnodeInfoHead, List.append_assoc]
  obtain ⟨tail, htail⟩ := hhead
  have h20 : (vnodeInfoFront n ++ rest).drop 20 = n.ver.data ++ (putI32 n.weight ++ tail) := by
    rw [htail]
    exact List.drop_left' n.id.size
  have h40 : (vnodeInfoFront n ++ rest).drop 40 = putI32 n.weight ++ tail := by
    have hskip : (vnodeInfoFront n ++ rest).drop 40 =
        ((vnodeInfoFront n ++ rest).drop 20).drop 20 := by
      rw [List.drop_drop]
    rw [hskip, h20]
    exact List.drop_left' n.ver.size
  unfold vnodeInfoOfBytes
  unfold vnodeInfoFront at hread h20 h40 htail ⊢
  rw [hread, h20, h40, getI32_put, Block.ofList_data, htail, Block.ofList_data]
  exact ⟨rfl, rfl, rfl, rfl, rfl, used_of_append h.length_used⟩

/-! ## Service infos -/

/-- Hash, host, load and protocol. -/
def vsrvcInfoHead (s : VsrvcInfo) : List UInt8 :=
  s.hash.data ++ (s.hostid.data ++ (putI16 s.nice ++ putI16 s.proto))

/-- A service info as it is in memory, of which a message takes as many bytes as the record says it
has. -/
def vsrvcInfoBytes (s : VsrvcInfo) : List UInt8 := vsrvcInfoHead s ++ addrBlockBytes s.toAddrBlock

/-- The service info of the fixed form that the bytes are, whatever numbers they have. -/
def vsrvcInfoOfBytes (s : List UInt8) : VsrvcInfo where
  toAddrBlock := addrBlockOfBytes (s.drop HEAD_SIZE)
  hash := Block.ofList VTOKEN_LEN s
  hostid := Block.ofList VTOKEN_LEN (s.drop 20)
  nice := getI16 (s.drop 40)
  proto := getI16 (s.drop 42)

@[simp] theorem length_vsrvcInfoHead (s : VsrvcInfo) : (vsrvcInfoHead s).length = HEAD_SIZE := by
  simp [vsrvcInfoHead, HEAD_SIZE, VTOKEN_LEN]

/-- The bytes of a service info that a message carries. -/
def vsrvcInfoFront (s : VsrvcInfo) : List UInt8 := frontBytes (vsrvcInfoHead s) s.toAddrBlock

/-- The service infos agree in all but the slots behind their addresses. -/
structure SameSrvc (s t : VsrvcInfo) : Prop where
  hash : s.hash = t.hash
  hostid : s.hostid = t.hostid
  nice : s.nice = t.nice
  proto : s.proto = t.proto
  naddrs : s.naddrs = t.naddrs
  capc : s.capc = t.capc
  used : s.used = t.used

theorem vsrvcInfoOfBytes_front {s : VsrvcInfo} (h : s.Sendable) (rest : List UInt8) :
    SameSrvc (vsrvcInfoOfBytes (vsrvcInfoFront s ++ rest)) s := by
  have hread := h.read_front (length_vsrvcInfoHead s) rest
  have hhead : ∃ tail, vsrvcInfoFront s ++ rest =
      s.hash.data ++ (s.hostid.data ++ (putI16 s.nice ++ (putI16 s.proto ++ tail))) := by
    refine ⟨putI16 (Int16.ofInt s.naddrs) ++ (putI16 (Int16.ofInt s.capc) ++
      (s.used.flatMap vsockaddrBytes ++ rest)), ?_⟩
    simp only [vsrvcInfoFront, frontBytes, vsrvcInfoHead, List.append_assoc]
  obtain ⟨tail, htail⟩ := hhead
  have h20 : (vsrvcInfoFront s ++ rest).drop 20 =
      s.hostid.data ++ (putI16 s.nice ++ (putI16 s.proto ++ tail)) := by
    rw [htail]
    exact List.drop_left' s.hash.size
  have h40 : (vsrvcInfoFront s ++ rest).drop 40 = putI16 s.nice ++ (putI16 s.proto ++ tail) := by
    have hskip : (vsrvcInfoFront s ++ rest).drop 40 =
        ((vsrvcInfoFront s ++ rest).drop 20).drop 20 := by
      rw [List.drop_drop]
    rw [hskip, h20]
    exact List.drop_left' s.hostid.size
  have h42 : (vsrvcInfoFront s ++ rest).drop 42 = putI16 s.proto ++ tail := by
    have hskip : (vsrvcInfoFront s ++ rest).drop 42 =
        ((vsrvcInfoFront s ++ rest).drop 40).drop 2 := by
      rw [List.drop_drop]
    rw [hskip, h40]
    exact List.drop_left' (length_putI16 _)
  unfold vsrvcInfoOfBytes
  unfold vsrvcInfoFront at hread h20 h40 h42 htail ⊢
  rw [hread, h20, h40, h42, getI16_put, getI16_put, Block.ofList_data, htail, Block.ofList_data]
  exact ⟨rfl, rfl, rfl, rfl, rfl, rfl, used_of_append h.length_used⟩

/-! ## Strings that are the front part of a record -/

theorem exists_addrs {k : Nat} {l : List UInt8} (h : l.length = 20 * k) :
    ∃ addrs : List VsockaddrIn, addrs.length = k ∧ addrs.flatMap vsockaddrBytes = l := by
  induction k generalizing l with
  | zero =>
    have hnil : l = [] := List.length_eq_zero_iff.mp (by omega)
    exact ⟨[], rfl, hnil.symm⟩
  | succ k ih =>
    obtain ⟨a, ha⟩ := @exists_vsockaddrBytes (l.take 20) (by simp; omega)
    obtain ⟨addrs, hlen, haddrs⟩ := @ih (l.drop 20) (by simp; omega)
    refine ⟨a :: addrs, by simp [hlen], ?_⟩
    rw [List.flatMap_cons, ha, haddrs, List.take_append_drop]

/-- A string of the size that goes with the number of addresses it states. -/
theorem exists_front {s rest : List UInt8} {b : AddrBlock}
    (hb : addrBlockOfBytes ((s ++ rest).drop HEAD_SIZE) = b)
    (hlen : (s.length : Int) = 48 + b.naddrs * 20) (h0 : 0 ≤ b.naddrs)
    (hmax : b.naddrs ≤ MAX_ADDRS) :
    ∃ c : AddrBlock, c.Sendable ∧ c.naddrs = b.naddrs ∧ s = frontBytes (s.take HEAD_SIZE) c := by
  have hmaxval : MAX_ADDRS = 12 := rfl
  have hdrop : (s.drop HEAD_SIZE).length = 4 + 20 * b.naddrs.toNat := by
    rw [List.length_drop, HEAD_SIZE]
    omega
  generalize htail : s.drop HEAD_SIZE = tail at hdrop
  obtain ⟨x, hx⟩ := @exists_putI16 (tail.take 2) (by simp; omega)
  obtain ⟨c, hc⟩ := @exists_putI16 ((tail.drop 2).take 2) (by simp; omega)
  obtain ⟨addrs, haddrs, hbytes⟩ := @exists_addrs b.naddrs.toNat (tail.drop 4) (by simp; omega)
  have htail' : tail = putI16 x ++ (putI16 c ++ addrs.flatMap vsockaddrBytes) := by
    have h4 : (tail.drop 2).take 2 ++ tail.drop 4 = tail.drop 2 := by
      rw [← List.drop_drop (i := 2) (j := 2), List.take_append_drop]
    rw [hx, hc, hbytes, h4, List.take_append_drop]
  have hnaddrs : x.toInt = b.naddrs := by
    have hread := congrArg AddrBlock.naddrs hb
    unfold addrBlockOfBytes at hread
    rw [List.drop_append_of_le_length (by rw [HEAD_SIZE]; omega), htail, htail',
      List.append_assoc, getI16_put] at hread
    exact hread
  have hused : AddrBlock.used ⟨x.toInt, c.toInt, addrs⟩ = addrs :=
    List.take_of_length_le (by dsimp only; omega)
  refine ⟨⟨x.toInt, c.toInt, addrs⟩, ⟨?_, ?_, ?_, c.le_toInt, c.toInt_lt⟩, hnaddrs, ?_⟩
  · dsimp only
    omega
  · dsimp only
    omega
  · dsimp only
    omega
  · unfold frontBytes
    rw [hused]
    dsimp only
    rw [Int16.ofInt_toInt, Int16.ofInt_toInt, ← htail', ← htail, List.take_append_drop]

/-- The string is the front part of a node info with at least one address. -/
theorem exists_vnodeInfoFront {s rest : List UInt8} {n : VnodeInfo}
    (hn : vnodeInfoOfBytes (s ++ rest) = n) (hlen : (s.length : Int) = vnodeInfoSize n)
    (hpos : 1 ≤ n.naddrs) (hmax : n.naddrs ≤ MAX_ADDRS) :
    ∃ m : VnodeInfo, m.Sendable ∧ 1 ≤ m.naddrs ∧ s = vnodeInfoFront m := by
  have hlong : 44 ≤ s.length := by
    unfold vnodeInfoSize VNODEINFO_HEADER at hlen
    omega
  obtain ⟨c, hc, hnaddrs, hs⟩ := exists_front (congrArg VnodeInfo.toAddrBlock hn) hlen
    (by omega) hmax
  obtain ⟨weight, hw⟩ := @exists_putI32 ((s.drop 40).take 4) (by simp; omega)
  refine ⟨⟨c, ⟨s.take 20, by rw [VTOKEN_LEN]; simp; omega⟩,
    ⟨(s.drop 20).take 20, by rw [VTOKEN_LEN]; simp; omega⟩, weight⟩, hc, ?_, ?_⟩
  · show 1 ≤ c.naddrs
    omega
  · have hhead : s.take HEAD_SIZE =
        s.take 20 ++ ((s.drop 20).take 20 ++ putI32 weight) := by
      rw [hw, HEAD_SIZE, ← List.drop_drop (i := 20) (j := 20), ← List.take_add,
        ← List.take_add]
    rw [hhead] at hs
    exact hs

theorem exists_vsrvcInfoFront {s rest : List UInt8} {t : VsrvcInfo}
    (ht : vsrvcInfoOfBytes (s ++ rest) = t) (hlen : (s.length : Int) = vsrvcInfoSize t)
    (hpos : 1 ≤ t.naddrs) (hmax : t.naddrs ≤ MAX_ADDRS) :
    ∃ u : VsrvcInfo, u.Sendable ∧ 1 ≤ u.naddrs ∧ s = vsrvcInfoFront u := by
  have hlong : 44 ≤ s.length := by
    unfold vsrvcInfoSize VSRVCINFO_HEADER at hlen
    omega
  obtain ⟨c, hc, hnaddrs, hs⟩ := exists_front (congrArg VsrvcInfo.toAddrBlock ht) hlen
    (by omega) hmax
  obtain ⟨nice, hnice⟩ := @exists_putI16 ((s.drop 40).take 2) (by simp; omega)
  obtain ⟨proto, hproto⟩ := @exists_putI16 ((s.drop 42).take 2) (by simp; omega)
  refine ⟨⟨c, ⟨s.take 20, by rw [VTOKEN_LEN]; simp; omega⟩,
    ⟨(s.drop 20).take 20, by rw [VTOKEN_LEN]; simp; omega⟩, nice, proto⟩, hc, ?_, ?_⟩
  · show 1 ≤ c.naddrs
    omega
  · have hhead : s.take HEAD_SIZE =
        s.take 20 ++ ((s.drop 20).take 20 ++ (putI16 nice ++ putI16 proto)) := by
      have h40 : (s.drop 40).take 2 ++ (s.drop 42).take 2 = (s.drop 40).take 4 := by
        rw [← List.drop_drop (i := 2) (j := 40), ← List.take_add]
      rw [hnice, hproto, h40, HEAD_SIZE, ← List.drop_drop (i := 20) (j := 20), ← List.take_add,
        ← List.take_add]
    rw [hhead] at hs
    exact hs

end Vdht.NodeId
