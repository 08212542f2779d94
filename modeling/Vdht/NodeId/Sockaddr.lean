import Vdht.Def
import Vdht.Lib.Bytes

/-!
# Socket addresses

`struct sockaddr_in` and `struct vsockaddr_in`. `sin_port` and `sin_addr` are kept as they lie
in memory; `sin_zero` travels with the structure but takes no part in comparisons.
-/

namespace Vdht.NodeId

open Lib

/-- `struct sockaddr_in`; port and host are in the order of the network. -/
structure SockaddrIn where
  sin_family : UInt16
  sin_port : UInt16
  sin_addr : UInt32
  sin_zero : Block 8
deriving DecidableEq

/-- `struct vsockaddr_in`: an address and what is known of it. -/
structure VsockaddrIn where
  addr : SockaddrIn
  type : UInt32
deriving DecidableEq

/-- The base type of an address of a network interface. -/
def VSOCKADDR_LOCAL : UInt32 := 0
/-- The base type of an address that a gateway maps to the node. -/
def VSOCKADDR_UPNP : UInt32 := 1
/-- The base type of an address that another node has seen. -/
def VSOCKADDR_REFLEXIVE : UInt32 := 2
/-- The base type of an address of a relay. -/
def VSOCKADDR_RELAY : UInt32 := 3
/-- The base type of an address of which nothing is known. -/
def VSOCKADDR_UNKNOWN : UInt32 := 4
/-- The number behind the last base type. -/
def VSOCKADDR_BUTT : UInt32 := 5

/-- `VSOCKADDR_TYPE`, the base type. -/
def vsockaddrType (type : UInt32) : UInt32 := 0x00ff &&& type

/-- `ntohl` on a little-endian platform. -/
def ntohl (x : UInt32) : UInt32 :=
  x <<< 24 ||| (x &&& (0xff00 : UInt32)) <<< 8 ||| (x >>> 8 &&& (0xff00 : UInt32)) ||| x >>> 24

/-- The classes of IPv4 addresses by their first bits. -/
inductive AddrClass where
  | a
  | b
  | c
  | d
  | e
deriving DecidableEq

/-- `_aux_sockaddr_class` -/
def auxSockaddrClass (haddr : UInt32) : AddrClass :=
  if haddr &&& 0x80000000 = 0 then .a
  else if haddr &&& 0x40000000 = 0 then .b
  else if haddr &&& 0x20000000 = 0 then .c
  else if haddr &&& 0x10000000 = 0 then .d
  else .e

/-- The private networks of three classes, as masks and patterns. -/
def privPatterns : List (AddrClass × UInt32 × UInt32) :=
  [(.a, 0xff000000, 0x0a000000), (.b, 0xfff00000, 0xac100000), (.c, 0xffff0000, 0xc0a80000)]

/-- `vsockaddr_is_private`: the address is in one of the private networks, whose class it has. -/
def vsockaddrIsPrivate (addr : SockaddrIn) : Bool :=
  let haddr := ntohl addr.sin_addr
  privPatterns.any fun (klass, mask, pattern) =>
    auxSockaddrClass haddr = klass && haddr &&& mask = pattern

/-- `vsockaddr_is_public`: the address is in none of the private networks. -/
def vsockaddrIsPublic (addr : SockaddrIn) : Bool := !vsockaddrIsPrivate addr

/-- `vsockaddr_equal`: family, host and port are the same; the zeros behind them are not looked at.
-/
def vsockaddrEqual (a b : SockaddrIn) : Bool :=
  if a.sin_family ≠ b.sin_family ∨ a.sin_addr ≠ b.sin_addr ∨ a.sin_port ≠ b.sin_port then false
  else true

theorem vsockaddrEqual_iff {a b : SockaddrIn} :
    vsockaddrEqual a b = true ↔
      a.sin_family = b.sin_family ∧ a.sin_addr = b.sin_addr ∧ a.sin_port = b.sin_port := by
  unfold vsockaddrEqual
  split
  · rename_i h
    simp only [Bool.false_eq_true, false_iff]
    rintro ⟨hf, ha, hp⟩
    rcases h with h | h | h
    · exact h hf
    · exact h ha
    · exact h hp
  · rename_i h
    simp only [not_or, not_not] at h
    simp [h]

@[simp] theorem vsockaddrEqual_refl (a : SockaddrIn) : vsockaddrEqual a a = true :=
  vsockaddrEqual_iff.mpr ⟨rfl, rfl, rfl⟩

theorem vsockaddrEqual_symm {a b : SockaddrIn} (h : vsockaddrEqual a b = true) :
    vsockaddrEqual b a = true := by
  obtain ⟨hf, ha, hp⟩ := vsockaddrEqual_iff.mp h
  exact vsockaddrEqual_iff.mpr ⟨hf.symm, ha.symm, hp.symm⟩

theorem vsockaddrEqual_trans {a b c : SockaddrIn} (hab : vsockaddrEqual a b = true)
    (hbc : vsockaddrEqual b c = true) : vsockaddrEqual a c = true := by
  obtain ⟨hf, ha, hp⟩ := vsockaddrEqual_iff.mp hab
  obtain ⟨hf', ha', hp'⟩ := vsockaddrEqual_iff.mp hbc
  exact vsockaddrEqual_iff.mpr ⟨hf.trans hf', ha.trans ha', hp.trans hp'⟩

/-- The list contains the address, up to `sin_zero`. -/
def HasAddr (l : List VsockaddrIn) (a : SockaddrIn) : Prop :=
  ∃ x ∈ l, vsockaddrEqual x.addr a = true

/-- No address occurs twice. -/
def DistinctAddrs (l : List VsockaddrIn) : Prop :=
  l.Pairwise fun x y => vsockaddrEqual x.addr y.addr = false

/-! ## `sockaddr_in` in memory -/

/-- The 16 bytes of an address in memory. -/
def sockaddrBytes (a : SockaddrIn) : List UInt8 :=
  putU16 a.sin_family ++ (putU16 a.sin_port ++ (putU32 a.sin_addr ++ a.sin_zero.data))

/-- The address that 16 bytes are. -/
def sockaddrOfBytes (s : List UInt8) : SockaddrIn where
  sin_family := getU16 s
  sin_port := getU16 (s.drop 2)
  sin_addr := getU32 (s.drop 4)
  sin_zero := Block.ofList 8 (s.drop 8)

/-- The 20 bytes of an address and its type in memory. -/
def vsockaddrBytes (a : VsockaddrIn) : List UInt8 := sockaddrBytes a.addr ++ putU32 a.type

/-- The address with its type that 20 bytes are. -/
def vsockaddrOfBytes (s : List UInt8) : VsockaddrIn where
  addr := sockaddrOfBytes s
  type := getU32 (s.drop 16)

/-- `sizeof(struct sockaddr_in)` -/
@[simp] theorem length_sockaddrBytes (a : SockaddrIn) : (sockaddrBytes a).length = 16 := by
  simp [sockaddrBytes]

/-- `sizeof(struct vsockaddr_in)` -/
@[simp] theorem length_vsockaddrBytes (a : VsockaddrIn) : (vsockaddrBytes a).length = 20 := by
  simp [vsockaddrBytes]

@[simp] theorem sockaddrOfBytes_append (a : SockaddrIn) (rest : List UInt8) :
    sockaddrOfBytes (sockaddrBytes a ++ rest) = a := by
  have h2 : (sockaddrBytes a ++ rest).drop 2 =
      putU16 a.sin_port ++ (putU32 a.sin_addr ++ (a.sin_zero.data ++ rest)) := by
    simp only [sockaddrBytes, List.append_assoc]
    exact List.drop_left' (length_putU16 _)
  have h4 : (sockaddrBytes a ++ rest).drop 4 = putU32 a.sin_addr ++ (a.sin_zero.data ++ rest) := by
    have hskip : (sockaddrBytes a ++ rest).drop 4 = ((sockaddrBytes a ++ rest).drop 2).drop 2 := by
      rw [List.drop_drop]
    rw [hskip, h2]
    exact List.drop_left' (length_putU16 _)
  have h8 : (sockaddrBytes a ++ rest).drop 8 = a.sin_zero.data ++ rest := by
    have hskip : (sockaddrBytes a ++ rest).drop 8 = ((sockaddrBytes a ++ rest).drop 4).drop 4 := by
      rw [List.drop_drop]
    rw [hskip, h4]
    exact List.drop_left' (length_putU32 _)
  unfold sockaddrOfBytes
  rw [h2, h4, h8, getU16_put, getU32_put, Block.ofList_data]
  simp only [sockaddrBytes, List.append_assoc, getU16_put]

@[simp] theorem vsockaddrOfBytes_append (a : VsockaddrIn) (rest : List UInt8) :
    vsockaddrOfBytes (vsockaddrBytes a ++ rest) = a := by
  have h16 : (vsockaddrBytes a ++ rest).drop 16 = putU32 a.type ++ rest := by
    simp only [vsockaddrBytes, List.append_assoc]
    exact List.drop_left' (length_sockaddrBytes _)
  unfold vsockaddrOfBytes
  rw [h16, getU32_put]
  simp only [vsockaddrBytes, List.append_assoc, sockaddrOfBytes_append]

/-- Any 20 bytes are an address. -/
theorem exists_vsockaddrBytes {l : List UInt8} (h : l.length = 20) :
    ∃ a, vsockaddrBytes a = l := by
  obtain ⟨family, hfamily⟩ := @exists_putU16 (l.take 2) (by simp [h])
  obtain ⟨port, hport⟩ := @exists_putU16 ((l.drop 2).take 2) (by simp [h])
  obtain ⟨addr, haddr⟩ := @exists_putU32 ((l.drop 4).take 4) (by simp [h])
  obtain ⟨type, htype⟩ := @exists_putU32 (l.drop 16) (by simp [h])
  refine ⟨⟨⟨family, port, addr, ⟨(l.drop 8).take 8, by simp [h]⟩⟩, type⟩, ?_⟩
  have h8 : (l.drop 8).take 8 ++ l.drop 16 = l.drop 8 := by
    rw [← List.drop_drop (i := 8) (j := 8), List.take_append_drop]
  have h4 : (l.drop 4).take 4 ++ l.drop 8 = l.drop 4 := by
    rw [← List.drop_drop (i := 4) (j := 4), List.take_append_drop]
  have h2 : (l.drop 2).take 2 ++ l.drop 4 = l.drop 2 := by
    rw [← List.drop_drop (i := 2) (j := 2), List.take_append_drop]
  simp only [vsockaddrBytes, sockaddrBytes, hfamily, hport, haddr, htype, List.append_assoc]
  rw [h8, h4, h2, List.take_append_drop]

end Vdht.NodeId
