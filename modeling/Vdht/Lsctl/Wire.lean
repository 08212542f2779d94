import Vdht.NodeId.SrvcInfo

/-!
# Control messages

What the daemon (`vlsctl.c`) and its client (`vlsctlc.c`) have in common: the commands and the
fields both sides read. A message has eight bytes of head and then command blocks, each with an id,
the length of its content and the content. Fields are read at an offset of the object that holds
the message; a read behind its end is a fault.
-/

namespace Vdht.Lsctl

open Lib NodeId

/-- `VLSCTL_MAGIC`, with which every message of the control socket starts. -/
def VLSCTL_MAGIC : UInt32 := 0x10423373
/-- `VLSCTL_VERSION`, which every message has behind the magic number. -/
def VLSCTL_VERSION : UInt8 := 0x1

/-- The type of a message that brings commands. -/
def vlsctlCmdType : UInt16 := 0x0
/-- The type of a message that brings a query, which is answered. -/
def vlsctlReqType : UInt16 := 0x1
/-- The type of an answer. -/
def vlsctlRspSucc : UInt16 := 0x2
/-- The type of an answer that says that the query has failed. -/
def vlsctlRspErr : UInt16 := 0x3
/-- `vlsctl_raw`, the last of the types. -/
def vlsctlRaw : UInt16 := 0x4

/-- The commands of the control socket. -/
inductive VlsctlCmd where
  | hostUp
  | hostDown
  | hostExit
  | hostDump
  | cfgDump
  | joinNode
  | bogusQuery
  | postService
  | unpostService
  | findService
  | probeService
deriving DecidableEq, Repr

/-- The number of a command in a message. -/
def VlsctlCmd.id : VlsctlCmd → UInt16
  | .hostUp => 0x10
  | .hostDown => 0x11
  | .hostExit => 0x12
  | .hostDump => 0x13
  | .cfgDump => 0x20
  | .joinNode => 0x26
  | .bogusQuery => 0x25
  | .postService => 0x30
  | .unpostService => 0x31
  | .findService => 0x32
  | .probeService => 0x33

/-- The order of `lsctl_cmds`, and of the table of the client that packs them. -/
def lsctlCmds : List VlsctlCmd :=
  [.hostUp, .hostDown, .hostExit, .hostDump, .cfgDump, .joinNode, .bogusQuery, .postService,
    .unpostService, .findService, .probeService]

/-- The number of bytes of the hash of a service. -/
def VSRVCHASH_LEN : Nat := VTOKEN_LEN

/-- `VSRVCINFO_MAX_ADDRS` -/
def VSRVCINFO_MAX_ADDRS : Nat := 12

/-! ## Network order on a little-endian platform -/

/-- A 16 bit number between the order of the network and that of the machine. -/
def ntohs (x : UInt16) : UInt16 := x <<< 8 ||| x >>> 8

/-- The bytes swapped, as by `ntohs`. -/
def htons (x : UInt16) : UInt16 := ntohs x

/-- The bytes swapped, as by `ntohl`. -/
def htonl (x : UInt32) : UInt32 := ntohl x

@[simp] theorem htons_ntohs (x : UInt16) : htons (ntohs x) = x := by
  apply UInt16.toBitVec_inj.mp
  simp only [htons, ntohs, UInt16.toBitVec_or, UInt16.toBitVec_shiftLeft,
    UInt16.toBitVec_shiftRight, UInt16.toBitVec_ofNat]
  ext i hi
  simp
  grind

theorem byteMask_bit {i : Nat} (hi : i < 32) :
    (0xff00#32).getLsbD i = (decide (8 ≤ i) && decide (i < 16)) := by
  revert i
  decide

/-- Where `ntohl` takes a bit from. -/
theorem ntohl_bit (x : UInt32) {i : Nat} (hi : i < 32) :
    (ntohl x).toBitVec.getLsbD i = x.toBitVec.getLsbD
      (if i < 8 then i + 24 else if i < 16 then i + 8 else if i < 24 then i - 8 else i - 24) := by
  have h24 : (24#32 % 32).toNat = 24 := by decide
  have h8 : (8#32 % 32).toNat = 8 := by decide
  have hmask := byteMask_bit hi
  have hmask' := byteMask_bit (show i - 8 < 32 by omega)
  have hhigh : 32 ≤ 24 + i → x.toBitVec.getLsbD (24 + i) = false := BitVec.getLsbD_of_ge _ _
  simp only [ntohl, UInt32.toBitVec_or, UInt32.toBitVec_and, UInt32.toBitVec_shiftLeft,
    UInt32.toBitVec_shiftRight, UInt32.toBitVec_ofNat, BitVec.getLsbD_or, BitVec.getLsbD_and,
    BitVec.shiftLeft_eq', BitVec.getLsbD_shiftLeft, BitVec.ushiftRight_eq',
    BitVec.getLsbD_ushiftRight, h24, h8, hmask, hmask', hi]
  grind

@[simp] theorem htonl_ntohl (x : UInt32) : htonl (ntohl x) = x := by
  apply UInt32.toBitVec_inj.mp
  apply BitVec.eq_of_getLsbD_eq
  intro i hi
  rw [htonl, ntohl_bit _ hi, ntohl_bit _ (by grind)]
  congr 1
  grind

/-- The address family of IPv4. -/
def AF_INET : UInt16 := 2

/-- `vsockaddr_convert2` -/
def vsockaddrConvert2 (ip : UInt32) (port : UInt16) : SockaddrIn :=
  ⟨AF_INET, htons port, htonl ip, Block.zero 8⟩

/-- An address as the other side sees it. -/
def received (a : SockaddrIn) : SockaddrIn := { a with sin_zero := Block.zero 8 }

/-! ## Fields -/

/-- An access that has no room is outside the buffer. -/
def orBounds {α : Type} : Option α → Res α
  | some a => .ok a
  | none => .error .bounds

/-- `n` bytes at `off` belong to the object. -/
def readBytes (d : List UInt8) (off n : Nat) : Res (List UInt8) :=
  if off + n ≤ d.length then .ok ((d.drop off).take n) else .error .bounds

/-- A read of one byte at an offset. -/
def readU8 (d : List UInt8) (off : Nat) : Res UInt8 :=
  (readBytes d off 1).map fun s => s.headD 0

/-- A read of two bytes at an offset, in the order of the machine. -/
def readU16 (d : List UInt8) (off : Nat) : Res UInt16 := (readBytes d off 2).map getU16

/-- A read of four bytes at an offset, in the order of the machine. -/
def readU32 (d : List UInt8) (off : Nat) : Res UInt32 := (readBytes d off 4).map getU32

/-- A read of four bytes at an offset, as a signed number. -/
def readI32 (d : List UInt8) (off : Nat) : Res Int32 := (readBytes d off 4).map getI32

/-- `memcpy` of a hash out of a message. -/
def readHash (d : List UInt8) (off : Nat) : Res Token :=
  (readBytes d off VSRVCHASH_LEN).map (Block.ofList VTOKEN_LEN)

section Reading

variable {d : List UInt8} {off n : Nat}

theorem readBytes_ok (h : off + n ≤ d.length) : readBytes d off n = .ok ((d.drop off).take n) :=
  if_pos h

theorem readBytes_error (h : d.length < off + n) : readBytes d off n = .error .bounds :=
  if_neg (by omega)

theorem readU16_ok (h : off + 2 ≤ d.length) : readU16 d off = .ok (getU16 (d.drop off)) := by
  simp only [readU16, readBytes_ok h, Except.map, getU16, List.take_take, Nat.min_self]

theorem readU16_error (h : d.length < off + 2) : readU16 d off = .error .bounds := by
  rw [readU16, readBytes_error h]
  rfl

theorem readU32_ok (h : off + 4 ≤ d.length) : readU32 d off = .ok (getU32 (d.drop off)) := by
  simp only [readU32, readBytes_ok h, Except.map, getU32, List.take_take, Nat.min_self]

theorem readU32_error (h : d.length < off + 4) : readU32 d off = .error .bounds := by
  rw [readU32, readBytes_error h]
  rfl

theorem readI32_eq : readI32 d off = (readU32 d off).map UInt32.toInt32 := by
  rw [readI32, readU32]
  cases readBytes d off 4 with
  | error e => rfl
  | ok s => rfl

/-! ## What lies at an offset -/

/-- The object holds `bs` at `off`. -/
def HoldsAt (d : List UInt8) (off : Nat) (bs : List UInt8) : Prop :=
  off ≤ d.length ∧ bs <+: d.drop off

variable {bs cs : List UInt8}

theorem HoldsAt.le (h : HoldsAt d off bs) : off + bs.length ≤ d.length := by
  have hoff := h.1
  have hlen := h.2.length_le
  rw [List.length_drop] at hlen
  omega

theorem holdsAt_append : HoldsAt d off (bs ++ cs) ↔
    HoldsAt d off bs ∧ HoldsAt d (off + bs.length) cs := by
  constructor
  · intro h
    have hle := h.le
    obtain ⟨hoff, rest, hrest⟩ := h
    rw [List.append_assoc] at hrest
    rw [List.length_append] at hle
    refine ⟨⟨hoff, cs ++ rest, hrest⟩, by omega, rest, ?_⟩
    rw [← List.drop_drop, ← hrest, List.drop_left' rfl]
  · intro ⟨⟨hoff, rest, hrest⟩, ⟨_, rest', hrest'⟩⟩
    rw [← List.drop_drop, ← hrest, List.drop_left' rfl] at hrest'
    exact ⟨hoff, rest', by rw [List.append_assoc, hrest', hrest]⟩

theorem readBytes_at (h : HoldsAt d off bs) : readBytes d off bs.length = .ok bs := by
  rw [readBytes_ok h.le, ← List.prefix_iff_eq_take.mp h.2]

theorem readU16_at {x : UInt16} (h : HoldsAt d off (putU16 x)) : readU16 d off = .ok x := by
  have hread := readBytes_at h
  rw [length_putU16] at hread
  rw [readU16, hread]
  exact congrArg Except.ok (by simpa using getU16_put x [])

theorem readU32_at {x : UInt32} (h : HoldsAt d off (putU32 x)) : readU32 d off = .ok x := by
  have hread := readBytes_at h
  rw [length_putU32] at hread
  rw [readU32, hread]
  exact congrArg Except.ok (by simpa using getU32_put x [])

theorem readI32_at {x : Int32} (h : HoldsAt d off (putI32 x)) : readI32 d off = .ok x := by
  rw [readI32_eq, readU32_at h]
  exact congrArg Except.ok (UInt32.toInt32_ofBitVec _)

theorem readHash_at {x : Token} (h : HoldsAt d off x.data) : readHash d off = .ok x := by
  have hread := readBytes_at h
  rw [x.size] at hread
  rw [readHash, VSRVCHASH_LEN, hread]
  exact congrArg Except.ok (by simpa using Block.ofList_data x [])

theorem readU8_at {x : UInt8} (h : HoldsAt d off [x]) : readU8 d off = .ok x := by
  rw [readU8, show (1 : Nat) = [x].length from rfl, readBytes_at h]
  rfl

end Reading

end Vdht.Lsctl
