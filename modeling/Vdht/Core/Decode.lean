import Vdht.Core.Tree
import Vdht.Lib.Decimal

/-!
# The bencode decoder

`be_decode`, over the memory object the buffer lies in. The cursor is the pair `*data` and
`*data_len`: the bytes of the object from the cursor on, and the number of bytes that are
promised to be left. A read behind the end of the object is a fault, and so is a string copy
with a length that is negative or runs behind the end.
-/

namespace Vdht.Core

open Lib

/-- `*data` and `*data_len`, which every function of the decoder moves on together. The bytes go on
behind the length, as those of a buffer do. -/
structure Cursor where
  data : List UInt8
  dataLen : Int

/-- `**data` -/
def deref : List UInt8 → Res UInt8
  | [] => .error .bounds
  | c :: _ => .ok c

/-- `--(*data_len); ++(*data);` -/
def Cursor.next (c : Cursor) : Cursor := ⟨c.data.tail, c.dataLen - 1⟩

/-- Go on with a result that is neither a fault nor `NULL` or `-1`. -/
def orRet {α β : Type} (x : Res (Option α)) (f : α → Res (Option β)) : Res (Option β) :=
  match x with
  | .error e => .error e
  | .ok none => .ok none
  | .ok (some a) => f a

/-- Go on with the byte at the cursor. -/
def onByte {β : Type} (c : Cursor) (f : UInt8 → Res (Option β)) : Res (Option β) :=
  match deref c.data with
  | .error e => .error e
  | .ok b => f b

/-- `_be_decode_int`: the number at the cursor as `strtol` reads it, narrowed to 32 bits. The length
goes down by what was read and may become negative; `none` is the return of `-1`. -/
def beDecodeInt (c : Cursor) : Res (Option (Int32 × Cursor)) :=
  match strtol c.data with
  | none => .error .bounds
  | some r =>
    if r.erange then .ok none
    else .ok (some (Int32.ofInt r.val, ⟨r.rest, c.dataLen - (c.data.length - r.rest.length)⟩))

/-- `memcpy(s, *data, len)`; a negative `len` is an enormous `size_t`. -/
def copyIn (data : List UInt8) (len : Int32) : Res (Option BeStr) :=
  if h : 0 ≤ len.toInt ∧ len.toInt ≤ data.length then
    .ok (some ⟨data.take len.toInt.toNat, by
      have hl := len.toInt_lt
      simp only [List.length_take]
      omega⟩)
  else .error .bounds

/-- `malloc(sizeof(int32_t) + len + 1)` is granted unless the sum, a `size_t`, has wrapped. -/
def Mallocable (len : Int32) : Prop := 0 ≤ 4 + len.toInt + 1

instance (len : Int32) : Decidable (Mallocable len) := inferInstanceAs (Decidable (_ ≤ _))

/-- `_be_decode_str`: a length, a colon and that many bytes. The length is compared with what is
left in front of the colon; `none` is the return of `-1`. -/
def beDecodeStr (c : Cursor) : Res (Option (BeStr × Cursor)) :=
  orRet (beDecodeInt c) fun (len, c) =>
    if len.toInt > c.dataLen - 1 then .ok none
    else
      onByte c fun b =>
        if b = ':'.toUInt8 then
          if Mallocable len then
            orRet (copyIn c.next.data len) fun s =>
              .ok (some (s, ⟨c.next.data.drop len.toInt.toNat, c.next.dataLen - len.toInt⟩))
          else .ok none
        else .ok none

/-- `i<digits>e` behind the `i`. -/
def beDecodeIntNode (c : Cursor) : Res (Option (BeNode × Cursor)) :=
  orRet (beDecodeInt c) fun (i, c) =>
    onByte c fun b => if b = 'e'.toUInt8 then .ok (some (.int i, c.next)) else .ok none

mutual

/-- `_be_decode`, which looks at the first byte. The fuel stands for the depth of the recursion and
the turns of its loops; `none` is the return of `-1`. -/
def beDecodeAux (fuel : Nat) (c : Cursor) : Res (Option (BeNode × Cursor)) :=
  match fuel with
  | 0 => .error .fuel
  | fuel + 1 =>
    if c.dataLen ≤ 0 then .error .assertion
    else
      onByte c fun b =>
        if b = 'l'.toUInt8 then
          orRet (beDecodeList fuel c.next) fun (l, c) => .ok (some (.list l, c))
        else if b = 'd'.toUInt8 then
          orRet (beDecodeDict fuel c.next) fun (d, c) => .ok (some (.dict d, c))
        else if b = 'i'.toUInt8 then beDecodeIntNode c.next
        else if isDigit b then
          orRet (beDecodeStr c) fun (s, c) => .ok (some (.str s, c))
        else .ok none
termination_by structural fuel

/-- `while (**data != 'e')` over the items of a list. -/
def beDecodeList (fuel : Nat) (c : Cursor) : Res (Option (List BeNode × Cursor)) :=
  match fuel with
  | 0 => .error .fuel
  | fuel + 1 =>
    onByte c fun b =>
      if b = 'e'.toUInt8 then .ok (some ([], c.next))
      else
        orRet (beDecodeAux fuel c) fun (node, c) =>
          orRet (beDecodeList fuel c) fun (l, c) => .ok (some (node :: l, c))
termination_by structural fuel

/-- `while (**data != 'e')` over the entries of a dictionary. -/
def beDecodeDict (fuel : Nat) (c : Cursor) : Res (Option (List (BeStr × BeNode) × Cursor)) :=
  match fuel with
  | 0 => .error .fuel
  | fuel + 1 =>
    onByte c fun b =>
      if b = 'e'.toUInt8 then .ok (some ([], c.next))
      else
        orRet (beDecodeStr c) fun (key, c) =>
          orRet (beDecodeAux fuel c) fun (node, c) =>
            orRet (beDecodeDict fuel c) fun (d, c) => .ok (some ((key, node) :: d, c))
termination_by structural fuel

end

/-- Each value and each turn of a loop takes one unit, and no two of them in a row leave the
cursor where it is. -/
def decodeFuel (mem : List UInt8) : Nat := 2 * mem.length + 2

/-- `be_decode(buf, len)` with the object `mem` at `buf`: the tree and the final cursor. -/
def beDecode (mem : List UInt8) (len : Int) : Res (Option (BeNode × Cursor)) :=
  beDecodeAux (decodeFuel mem) ⟨mem, len⟩

end Vdht.Core
