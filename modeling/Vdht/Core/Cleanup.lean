import Vdht.Core.Decode
import Vdht.Lib.Heap

/-!
# The decoder and the blocks it allocates

`_be_decode` once more, with the blocks of the nodes, of their strings and of the arrays of lists
and dictionaries. An array is enlarged before an item is decoded, and what `realloc` adds to it
holds anything until it is written. On an error the node that is not complete yet is handed to
`be_free`, which walks an array up to its first NULL.
-/

namespace Vdht.Core

open Lib

/-- A `char*` to the bytes of a string or of a key, behind their length. -/
inductive StrRef where
  | null
  /-- what was never written -/
  | wild
  | block (id : Nat) (s : BeStr)

/-- A `struct be_node*`. -/
inductive BeRef where
  | null
  /-- what was never written -/
  | wild
  | str (id : Nat) (s : StrRef)
  | int (id : Nat) (i : Int32)
  | list (id : Nat) (array : Option Nat) (slots : List BeRef)
  | dict (id : Nat) (array : Option Nat) (entries : List (StrRef × BeRef))

/-- The test of a pointer against `NULL`, which a meaningless pointer passes. -/
def BeRef.isNull : BeRef → Bool
  | .null => true
  | _ => false

/-! ## Releasing -/

/-- `free` of a block that is not live has no meaning. -/
def release (b : Nat) (h : Heap) : Res Heap :=
  match h.free b with
  | none => .error .null
  | some h => .ok h

/-- `free(unoff_addr(s, sizeof(int32_t)))` -/
def freeStr (s : StrRef) (h : Heap) : Res Heap :=
  match s with
  | .block id _ => release id h
  | _ => .error .null

mutual

/-- `be_free`: the blocks below the node are released before its own. A null pointer fails the
assertion, and a meaningless one faults. -/
def beFree (node : BeRef) (h : Heap) : Res Heap :=
  match node with
  | .null => .error .assertion
  | .wild => .error .null
  | .str id s => freeStr s h >>= release id
  | .int id _ => release id h
  | .list id (some a) slots => freeSlots slots h >>= release a >>= release id
  | .dict id (some a) entries => freeEntries entries h >>= release a >>= release id
  | .list _ none _ => .error .null
  | .dict _ none _ => .error .null
termination_by structural node

/-- `for (; node->val.l[i]; ++i)` -/
def freeSlots (slots : List BeRef) (h : Heap) : Res Heap :=
  match slots with
  | [] => .error .bounds
  | r :: slots => if r.isNull then .ok h else beFree r h >>= freeSlots slots
termination_by structural slots

/-- `for (; node->val.d[i].val; ++i)` -/
def freeEntries (entries : List (StrRef × BeRef)) (h : Heap) : Res Heap :=
  match entries with
  | [] => .error .bounds
  | e :: entries => if e.2.isNull then .ok h else freeEntry e h >>= freeEntries entries
termination_by structural entries

/-- One turn of the loop over a dictionary: the key is released, then the value. -/
def freeEntry (e : StrRef × BeRef) (h : Heap) : Res Heap :=
  match e with
  | (key, val) => freeStr key h >>= beFree val
termination_by structural e

end

/-! ## Arrays -/

/-- What the slots of a new block hold that nothing was written to yet. -/
structure Junk where
  key : Nat → Nat → StrRef
  node : Nat → Nat → BeRef

/-- `realloc`; a block that is not there yet is allocated. -/
def reallocBlock (array : Option Nat) (h : Heap) : Res (Nat × Heap) :=
  match array with
  | none => .ok (h.next, h.alloc)
  | some a => release a h >>= fun h => .ok (h.next, h.alloc)

/-- The first `n` slots after a `realloc`. -/
def regrow {α : Type} (slots : List α) (n : Nat) (fill : Nat → α) : List α :=
  slots.take n ++ (List.range' slots.length (n - slots.length)).map fill

/-- `node->val.d[i].key = key` -/
def setKey (entries : List (StrRef × BeRef)) (i : Nat) (key : StrRef) :
    Res (List (StrRef × BeRef)) :=
  getSlot entries i >>= fun e => setSlot entries i (key, e.2)

/-- `node->val.d[i].val = val` -/
def setVal (entries : List (StrRef × BeRef)) (i : Nat) (val : BeRef) :
    Res (List (StrRef × BeRef)) :=
  getSlot entries i >>= fun e => setSlot entries i (e.1, val)

/-! ## Decoding -/

/-- What a call returns, `none` for NULL, and the heap it leaves. -/
abbrev MemRet (α : Type) := Option (α × Cursor) × Heap

/-- `ret1E_p(.., be_free(node))` -/
def cleanup (node : BeRef) (h : Heap) : Res (MemRet BeRef) :=
  beFree node h >>= fun h => .ok (none, h)

/-- `_be_decode_str` -/
def decodeStrRef (c : Cursor) (h : Heap) : Res (MemRet StrRef) :=
  beDecodeStr c >>= fun
    | none => .ok (none, h)
    | some (s, c) => .ok (some (.block h.next s, c), h.alloc)

/-- `i<digits>e` behind the `i`, for the node `id`. -/
def decodeIntRef (id : Nat) (c : Cursor) (h : Heap) : Res (MemRet BeRef) :=
  beDecodeInt c >>= fun
    | none => cleanup (.int id 0) h
    | some (i, c) =>
      deref c.data >>= fun b =>
        if b = 'e'.toUInt8 then .ok (some (.int id i, c.next), h) else cleanup (.int id i) h

variable (junk : Junk)

mutual

/-- `_be_decode` -/
def decodeRef (fuel : Nat) (c : Cursor) (h : Heap) : Res (MemRet BeRef) :=
  match fuel with
  | 0 => .error .fuel
  | fuel + 1 =>
    if c.dataLen ≤ 0 then .error .assertion
    else
      deref c.data >>= fun b =>
        if b = 'l'.toUInt8 then decodeSlots fuel h.next 0 none [] c.next h.alloc
        else if b = 'd'.toUInt8 then decodeEntries fuel h.next 0 none [] c.next h.alloc
        else if b = 'i'.toUInt8 then decodeIntRef h.next c.next h.alloc
        else if isDigit b then
          decodeStrRef c h.alloc >>= fun
            | (none, heap) => cleanup (.str h.next .null) heap
            | (some (s, c), heap) => .ok (some (.str h.next s, c), heap)
        else .ok (none, h)
termination_by structural fuel

/-- The loop over a list whose node is `id`, behind `i` items. -/
def decodeSlots (fuel : Nat) (id i : Nat) (array : Option Nat) (slots : List BeRef) (c : Cursor)
    (h : Heap) : Res (MemRet BeRef) :=
  match fuel with
  | 0 => .error .fuel
  | fuel + 1 =>
    deref c.data >>= fun b =>
      if b = 'e'.toUInt8 then
        if i = 0 then
          reallocBlock array h >>= fun (a, h) =>
            setSlot (regrow slots 1 (junk.node a)) i .null >>= fun slots =>
              .ok (some (.list id (some a) slots, c.next), h)
        else
          setSlot slots i .null >>= fun slots => .ok (some (.list id array slots, c.next), h)
      else
        reallocBlock array h >>= fun (a, h) =>
          decodeRef fuel c h >>= fun
            | (none, h) =>
              setSlot (regrow slots (i + 2) (junk.node a)) i .null >>= fun slots =>
                cleanup (.list id (some a) slots) h
            | (some (r, c), h) =>
              setSlot (regrow slots (i + 2) (junk.node a)) i r >>= fun slots =>
                decodeSlots fuel id (i + 1) (some a) slots c h
termination_by structural fuel

/-- The loop over a dictionary whose node is `id`, behind `i` entries. -/
def decodeEntries (fuel : Nat) (id i : Nat) (array : Option Nat)
    (entries : List (StrRef × BeRef)) (c : Cursor) (h : Heap) : Res (MemRet BeRef) :=
  match fuel with
  | 0 => .error .fuel
  | fuel + 1 =>
    deref c.data >>= fun b =>
      if b = 'e'.toUInt8 then
        if i = 0 then
          reallocBlock array h >>= fun (a, h) =>
            setVal (regrow entries 1 fun j => (junk.key a j, junk.node a j)) i .null >>=
              fun entries => .ok (some (.dict id (some a) entries, c.next), h)
        else
          setVal entries i .null >>= fun entries =>
            .ok (some (.dict id array entries, c.next), h)
      else
        reallocBlock array h >>= fun (a, h) =>
          decodeStrRef c h >>= fun
            | (none, h) =>
              setKey (regrow entries (i + 2) fun j => (junk.key a j, junk.node a j)) i .null >>=
                fun entries => cleanup (.dict id (some a) entries) h
            | (some (key, c), h) =>
              setKey (regrow entries (i + 2) fun j => (junk.key a j, junk.node a j)) i key >>=
                fun entries =>
                  decodeRef fuel c h >>= fun
                    | (none, h) =>
                      setVal entries i .null >>= fun entries =>
                        cleanup (.dict id (some a) entries) h
                    | (some (r, c), h) =>
                      setVal entries i r >>= fun entries =>
                        decodeEntries fuel id (i + 1) (some a) entries c h
termination_by structural fuel

end

/-- `be_decode` with an empty heap. -/
def beDecodeMem (mem : List UInt8) (len : Int) : Res (MemRet BeRef) :=
  decodeRef junk (decodeFuel mem) ⟨mem, len⟩ .empty

end Vdht.Core
