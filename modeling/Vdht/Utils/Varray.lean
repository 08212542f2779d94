import Vdht.Def
import Vdht.Lib.Run
import Mathlib.Data.List.InsertIdx

/-!
# The growable pointer array

`utils/varray.c`, slot by slot. The block `items` is the memory behind `array->items`: one
entry for each allocated slot, `none` where the slot holds NULL or nothing yet. Every slot
read or written goes through `getSlot` and `setSlot`, which fault outside the block. The
allocations succeed, so the capacity is a natural number; a negative first capacity would
ask `realloc` for more bytes than there are.
-/

namespace Vdht.Utils

variable {α : Type}

/-- `varray`: a block of `capc` slots of which the first `used` are items. No block is allocated
before the first item. -/
structure Varray (α : Type) where
  used : Nat
  capc : Nat
  first : Nat
  items : List (Option α)

/-- The capacity that an array gets with its first item, where none was asked for. -/
def VARRAY_FIRST_CAPC : Nat := 32

/-- `realloc` to `n` slots: the common part is kept, fresh slots hold nothing. -/
def reallocSlots (items : List (Option α)) (n : Nat) : List (Option α) :=
  items.take n ++ List.replicate (n - items.length) none

/-- `varray_init`: an array without a block, with the capacity that its first one will have. -/
def varrayInit (firstCapc : Nat) : Varray α where
  used := 0
  capc := 0
  first := if firstCapc = 0 then VARRAY_FIRST_CAPC else firstCapc
  items := []

/-- `varray_get`: the item at an index, and nothing for an index outside of the items. -/
def varrayGet (a : Varray α) (idx : Int) : Res (Option α) :=
  if a.items = [] then .ok none
  else if idx < 0 then .ok none
  else if idx ≥ a.used then .ok none
  else getSlot a.items idx.toNat

/-- `varray_set`: the item at an index is replaced. The status says whether there was one. -/
def varraySet (a : Varray α) (idx : Int) (item : Option α) : Res (Varray α × Int) :=
  if item = none then .ok (a, -1)
  else if idx < 0 then .ok (a, -1)
  else if idx ≥ a.used then .ok (a, -1)
  else if a.items = [] then .ok (a, -1)
  else do
    let items ← setSlot a.items idx.toNat item
    return ({ a with items := items }, 0)

/-- `_aux_extend`: the capacity is doubled, or gets its first value, and the new slots are empty. An
array that still has room fails the assertion. -/
def auxExtend (a : Varray α) : Res (Varray α) :=
  if a.used < a.capc then .error .assertion
  else
    let capc := if a.capc = 0 then a.first else a.capc * 2
    .ok { a with capc := capc, items := reallocSlots a.items capc }

/-- The test before an insertion: a full block is extended. -/
def extendIfFull (a : Varray α) : Res (Varray α) :=
  if a.used ≥ a.capc then auxExtend a else .ok a

/-- The loop of `varray_add`: `n` turns with `i` running down to `idx`. -/
def shiftUp (items : List (Option α)) (idx : Nat) : Nat → Res (List (Option α))
  | 0 => .ok items
  | n + 1 => do
    let x ← getSlot items (idx + n)
    let items ← setSlot items (idx + n + 1) x
    shiftUp items idx n

/-- `varray_add`: an item goes before the one at an index. The items from there on move up, from one
slot further than the last on. -/
def varrayAdd (a : Varray α) (idx : Int) (new : Option α) : Res (Varray α × Int) :=
  if idx < 0 then .ok (a, -1)
  else if idx ≥ a.used then .ok (a, -1)
  else if new = none then .ok (a, -1)
  else do
    let a ← extendIfFull a
    -- `i` starts at `used`, not at `used - 1`
    let items ← shiftUp a.items idx.toNat (a.used + 1 - idx.toNat)
    let items ← setSlot items idx.toNat new
    return ({ a with items := items, used := a.used + 1 }, 0)

/-- `varray_add_tail`: an item goes behind the last one, in a block that is extended where it is
full. -/
def varrayAddTail (a : Varray α) (item : Option α) : Res (Varray α × Int) :=
  if item = none then .ok (a, -1)
  else do
    let a ← extendIfFull a
    let items ← setSlot a.items a.used item
    return ({ a with items := items, used := a.used + 1 }, 0)

/-- `_aux_shrink`: the capacity is halved, unless it is the first one. An array more than half full
fails the assertion. -/
def auxShrink (a : Varray α) : Res (Varray α) :=
  if a.items = [] then .error .assertion
  else if a.capc < a.used * 2 then .error .assertion
  else if a.capc = a.first then .ok a
  else .ok { a with capc := a.capc / 2, items := reallocSlots a.items (a.capc / 2) }

/-- The loop of `varray_del`: `n` turns with `i` running up from `i`. -/
def shiftDown (items : List (Option α)) : Nat → Nat → Res (List (Option α))
  | _, 0 => .ok items
  | i, n + 1 => do
    let x ← getSlot items (i + 1)
    let items ← setSlot items i x
    shiftDown items (i + 1) n

/-- The condition on which an array is shrunk before an item is taken out of it. -/
def Varray.Sparse (a : Varray α) : Prop := a.first ≤ a.capc ∧ a.used * 2 < a.capc

instance (a : Varray α) : Decidable a.Sparse := inferInstanceAs (Decidable (_ ∧ _))

/-- The test before a removal: a block used by less than a half is shrunk. -/
def shrinkIfSparse (a : Varray α) : Res (Varray α) :=
  if a.Sparse then auxShrink a else .ok a

/-- `varray_del`: the item at an index is taken out. Those behind it move down, and the slot at
`used` is read after the last of them. -/
def varrayDel (a : Varray α) (idx : Int) : Res (Varray α × Option α) :=
  if idx < 0 then .ok (a, none)
  else if idx ≥ a.used then .ok (a, none)
  else do
    let a ← shrinkIfSparse a
    let item ← getSlot a.items idx.toNat
    let items ← shiftDown a.items idx.toNat (a.used - idx.toNat)
    -- `i` is `used` after the loop
    let items ← setSlot items a.used none
    return ({ a with items := items, used := a.used - 1 }, item)

/-- `varray_pop_tail`: the last item is taken out. The source does not ask whether there is one. -/
def varrayPopTail (a : Varray α) : Res (Varray α × Option α) := do
  let a ← shrinkIfSparse a
  if a.used = 0 then .error .bounds
  else do
    let item ← getSlot a.items (a.used - 1)
    let items ← setSlot a.items (a.used - 1) none
    return ({ a with items := items, used := a.used - 1 }, item)

/-! ## Operations and their reference meaning -/

/-- The calls on an array. -/
inductive VarrayOp (α : Type) where
  | add (idx : Int) (item : Option α)
  | addTail (item : Option α)
  | set (idx : Int) (item : Option α)
  | get (idx : Int)
  | del (idx : Int)
  | popTail

/-- What a call returns: a status or an item pointer. -/
inductive VarrayRet (α : Type) where
  | status (r : Int)
  | item (x : Option α)

/-- A call on an array, with what it returns. -/
def varrayExec (a : Varray α) : VarrayOp α → Res (Varray α × VarrayRet α)
  | .add idx item => do
    let (a, r) ← varrayAdd a idx item
    return (a, .status r)
  | .addTail item => do
    let (a, r) ← varrayAddTail a item
    return (a, .status r)
  | .set idx item => do
    let (a, r) ← varraySet a idx item
    return (a, .status r)
  | .get idx => do
    let x ← varrayGet a idx
    return (a, .item x)
  | .del idx => do
    let (a, x) ← varrayDel a idx
    return (a, .item x)
  | .popTail => do
    let (a, x) ← varrayPopTail a
    return (a, .item x)

/-- `0 ≤ idx < |l|`. -/
def InRange (l : List α) (idx : Int) : Prop := 0 ≤ idx ∧ idx < l.length

instance (l : List α) (idx : Int) : Decidable (InRange l idx) := inferInstanceAs (Decidable (_ ∧ _))

/-- The reference list: insert at, append, replace, look up, remove at, remove last. Calls
with an index outside the list or without an item change nothing. -/
def listExec (l : List α) : VarrayOp α → List α × VarrayRet α
  | .add idx item =>
    match item with
    | some x => if InRange l idx then (l.insertIdx idx.toNat x, .status 0) else (l, .status (-1))
    | none => (l, .status (-1))
  | .addTail item =>
    match item with
    | some x => (l ++ [x], .status 0)
    | none => (l, .status (-1))
  | .set idx item =>
    match item with
    | some x => if InRange l idx then (l.set idx.toNat x, .status 0) else (l, .status (-1))
    | none => (l, .status (-1))
  | .get idx => (l, .item (if InRange l idx then l[idx.toNat]? else none))
  | .del idx =>
    if InRange l idx then (l.eraseIdx idx.toNat, .item l[idx.toNat]?) else (l, .item none)
  | .popTail => (l.dropLast, .item l.getLast?)

/-- `varray_pop_tail` is only called on a non-empty array. -/
def Callable (l : List α) : VarrayOp α → Prop
  | .popTail => l ≠ []
  | _ => True

/-- The array represents the list `l`: the bookkeeping is in bounds and the used slots hold
the items of `l` in order. -/
structure Represents (a : Varray α) (l : List α) : Prop where
  block : a.items.length = a.capc
  used_le : a.used ≤ a.capc
  contents : a.items.take a.used = l.map some

end Vdht.Utils
