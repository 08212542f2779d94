import Vdht.Def
import Vdht.Lib.Bytes

/-!
# Bencode trees

`struct be_node` of `vdht_core.c` and the functions that build and read a tree. A byte string
is kept behind an `int32_t` length, so the length is below `2 ^ 31`; this is a field of the
string. Keys are such strings too, and are compared by `strcmp`, up to their first NUL.
Allocations succeed.
-/

namespace Vdht.Core

/-- The bytes behind `val.s` or `key`; the `int32_t` in front of them is their number. -/
structure BeStr where
  bytes : List UInt8
  short : bytes.length < 2 ^ 31

@[ext] theorem BeStr.ext {a b : BeStr} (h : a.bytes = b.bytes) : a = b := by
  cases a
  cases b
  cases h
  rfl

/-- The length that is kept with the bytes of a string, an `int32_t`. -/
def BeStr.len (s : BeStr) : Nat := s.bytes.length

/-- `struct be_node`: a string, a number, a list or a dictionary; the pairs of a dictionary stay in
the order in which they were added. -/
inductive BeNode where
  | str (s : BeStr)
  | int (i : Int32)
  | list (l : List BeNode)
  | dict (d : List (BeStr × BeNode))

/-- Induction over a tree: the parts of a list or a dictionary may be assumed. -/
@[elab_as_elim, induction_eliminator]
theorem BeNode.induct {motive : BeNode → Prop} (str : ∀ s, motive (.str s))
    (int : ∀ i, motive (.int i)) (list : ∀ l, (∀ t ∈ l, motive t) → motive (.list l))
    (dict : ∀ d : List (BeStr × BeNode), (∀ e ∈ d, motive e.2) → motive (.dict d))
    (t : BeNode) : motive t := by
  refine @BeNode.rec motive (fun l => ∀ t ∈ l, motive t) (fun d => ∀ e ∈ d, motive e.2)
    (fun e => motive e.2) str int list dict ?_ ?_ ?_ ?_ ?_ t
  · simp
  · intro t l ht hl u hu
    rcases List.mem_cons.mp hu with rfl | hu
    · exact ht
    · exact hl u hu
  · simp
  · intro e d he hd u hu
    rcases List.mem_cons.mp hu with rfl | hu
    · exact he
    · exact hd u hu
  · intro _ t ht
    exact ht

/-- The bytes of a C string literal. -/
def cstr (s : String) : List UInt8 := s.toList.map Char.toUInt8

/-- What `strlen` and `strcmp` see of a byte string that ends in a NUL. -/
def cText (s : List UInt8) : List UInt8 := s.takeWhile (· ≠ 0)

theorem cText_of_no_nul {s : List UInt8} (h : 0 ∉ s) : cText s = s := by
  induction s with
  | nil => rfl
  | cons c s ih =>
    rw [List.mem_cons, not_or] at h
    obtain ⟨hc, hs⟩ := h
    rw [cText, List.takeWhile_cons_of_pos (by simpa using Ne.symm hc)]
    exact congrArg (c :: ·) (ih hs)

/-! ## Building -/

/-- `be_create_dict`, without pairs. -/
def beCreateDict : BeNode := .dict []

/-- `be_create_list`, without members. -/
def beCreateList : BeNode := .list []

/-- A node that holds a copy of the bytes `s`; `be_create_str` and `be_create_buf` count them in
an `int`. -/
def strNode (s : List UInt8) : Res BeNode :=
  if h : s.length < 2 ^ 31 then .ok (.str ⟨s, h⟩) else .error .bounds

/-- `be_create_str`: the bytes of the C string in front of its NUL. -/
def beCreateStr (str : List UInt8) : Res BeNode := strNode (cText str)

/-- `be_create_buf`: all bytes of the buffer, NULs included; an empty one fails an assertion. -/
def beCreateBuf (buf : List UInt8) : Res BeNode :=
  if buf.length = 0 then .error .assertion else strNode buf

/-- `be_create_int` -/
def beCreateInt (num : Int32) : BeNode := .int num

/-- `be_add_keypair`: the pair is added at the end, also when there is one with the key; the key is
copied as a C string. -/
def beAddKeypair (dict : BeNode) (str : List UInt8) (node : BeNode) : Res BeNode :=
  match dict with
  | .dict d =>
    if h : (cText str).length < 2 ^ 31 then .ok (.dict (d ++ [(⟨cText str, h⟩, node)]))
    else .error .bounds
  | _ => .error .assertion

/-- `be_add_list`: the member is added at the end. -/
def beAddList (list : BeNode) (node : BeNode) : Res BeNode :=
  match list with
  | .list l => .ok (.list (l ++ [node]))
  | _ => .error .assertion

/-! ## Reading -/

/-- `none` for `-1`. -/
def beUnpackInt : BeNode → Option Int32
  | .int i => some i
  | _ => none

/-- Copies the bytes of a string node over the front of the object `buf`; `none` for `-1`,
with `buf` as it was. The bytes of a shorter string leave the end of `buf` alone. -/
def beUnpackBuf {n : Nat} (node : BeNode) (buf : Lib.Block n) : Option (Lib.Block n) :=
  match node with
  | .str s => if s.len > n then none else some (buf.overwrite s.bytes)
  | _ => none

/-- `be_find_node`: the value of the first pair whose key is this C string; nothing for a node of
another type. -/
def beFindNode (dict : BeNode) (key : List UInt8) : Option BeNode :=
  match dict with
  | .dict d => (d.find? fun e => cText key = cText e.1.bytes).map (·.2)
  | _ => none

end Vdht.Core
