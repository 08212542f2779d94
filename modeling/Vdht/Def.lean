/-!
# Faults and fallible computations

The C code stops being meaningful at a failed `vassert`, at a NULL dereference, at an access
outside the object a pointer points into, at a signed overflow and at a division by zero. A
modelled function returns in `Res`; the fault says which of these comes first. Ordinary error
returns (`-1`, `NULL`) are values.
-/

namespace Vdht

/-- What can go wrong in a step of the program that C does not report: the step ends there, and
nothing is said of the memory behind it. -/
inductive Fault where
  /-- a `vassert` failed -/
  | assertion
  /-- a NULL or meaningless pointer was dereferenced -/
  | null
  /-- a read or a write outside the object -/
  | bounds
  /-- the recursion bound of a modelled loop ran out; shown unreachable where it is used -/
  | fuel
  /-- the exact result of a signed operation is not a value of its type -/
  | overflow
  /-- an integer was divided by zero -/
  | division
deriving DecidableEq, Repr

/-- The result of a function that may fault. What the function itself returns as an error is a
value, not a fault. -/
abbrev Res (α : Type) := Except Fault α

/-- `BUF_SZ` of `vdef.h`. -/
def BUF_SZ : Nat := 1024

/-! ## Peeling results apart -/

theorem bind_ok {ε α β : Type} {x : Except ε α} {f : α → Except ε β} {b : β} :
    (x >>= f) = .ok b ↔ ∃ a, x = .ok a ∧ f a = .ok b := by
  cases x with
  | error e => simp [Bind.bind, Except.bind]
  | ok a => simp [Bind.bind, Except.bind]

@[simp] theorem ok_bind {ε α β : Type} (a : α) (f : α → Except ε β) :
    (Except.ok a >>= f) = f a := rfl

@[simp] theorem error_bind {ε α β : Type} (e : ε) (f : α → Except ε β) :
    ((Except.error e : Except ε α) >>= f) = .error e := rfl

@[simp] theorem pure_eq_ok {ε α : Type} (a : α) : (pure a : Except ε α) = .ok a := rfl

theorem map_ok {ε α β : Type} {x : Except ε α} {f : α → β} {b : β} (h : x.map f = .ok b) :
    ∃ a, x = .ok a ∧ f a = b := by
  cases x with
  | error e => cases h
  | ok a => exact ⟨a, rfl, Except.ok.inj h⟩

/-! ## Slots of an allocated block -/

section Slots

variable {β : Type}

/-- The slot at index `i` of a block. -/
def getSlot (block : List β) (i : Nat) : Res β :=
  match block[i]? with
  | some x => .ok x
  | none => .error .bounds

/-- The block with `x` in its slot `i`; a write behind the last slot faults. -/
def setSlot (block : List β) (i : Nat) (x : β) : Res (List β) :=
  if i < block.length then .ok (block.set i x) else .error .bounds

theorem getSlot_ok {block : List β} {i : Nat} (h : i < block.length) :
    getSlot block i = .ok block[i] := by
  simp [getSlot, h]

theorem getSlot_error {block : List β} {i : Nat} (h : block.length ≤ i) :
    getSlot block i = .error .bounds := by
  simp [getSlot, h]

theorem setSlot_ok {block : List β} {i : Nat} {x : β} (h : i < block.length) :
    setSlot block i x = .ok (block.set i x) := by
  simp [setSlot, h]

theorem setSlot_error {block : List β} {i : Nat} {x : β} (h : block.length ≤ i) :
    setSlot block i x = .error .bounds := by
  simp [setSlot, h]

/-- The slot behind `l`. -/
theorem getSlot_behind {l free : List β} (x : β) : getSlot (l ++ x :: free) l.length = .ok x := by
  rw [getSlot_ok (by simp)]
  simp

theorem setSlot_behind {l free : List β} (x y : β) :
    setSlot (l ++ x :: free) l.length y = .ok (l ++ y :: free) := by
  rw [setSlot_ok (by simp)]
  simp

end Slots

end Vdht
