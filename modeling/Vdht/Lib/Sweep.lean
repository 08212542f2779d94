import Mathlib.Data.List.Basic

/-!
# Scans that delete in place

A loop over an array that visits the item at an index and then either goes on to the next index
or deletes the item, so that the next one comes to the same index. The step threads a state, and
may fail. It is the same as one pass over the list; a step that decides by a predicate leaves the
items that do not meet it, in order, and folds over those that do.
-/

namespace Vdht.Lib

variable {σ α ε : Type*}

/-- The loop from the index `i` on. With `once` it stops after the first deletion. -/
def scanFrom (step : σ → α → Except ε (Option σ)) (once : Bool) (i : Nat) (xs : List α) (s : σ) :
    Except ε (List α × σ) :=
  if h : i < xs.length then
    match step s xs[i] with
    | .error e => .error e
    | .ok none => scanFrom step once (i + 1) xs s
    | .ok (some s') =>
      if once then .ok (xs.eraseIdx i, s') else scanFrom step once i (xs.eraseIdx i) s'
  else .ok (xs, s)
termination_by xs.length - i
decreasing_by
  · omega
  · rw [List.length_eraseIdx_of_lt h]
    omega

/-- The same in one pass. -/
def sweep (step : σ → α → Except ε (Option σ)) (once : Bool) :
    List α → σ → Except ε (List α × σ)
  | [], s => .ok ([], s)
  | x :: xs, s =>
    match step s x with
    | .error e => .error e
    | .ok none => (sweep step once xs s).map fun r => (x :: r.1, r.2)
    | .ok (some s') => if once then .ok (xs, s') else sweep step once xs s'

theorem scanFrom_eq_sweep (step : σ → α → Except ε (Option σ)) (once : Bool)
    (pre xs : List α) (s : σ) :
    scanFrom step once pre.length (pre ++ xs) s =
      (sweep step once xs s).map fun r => (pre ++ r.1, r.2) := by
  induction xs generalizing pre s with
  | nil =>
    rw [scanFrom, dif_neg (by simp)]
    rfl
  | cons x xs ih =>
    have hlt : pre.length < (pre ++ x :: xs).length := by simp
    have hget : (pre ++ x :: xs)[pre.length] = x := by simp
    have herase : (pre ++ x :: xs).eraseIdx pre.length = pre ++ xs := by
      simp [List.eraseIdx_append_of_length_le]
    rw [scanFrom, dif_pos hlt, hget, sweep]
    cases hstep : step s x with
    | error e => rfl
    | ok r =>
      cases r with
      | none =>
        have hnext := ih (pre ++ [x]) s
        rw [List.length_append, List.append_assoc] at hnext
        dsimp only
        rw [show pre.length + 1 = pre.length + [x].length from rfl, show pre ++ x :: xs =
          pre ++ ([x] ++ xs) from rfl, hnext]
        cases sweep step once xs s with
        | error e => rfl
        | ok r => simp [Except.map]
      | some s' =>
        cases once with
        | true => simp [herase, Except.map]
        | false =>
          have hrest := ih pre s'
          simpa [herase] using hrest

/-- The whole loop. -/
theorem scan_eq_sweep (step : σ → α → Except ε (Option σ)) (once : Bool) (xs : List α) (s : σ) :
    scanFrom step once 0 xs s = sweep step once xs s := by
  have h := scanFrom_eq_sweep step once [] xs s
  rw [List.length_nil, List.nil_append] at h
  rw [h]
  cases sweep step once xs s with
  | error e => rfl
  | ok r => rfl

/-! ## Steps that decide by a predicate -/

section Deciding

variable {step : σ → α → Except ε (Option σ)} {p : α → Bool} {g : σ → α → σ} {xs : List α}

theorem sweep_all (h : ∀ s, ∀ x ∈ xs, step s x = .ok (if p x then some (g s x) else none))
    (s : σ) :
    sweep step false xs s = .ok (xs.filter fun x => !p x, (xs.filter p).foldl g s) := by
  induction xs generalizing s with
  | nil => rfl
  | cons x xs ih =>
    have hrest := ih fun s y hy => h s y (List.mem_cons_of_mem _ hy)
    rw [sweep, h s x List.mem_cons_self]
    cases hp : p x with
    | true => simp [hp, hrest]
    | false => simp [hp, hrest, Except.map]

/-- The first item that meets the predicate goes, if there is one. -/
theorem sweep_once (h : ∀ s, ∀ x ∈ xs, step s x = .ok (if p x then some (g s x) else none))
    (s : σ) :
    sweep step true xs s = .ok (xs.eraseP p, ((xs.find? p).map (g s)).getD s) := by
  induction xs generalizing s with
  | nil => rfl
  | cons x xs ih =>
    have hrest := ih fun s y hy => h s y (List.mem_cons_of_mem _ hy)
    rw [sweep, h s x List.mem_cons_self]
    cases hp : p x with
    | true => simp [hp]
    | false => simp [hp, hrest, Except.map]

end Deciding

end Vdht.Lib
