import Mathlib.Data.List.Basic

/-!
# Runs of partial step functions

A program whose operations may fault is a step function into `Except`. This module gives
the two rules the developments below use on whole runs: an invariant kept by every
successful step holds after every successful run, and a one-step comparison with a
reference machine extends to whole runs, exactly as far as the steps meet the condition
under which the comparison holds.
-/

namespace Vdht.Lib

variable {σ τ op out ε : Type*}

/-! ## Invariants -/

/-- The state after a list of operations, or the first fault. -/
def run (step : σ → op → Except ε σ) (s : σ) (ops : List op) : Except ε σ :=
  ops.foldlM step s

@[simp] theorem run_nil (step : σ → op → Except ε σ) (s : σ) : run step s [] = .ok s := rfl

theorem run_cons (step : σ → op → Except ε σ) (s : σ) (o : op) (ops : List op) :
    run step s (o :: ops) = (step s o).bind fun s' => run step s' ops := rfl

/-- A successful run of `o :: ops` is a successful step followed by a successful run. -/
theorem run_cons_ok {step : σ → op → Except ε σ} {s s' : σ} {o : op} {ops : List op} :
    run step s (o :: ops) = .ok s' ↔ ∃ m, step s o = .ok m ∧ run step m ops = .ok s' := by
  rw [run_cons]
  cases step s o with
  | error e => simp [Except.bind]
  | ok m => simp [Except.bind]

theorem run_append_ok {step : σ → op → Except ε σ} {s s' s'' : σ} {ops rest : List op}
    (h : run step s ops = .ok s') (hrest : run step s' rest = .ok s'') :
    run step s (ops ++ rest) = .ok s'' := by
  rw [run, List.foldlM_append]
  exact (congrArg (· >>= fun s => run step s rest) h).trans hrest

/-- The invariant rule. Steps are only required to keep `I` on operations that satisfy the
admission predicate `P`. -/
theorem run_invariant {step : σ → op → Except ε σ} {I : σ → Prop} {P : op → Prop}
    (hstep : ∀ s o s', I s → P o → step s o = .ok s' → I s') {s s' : σ} {ops : List op}
    (hs : I s) (hP : ∀ o ∈ ops, P o) (h : run step s ops = .ok s') : I s' := by
  induction ops generalizing s with
  | nil =>
    cases h
    exact hs
  | cons o ops ih =>
    obtain ⟨m, hm, hrest⟩ := run_cons_ok.mp h
    have hI : I m := hstep s o m hs (hP o List.mem_cons_self) hm
    exact ih hI (fun o' ho' => hP o' (List.mem_cons_of_mem _ ho')) hrest

/-- A run whose steps never fault on invariant states succeeds. -/
theorem run_total {step : σ → op → Except ε σ} {I : σ → Prop} {P : op → Prop}
    (hstep : ∀ s o, I s → P o → ∃ s', step s o = .ok s' ∧ I s') {s : σ} {ops : List op}
    (hs : I s) (hP : ∀ o ∈ ops, P o) : ∃ s', run step s ops = .ok s' ∧ I s' := by
  induction ops generalizing s with
  | nil => exact ⟨s, rfl, hs⟩
  | cons o ops ih =>
    obtain ⟨m, hm, hI⟩ := hstep s o hs (hP o List.mem_cons_self)
    obtain ⟨s', hs', hI'⟩ := ih hI (fun o' ho' => hP o' (List.mem_cons_of_mem _ ho'))
    exact ⟨s', run_cons_ok.mpr ⟨m, hm, hs'⟩, hI'⟩

/-- When every step on an invariant state keeps the invariant or faults with `F`, so does a run. -/
theorem run_cases {step : σ → op → Except ε σ} {I : σ → Prop} {F : ε → Prop}
    (hstep : ∀ s o, I s → (∃ s', step s o = .ok s' ∧ I s') ∨ ∃ e, step s o = .error e ∧ F e)
    {s : σ} (hs : I s) (ops : List op) :
    (∃ s', run step s ops = .ok s' ∧ I s') ∨ ∃ e, run step s ops = .error e ∧ F e := by
  induction ops generalizing s with
  | nil => exact Or.inl ⟨s, rfl, hs⟩
  | cons o ops ih =>
    rw [run_cons]
    rcases hstep s o hs with ⟨m, hm, hI⟩ | ⟨e, he, hF⟩
    · rw [hm]
      exact ih hI
    · rw [he]
      exact Or.inr ⟨e, rfl, hF⟩

/-- Every operation of the run meets `P` in the state in which it is executed. -/
def Along (step : σ → op → Except ε σ) (P : σ → op → Prop) : σ → List op → Prop
  | _, [] => True
  | s, o :: ops => P s o ∧ ∀ s', step s o = .ok s' → Along step P s' ops

theorem along_cons {step : σ → op → Except ε σ} {P : σ → op → Prop} {s s' : σ} {o : op}
    {ops : List op} (ho : P s o) (hs' : step s o = .ok s') (hrest : Along step P s' ops) :
    Along step P s (o :: ops) := by
  refine ⟨ho, fun m hm => ?_⟩
  rw [hs'] at hm
  cases hm
  exact hrest

/-- A run whose steps meet a condition under which they succeed and keep an invariant. -/
theorem along_total {step : σ → op → Except ε σ} {I : σ → Prop} {P : σ → op → Prop}
    (hstep : ∀ s o, I s → P s o → ∃ s', step s o = .ok s' ∧ I s') {s : σ} {ops : List op}
    (hs : I s) (hP : Along step P s ops) : ∃ s', run step s ops = .ok s' ∧ I s' := by
  induction ops generalizing s with
  | nil => exact ⟨s, rfl, hs⟩
  | cons o ops ih =>
    obtain ⟨m, hm, hI⟩ := hstep s o hs hP.1
    obtain ⟨s', hs', hI'⟩ := ih hI (hP.2 m hm)
    exact ⟨s', run_cons_ok.mpr ⟨m, hm, hs'⟩, hI'⟩

/-- The invariant rule for runs whose steps meet a condition on the state and the operation. -/
theorem along_invariant {step : σ → op → Except ε σ} {I : σ → Prop} {P : σ → op → Prop}
    (hstep : ∀ s o s', I s → P s o → step s o = .ok s' → I s') {s s' : σ} {ops : List op}
    (hs : I s) (hP : Along step P s ops) (h : run step s ops = .ok s') : I s' := by
  induction ops generalizing s with
  | nil =>
    cases h
    exact hs
  | cons o ops ih =>
    obtain ⟨m, hm, hrest⟩ := run_cons_ok.mp h
    exact ih (hstep s o m hs hP.1 hm) (hP.2 m hm) hrest

/-- An invariant that makes every step meet the condition. -/
theorem along_of_invariant {step : σ → op → Except ε σ} {I : σ → Prop} {P : σ → op → Prop}
    (hP : ∀ s o, I s → P s o) (hstep : ∀ s o s', I s → step s o = .ok s' → I s') {s : σ}
    (hs : I s) (ops : List op) : Along step P s ops := by
  induction ops generalizing s with
  | nil => trivial
  | cons o ops ih => exact ⟨hP s o hs, fun s' hs' => ih (hstep s o s' hs hs')⟩

/-- Two conditions on steps that agree under an invariant agree on runs, when the second one
keeps the invariant. -/
theorem along_iff {step : σ → op → Except ε σ} {I : σ → Prop} {P Q : σ → op → Prop}
    (hiff : ∀ s o, I s → (P s o ↔ Q s o))
    (hkeep : ∀ s o s', I s → Q s o → step s o = .ok s' → I s') {s : σ} {ops : List op}
    (hs : I s) : Along step P s ops ↔ Along step Q s ops := by
  induction ops generalizing s with
  | nil => exact Iff.rfl
  | cons o ops ih =>
    constructor
    · rintro ⟨hP, hrest⟩
      have hQ := (hiff s o hs).mp hP
      exact ⟨hQ, fun s' hs' => (ih (hkeep s o s' hs hQ hs')).mp (hrest s' hs')⟩
    · rintro ⟨hQ, hrest⟩
      exact ⟨(hiff s o hs).mpr hQ, fun s' hs' => (ih (hkeep s o s' hs hQ hs')).mpr (hrest s' hs')⟩

/-! ## Two machines -/

/-- Two machines that start in one state are in the same state after every one of the first `n` steps
exactly when each of these steps takes them from the state they are in to the same one. -/
theorem foldl_agree_iff {f g : σ → op → σ} {s : σ} {ops : List op} {n : Nat} :
    (∀ k ≤ n, (ops.take k).foldl f s = (ops.take k).foldl g s) ↔
      ∀ k < n, ∀ o, ops[k]? = some o →
        f ((ops.take k).foldl f s) o = g ((ops.take k).foldl f s) o := by
  have htake : ∀ {k o}, ops[k]? = some o → ∀ h : σ → op → σ,
      (ops.take (k + 1)).foldl h s = h ((ops.take k).foldl h s) o := by
    intro k o ho h
    rw [List.take_add_one, ho, Option.toList_some, List.foldl_append, List.foldl_cons,
      List.foldl_nil]
  constructor
  · intro hagree k hk o ho
    have hnext := hagree (k + 1) hk
    rwa [htake ho f, htake ho g, ← hagree k (by omega)] at hnext
  · intro hstep k
    induction k with
    | zero => exact fun _ => rfl
    | succ k ih =>
      intro hk
      have hsame := ih (by omega)
      cases ho : ops[k]? with
      | none =>
        have hend := List.getElem?_eq_none_iff.mp ho
        rw [List.take_of_length_le (by omega)] at hsame ⊢
        exact hsame
      | some o => rw [htake ho f, htake ho g, ← hsame, hstep k hk o ho]

/-! ## Comparison with a reference machine -/

section Reference

variable (step : σ → op → Except ε (σ × out)) (spec : τ → op → τ × out) (Rel : σ → τ → Prop)

/-- The run from `s` faults nowhere, answers every operation as the reference machine does
from `t`, and is related to it by `Rel` in every state it passes. -/
def Follows : σ → τ → List op → Prop
  | s, t, [] => Rel s t
  | s, t, o :: ops =>
    Rel s t ∧ ∃ s' r, step s o = .ok (s', r) ∧ r = (spec t o).2 ∧ Follows s' (spec t o).1 ops

/-- Every operation of the run meets `ok` in the state in which it is executed. -/
def Guarded (ok : σ → op → Prop) : σ → List op → Prop
  | _, [] => True
  | s, o :: ops => ok s o ∧ ∀ s' r, step s o = .ok (s', r) → Guarded ok s' ops

/-- Every operation of the reference run meets `P` in the reference state it meets. -/
def Admits (P : τ → op → Prop) : τ → List op → Prop
  | _, [] => True
  | t, o :: ops => P t o ∧ Admits P (spec t o).1 ops

/-- The state of the reference machine after a list of operations. -/
def specRun (t : τ) (ops : List op) : τ := ops.foldl (fun t o => (spec t o).1) t

variable {step spec Rel}

/-- A run that follows the reference machine ends in a state related to where that one ends. -/
theorem run_of_follows {s : σ} {t : τ} {ops : List op} (h : Follows step spec Rel s t ops) :
    ∃ s', run (fun s o => (step s o).map Prod.fst) s ops = .ok s' ∧
      Rel s' (specRun spec t ops) := by
  induction ops generalizing s t with
  | nil => exact ⟨s, rfl, h⟩
  | cons o ops ih =>
    obtain ⟨-, m, r, hm, -, hrest⟩ := h
    obtain ⟨s', hs', hrel⟩ := ih hrest
    refine ⟨s', run_cons_ok.mpr ⟨m, ?_, hs'⟩, hrel⟩
    rw [hm]
    rfl

theorem rel_of_follows {s : σ} {t : τ} {ops : List op} (h : Follows step spec Rel s t ops) :
    Rel s t := by
  cases ops with
  | nil => exact h
  | cons o ops => exact h.1

/-- When `Q` on the reference states is what makes a step follow the reference machine, it is
what makes a run do so. -/
theorem follows_iff_admits {I : σ → τ → Prop} {P Q : τ → op → Prop}
    (hRel : ∀ s t, I s t → Rel s t)
    (hgood : ∀ s t o, I s t → P t o → Q t o →
      ∃ s', step s o = .ok (s', (spec t o).2) ∧ I s' (spec t o).1)
    (hbad : ∀ s t o, I s t → P t o → ¬ Q t o →
      ∀ s' r, step s o = .ok (s', r) → ¬ Rel s' (spec t o).1)
    {s : σ} {t : τ} {ops : List op} (hI : I s t) (hP : Admits spec P t ops) :
    Follows step spec Rel s t ops ↔ Admits spec Q t ops := by
  induction ops generalizing s t with
  | nil => exact ⟨fun _ => trivial, fun _ => hRel s t hI⟩
  | cons o ops ih =>
    obtain ⟨hPo, hPs⟩ := hP
    by_cases hQ : Q t o
    · obtain ⟨s', hs', hI'⟩ := hgood s t o hI hPo hQ
      constructor
      · intro ⟨_, m, r, hm, _, hrest⟩
        rw [hs'] at hm
        cases hm
        exact ⟨hQ, (ih hI' hPs).mp hrest⟩
      · intro ⟨_, hrest⟩
        exact ⟨hRel s t hI, s', _, hs', rfl, (ih hI' hPs).mpr hrest⟩
    · constructor
      · intro ⟨_, m, r, hm, _, hrest⟩
        exact absurd (rel_of_follows hrest) (hbad s t o hI hPo hQ m r hm)
      · intro ⟨hQ', _⟩
        exact absurd hQ' hQ

/-- An invariant of the reference machine. -/
theorem specRun_invariant {J : τ → Prop} {P : op → Prop}
    (hstep : ∀ t o, J t → P o → J (spec t o).1) {t : τ} {ops : List op} (ht : J t)
    (hP : ∀ o ∈ ops, P o) : J (specRun spec t ops) := by
  induction ops generalizing t with
  | nil => exact ht
  | cons o ops ih =>
    exact ih (hstep t o ht (hP o List.mem_cons_self)) fun o' ho' =>
      hP o' (List.mem_cons_of_mem _ ho')

/-- When an invariant of the reference machine makes the next step meet `P`, a run does. -/
theorem admits_of_invariant {J : τ → Prop} {P : τ → op → Prop} {Q : op → Prop}
    (hstep : ∀ t o, J t → Q o → P t o ∧ J (spec t o).1) {t : τ} {ops : List op} (ht : J t)
    (hQ : ∀ o ∈ ops, Q o) : Admits spec P t ops := by
  induction ops generalizing t with
  | nil => trivial
  | cons o ops ih =>
    obtain ⟨hPo, hJ⟩ := hstep t o ht (hQ o List.mem_cons_self)
    exact ⟨hPo, ih hJ fun o' ho' => hQ o' (List.mem_cons_of_mem _ ho')⟩

/-- A run follows the reference machine when its steps meet a condition under which a step does. -/
theorem follows_of_guarded {I : σ → τ → Prop} {ok : σ → op → Prop}
    (hRel : ∀ s t, I s t → Rel s t)
    (hgood : ∀ s t o, I s t → ok s o →
      ∃ s', step s o = .ok (s', (spec t o).2) ∧ I s' (spec t o).1)
    {s : σ} {t : τ} {ops : List op} (hI : I s t) (hok : Guarded step ok s ops) :
    Follows step spec Rel s t ops := by
  induction ops generalizing s t with
  | nil => exact hRel s t hI
  | cons o ops ih =>
    obtain ⟨s', hs', hI'⟩ := hgood s t o hI hok.1
    exact ⟨hRel s t hI, s', _, hs', rfl, ih hI' (hok.2 s' _ hs')⟩

/-- The comparison rule: `I` is the invariant that carries the induction and implies the
relation `Rel` the run is compared by. When `ok` is exact for one step it is exact for runs. -/
theorem follows_iff_guarded {I : σ → τ → Prop} {ok : σ → op → Prop} {P : τ → op → Prop}
    (hRel : ∀ s t, I s t → Rel s t)
    (hgood : ∀ s t o, I s t → P t o → ok s o →
      ∃ s', step s o = .ok (s', (spec t o).2) ∧ I s' (spec t o).1)
    (hbad : ∀ s t o, I s t → P t o → ¬ ok s o → ∃ e, step s o = .error e)
    {s : σ} {t : τ} {ops : List op} (hI : I s t) (hP : Admits spec P t ops) :
    Follows step spec Rel s t ops ↔ Guarded step ok s ops := by
  induction ops generalizing s t with
  | nil => exact ⟨fun _ => trivial, fun _ => hRel s t hI⟩
  | cons o ops ih =>
    obtain ⟨hPo, hPs⟩ := hP
    by_cases ho : ok s o
    · obtain ⟨s', hs', hI'⟩ := hgood s t o hI hPo ho
      constructor
      · rintro ⟨-, m, r, hm, -, hrest⟩
        rw [hs'] at hm
        cases hm
        refine ⟨ho, ?_⟩
        intro m r hm
        rw [hs'] at hm
        cases hm
        exact (ih hI' hPs).mp hrest
      · rintro ⟨-, hrest⟩
        exact ⟨hRel s t hI, s', _, hs', rfl, (ih hI' hPs).mpr (hrest _ _ hs')⟩
    · obtain ⟨e, he⟩ := hbad s t o hI hPo ho
      constructor
      · rintro ⟨-, m, r, hm, -⟩
        rw [he] at hm
        cases hm
      · rintro ⟨hok, -⟩
        exact absurd hok ho

end Reference

end Vdht.Lib
