import Mathlib.Data.List.Basic
import Mathlib.Logic.Function.Basic

/-!
# Networks of nodes

Every node takes steps of its own and receives messages that some node has sent. What was sent
stays available to every node and any number of times, so messages may be lost, delayed,
duplicated, reordered and misdirected. A step never ends the run: a node that has stopped is one
that takes no more steps.

A fact is something a node may hold and a message may say. `Carrying` lists what has to be shown
about the steps of one node, and `netRun_within` is the rule for runs: no node ever holds or says
a fact that was not made in an earlier step of some node.
-/

namespace Vdht.Lib

/-- What a node does; `sent` is all it has sent so far. -/
structure Party (ι σ op inp msg : Type*) where
  act : ι → op → σ → σ
  recv : ι → inp → msg → σ → σ
  sent : σ → List msg

/-- A step of one node. -/
inductive NodeStep (op inp msg : Type*) where
  | act (o : op)
  | recv (x : inp) (m : msg)

/-- An event in the network: a node acts, or the `k`-th message of `src` reaches `dst`. -/
inductive NetOp (ι op inp : Type*) where
  | act (i : ι) (o : op)
  | deliver (src : ι) (k : Nat) (dst : ι) (x : inp)

section Runs

variable {ι σ op inp msg : Type*} (P : Party ι σ op inp msg)

/-- What a node does with an operation of its own or with a message that reaches it. -/
def Party.step (i : ι) : NodeStep op inp msg → σ → σ
  | .act o => P.act i o
  | .recv x m => P.recv i x m

/-- Which node takes which step; a message that was never sent does not arrive. -/
def stepOf (net : ι → σ) : NetOp ι op inp → Option (ι × NodeStep op inp msg)
  | .act i o => some (i, .act o)
  | .deliver src k dst x => ((P.sent (net src))[k]?).map fun m => (dst, .recv x m)

variable [DecidableEq ι]

/-- One event of the network; a delivery of what was never sent changes nothing. -/
def netStep (net : ι → σ) (o : NetOp ι op inp) : ι → σ :=
  match stepOf P net o with
  | none => net
  | some (i, l) => Function.update net i (P.step i l (net i))

/-- The events of a list, one after the other. -/
def netRun (net : ι → σ) (ops : List (NetOp ι op inp)) : ι → σ := ops.foldl (netStep P) net

variable {P} {net : ι → σ} {o : NetOp ι op inp} {i : ι} {l : NodeStep op inp msg}

theorem netRun_cons (net : ι → σ) (o : NetOp ι op inp) (ops : List (NetOp ι op inp)) :
    netRun P net (o :: ops) = netRun P (netStep P net o) ops := rfl

theorem netStep_none (h : stepOf P net o = none) : netStep P net o = net := by
  rw [netStep, h]

theorem netStep_some (h : stepOf P net o = some (i, l)) :
    netStep P net o = Function.update net i (P.step i l (net i)) := by
  rw [netStep, h]

/-- What every step of a node keeps, every event in the network keeps for all nodes. -/
theorem netStep_forall {I : ι → σ → Prop} (h : ∀ i, I i (net i))
    (hstep : ∀ i l, stepOf P net o = some (i, l) → I i (P.step i l (net i))) (j : ι) :
    I j (netStep P net o j) := by
  cases hs : stepOf P net o with
  | none =>
    rw [netStep_none hs]
    exact h j
  | some p =>
    obtain ⟨i, l⟩ := p
    rw [netStep_some hs]
    by_cases hj : j = i
    · subst hj
      rw [Function.update_self]
      exact hstep j l hs
    · rw [Function.update_of_ne hj]
      exact h j

/-- The invariant rule, for a statement about the whole network. -/
theorem netRun_invariant {J : (ι → σ) → Prop} {A : NetOp ι op inp → Prop}
    (hstep : ∀ net o, J net → A o → J (netStep P net o)) {net : ι → σ}
    {ops : List (NetOp ι op inp)} (hJ : J net) (hok : ∀ o ∈ ops, A o) : J (netRun P net ops) := by
  induction ops generalizing net with
  | nil => exact hJ
  | cons o ops ih =>
    have hnext := hstep net o hJ (hok o List.mem_cons_self)
    exact ih hnext fun o' ho' => hok o' (List.mem_cons_of_mem _ ho')

/-- A relation that every step of a node is in holds between the ends of a run, node by node. -/
theorem netRun_moves {R : σ → σ → Prop} (hrefl : ∀ s, R s s)
    (htrans : ∀ {s₁ s₂ s₃}, R s₁ s₂ → R s₂ s₃ → R s₁ s₃) (hstep : ∀ i l s, R s (P.step i l s))
    (net : ι → σ) (ops : List (NetOp ι op inp)) (j : ι) : R (net j) (netRun P net ops j) := by
  have hone : ∀ net o, (∀ j, R (net j) (netStep P net o j)) := by
    intro net o
    exact netStep_forall (I := fun j s => R (net j) s) (fun j => hrefl _)
      fun i l _ => hstep i l (net i)
  induction ops generalizing net with
  | nil => exact hrefl _
  | cons o ops ih => exact htrans (hone net o j) (ih _)

end Runs

/-! ## Where facts come from -/

section Facts

variable {ι σ op inp msg F : Type*}

/-- The steps of one node, seen by the facts they handle. `within K i s` says that node `i` in
state `s` holds and has said facts of `K` only, `tells K m` that a message says facts of `K` only;
`made i s l f` is what a step makes up, and `ok` admits steps. -/
structure Carrying (P : Party ι σ op inp msg) (ok : ι → NodeStep op inp msg → Prop)
    (made : ι → σ → NodeStep op inp msg → F → Prop) (within : (F → Prop) → ι → σ → Prop)
    (tells : (F → Prop) → msg → Prop) : Prop where
  mono : ∀ {K K' : F → Prop} {i s}, (∀ f, K f → K' f) → within K i s → within K' i s
  sent : ∀ {K i s m}, within K i s → m ∈ P.sent s → tells K m
  step : ∀ {K : F → Prop} {i s l}, ok i l → within K i s → (∀ x m, l = .recv x m → tells K m) →
    within (fun f => K f ∨ made i s l f) i (P.step i l s)

variable [DecidableEq ι] {P : Party ι σ op inp msg} {ok : ι → NodeStep op inp msg → Prop}
  {made : ι → σ → NodeStep op inp msg → F → Prop} {within : (F → Prop) → ι → σ → Prop}
  {tells : (F → Prop) → msg → Prop}

/-- One event: all facts stay within `K'` if that has the facts held before and those made now. -/
theorem netStep_within (hc : Carrying P ok made within tells) {K K' : F → Prop} {net : ι → σ}
    {o : NetOp ι op inp} (hok : ∀ i l, stepOf P net o = some (i, l) → ok i l)
    (hkeep : ∀ f, K f → K' f)
    (hmade : ∀ i l f, stepOf P net o = some (i, l) → made i (net i) l f → K' f)
    (h : ∀ i, within K i (net i)) (j : ι) : within K' j (netStep P net o j) := by
  refine netStep_forall (I := within K') (fun i => hc.mono hkeep (h i)) (fun i l hs => ?_) j
  have htells : ∀ x m, l = .recv x m → tells K m := by
    intro x m hl
    subst hl
    cases o with
    | act i' o' =>
      simp only [stepOf, Option.some.injEq, Prod.mk.injEq, reduceCtorEq, and_false] at hs
    | deliver src k dst x' =>
      obtain ⟨m', hm', heq⟩ := Option.map_eq_some_iff.mp hs
      cases heq
      exact hc.sent (h src) (List.mem_of_getElem? hm')
  have hnext := hc.step (hok i l hs) (h i) htells
  exact hc.mono (fun f hf => hf.elim (hkeep f) (hmade i l f hs)) hnext

/-- The rule for runs: `K` may grow with the network, and has everything that is made. -/
theorem netRun_within (hc : Carrying P ok made within tells) {K : (ι → σ) → F → Prop}
    {A : NetOp ι op inp → Prop}
    (hok : ∀ net o i l, A o → stepOf P net o = some (i, l) → ok i l)
    (hkeep : ∀ net o f, K net f → K (netStep P net o) f)
    (hmade : ∀ net o i l f, A o → stepOf P net o = some (i, l) → made i (net i) l f →
      K (netStep P net o) f)
    {net : ι → σ} {ops : List (NetOp ι op inp)} (hadm : ∀ o ∈ ops, A o)
    (h : ∀ i, within (K net) i (net i)) (j : ι) :
    within (K (netRun P net ops)) j (netRun P net ops j) := by
  refine netRun_invariant (J := fun net => ∀ i, within (K net) i (net i)) ?_ h hadm j
  intro net o hnet ho
  exact netStep_within hc (fun i l => hok net o i l ho) (hkeep net o)
    (fun i l f => hmade net o i l f ho) hnet

end Facts

end Vdht.Lib
