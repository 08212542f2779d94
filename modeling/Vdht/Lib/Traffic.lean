import Mathlib.Algebra.BigOperators.Ring.Finset
import Mathlib.Algebra.Order.BigOperators.Group.Finset
import Vdht.Lib.Network

/-!
# Traffic that dies down

Give every message a weight, such that a node that gets a message sends messages of less weight
in return. When the nodes take no more steps of their own and no message is delivered twice, only so
many messages are heard as the messages that were sent before weigh.
-/

namespace Vdht.Lib

open Finset

variable {ι σ op inp msg : Type*} (P : Party ι σ op inp msg)

/-- The event is a delivery, and not an act of a node of its own accord. -/
def NetOp.IsDelivery : NetOp ι op inp → Prop
  | .act _ _ => False
  | .deliver _ _ _ _ => True

/-- The place of the message that an event delivers. -/
def heardAt (net : ι → σ) : NetOp ι op inp → List (ι × Nat)
  | .act _ _ => []
  | .deliver src k _ _ => if k < (P.sent (net src)).length then [(src, k)] else []

variable [DecidableEq ι]

/-- The places of the messages that are delivered in a run. -/
def heard (net : ι → σ) : List (NetOp ι op inp) → List (ι × Nat)
  | [] => []
  | o :: ops => heardAt P net o ++ heard (netStep P net o) ops

/-! ## Weights -/

section Weights

variable (weight : msg → Nat)

/-- The weight of a message by its sender and its number, and nothing for one that was not sent. -/
def weightAt (net : ι → σ) (p : ι × Nat) : Nat := (((P.sent (net p.1))[p.2]?).map weight).getD 0

omit [DecidableEq ι] in
theorem weightAt_eq {net : ι → σ} {src : ι} {k : Nat} {m : msg}
    (h : (P.sent (net src))[k]? = some m) : weightAt P weight net (src, k) = weight m := by
  rw [weightAt, h]
  rfl

/-- What all messages weigh that were sent so far. -/
def load [Fintype ι] (net : ι → σ) : Nat := ∑ i, ((P.sent (net i)).map weight).sum

variable {P weight}

theorem sum_getElem? {l : List msg} {n : Nat} (h : l.length ≤ n) :
    ∑ k ∈ range n, ((l[k]?).map weight).getD 0 = (l.map weight).sum := by
  induction l generalizing n with
  | nil => exact sum_eq_zero fun k _ => rfl
  | cons m l ih =>
    obtain ⟨n, rfl⟩ : ∃ n', n = n' + 1 := ⟨n - 1, by rw [List.length_cons] at h; omega⟩
    have hrest := ih (Nat.le_of_succ_le_succ h)
    rw [sum_range_succ', List.map_cons, List.sum_cons, ← hrest, Nat.add_comm]
    rfl

/-- Messages at different places weigh no more than all messages together. -/
theorem sum_weightAt_le [Fintype ι] {net : ι → σ} {ps : List (ι × Nat)} (hps : ps.Nodup)
    (hin : ∀ p ∈ ps, p.2 < (P.sent (net p.1)).length) :
    (ps.map (weightAt P weight net)).sum ≤ load P weight net := by
  have hbound : ∀ i, (P.sent (net i)).length ≤ ∑ j, (P.sent (net j)).length := fun i =>
    single_le_sum (f := fun j => (P.sent (net j)).length) (fun _ _ => Nat.zero_le _) (mem_univ i)
  have hsub : ps.toFinset ⊆ univ ×ˢ range (∑ j, (P.sent (net j)).length) := by
    intro p hp
    have hlt := hin p (List.mem_toFinset.mp hp)
    exact mem_product.mpr ⟨mem_univ _, mem_range.mpr (Nat.lt_of_lt_of_le hlt (hbound p.1))⟩
  calc (ps.map (weightAt P weight net)).sum
      = ∑ p ∈ ps.toFinset, weightAt P weight net p := (List.sum_toFinset _ hps).symm
    _ ≤ ∑ p ∈ univ ×ˢ range (∑ j, (P.sent (net j)).length), weightAt P weight net p :=
        sum_le_sum_of_subset hsub
    _ = ∑ i, ∑ k ∈ range (∑ j, (P.sent (net j)).length), weightAt P weight net (i, k) :=
        sum_product _ _ _
    _ = load P weight net := sum_congr rfl fun i _ => sum_getElem? (hbound i)

/-- One node sends a few more messages. -/
theorem load_update [Fintype ι] {net : ι → σ} {j : ι} {s : σ} {new : List msg}
    (h : P.sent s = P.sent (net j) ++ new) :
    load P weight (Function.update net j s) = load P weight net + (new.map weight).sum := by
  have hrest : ∑ i ∈ univ.erase j, ((P.sent (Function.update net j s i)).map weight).sum =
      ∑ i ∈ univ.erase j, ((P.sent (net i)).map weight).sum :=
    sum_congr rfl fun i hi => by rw [Function.update_of_ne (ne_of_mem_erase hi)]
  unfold load
  rw [← add_sum_erase univ _ (mem_univ j), hrest, Function.update_self, h, List.map_append,
    List.sum_append, ← add_sum_erase univ (fun i => ((P.sent (net i)).map weight).sum) (mem_univ j)]
  omega

end Weights

/-! ## Runs of deliveries -/

section Runs

variable {P} {weight : msg → Nat} {J : (ι → σ) → Prop}

/-- Every delivery keeps the invariant, and its receiver sends messages of less weight in return. -/
def Subsides (P : Party ι σ op inp msg) (weight : msg → Nat) (J : (ι → σ) → Prop) : Prop :=
  ∀ net src k j x m, J net → (P.sent (net src))[k]? = some m →
    J (netStep P net (.deliver src k j x)) ∧
      ∃ new, P.sent (P.recv j x m (net j)) = P.sent (net j) ++ new ∧ (new.map weight).sum < weight m

/-- A delivery does nothing, or its receiver sends messages of less weight. -/
theorem Subsides.cases (h : Subsides P weight J) {net : ι → σ} (hJ : J net) (src : ι) (k : Nat)
    (j : ι) (x : inp) :
    (heardAt P net (.deliver src k j x : NetOp ι op inp) = [] ∧
        netStep P net (.deliver src k j x) = net) ∨
      ∃ m new s, (P.sent (net src))[k]? = some m ∧
        heardAt P net (.deliver src k j x : NetOp ι op inp) = [(src, k)] ∧
        netStep P net (.deliver src k j x) = Function.update net j s ∧
        P.sent s = P.sent (net j) ++ new ∧ (new.map weight).sum < weight m ∧
        J (netStep P net (.deliver src k j x)) := by
  cases hm : (P.sent (net src))[k]? with
  | none =>
    have hstep : stepOf P net (.deliver src k j x) = none := by
      rw [stepOf, hm]
      rfl
    exact Or.inl ⟨if_neg (Nat.not_lt.mpr (List.getElem?_eq_none_iff.mp hm)), netStep_none hstep⟩
  | some m =>
    have hstep : stepOf P net (.deliver src k j x) = some (j, .recv x m) := by
      rw [stepOf, hm]
      rfl
    obtain ⟨hnext, new, hsent, hlt⟩ := h net src k j x m hJ hm
    exact Or.inr ⟨m, new, _, rfl, if_pos (List.getElem?_eq_some_iff.mp hm).1, netStep_some hstep,
      hsent, hlt, hnext⟩

/-- What was sent stays sent. -/
theorem Subsides.sent_prefix (h : Subsides P weight J) {net : ι → σ} (hJ : J net)
    {ops : List (NetOp ι op inp)} (hops : ∀ o ∈ ops, o.IsDelivery) (i : ι) :
    P.sent (net i) <+: P.sent (netRun P net ops i) := by
  induction ops generalizing net with
  | nil => exact List.prefix_refl _
  | cons o ops ih =>
    have hrest := fun o' ho' => hops o' (List.mem_cons_of_mem o ho')
    cases o with
    | act i op => exact absurd (hops _ List.mem_cons_self) id
    | deliver src k j x =>
      rcases h.cases hJ src k j x with ⟨-, hsame⟩ | ⟨m, new, s, -, -, hstep, hsent, -, hnext⟩
      · show _ <+: P.sent (netRun P (netStep P net _) ops i)
        rw [hsame]
        exact ih hJ hrest
      · refine List.IsPrefix.trans ?_ (ih hnext hrest)
        rw [hstep]
        by_cases hi : i = j
        · subst hi
          rw [Function.update_self, hsent]
          exact List.prefix_append _ _
        · rw [Function.update_of_ne hi]

/-- Every delivery takes more weight out of the network than it puts in. -/
theorem Subsides.load_le [Fintype ι] (h : Subsides P weight J) {net : ι → σ} (hJ : J net)
    {ops : List (NetOp ι op inp)} (hops : ∀ o ∈ ops, o.IsDelivery) :
    load P weight (netRun P net ops) + (heard P net ops).length ≤
        load P weight net + ((heard P net ops).map (weightAt P weight (netRun P net ops))).sum ∧
      ∀ p ∈ heard P net ops, p.2 < (P.sent (netRun P net ops p.1)).length := by
  induction ops generalizing net with
  | nil => exact ⟨Nat.le_refl _, fun p hp => absurd hp List.not_mem_nil⟩
  | cons o ops ih =>
    have hrest := fun o' ho' => hops o' (List.mem_cons_of_mem o ho')
    cases o with
    | act i op => exact absurd (hops _ List.mem_cons_self) id
    | deliver src k j x =>
      rcases h.cases hJ src k j x with
        ⟨hnone, hsame⟩ | ⟨m, new, s, hm, hone, hstep, hsent, hlt, hnext⟩
      · rw [heard, hnone, List.nil_append, netRun_cons, hsame]
        exact ih hJ hrest
      · obtain ⟨hload, hin⟩ := ih hnext hrest
        have hkept := h.sent_prefix hnext hrest src
        have hthere : (P.sent (netStep P net (.deliver src k j x) src))[k]? = some m := by
          rw [hstep]
          by_cases hsrc : src = j
          · subst hsrc
            rw [Function.update_self, hsent, List.getElem?_append_left (List.getElem?_eq_some_iff.mp hm).1]
            exact hm
          · rw [Function.update_of_ne hsrc]
            exact hm
        obtain ⟨hk, hget⟩ := List.getElem?_eq_some_iff.mp hthere
        have hlast := List.prefix_iff_getElem?.mp hkept k hk
        rw [hget] at hlast
        rw [heard, hone, netRun_cons]
        refine ⟨?_, List.forall_mem_cons.mpr ⟨Nat.lt_of_lt_of_le hk hkept.length_le, hin⟩⟩
        have hless : load P weight (Function.update net j s) = _ := load_update hsent
        rw [← hstep] at hless
        rw [List.singleton_append, List.length_cons, List.map_cons, List.sum_cons,
          weightAt_eq P weight hlast]
        omega

/-- In a run of deliveries that delivers no message twice. -/
theorem Subsides.heard_le [Fintype ι] (h : Subsides P weight J) {net : ι → σ} (hJ : J net)
    {ops : List (NetOp ι op inp)} (hops : ∀ o ∈ ops, o.IsDelivery) (honce : (heard P net ops).Nodup) :
    (heard P net ops).length ≤ load P weight net := by
  obtain ⟨hload, hin⟩ := h.load_le hJ hops
  have hheard : _ ≤ load P weight (netRun P net ops) := sum_weightAt_le honce hin
  omega

end Runs

end Vdht.Lib
