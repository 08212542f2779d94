import Mathlib.Logic.Function.Basic
import Mathlib.Logic.Relation
import Mathlib.Data.List.Basic

/-!
# Recursive mutexes

Threads that run fixed scripts of lock and unlock actions over recursive mutexes. A thread may
enter a lock that no other thread holds, however deep it holds the lock itself. Two threads are
crossed over two locks when each holds one and its next action enters the other. A script nests
one lock in another when it enters the second while it holds the first. Crossed threads nest
the two locks in opposite orders; two threads that do so early enough can be brought to a
crossed state.
-/

namespace Vdht.Lib

/-- What a thread does with a lock. -/
inductive LockAct (L : Type*) where
  | enter (l : L)
  | leave (l : L)
deriving DecidableEq, Repr

namespace LockAct

variable {L : Type*} [DecidableEq L]

/-- How deep a thread holds each lock after one more action. -/
def apply (held : L → Nat) : LockAct L → L → Nat
  | .enter l => Function.update held l (held l + 1)
  | .leave l => Function.update held l (held l - 1)

/-- How deep a thread holds each lock after a script. -/
def depth (held : L → Nat) (script : List (LockAct L)) : L → Nat :=
  script.foldl apply held

@[simp] theorem depth_nil (held : L → Nat) : depth held [] = held := rfl

@[simp] theorem depth_cons (held : L → Nat) (a : LockAct L) (script : List (LockAct L)) :
    depth held (a :: script) = depth (apply held a) script := rfl

@[simp] theorem depth_append (held : L → Nat) (xs ys : List (LockAct L)) :
    depth held (xs ++ ys) = depth (depth held xs) ys := List.foldl_append

/-- A lock that is held has been entered, or was held before. -/
theorem mem_of_depth_pos {held : L → Nat} {script : List (LockAct L)} {l : L}
    (hheld : held l = 0) (h : 0 < depth held script l) : .enter l ∈ script := by
  induction script generalizing held with
  | nil =>
    rw [depth_nil, hheld] at h
    omega
  | cons a script ih =>
    by_cases ha : a = .enter l
    · subst ha
      exact List.mem_cons_self
    · refine List.mem_cons_of_mem _ (ih ?_ h)
      cases a with
      | enter k =>
        have hk : l ≠ k := fun e => ha (e ▸ rfl)
        simp only [apply, Function.update_of_ne hk, hheld]
      | leave k =>
        by_cases hk : l = k
        · subst hk
          simp [apply, hheld]
        · simp only [apply, Function.update_of_ne hk, hheld]

/-! ## Balanced scripts -/

/-- A script that gives back every lock it enters. -/
def Balanced (script : List (LockAct L)) : Prop := ∀ held : L → Nat, depth held script = held

theorem Balanced.nil : Balanced ([] : List (LockAct L)) := fun _ => rfl

theorem Balanced.append {xs ys : List (LockAct L)} (hx : Balanced xs) (hy : Balanced ys) :
    Balanced (xs ++ ys) := by
  intro held
  rw [depth_append, hx, hy]

theorem Balanced.flatten {scripts : List (List (LockAct L))}
    (h : ∀ script ∈ scripts, Balanced script) : Balanced scripts.flatten := by
  induction scripts with
  | nil => exact Balanced.nil
  | cons script scripts ih =>
    have hrest := ih fun s hs => h s (List.mem_cons_of_mem _ hs)
    exact (h script List.mem_cons_self).append hrest

/-- A critical section: a body between entering a lock and leaving it. -/
def under (l : L) (body : List (LockAct L)) : List (LockAct L) :=
  .enter l :: body ++ [.leave l]

theorem Balanced.under {l : L} {body : List (LockAct L)} (h : Balanced body) :
    Balanced (under l body) := by
  intro held
  simp only [LockAct.under, List.cons_append, depth_cons, depth_append, depth_nil, h _]
  simp [apply]

/-- A script enters `b` while it holds `a`. -/
def Nests (a b : L) (script : List (LockAct L)) : Prop :=
  ∃ pre post, script = pre ++ .enter b :: post ∧ 0 < depth (fun _ => 0) pre a

theorem Nests.mem_outer {a b : L} {script : List (LockAct L)} (h : Nests a b script) :
    .enter a ∈ script := by
  obtain ⟨pre, post, rfl, hpos⟩ := h
  exact List.mem_append_left _ (mem_of_depth_pos rfl hpos)

theorem Nests.mem_inner {a b : L} {script : List (LockAct L)} (h : Nests a b script) :
    .enter b ∈ script := by
  obtain ⟨pre, post, rfl, _⟩ := h
  exact List.mem_append_right _ List.mem_cons_self

end LockAct

/-! ## Threads -/

open LockAct

variable {L T : Type*} [DecidableEq L] [DecidableEq T]

/-- How deep each thread holds each lock, and what it has still to do. -/
structure LockState (L T : Type*) where
  held : T → L → Nat
  todo : T → List (LockAct L)

namespace LockState

/-- No lock is held, and each thread has its script in front of it. -/
def init (script : T → List (LockAct L)) : LockState L T where
  held _ _ := 0
  todo := script

/-- Thread `t` has done `acts` and has `rest` left. -/
def advance (s : LockState L T) (t : T) (acts rest : List (LockAct L)) : LockState L T where
  held := Function.update s.held t (depth (s.held t) acts)
  todo := Function.update s.todo t rest

/-- No thread but `t` holds `l`. -/
def Free (s : LockState L T) (t : T) (l : L) : Prop := ∀ u, u ≠ t → s.held u l = 0

/-- One thread does its next act; it enters a lock that no other thread holds. -/
inductive Step : LockState L T → LockState L T → Prop
  | act {s : LockState L T} (t : T) {a : LockAct L} {rest : List (LockAct L)}
      (htodo : s.todo t = a :: rest) (hfree : ∀ l, a = .enter l → s.Free t l) :
      Step s (s.advance t [a] rest)

/-- Any number of steps, of any threads in any order. -/
def Reaches : LockState L T → LockState L T → Prop := Relation.ReflTransGen Step

/-- Two threads, each of which holds the lock that the other one is about to enter. -/
def Crossed (s : LockState L T) (a b : L) (t u : T) : Prop :=
  t ≠ u ∧ 0 < s.held t a ∧ (s.todo t).head? = some (.enter b) ∧
    0 < s.held u b ∧ (s.todo u).head? = some (.enter a)

/-! ## Crossed threads nest in opposite orders -/

/-- Every thread has done the first part of its script and holds what that part leaves held. -/
def OnScript (script : T → List (LockAct L)) (s : LockState L T) : Prop :=
  ∀ t, ∃ pre, script t = pre ++ s.todo t ∧ s.held t = depth (fun _ => 0) pre

theorem OnScript.step {script : T → List (LockAct L)} {s s' : LockState L T}
    (h : OnScript script s) (hstep : Step s s') : OnScript script s' := by
  cases hstep with
  | @act t a rest htodo _ =>
    intro u
    obtain ⟨pre, hscript, hheld⟩ := h u
    by_cases hu : u = t
    · subst hu
      refine ⟨pre ++ [a], ?_, ?_⟩
      · simp [advance, hscript, htodo]
      · simp [advance, hheld]
    · refine ⟨pre, ?_, ?_⟩
      · simp [advance, hu, hscript]
      · simp [advance, hu, hheld]

theorem OnScript.of_reaches {script : T → List (LockAct L)} {s : LockState L T}
    (h : Reaches (init script) s) : OnScript script s := by
  induction h with
  | refl => exact fun t => ⟨[], rfl, rfl⟩
  | tail _ hstep ih => exact ih.step hstep

omit [DecidableEq T] in
theorem OnScript.nests {script : T → List (LockAct L)} {s : LockState L T} {a b : L} {t : T}
    (h : OnScript script s) (hheld : 0 < s.held t a)
    (hnext : (s.todo t).head? = some (.enter b)) : Nests a b (script t) := by
  obtain ⟨pre, hscript, hdepth⟩ := h t
  obtain ⟨post, hpost⟩ := List.head?_eq_some_iff.mp hnext
  exact ⟨pre, post, hpost ▸ hscript, hdepth ▸ hheld⟩

theorem Crossed.nests {script : T → List (LockAct L)} {s : LockState L T} {a b : L} {t u : T}
    (hreach : Reaches (init script) s) (h : Crossed s a b t u) :
    Nests a b (script t) ∧ Nests b a (script u) := by
  obtain ⟨_, hta, htb, hub, hua⟩ := h
  have hon := OnScript.of_reaches hreach
  exact ⟨hon.nests hta htb, hon.nests hub hua⟩

/-! ## Threads that nest in opposite orders can cross -/

theorem advance_advance (s : LockState L T) (t : T) (xs ys mid rest : List (LockAct L)) :
    (s.advance t xs mid).advance t ys rest = s.advance t (xs ++ ys) rest := by
  simp [advance]

theorem advance_nil {s : LockState L T} {t : T} {rest : List (LockAct L)}
    (h : s.todo t = rest) : s.advance t [] rest = s := by
  simp [advance, ← h]

/-- A thread whose locks nobody else holds runs as far as it likes. -/
theorem reaches_advance {s : LockState L T} {t : T} {acts rest : List (LockAct L)}
    (htodo : s.todo t = acts ++ rest) (hfree : ∀ l, .enter l ∈ acts → s.Free t l) :
    Reaches s (s.advance t acts rest) := by
  induction acts generalizing s with
  | nil =>
    have hnil : s.advance t [] rest = s := advance_nil htodo
    rw [hnil]
    exact Relation.ReflTransGen.refl
  | cons a acts ih =>
    have hfirst : Step s (s.advance t [a] (acts ++ rest)) :=
      Step.act t htodo fun l hl => hfree l (hl ▸ List.mem_cons_self)
    have hrest : Reaches (s.advance t [a] (acts ++ rest))
        ((s.advance t [a] (acts ++ rest)).advance t acts rest) := by
      apply ih (by simp [advance])
      intro l hl u hu
      have := hfree l (List.mem_cons_of_mem _ hl) u hu
      simpa [advance, hu] using this
    rw [advance_advance] at hrest
    exact Relation.ReflTransGen.head hfirst hrest

/-- Thread `u` runs until it holds nothing, thread `t` until it holds `a` but not `b` and is
about to enter `b`; then `u` enters `b` and is about to enter `a`. -/
theorem exists_crossed {script : T → List (LockAct L)} {a b : L} {t u : T}
    {pre post pre' post' : List (LockAct L)} (htu : t ≠ u)
    (ht : script t = pre ++ .enter b :: post) (hu : script u = pre' ++ .enter b :: .enter a :: post')
    (hbal : Balanced pre') (ha : 0 < depth (fun _ => 0) pre a)
    (hb : depth (fun _ => 0) pre b = 0) :
    ∃ s, Reaches (init script) s ∧ Crossed s a b t u := by
  have h1 : Reaches (init script) ((init script).advance u pre' (.enter b :: .enter a :: post')) :=
    reaches_advance hu fun l _ v _ => rfl
  set s1 := (init script).advance u pre' (.enter b :: .enter a :: post') with hs1
  have hheld1 : s1.held = fun _ _ => 0 := by
    funext v
    by_cases hv : v = u
    · subst hv
      simp [hs1, advance, init, hbal _]
    · simp [hs1, advance, init, hv]
  have htodo1 : s1.todo t = pre ++ .enter b :: post := by
    simp [hs1, advance, init, htu, ht]
  have h2 : Reaches s1 (s1.advance t pre (.enter b :: post)) := by
    apply reaches_advance htodo1
    intro l _ v _
    rw [hheld1]
  set s2 := s1.advance t pre (.enter b :: post) with hs2
  have hut : u ≠ t := Ne.symm htu
  have htodo2 : s2.todo u = .enter b :: .enter a :: post' := by
    simp [hs2, hs1, advance, hut]
  have hfree2 : ∀ l, LockAct.enter b = LockAct.enter l → s2.Free u l := by
    intro l hl v hv
    obtain rfl : b = l := by simpa using hl
    by_cases hvt : v = t
    · subst hvt
      simp [hs2, advance, hheld1, hb]
    · simp [hs2, advance, hheld1, hvt]
  have h3 : Reaches s2 (s2.advance u [.enter b] (.enter a :: post')) :=
    Relation.ReflTransGen.single (Step.act u htodo2 hfree2)
  refine ⟨_, (h1.trans h2).trans h3, htu, ?_, ?_, ?_, ?_⟩
  · simpa [hs2, advance, hheld1, htu] using ha
  · simp [hs2, advance, htu]
  · simp [advance, apply]
  · simp [advance]

end LockState

end Vdht.Lib
