import Vdht.Def
import Vdht.Lib.Ring

/-!
# Linked lists

`vlist.h`. A list is a ring through its head, `struct vlist` is the link of a node, and the
addresses are those of the nodes. To follow a pointer to no node is a fault; `NULL` is such a
pointer.

On a ring every operation succeeds and leaves a ring with the expected nodes, and it changes no
node outside of the ring but the one that is added.
-/

namespace Vdht.Utils

open Lib

/-- What the pointer `a` points to. -/
def load {α : Type} (h : Links α) (a : α) : Res (Link α) :=
  match h a with
  | some v => .ok v
  | none => .error .null

section Operations

variable {α : Type} [DecidableEq α]

/-- The assignment `a->next = b`. -/
def storeNext (h : Links α) (a b : α) : Res (Links α) :=
  if (h a).isSome then .ok (h.setNext a b) else .error .null

/-- The assignment `a->prev = b`. -/
def storePrev (h : Links α) (a b : α) : Res (Links α) :=
  if (h a).isSome then .ok (h.setPrev a b) else .error .null

/-- `vlist_is_empty`: the head of a list is its own successor. -/
def vlistIsEmpty (h : Links α) (head : α) : Res Bool := do
  let v ← load h head
  pure (v.next = head)

/-- `vlist_init`: the head of a list is linked to itself in both directions. -/
def vlistInit (h : Links α) (list : α) : Res (Links α) := do
  let h ← storeNext h list list
  storePrev h list list

/-- `vlist_add_tail`: a node goes between the last one and the head. -/
def vlistAddTail (h : Links α) (head new : α) : Res (Links α × α) := do
  let v ← load h head
  let h ← storeNext h v.prev new
  let v ← load h head
  let h ← storePrev h new v.prev
  let h ← storeNext h new head
  let h ← storePrev h head new
  pure (h, new)

/-- `vlist_del`: the neighbours of a node are linked to each other, and the node keeps its own
links. -/
def vlistDel (h : Links α) (entry : α) : Res (Links α × α) := do
  let v ← load h entry
  let h ← storePrev h v.next v.prev
  let v ← load h entry
  let h ← storeNext h v.prev v.next
  pure (h, entry)

/-- `vlist_pop_head`: the first node of a list is taken out, if there is one. -/
def vlistPopHead (h : Links α) (head : α) : Res (Links α × Option α) := do
  let empty ← vlistIsEmpty h head
  if empty then pure (h, none)
  else
    let v ← load h head
    let r ← vlistDel h v.next
    pure (r.1, some r.2)

/-- The nodes a loop passes that goes from `pos` on in direction `dir` and stops at the head. -/
def passes (dir : Link α → α) (h : Links α) (head pos : α) (fuel : Nat) : Res (List α) :=
  match fuel with
  | 0 => .error .fuel
  | fuel + 1 =>
    if pos = head then .ok []
    else do
      let v ← load h pos
      let nodes ← passes dir h head (dir v) fuel
      pure (pos :: nodes)

/-- `__vlist_for_each` -/
def vlistForEach (h : Links α) (head : α) (fuel : Nat) : Res (List α) := do
  let v ← load h head
  passes Link.next h head v.next fuel

/-- The same loop in the other direction. -/
def vlistForEachPrev (h : Links α) (head : α) (fuel : Nat) : Res (List α) := do
  let v ← load h head
  passes Link.prev h head v.prev fuel

end Operations

section Loads

variable {α : Type} {h : Links α} {a b : α}

theorem load_next (hn : h.next a = some b) : ∃ v, load h a = .ok v ∧ v.next = b := by
  obtain ⟨v, hv, hb⟩ := Option.map_eq_some_iff.mp hn
  refine ⟨v, ?_, hb⟩
  rw [load, hv]

theorem load_prev (hp : h.prev a = some b) : ∃ v, load h a = .ok v ∧ v.prev = b := by
  obtain ⟨v, hv, hb⟩ := Option.map_eq_some_iff.mp hp
  refine ⟨v, ?_, hb⟩
  rw [load, hv]

theorem load_congr {h' : Links α} (ha : h' a = h a) : load h' a = load h a := by
  rw [load, ha, load]

end Loads

section Ring

variable {α : Type} [DecidableEq α] {h : Links α} {head a b x : α} {l : List α}

theorem storeNext_ok (ha : (h a).isSome) (b : α) : storeNext h a b = .ok (h.setNext a b) := if_pos ha

theorem storePrev_ok (ha : (h a).isSome) (b : α) : storePrev h a b = .ok (h.setPrev a b) := if_pos ha

/-- The links that `vlist_add_tail` stores; `head->prev` is read again behind the first of them. -/
theorem vlistAddTail_eq {last new : α} (hl : h.Linked last head) (hnew : (h new).isSome) :
    vlistAddTail h head new = .ok (h.linkIn last new head, new) := by
  have hlast := Links.isSome_of_next hl.1
  have hhead := Links.isSome_of_prev hl.2
  obtain ⟨v, hv, hvprev⟩ := load_prev hl.2
  have hl' : (h.setNext last new).prev head = some last := by rw [Links.prev_setNext, hl.2]
  obtain ⟨w, hw, hwprev⟩ := load_prev hl'
  rw [vlistAddTail, hv, ok_bind, hvprev, storeNext_ok hlast, ok_bind, hw, ok_bind, hwprev,
    storePrev_ok (by simpa using hnew), ok_bind, storeNext_ok (by simpa using hnew), ok_bind,
    storePrev_ok (by simpa using hhead), ok_bind]
  rfl

theorem vlistDel_eq {p e n : α} (hp : h.Linked p e) (hn : h.Linked e n) (hen : e ≠ n) :
    vlistDel h e = .ok (h.linkOut p n, e) := by
  obtain ⟨v, hv, hvnext⟩ := load_next hn.1
  obtain ⟨w, hw, hwprev⟩ := load_prev hp.2
  obtain rfl := Except.ok.inj (hv.symm.trans hw)
  have hv' : load (h.setPrev n p) e = .ok v := (load_congr (Links.setPrev_ne hen)).trans hv
  have hplive := Links.isSome_of_next hp.1
  rw [vlistDel, hv, ok_bind, hvnext, hwprev, storePrev_ok (Links.isSome_of_prev hn.2), ok_bind, hv',
    ok_bind, hvnext, hwprev, storeNext_ok (by simpa using hplive), ok_bind]
  rfl

theorem vlistInit_ring (hlive : (h head).isSome) :
    ∃ h', vlistInit h head = .ok h' ∧ Ring h' head [] ∧ ∀ x, x ≠ head → h' x = h x := by
  refine ⟨(h.setNext head head).setPrev head head, ?_, Ring.nil ⟨?_, ?_⟩, ?_⟩
  · rw [vlistInit, storeNext_ok hlive, ok_bind, storePrev_ok (by simpa using hlive)]
  · rw [Links.next_setPrev, Links.next_setNext_self hlive]
  · rw [Links.prev_setPrev_self (by simpa using hlive)]
  · intro x hx
    rw [Links.setPrev_ne hx, Links.setNext_ne hx]

/-! ## Operations on a ring -/

theorem vlistAddTail_ring {new : α} (hr : Ring h head l) (hnew : new ∉ head :: l)
    (hlive : (h new).isSome) :
    ∃ h', vlistAddTail h head new = .ok (h', new) ∧ Ring h' head (l ++ [new]) ∧
      (∀ x, x ∉ head :: l → x ≠ new → h' x = h x) ∧ ∀ x, (h' x).isSome = (h x).isSome := by
  obtain ⟨c, last, hl⟩ : ∃ c last, head :: l = c ++ [last] :=
    ⟨_, _, (List.dropLast_append_getLast (List.cons_ne_nil head l)).symm⟩
  have hlast : last ∈ head :: l := by
    rw [hl]
    exact List.mem_append_right c List.mem_cons_self
  refine ⟨_, vlistAddTail_eq (hr.linked_last hl) hlive, hr.linkIn hl hnew hlive, fun x hx hxn => ?_,
    fun x => Links.isSome_linkIn⟩
  exact Links.linkIn_ne (fun h => hx (h ▸ hlast)) hxn fun h => hx (h ▸ List.mem_cons_self)

theorem vlistDel_ring {e : α} (hr : Ring h head l) (he : e ∈ l) :
    ∃ h', vlistDel h e = .ok (h', e) ∧ Ring h' head (l.erase e) ∧
      (∀ x, x ∉ head :: l.erase e → h' x = h x) ∧ ∀ x, (h' x).isSome = (h x).isSome := by
  obtain ⟨l₁, l₂, rfl⟩ := List.append_of_mem he
  obtain ⟨c, p, hp⟩ : ∃ c p, head :: l₁ = c ++ [p] :=
    ⟨_, _, (List.dropLast_append_getLast (List.cons_ne_nil head l₁)).symm⟩
  obtain ⟨n, d, hn⟩ := List.exists_cons_of_ne_nil (List.concat_ne_nil head l₂)
  have hpmem : p ∈ head :: l₁ := by
    rw [hp]
    exact List.mem_append_right c List.mem_cons_self
  have hnmem : n ∈ l₂ ++ [head] := by
    rw [hn]
    exact List.mem_cons_self
  obtain ⟨hhead, hnodup⟩ := List.nodup_cons.mp hr.nodup
  have hsplit := (List.perm_middle.nodup_iff).mp hnodup
  have hnot : e ∉ l₁ ++ l₂ := (List.nodup_cons.mp hsplit).1
  have herase : (l₁ ++ e :: l₂).erase e = l₁ ++ l₂ := by
    rw [List.erase_append_right _ fun h => hnot (List.mem_append_left l₂ h), List.erase_cons_head]
  have hen : e ≠ n := by
    intro heq
    rw [← heq] at hnmem
    rcases List.mem_append.mp hnmem with h | h
    · exact hnot (List.mem_append_right l₁ h)
    · exact hhead (List.mem_singleton.mp h ▸ he)
  obtain ⟨hpe, hne⟩ := hr.linked_around hp hn
  rw [herase]
  refine ⟨_, vlistDel_eq hpe hne hen, hr.linkOut hp hn, fun x hx => ?_, fun x => Links.isSome_linkOut⟩
  rw [← List.cons_append, List.mem_append, not_or] at hx
  refine Links.linkOut_ne (fun h => hx.1 (h ▸ hpmem)) fun h => ?_
  rcases List.mem_append.mp hnmem with hn₂ | hnhead
  · exact hx.2 (h ▸ hn₂)
  · rw [List.mem_singleton.mp hnhead] at h
    exact hx.1 (h ▸ List.mem_cons_self)

theorem vlistIsEmpty_ring (hr : Ring h head l) : vlistIsEmpty h head = .ok l.isEmpty := by
  cases l with
  | nil =>
    obtain ⟨v, hv, hnext⟩ := load_next (hr.linked_split (c := []) (d := []) rfl).1
    rw [vlistIsEmpty, hv, ok_bind, hnext]
    simp
  | cons x l =>
    obtain ⟨v, hv, hnext⟩ := load_next (hr.linked_split (c := []) (d := l ++ [head]) rfl).1
    have hne : x ≠ head := by
      rintro rfl
      exact (List.nodup_cons.mp hr.nodup).1 List.mem_cons_self
    rw [vlistIsEmpty, hv, ok_bind, hnext]
    simp [hne]

theorem vlistPopHead_nil (hr : Ring h head []) : vlistPopHead h head = .ok (h, none) := by
  rw [vlistPopHead, vlistIsEmpty_ring hr]
  rfl

theorem vlistPopHead_cons (hr : Ring h head (x :: l)) :
    ∃ h', vlistPopHead h head = .ok (h', some x) ∧ Ring h' head l ∧
      (∀ y, y ∉ head :: l → h' y = h y) ∧ ∀ y, (h' y).isSome = (h y).isSome := by
  obtain ⟨h', hdel, hring, hsame, hlive⟩ := vlistDel_ring hr List.mem_cons_self
  obtain ⟨v, hv, hnext⟩ := load_next (hr.linked_split (c := []) (d := l ++ [head]) rfl).1
  rw [List.erase_cons_head] at hring hsame
  refine ⟨h', ?_, hring, hsame, hlive⟩
  rw [vlistPopHead, vlistIsEmpty_ring hr, ok_bind, List.isEmpty_cons, if_neg Bool.false_ne_true, hv,
    ok_bind, hnext, hdel]
  rfl

/-! ## Traversals -/

theorem passes_eq {dir : Link α → α} {c : List α} {fuel : Nat} (hhead : head ∉ c)
    (hchain : (a :: (c ++ [head])).IsChain fun a b => (h a).map dir = some b)
    (hfuel : c.length < fuel) :
    ∃ v, load h a = .ok v ∧ passes dir h head (dir v) fuel = .ok c := by
  induction c generalizing a fuel with
  | nil =>
    obtain ⟨v, hv, hdir⟩ := Option.map_eq_some_iff.mp (List.isChain_cons_cons.mp hchain).1
    obtain ⟨fuel, rfl⟩ := Nat.exists_eq_succ_of_ne_zero (Nat.ne_of_gt hfuel)
    refine ⟨v, by rw [load, hv], ?_⟩
    rw [passes, if_pos hdir]
  | cons b c ih =>
    obtain ⟨hstep, hrest⟩ := List.isChain_cons_cons.mp hchain
    obtain ⟨v, hv, hdir⟩ := Option.map_eq_some_iff.mp hstep
    obtain ⟨hb, hc⟩ := not_or.mp (List.mem_cons.not.mp hhead)
    obtain ⟨fuel, rfl⟩ := Nat.exists_eq_succ_of_ne_zero (Nat.ne_zero_of_lt hfuel)
    obtain ⟨w, hw, hpass⟩ := ih hc hrest (Nat.lt_of_succ_lt_succ hfuel)
    refine ⟨v, by rw [load, hv], ?_⟩
    rw [passes, hdir, if_neg (Ne.symm hb), hw, ok_bind, hpass]
    rfl

theorem vlistForEach_ring (hr : Ring h head l) {fuel : Nat} (hfuel : l.length < fuel) :
    vlistForEach h head fuel = .ok l := by
  obtain ⟨v, hv, hpass⟩ := passes_eq (List.nodup_cons.mp hr.nodup).1 hr.nexts hfuel
  rw [vlistForEach, hv, ok_bind, hpass]

theorem vlistForEachPrev_ring (hr : Ring h head l) {fuel : Nat} (hfuel : l.length < fuel) :
    vlistForEachPrev h head fuel = .ok l.reverse := by
  have hhead : head ∉ l.reverse := by
    rw [List.mem_reverse]
    exact (List.nodup_cons.mp hr.nodup).1
  obtain ⟨v, hv, hpass⟩ := passes_eq hhead hr.prevs (by rwa [List.length_reverse])
  rw [vlistForEachPrev, hv, ok_bind, hpass]

/-- What the operations do to the ring `l` at `head`; nodes outside of it stay as they are. -/
structure ListLaws (h : Links α) (head : α) (l : List α) : Prop where
  add_tail : ∀ new, new ∉ head :: l → (h new).isSome →
    ∃ h', vlistAddTail h head new = .ok (h', new) ∧ Ring h' head (l ++ [new]) ∧
      ∀ x, x ∉ head :: l → x ≠ new → h' x = h x
  del : ∀ e ∈ l, ∃ h', vlistDel h e = .ok (h', e) ∧ Ring h' head (l.erase e) ∧
    ∀ x, x ∉ head :: l.erase e → h' x = h x
  pop_empty : l = [] → vlistPopHead h head = .ok (h, none)
  pop_first : ∀ x rest, l = x :: rest → ∃ h', vlistPopHead h head = .ok (h', some x) ∧
    Ring h' head rest ∧ ∀ y, y ∉ head :: rest → h' y = h y
  passed : ∀ fuel, l.length < fuel →
    vlistForEach h head fuel = .ok l ∧ vlistForEachPrev h head fuel = .ok l.reverse

theorem listLaws (hr : Ring h head l) : ListLaws h head l where
  add_tail := by
    intro new hnew hlive
    obtain ⟨h', hadd, hring, hsame, -⟩ := vlistAddTail_ring hr hnew hlive
    exact ⟨h', hadd, hring, hsame⟩
  del := by
    intro e he
    obtain ⟨h', hdel, hring, hsame, -⟩ := vlistDel_ring hr he
    exact ⟨h', hdel, hring, hsame⟩
  pop_empty := by
    rintro rfl
    exact vlistPopHead_nil hr
  pop_first := by
    rintro x rest rfl
    obtain ⟨h', hpop, hring, hsame, -⟩ := vlistPopHead_cons hr
    exact ⟨h', hpop, hring, hsame⟩
  passed := fun _ hfuel => ⟨vlistForEach_ring hr hfuel, vlistForEachPrev_ring hr hfuel⟩

end Ring

end Vdht.Utils
