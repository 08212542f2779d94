import Mathlib.Data.List.Chain
import Mathlib.Data.List.Nodup

/-!
# Rings of linked nodes

Memory is a partial map from addresses to nodes, and a node holds the addresses of its two
neighbours. A ring goes from its head through the nodes of a list and back to the head, and every
step of it is linked both ways. A new node is linked in behind the last one, and a node is linked
out by joining its neighbours; both only change nodes of the ring and the new one.
-/

namespace Vdht.Lib

/-- The two pointers of a node of a doubly linked list. -/
structure Link (α : Type*) where
  next : α
  prev : α

/-- The nodes in memory. -/
abbrev Links (α : Type*) := α → Option (Link α)

namespace Links

variable {α : Type*} {h h' : Links α} {a b x : α}

/-- The node behind this one; `none` when the pointer to this one is to no node. -/
def next (h : Links α) (x : α) : Option α := (h x).map Link.next

/-- The node in front of this one; `none` when the pointer to this one is to no node. -/
def prev (h : Links α) (x : α) : Option α := (h x).map Link.prev

/-- `b` comes next to `a`, in both directions. -/
def Linked (h : Links α) (a b : α) : Prop := h.next a = some b ∧ h.prev b = some a

theorem next_congr (hx : h' x = h x) : h'.next x = h.next x := by rw [next, hx, next]

theorem prev_congr (hx : h' x = h x) : h'.prev x = h.prev x := by rw [prev, hx, prev]

theorem isSome_of_next (hx : h.next x = some a) : (h x).isSome := by
  cases hv : h x with
  | none =>
    rw [next, hv] at hx
    cases hx
  | some v => rfl

theorem isSome_of_prev (hx : h.prev x = some a) : (h x).isSome := by
  cases hv : h x with
  | none =>
    rw [prev, hv] at hx
    cases hx
  | some v => rfl

/-- A chain only depends on the links between its elements. -/
theorem chain_frame {c : List α} (hc : c.IsChain h.Linked)
    (hnext : ∀ x ∈ c.dropLast, h'.next x = h.next x) (hprev : ∀ x ∈ c.tail, h'.prev x = h.prev x) :
    c.IsChain h'.Linked := by
  induction c with
  | nil => exact List.isChain_nil
  | cons a c ih =>
    cases c with
    | nil => exact List.isChain_singleton a
    | cons b c =>
      obtain ⟨⟨hab, hba⟩, hrest⟩ := List.isChain_cons_cons.mp hc
      rw [List.dropLast_cons_cons, List.forall_mem_cons] at hnext
      rw [List.tail_cons, List.forall_mem_cons] at hprev
      refine List.isChain_cons_cons.mpr ⟨⟨?_, ?_⟩, ih hrest hnext.2 hprev.2⟩
      · rw [hnext.1, hab]
      · rw [hprev.1, hba]

section Stores

variable [DecidableEq α]

/-- The heap in which one node is changed, if there is such a node. -/
def modify (h : Links α) (a : α) (f : Link α → Link α) : Links α :=
  fun x => if x = a then (h x).map f else h x

/-- The store `a->next = b`. -/
def setNext (h : Links α) (a b : α) : Links α := h.modify a fun v => { v with next := b }

/-- The store `a->prev = b`. -/
def setPrev (h : Links α) (a b : α) : Links α := h.modify a fun v => { v with prev := b }

@[simp] theorem isSome_modify (f : Link α → Link α) : (h.modify a f x).isSome = (h x).isSome := by
  rw [modify]
  split
  · exact Option.isSome_map
  · rfl

@[simp] theorem isSome_setNext : (h.setNext a b x).isSome = (h x).isSome := isSome_modify _

@[simp] theorem isSome_setPrev : (h.setPrev a b x).isSome = (h x).isSome := isSome_modify _

theorem setNext_ne (hx : x ≠ a) : h.setNext a b x = h x := if_neg hx

theorem setPrev_ne (hx : x ≠ a) : h.setPrev a b x = h x := if_neg hx

theorem next_setNext_self (ha : (h a).isSome) : (h.setNext a b).next a = some b := by
  obtain ⟨v, hv⟩ := Option.isSome_iff_exists.mp ha
  rw [next, setNext, modify, if_pos rfl, hv]
  rfl

theorem prev_setPrev_self (ha : (h a).isSome) : (h.setPrev a b).prev a = some b := by
  obtain ⟨v, hv⟩ := Option.isSome_iff_exists.mp ha
  rw [prev, setPrev, modify, if_pos rfl, hv]
  rfl

@[simp] theorem prev_setNext : (h.setNext a b).prev x = h.prev x := by
  rw [prev, setNext, modify]
  split
  · rw [Option.map_map]
    rfl
  · rfl

@[simp] theorem next_setPrev : (h.setPrev a b).next x = h.next x := by
  rw [next, setPrev, modify]
  split
  · rw [Option.map_map]
    rfl
  · rfl

theorem next_setNext_ne (hx : x ≠ a) : (h.setNext a b).next x = h.next x :=
  next_congr (setNext_ne hx)

theorem prev_setPrev_ne (hx : x ≠ a) : (h.setPrev a b).prev x = h.prev x :=
  prev_congr (setPrev_ne hx)

/-- Links `new` in between `last` and `head`. -/
def linkIn (h : Links α) (last new head : α) : Links α :=
  (((h.setNext last new).setPrev new last).setNext new head).setPrev head new

/-- Joins `p` and `n`. -/
def linkOut (h : Links α) (p n : α) : Links α := (h.setPrev n p).setNext p n

variable {last new head p n : α}

theorem linkIn_ne (hlast : x ≠ last) (hnew : x ≠ new) (hhead : x ≠ head) :
    h.linkIn last new head x = h x := by
  rw [linkIn, setPrev_ne hhead, setNext_ne hnew, setPrev_ne hnew, setNext_ne hlast]

theorem linkOut_ne (hp : x ≠ p) (hn : x ≠ n) : h.linkOut p n x = h x := by
  rw [linkOut, setNext_ne hp, setPrev_ne hn]

theorem next_linkOut_ne (hp : x ≠ p) : (h.linkOut p n).next x = h.next x := by
  rw [linkOut, next_setNext_ne hp, next_setPrev]

theorem prev_linkOut_ne (hn : x ≠ n) : (h.linkOut p n).prev x = h.prev x := by
  rw [linkOut, prev_setNext, prev_setPrev_ne hn]

theorem isSome_linkIn : (h.linkIn last new head x).isSome = (h x).isSome := by simp [linkIn]

theorem isSome_linkOut : (h.linkOut p n x).isSome = (h x).isSome := by simp [linkOut]

theorem chain_linkIn {c : List α} (hc : c.IsChain h.Linked) (hlast : last ∉ c.dropLast)
    (hnew : new ∉ c) (hhead : head ∉ c.tail) : c.IsChain (h.linkIn last new head).Linked := by
  refine chain_frame hc (fun x hx => ?_) fun x hx => ?_
  · have hxl : x ≠ last := fun heq => hlast (heq ▸ hx)
    have hxn : x ≠ new := fun heq => hnew (heq ▸ List.dropLast_subset _ hx)
    rw [linkIn, next_setPrev, next_setNext_ne hxn, next_setPrev, next_setNext_ne hxl]
  · have hxh : x ≠ head := fun heq => hhead (heq ▸ hx)
    have hxn : x ≠ new := fun heq => hnew (heq ▸ List.mem_of_mem_tail hx)
    rw [linkIn, prev_setPrev_ne hxh, prev_setNext, prev_setPrev_ne hxn, prev_setNext]

theorem chain_linkOut {c : List α} (hc : c.IsChain h.Linked) (hp : p ∉ c.dropLast)
    (hn : n ∉ c.tail) : c.IsChain (h.linkOut p n).Linked :=
  chain_frame hc (fun _ hx => next_linkOut_ne fun heq => hp (heq ▸ hx)) fun _ hx =>
    prev_linkOut_ne fun heq => hn (heq ▸ hx)

theorem linked_linkIn (hlast : (h last).isSome) (hnew : (h new).isSome) (hhead : (h head).isSome)
    (hln : last ≠ new) (hnh : new ≠ head) :
    (h.linkIn last new head).Linked last new ∧ (h.linkIn last new head).Linked new head := by
  refine ⟨⟨?_, ?_⟩, ?_, ?_⟩
  · rw [linkIn, next_setPrev, next_setNext_ne hln, next_setPrev, next_setNext_self hlast]
  · rw [linkIn, prev_setPrev_ne hnh, prev_setNext, prev_setPrev_self (by simpa using hnew)]
  · rw [linkIn, next_setPrev, next_setNext_self (by simpa using hnew)]
  · rw [linkIn, prev_setPrev_self (by simpa using hhead)]

theorem linked_linkOut (hp : (h p).isSome) (hn : (h n).isSome) : (h.linkOut p n).Linked p n := by
  constructor
  · rw [linkOut, next_setNext_self (by simpa using hp)]
  · rw [linkOut, prev_setNext, prev_setPrev_self hn]

end Stores

end Links

/-- From `head` through the nodes of `l` and back to `head`. -/
structure Ring {α : Type*} (h : Links α) (head : α) (l : List α) : Prop where
  nodup : (head :: l).Nodup
  chain : (head :: (l ++ [head])).IsChain h.Linked

namespace Ring

variable {α : Type*} {h h' : Links α} {head e x : α} {l l₁ l₂ : List α}

/-- A head that is linked to itself. -/
theorem nil (hself : h.Linked head head) : Ring h head [] :=
  ⟨List.nodup_singleton head,
    List.isChain_cons_cons.mpr ⟨hself, List.isChain_singleton head⟩⟩

/-- A ring does not notice what happens to other nodes. -/
theorem frame (hr : Ring h head l) (hsame : ∀ x ∈ head :: l, h' x = h x) : Ring h' head l := by
  refine ⟨hr.nodup, Links.chain_frame hr.chain (fun x hx => Links.next_congr (hsame x ?_))
    fun x hx => Links.prev_congr (hsame x ?_)⟩
  · rwa [← List.cons_append, List.dropLast_concat] at hx
  · rw [List.tail_cons] at hx
    rcases List.mem_append.mp hx with hx | hx
    · exact List.mem_cons_of_mem head hx
    · rw [List.mem_singleton.mp hx]
      exact List.mem_cons_self

/-- The links between the part up to a node and the part behind it. -/
theorem linked_split {a b : α} {c d : List α}
    (hr : Ring h head l) (hl : head :: (l ++ [head]) = (c ++ [a]) ++ b :: d) : h.Linked a b := by
  have hchain := hr.chain
  rw [hl, List.append_assoc, List.singleton_append] at hchain
  exact (List.isChain_append_cons_cons.mp hchain).2.1

theorem isSome (hr : Ring h head l) (hx : x ∈ head :: l) : (h x).isSome := by
  obtain ⟨c, t, ht⟩ := List.append_of_mem hx
  obtain ⟨b, d, hd⟩ := List.exists_cons_of_ne_nil (List.concat_ne_nil head t)
  refine Links.isSome_of_next (hr.linked_split (a := x) (b := b) (c := c) (d := d) ?_).1
  rw [← List.cons_append, ht, List.append_assoc, List.cons_append, hd, List.append_assoc]
  rfl

/-- The last node, which is the head itself in an empty ring, and the head. -/
theorem linked_last {last : α} {c : List α} (hr : Ring h head l) (hl : head :: l = c ++ [last]) :
    h.Linked last head := by
  refine hr.linked_split (c := c) (d := []) ?_
  rw [← List.cons_append, hl]

/-- A node and its neighbours. -/
theorem linked_around {p n : α} {c d : List α} (hr : Ring h head (l₁ ++ e :: l₂))
    (hp : head :: l₁ = c ++ [p]) (hn : l₂ ++ [head] = n :: d) : h.Linked p e ∧ h.Linked e n := by
  have hall : head :: (l₁ ++ e :: l₂ ++ [head]) = (c ++ [p]) ++ e :: (n :: d) := by
    rw [List.append_assoc, ← List.cons_append, hp, List.cons_append, hn]
  refine ⟨hr.linked_split hall, hr.linked_split (c := c ++ [p]) (d := d) ?_⟩
  rw [hall, List.append_assoc (c ++ [p])]
  rfl

theorem nexts (hr : Ring h head l) :
    (head :: (l ++ [head])).IsChain fun a b => h.next a = some b :=
  hr.chain.imp fun _ _ hab => hab.1

/-- Against the links the ring is passed in reverse. -/
theorem prevs (hr : Ring h head l) :
    (head :: (l.reverse ++ [head])).IsChain fun a b => h.prev a = some b := by
  have hrev : head :: (l.reverse ++ [head]) = (head :: (l ++ [head])).reverse := by simp
  rw [hrev, List.isChain_reverse]
  exact hr.chain.imp fun _ _ hab => hab.2

section Stores

variable [DecidableEq α]

theorem linkIn {last new : α} {c : List α} (hr : Ring h head l) (hl : head :: l = c ++ [last])
    (hnew : new ∉ head :: l) (hlive : (h new).isSome) :
    Ring (h.linkIn last new head) head (l ++ [new]) := by
  have hlast : last ∈ head :: l := by
    rw [hl]
    exact List.mem_append_right c List.mem_cons_self
  have hfresh : ∀ {x}, x ∈ head :: l → x ≠ new := by
    intro x hx heq
    exact hnew (heq ▸ hx)
  have hlinked := Links.linked_linkIn (hr.isSome hlast) hlive (hr.isSome List.mem_cons_self)
    (hfresh hlast) (hfresh List.mem_cons_self).symm
  have hnodup := hr.nodup
  have honce : last ∉ (head :: l).dropLast := by
    rw [hl, List.nodup_append] at hnodup
    rw [hl, List.dropLast_concat]
    exact fun hmem => hnodup.2.2 last hmem last List.mem_cons_self rfl
  have hold : (head :: l).IsChain (h.linkIn last new head).Linked := by
    have hchain := hr.chain
    rw [← List.cons_append] at hchain
    exact Links.chain_linkIn hchain.left_of_append honce hnew (List.nodup_cons.mp hnodup).1
  constructor
  · rw [← List.cons_append, List.nodup_append]
    refine ⟨hnodup, List.nodup_singleton new, fun x hx y hy => ?_⟩
    rw [List.mem_singleton.mp hy]
    exact hfresh hx
  · rw [hl] at hold
    have hjoin := List.isChain_append_cons_cons.mpr ⟨hold, hlinked.1,
      List.isChain_cons_cons.mpr ⟨hlinked.2, List.isChain_singleton head⟩⟩
    rw [List.append_assoc, ← List.cons_append, hl, List.append_assoc]
    exact hjoin

theorem linkOut {p n : α} {c d : List α} (hr : Ring h head (l₁ ++ e :: l₂))
    (hp : head :: l₁ = c ++ [p]) (hn : l₂ ++ [head] = n :: d) :
    Ring (h.linkOut p n) head (l₁ ++ l₂) := by
  obtain ⟨hpe, hen⟩ := hr.linked_around hp hn
  have hlinked := Links.linked_linkOut (Links.isSome_of_next hpe.1) (Links.isSome_of_prev hen.2)
  have hrest : (head :: l₁ ++ l₂).Nodup :=
    hr.nodup.sublist (((List.sublist_cons_self e l₂).append_left l₁).cons_cons head)
  -- from `head` on, or from behind it and up to it, the nodes are distinct
  have hturn : (l₁ ++ (l₂ ++ [head])).Nodup := by
    rw [← List.append_assoc]
    exact (List.perm_append_singleton head (l₁ ++ l₂)).nodup_iff.mpr hrest
  rw [hp, List.append_assoc] at hrest
  rw [hn] at hturn
  have hchain : (head :: l₁ ++ e :: (l₂ ++ [head])).IsChain h.Linked := by
    have hall := hr.chain
    rwa [List.append_assoc, ← List.cons_append] at hall
  have hbefore : (head :: l₁).IsChain (h.linkOut p n).Linked := by
    refine Links.chain_linkOut hchain.left_of_append (fun hmem => ?_) fun hmem => ?_
    · rw [hp, List.dropLast_concat] at hmem
      exact (List.nodup_append.mp hrest).2.2 p hmem p List.mem_cons_self rfl
    · exact (List.nodup_append.mp hturn).2.2 n hmem n List.mem_cons_self rfl
  have hbehind : (l₂ ++ [head]).IsChain (h.linkOut p n).Linked := by
    refine Links.chain_linkOut hchain.right_of_append.tail (fun hmem => ?_) fun hmem => ?_
    · rw [List.dropLast_concat] at hmem
      have hpl := (List.nodup_append.mp hrest).2.1
      exact (List.nodup_cons.mp hpl).1 hmem
    · rw [hn, List.tail_cons] at hmem
      have hnd := (List.nodup_append.mp hturn).2.1
      exact (List.nodup_cons.mp hnd).1 hmem
  rw [hp] at hbefore
  rw [hn] at hbehind
  constructor
  · rwa [← List.cons_append, hp, List.append_assoc]
  · rw [List.append_assoc, ← List.cons_append, hp, hn, List.append_assoc]
    exact List.isChain_append_cons_cons.mpr ⟨hbefore, hlinked, hbehind⟩

end Stores

end Ring

end Vdht.Lib
