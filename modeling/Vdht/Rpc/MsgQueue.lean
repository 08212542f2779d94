import Mathlib.Logic.Function.Basic
import Vdht.Lib.Run
import Vdht.Utils.Vlist

/-!
# The message queue

`_vmsger_push` and `_vmsger_pop` of `vmsger.c` with the memory of the messages. A message that is
pushed gets a block the allocator says is free, is packed and added to the ring at `msger->msgs`;
one that is popped is taken out of the ring and belongs to the caller, who gives it back some time
(`vmsg_sys_free`), so that the block may be used again. The two locks make a call one step.

Whatever the order of the calls, the queue answers as a first-in first-out queue does.
-/

namespace Vdht.Rpc

open Lib Utils

/-- The blocks that are in use: the link at the front of a message, and what it says. -/
structure MsgHeap (α M : Type) where
  links : Links α
  body : α → Option M

/-- `pack_cb` is `none` where the callback returns a negative number. -/
structure Vmsger (α M U : Type) where
  msgs : α
  null : α
  pack_cb : U → Option M

section Calls

variable {α M U : Type} [DecidableEq α]

/-- A block of zeros, which the allocator has found at `ms`. -/
def vmsgSysAlloc (null : α) (s : MsgHeap α M) (ms : α) : MsgHeap α M where
  links := Function.update s.links ms (some ⟨null, null⟩)
  body := Function.update s.body ms none

/-- `vmsg_sys_free`: the block of a message and its place in a queue are no longer there. -/
def vmsgSysFree (s : MsgHeap α M) (ms : α) : MsgHeap α M where
  links := Function.update s.links ms none
  body := Function.update s.body ms none

/-- `vmsg_sys_init`, which the callbacks call, with what they store. -/
def vmsgSysInit (s : MsgHeap α M) (ms : α) (m : M) : Res (MsgHeap α M) := do
  let links ← vlistInit s.links ms
  pure ⟨links, Function.update s.body ms (some m)⟩

/-- `block` is what the allocator returns. -/
def vmsgerPush (g : Vmsger α M U) (s : MsgHeap α M) (mu : U) (block : Option α) :
    Res (MsgHeap α M × Int) :=
  match block with
  | none => .ok (s, -1)
  | some ms =>
    let s := vmsgSysAlloc g.null s ms
    match g.pack_cb mu with
    | none => .ok (vmsgSysFree s ms, -1)
    | some m => do
      let s ← vmsgSysInit s ms m
      let r ← vlistAddTail s.links g.msgs ms
      pure ({ s with links := r.1 }, 0)

/-- The memory, `*ms` and the result. -/
def vmsgerPop (g : Vmsger α M U) (s : MsgHeap α M) : Res (MsgHeap α M × Option α × Int) := do
  let empty ← vlistIsEmpty s.links g.msgs
  if empty then pure (s, none, -1)
  else
    let r ← vlistPopHead s.links g.msgs
    pure ({ s with links := r.1 }, r.2, if r.2.isSome then 0 else -1)

/-! ## Sequences of calls -/

/-- The calls on a queue of messages: one is packed and pushed into a block that `malloc` may have
refused, one is popped, one that was popped is freed. -/
inductive MsgCall (α U : Type) where
  | push (mu : U) (block : Option α)
  | pop
  | free (ms : α)

/-- `taken` are the messages that were popped and not given back. -/
structure MsgState (α M : Type) where
  heap : MsgHeap α M
  taken : List α

/-- What a call returns, and what the message says that it hands out. -/
structure Answer (M : Type) where
  ret : Int
  msg : Option M

/-- A call on the queue with its answer, in the state of the heap and of the messages that were
popped and not freed yet. -/
def msgStep (g : Vmsger α M U) (s : MsgState α M) : MsgCall α U → Res (MsgState α M × Answer M)
  | .push mu block => do
    let r ← vmsgerPush g s.heap mu block
    pure (⟨r.1, s.taken⟩, ⟨r.2, none⟩)
  | .pop => do
    let r ← vmsgerPop g s.heap
    pure (⟨r.1, r.2.1.toList ++ s.taken⟩, ⟨r.2.2, r.2.1.bind r.1.body⟩)
  | .free ms => .ok (⟨vmsgSysFree s.heap ms, s.taken.erase ms⟩, ⟨0, none⟩)

/-- The allocator returns a block that is not in use, and only popped messages are given back. -/
def Allowed (s : MsgState α M) : MsgCall α U → Prop
  | .push _ block => ∀ ms ∈ block, s.heap.links ms = none
  | .pop => True
  | .free ms => ms ∈ s.taken

/-- A first-in first-out queue, with a record of what went in and out. -/
structure Fifo (M : Type) where
  pending : List M
  pushed : List M
  popped : List M

/-- The queue without messages, of which nothing has been taken. -/
def Fifo.empty : Fifo M := ⟨[], [], []⟩

/-- The queue a caller should see: a message goes in where there is memory for it and it can be
packed. -/
def fifoStep (pack : U → Option M) (t : Fifo M) : MsgCall α U → Fifo M × Answer M
  | .push mu block =>
    match block, pack mu with
    | some _, some m => (⟨t.pending ++ [m], t.pushed ++ [m], t.popped⟩, ⟨0, none⟩)
    | _, _ => (t, ⟨-1, none⟩)
  | .pop =>
    match t.pending with
    | [] => (t, ⟨-1, none⟩)
    | m :: rest => (⟨rest, t.pushed, t.popped ++ [m]⟩, ⟨0, some m⟩)
  | .free _ => (t, ⟨0, none⟩)

/-- The ring at the head holds the messages that are pending, in order. -/
def Represents (g : Vmsger α M U) (s : MsgState α M) (t : Fifo M) : Prop :=
  ∃ l, Ring s.heap.links g.msgs l ∧ l.map s.heap.body = t.pending.map some

end Calls

/-! ## What holds between the calls -/

/-- The messages in the ring are those that are pending, and none of those that were handed out. -/
structure Queued {α M U : Type} (g : Vmsger α M U) (s : MsgState α M) (t : Fifo M) (l : List α) : Prop where
  ring : Ring s.heap.links g.msgs l
  bodies : l.map s.heap.body = t.pending.map some
  nodup : s.taken.Nodup
  outside : ∀ a ∈ s.taken, a ∉ g.msgs :: l
  live : ∀ a ∈ s.taken, (s.heap.links a).isSome

section Reference

variable {α M U : Type} {mu : U} {m : M}

theorem fifoStep_rejected {pack : U → Option M} {block : Option α} (t : Fifo M)
    (hpack : block = none ∨ pack mu = none) :
    fifoStep pack t (.push mu block) = (t, ⟨-1, none⟩) := by
  cases block with
  | none => rfl
  | some ms => simp only [fifoStep, hpack.resolve_left (Option.some_ne_none ms)]

theorem fifoStep_packed {pack : U → Option M} (t : Fifo M) (ms : α) (hm : pack mu = some m) :
    fifoStep pack t (.push mu (some ms)) =
      (⟨t.pending ++ [m], t.pushed ++ [m], t.popped⟩, ⟨0, none⟩) := by
  simp only [fifoStep, hm]

/-- What was popped and what is pending is what was pushed, in order. -/
def Fifo.Balanced (t : Fifo M) : Prop := t.popped ++ t.pending = t.pushed

theorem fifoStep_balanced (pack : U → Option M) (t : Fifo M) (call : MsgCall α U)
    (h : t.Balanced) : (fifoStep pack t call).1.Balanced := by
  cases call with
  | push mu block =>
    by_cases hpack : block = none ∨ pack mu = none
    · rwa [fifoStep_rejected t hpack]
    · obtain ⟨hblock, hsome⟩ := not_or.mp hpack
      obtain ⟨ms, rfl⟩ := Option.ne_none_iff_exists'.mp hblock
      obtain ⟨m, hm⟩ := Option.ne_none_iff_exists'.mp hsome
      rw [fifoStep_packed t ms hm, Fifo.Balanced, ← List.append_assoc, h]
  | pop =>
    cases ht : t.pending with
    | nil =>
      rw [fifoStep, ht]
      exact h
    | cons m rest =>
      rw [Fifo.Balanced, ht] at h
      rw [fifoStep, ht, Fifo.Balanced, ← h, List.append_assoc]
      rfl
  | free ms => exact h

theorem specRun_balanced (g : Vmsger α M U) (calls : List (MsgCall α U)) :
    (specRun (fifoStep g.pack_cb) Fifo.empty calls).Balanced :=
  specRun_invariant (P := fun _ => True) (fun t call ht _ => fifoStep_balanced g.pack_cb t call ht)
    rfl fun _ _ => trivial

end Reference

section Frame

variable {α M U : Type} {g : Vmsger α M U} {s : MsgState α M} {t : Fifo M} {l : List α} {ms : α}

/-- A block that is not in use belongs to nothing. -/
theorem Queued.fresh (hq : Queued g s t l) (hms : s.heap.links ms = none) :
    ms ∉ g.msgs :: l ∧ ms ∉ s.taken := by
  constructor
  · intro hmem
    have hlive := hq.ring.isSome hmem
    rw [hms] at hlive
    cases hlive
  · intro hmem
    have hlive := hq.live ms hmem
    rw [hms] at hlive
    cases hlive

/-- Nothing is noticed of a change to a node that belongs to nothing. -/
theorem Queued.frame {heap : MsgHeap α M} (hq : Queued g s t l) (hring : ms ∉ g.msgs :: l)
    (htaken : ms ∉ s.taken) (hlinks : ∀ x, x ≠ ms → heap.links x = s.heap.links x)
    (hbody : ∀ x, x ≠ ms → heap.body x = s.heap.body x) : Queued g ⟨heap, s.taken⟩ t l := by
  have hother : ∀ {x}, x ∈ g.msgs :: l → x ≠ ms := by
    intro x hx heq
    exact hring (heq ▸ hx)
  refine ⟨hq.ring.frame fun x hx => hlinks x (hother hx), ?_, hq.nodup, hq.outside, fun a ha => ?_⟩
  · rw [← hq.bodies]
    exact List.map_congr_left fun x hx => hbody x (hother (List.mem_cons_of_mem _ hx))
  · rw [hlinks a fun heq => htaken (heq ▸ ha)]
    exact hq.live a ha

end Frame

section Steps

variable {α M U : Type} [DecidableEq α] {g : Vmsger α M U} {s : MsgState α M} {t : Fifo M}
  {l : List α} {ms : α} {mu : U} {m : M}

theorem vmsgSysAlloc_ne {x : α} (null : α) (heap : MsgHeap α M) (hx : x ≠ ms) :
    (vmsgSysAlloc null heap ms).links x = heap.links x ∧
      (vmsgSysAlloc null heap ms).body x = heap.body x :=
  ⟨Function.update_of_ne hx _ _, Function.update_of_ne hx _ _⟩

theorem vmsgSysFree_ne {x : α} (heap : MsgHeap α M) (hx : x ≠ ms) :
    (vmsgSysFree heap ms).links x = heap.links x ∧ (vmsgSysFree heap ms).body x = heap.body x :=
  ⟨Function.update_of_ne hx _ _, Function.update_of_ne hx _ _⟩

/-- Without a block, and for a message that is not packed, the queue stays as it is. -/
theorem vmsgerPush_rejected {block : Option α} (hq : Queued g s t l)
    (hblock : ∀ ms ∈ block, s.heap.links ms = none) (hpack : block = none ∨ g.pack_cb mu = none) :
    ∃ heap, vmsgerPush g s.heap mu block = .ok (heap, -1) ∧ Queued g ⟨heap, s.taken⟩ t l := by
  cases block with
  | none => exact ⟨s.heap, rfl, hq⟩
  | some ms =>
    have hnone := hpack.resolve_left (Option.some_ne_none ms)
    obtain ⟨hring, htaken⟩ := hq.fresh (hblock ms rfl)
    refine ⟨vmsgSysFree (vmsgSysAlloc g.null s.heap ms) ms, ?_, hq.frame hring htaken ?_ ?_⟩
    · rw [vmsgerPush, hnone]
    · intro x hx
      exact (vmsgSysFree_ne _ hx).1.trans (vmsgSysAlloc_ne _ _ hx).1
    · intro x hx
      exact (vmsgSysFree_ne _ hx).2.trans (vmsgSysAlloc_ne _ _ hx).2

theorem vmsgSysInit_ok (null : α) (heap : MsgHeap α M) (ms : α) (m : M) :
    ∃ heap', vmsgSysInit (vmsgSysAlloc null heap ms) ms m = .ok heap' ∧
      (∀ x, x ≠ ms → heap'.links x = heap.links x ∧ heap'.body x = heap.body x) ∧
      (heap'.links ms).isSome ∧ heap'.body ms = some m := by
  have hself : (vmsgSysAlloc null heap ms).links ms = some ⟨null, null⟩ := Function.update_self _ _ _
  have hlive : ((vmsgSysAlloc null heap ms).links ms).isSome := by
    rw [hself]
    rfl
  obtain ⟨links, hinit, hring, hsame⟩ := vlistInit_ring hlive
  refine ⟨⟨links, Function.update (vmsgSysAlloc null heap ms).body ms (some m)⟩, ?_, ?_, ?_, ?_⟩
  · rw [vmsgSysInit, hinit]
    rfl
  · intro x hx
    obtain ⟨hlinks, hbody⟩ := vmsgSysAlloc_ne null heap hx
    exact ⟨(hsame x hx).trans hlinks, (Function.update_of_ne hx _ _).trans hbody⟩
  · exact hring.isSome List.mem_cons_self
  · exact Function.update_self _ _ _

/-- A packed message is the last one that is pending. -/
theorem vmsgerPush_packed (hq : Queued g s t l) (hblock : s.heap.links ms = none)
    (hpack : g.pack_cb mu = some m) :
    ∃ heap, vmsgerPush g s.heap mu (some ms) = .ok (heap, 0) ∧
      Queued g ⟨heap, s.taken⟩ ⟨t.pending ++ [m], t.pushed ++ [m], t.popped⟩ (l ++ [ms]) := by
  obtain ⟨hring, htaken⟩ := hq.fresh hblock
  obtain ⟨heap, hinit, hother, hlive, hbody⟩ := vmsgSysInit_ok g.null s.heap ms m
  have hq' := hq.frame hring htaken (fun x hx => (hother x hx).1) fun x hx => (hother x hx).2
  obtain ⟨links, hadd, hring', hsame, hsome⟩ := vlistAddTail_ring hq'.ring hring hlive
  refine ⟨⟨links, heap.body⟩, ?_, hring', ?_, hq.nodup, fun a ha => ?_, fun a ha => ?_⟩
  · rw [vmsgerPush, hpack]
    exact bind_ok.mpr ⟨heap, hinit, bind_ok.mpr ⟨_, hadd, rfl⟩⟩
  · rw [List.map_append, List.map_append, hq'.bodies, List.map_singleton, hbody]
    rfl
  · rw [← List.cons_append, List.mem_append, not_or, List.mem_singleton]
    exact ⟨hq.outside a ha, fun heq => htaken (heq ▸ ha)⟩
  · rw [hsome]
    exact hq'.live a ha

theorem vmsgerPop_empty (hq : Queued g s t []) : vmsgerPop g s.heap = .ok (s.heap, none, -1) := by
  rw [vmsgerPop, vlistIsEmpty_ring hq.ring]
  rfl

/-- The first message is handed out. -/
theorem vmsgerPop_first {rest : List M} (hq : Queued g s t (ms :: l)) (ht : t.pending = m :: rest) :
    ∃ heap, vmsgerPop g s.heap = .ok (heap, some ms, 0) ∧ heap.body ms = some m ∧
      Queued g ⟨heap, ms :: s.taken⟩ ⟨rest, t.pushed, t.popped ++ [m]⟩ l := by
  obtain ⟨links, hpop, hring, -, hsome⟩ := vlistPopHead_cons hq.ring
  have hbodies := hq.bodies
  rw [ht, List.map_cons, List.map_cons, List.cons.injEq] at hbodies
  have htaken : ms ∉ s.taken := fun hms =>
    hq.outside ms hms (List.mem_cons_of_mem _ List.mem_cons_self)
  have hnodup := hq.ring.nodup
  rw [List.nodup_cons, List.mem_cons, not_or, List.nodup_cons] at hnodup
  obtain ⟨⟨hhead, -⟩, hms, -⟩ := hnodup
  refine ⟨⟨links, s.heap.body⟩, ?_, hbodies.1, hring, hbodies.2, ?_, ?_, ?_⟩
  · rw [vmsgerPop, vlistIsEmpty_ring hq.ring, ok_bind, List.isEmpty_cons,
      if_neg Bool.false_ne_true, hpop]
    rfl
  · exact List.nodup_cons.mpr ⟨htaken, hq.nodup⟩
  · refine List.forall_mem_cons.mpr ⟨?_, fun a ha hmem => hq.outside a ha ?_⟩
    · exact fun hmem => (List.mem_cons.mp hmem).elim (fun heq => hhead heq.symm) hms
    · rcases List.mem_cons.mp hmem with heq | hmem
      · exact heq ▸ List.mem_cons_self
      · exact List.mem_cons_of_mem _ (List.mem_cons_of_mem _ hmem)
  · refine List.forall_mem_cons.mpr ⟨?_, fun a ha => ?_⟩
    · rw [hsome]
      exact hq.ring.isSome (List.mem_cons_of_mem _ List.mem_cons_self)
    · rw [hsome]
      exact hq.live a ha

theorem vmsgSysFree_queued (hq : Queued g s t l) (hms : ms ∈ s.taken) :
    Queued g ⟨vmsgSysFree s.heap ms, s.taken.erase ms⟩ t l := by
  have hq' : Queued g ⟨s.heap, s.taken.erase ms⟩ t l :=
    ⟨hq.ring, hq.bodies, hq.nodup.erase ms, fun a ha => hq.outside a (List.mem_of_mem_erase ha),
      fun a ha => hq.live a (List.mem_of_mem_erase ha)⟩
  exact hq'.frame (hq.outside ms hms) hq.nodup.not_mem_erase
    (fun x hx => (vmsgSysFree_ne _ hx).1) fun x hx => (vmsgSysFree_ne _ hx).2

/-- Every allowed call answers as the queue does. -/
theorem msgStep_fifo (hq : Queued g s t l) (call : MsgCall α U) (hallowed : Allowed s call) :
    ∃ s', msgStep g s call = .ok (s', (fifoStep g.pack_cb t call).2) ∧
      ∃ l', Queued g s' (fifoStep g.pack_cb t call).1 l' := by
  cases call with
  | push mu block =>
    by_cases hpack : block = none ∨ g.pack_cb mu = none
    · obtain ⟨heap, hpush, hq'⟩ := vmsgerPush_rejected hq hallowed hpack
      rw [fifoStep_rejected t hpack]
      exact ⟨⟨heap, s.taken⟩, bind_ok.mpr ⟨_, hpush, rfl⟩, l, hq'⟩
    · obtain ⟨hblock, hsome⟩ := not_or.mp hpack
      obtain ⟨ms, rfl⟩ := Option.ne_none_iff_exists'.mp hblock
      obtain ⟨m, hm⟩ := Option.ne_none_iff_exists'.mp hsome
      obtain ⟨heap, hpush, hq'⟩ := vmsgerPush_packed hq (hallowed ms rfl) hm
      rw [fifoStep_packed t ms hm]
      exact ⟨⟨heap, s.taken⟩, bind_ok.mpr ⟨_, hpush, rfl⟩, _, hq'⟩
  | pop =>
    cases l with
    | nil =>
      have hnone : t.pending = [] := List.map_eq_nil_iff.mp hq.bodies.symm
      rw [fifoStep, hnone]
      exact ⟨s, bind_ok.mpr ⟨_, vmsgerPop_empty hq, rfl⟩, [], hq⟩
    | cons ms l =>
      obtain ⟨m, rest, ht, -⟩ := List.map_eq_cons_iff.mp hq.bodies.symm
      obtain ⟨heap, hpop, hbody, hq'⟩ := vmsgerPop_first hq ht
      rw [fifoStep, ht]
      refine ⟨⟨heap, ms :: s.taken⟩, bind_ok.mpr ⟨_, hpop, ?_⟩, l, hq'⟩
      rw [Option.bind_some, hbody]
      rfl
  | free ms => exact ⟨_, rfl, l, vmsgSysFree_queued hq hallowed⟩

end Steps

/-! ## The queue in every run -/

section Runs

variable {α M U : Type} [DecidableEq α]

theorem calls_follow_fifo (g : Vmsger α M U) (heap : MsgHeap α M) (hring : Ring heap.links g.msgs [])
    {calls : List (MsgCall α U)} (hallowed : Guarded (msgStep g) Allowed ⟨heap, []⟩ calls) :
    Follows (msgStep g) (fifoStep g.pack_cb) (Represents g) ⟨heap, []⟩ Fifo.empty calls := by
  have hstart : Queued g ⟨heap, []⟩ Fifo.empty [] :=
    ⟨hring, rfl, List.nodup_nil, List.forall_mem_nil _, List.forall_mem_nil _⟩
  refine follows_of_guarded (I := fun s t => ∃ l, Queued g s t l) ?_ ?_ ⟨[], hstart⟩ hallowed
  · rintro s t ⟨l, hq⟩
    exact ⟨l, hq.ring, hq.bodies⟩
  · rintro s t call ⟨l, hq⟩ hcall
    exact msgStep_fifo hq call hcall

end Runs

/-- The operations on linked nodes keep every ring a ring, as the operations on a list say, and
leave all other rings of the heap alone. So the calls of a messenger, whose blocks are fresh or were
freed, answer as a queue does: what was pushed is popped once, in its order, and is freed once. -/
theorem rings_make_queues (α M U : Type) [DecidableEq α] :
    (∀ (h : Links α) (head : α) (l : List α), Ring h head l → ListLaws h head l) ∧
      ∀ (g : Vmsger α M U) (heap : MsgHeap α M) (calls : List (MsgCall α U)),
        Ring heap.links g.msgs [] → Guarded (msgStep g) Allowed ⟨heap, []⟩ calls →
        Follows (msgStep g) (fifoStep g.pack_cb) (Represents g) ⟨heap, []⟩ Fifo.empty calls ∧
          (specRun (fifoStep g.pack_cb) Fifo.empty calls).Balanced :=
  ⟨fun _ _ _ hr => listLaws hr, fun g heap calls hring hallowed =>
    ⟨calls_follow_fifo g heap hring hallowed, specRun_balanced g calls⟩⟩

/-- A head at 0 and a node at 1. -/
def pairLinks : Links Nat := fun a => if a = 0 then some ⟨1, 1⟩ else if a = 1 then some ⟨0, 0⟩ else none

/-- A head at 0 in memory that is otherwise free. -/
def loneHead : MsgHeap Nat Nat := ⟨fun a => if a = 0 then some ⟨0, 0⟩ else none, fun _ => none⟩

/-- A messenger of numbers that packs each one as it is, for concrete runs. -/
def echoMsger : Vmsger Nat Nat Nat := ⟨0, 100, some⟩

/-- A message is pushed and popped, and the queue is then empty. -/
def pushThenPop : List (MsgCall Nat Nat) := [.push 7 (some 1), .pop, .pop]

theorem rings_make_queues_pair :
    ListLaws pairLinks 0 [1] ∧
      Follows (msgStep echoMsger) (fifoStep echoMsger.pack_cb) (Represents echoMsger) ⟨loneHead, []⟩
        Fifo.empty pushThenPop := by
  have hpair : Ring pairLinks 0 [1] := by
    refine ⟨by decide, List.isChain_cons_cons.mpr ⟨⟨rfl, rfl⟩, ?_⟩⟩
    exact List.isChain_cons_cons.mpr ⟨⟨rfl, rfl⟩, List.isChain_singleton 0⟩
  have hallowed : Guarded (msgStep echoMsger) Allowed ⟨loneHead, []⟩ pushThenPop := by
    refine ⟨fun ms hms => ?_, fun s r _ => ⟨trivial, fun s r _ => ⟨trivial, fun _ _ _ => trivial⟩⟩⟩
    obtain rfl := Option.mem_some.mp hms
    rfl
  obtain ⟨hlists, hqueues⟩ := rings_make_queues Nat Nat Nat
  exact ⟨hlists _ _ _ hpair, (hqueues _ _ _ (Ring.nil ⟨rfl, rfl⟩) hallowed).1⟩

end Vdht.Rpc
