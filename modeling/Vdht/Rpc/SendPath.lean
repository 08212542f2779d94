import Vdht.Rpc.MsgQueue

/-!
# From a query to the socket

A thread that sends allocates a buffer, encodes a message into it and pushes it (`BEGIN_QUERY` to
`END_QUERY` of `vroute.c`). Another thread goes round in `_vwaiter_laundry`: it asks whether there is
something to send, waits in `pselect` and sends one message if the socket is writable. The message
that was sent last stays at `rpc->sndm` until the next one. The steps of the threads may come in any
order, between the two halves of a round as well.

A buffer belongs to its sender, then to the queue, then to the socket, and is freed exactly once.
-/

namespace Vdht.Rpc

open Lib Utils

/-- A message and the buffer it is in. -/
structure Packet (β D : Type) where
  buf : β
  body : D

/-- Where the thread of the loop is: outside, before or after `pselect`. -/
inductive Phase where
  | idle
  | polled (wfds : Bool)
  | selected (wfds efds : Bool)

/-- `vrpc_stat`, without what is counted on receipt. -/
structure VrpcStat where
  nsnds : Int
  nerrs : Int
  snd_bytes : Int

/-- The memory of the messages, the live buffers and the rpc; `impl` is false when `impl` is `NULL`.
`owned` are the buffers of the threads that are sending; `tried` is what went to the socket. -/
structure SendPath (α β D : Type) where
  heap : MsgHeap α (Packet β D)
  bufs : β → Bool
  owned : List β
  sndm : Option α
  impl : Bool
  phase : Phase
  stat : VrpcStat
  tried : List D

section Calls

variable {α β C D : Type} [DecidableEq α] [DecidableEq β]

/-- `vmsg_buf_free`; what is not live cannot be freed. -/
def vmsgBufFree (bufs : β → Bool) (buf : β) : Res (β → Bool) :=
  if bufs buf then .ok (Function.update bufs buf false) else .error .null

/-- `vmsg_sys_free` for a message with data. -/
def vmsgSysDrop (s : SendPath α β D) (ms : α) : Res (SendPath α β D) :=
  match s.heap.links ms, s.heap.body ms with
  | some _, some m => do
    let bufs ← vmsgBufFree s.bufs m.buf
    pure { s with heap := vmsgSysFree s.heap ms, bufs := bufs }
  | _, _ => .error .null

/-- The message that was sent before is not needed any more. -/
def dropSndm (s : SendPath α β D) : Res (SendPath α β D) :=
  match s.sndm with
  | none => .ok s
  | some ms => do
    let s ← vmsgSysDrop s ms
    pure { s with sndm := none }

/-- `_vrpc_snd`; `ret` is what `sndto` returns. -/
def vrpcSnd (g : Vmsger α (Packet β D) (Packet β C)) (s : SendPath α β D) (ret : Int) :
    Res (SendPath α β D × Int) :=
  if !s.impl then .error .assertion
  else do
    let s ← dropSndm s
    let r ← vmsgerPop g s.heap
    let s := { s with heap := r.1, sndm := r.2.1 }
    match r.2.1.bind r.1.body with
    | none => pure (s, -1)
    | some m =>
      let s := { s with tried := s.tried ++ [m.body] }
      if ret < 0 then pure ({ s with stat := { s.stat with nerrs := s.stat.nerrs + 1 } }, -1)
      else pure ({ s with stat := { s.stat with
        snd_bytes := s.stat.snd_bytes + ret
        nsnds := s.stat.nsnds + 1 } }, 0)

/-- `_vrpc_err`; `opened` says whether `open` succeeds. -/
def vrpcErr (s : SendPath α β D) (opened : Bool) : Res (SendPath α β D × Int) :=
  if !s.impl then .error .assertion
  else .ok ({ s with impl := opened }, if opened then 0 else -1)

/-- `_aux_fdsets_cb`; the bits for reading are left out. -/
def auxFdsetsCb (g : Vmsger α (Packet β D) (Packet β C)) (s : SendPath α β D) :
    Res (SendPath α β D) :=
  if !s.impl then .error .assertion
  else do
    let empty ← vlistIsEmpty s.heap.links g.msgs
    pure { s with phase := .polled !empty }

/-- `_aux_laundry_cb`; what is received leads to calls of the same kind as any other thread makes. -/
def auxLaundryCb (g : Vmsger α (Packet β D) (Packet β C)) (s : SendPath α β D) (wfds efds : Bool)
    (ret : Int) (opened : Bool) : Res (SendPath α β D) :=
  if !s.impl then .error .assertion
  else do
    let s ← (if wfds then (vrpcSnd g s ret).map (·.1) else pure s)
    let s ← (if efds then (vrpcErr s opened).map (·.1) else pure s)
    pure { s with phase := .idle }

/-- `END_QUERY` after the message has been encoded. -/
def endQuery (g : Vmsger α (Packet β D) (Packet β C)) (s : SendPath α β D) (mu : Packet β C)
    (block : Option α) : Res (SendPath α β D) := do
  let r ← vmsgerPush g s.heap mu block
  let s := { s with heap := r.1, owned := s.owned.erase mu.buf }
  if r.2 < 0 then do
    let bufs ← vmsgBufFree s.bufs mu.buf
    pure { s with bufs := bufs }
  else pure s

/-- The `while` of `_vmsger_clear`. -/
def vmsgerClear (g : Vmsger α (Packet β D) (Packet β C)) : Nat → SendPath α β D → Res (SendPath α β D)
  | 0, _ => .error .fuel
  | fuel + 1, s => do
    let empty ← vlistIsEmpty s.heap.links g.msgs
    if empty then pure s
    else do
      let r ← vlistPopHead s.heap.links g.msgs
      match r.2 with
      | none => .error .null
      | some ms => do
        let s ← vmsgSysDrop { s with heap := { s.heap with links := r.1 } } ms
        vmsgerClear g fuel s

/-- `vrpc_deinit` and `vmsger_deinit`, as `vhost_deinit` calls them; the receive buffer and the
callbacks are left out. -/
def pathDeinit (g : Vmsger α (Packet β D) (Packet β C)) (fuel : Nat) (s : SendPath α β D) :
    Res (SendPath α β D) := do
  let s ← dropSndm s
  vmsgerClear g fuel { s with impl := false }

/-! ## Steps -/

/-- What one of the threads does. -/
inductive PathOp (α β C : Type) where
  /-- `BEGIN_QUERY`, with what `malloc` returns -/
  | begin (buf : Option β)
  /-- the encoder fails -/
  | giveUp (buf : β)
  | finish (mu : Packet β C) (block : Option α)
  | fdsets
  /-- `pselect` fails, is late or leaves some of the bits -/
  | select (bits : Option (Bool × Bool))
  | serve (ret : Int) (opened : Bool)

/-- A step on the way of a message: its buffer is allocated, given up or handed to the queue, or the
loop sends what is queued and frees it. -/
def pathStep (g : Vmsger α (Packet β D) (Packet β C)) (s : SendPath α β D) :
    PathOp α β C → Res (SendPath α β D)
  | .begin none => .ok s
  | .begin (some buf) =>
    .ok { s with bufs := Function.update s.bufs buf true, owned := buf :: s.owned }
  | .giveUp buf => do
    let bufs ← vmsgBufFree s.bufs buf
    pure { s with bufs := bufs, owned := s.owned.erase buf }
  | .finish mu block => endQuery g s mu block
  | .fdsets => auxFdsetsCb g s
  | .select bits =>
    match s.phase, bits with
    | .polled wfds, some (w, e) => .ok { s with phase := .selected (wfds && w) e }
    | _, _ => .ok { s with phase := .idle }
  | .serve ret opened =>
    match s.phase with
    | .selected wfds efds => auxLaundryCb g s wfds efds ret opened
    | _ => .ok s

/-- The allocators return memory that is not in use, a thread sends and gives up what it has
allocated, the loop goes round, and a socket that is closed can be opened again. -/
def PathAllowed (s : SendPath α β D) : PathOp α β C → Prop
  | .begin buf => ∀ b ∈ buf, s.bufs b = false
  | .giveUp buf => buf ∈ s.owned
  | .finish mu block => mu.buf ∈ s.owned ∧ ∀ ms ∈ block, s.heap.links ms = none
  | .fdsets => s.phase = .idle
  | .select _ => ∃ wfds, s.phase = .polled wfds
  | .serve _ opened => ∃ wfds efds, s.phase = .selected wfds efds ∧ (efds = true → opened = true)

end Calls

/-! ## Who owns a buffer -/

section Ownership

variable {α β C D : Type}

/-- The buffers that are in use: those of the senders, of the message that was sent last and of the
messages that are pending. -/
def buffers (owned : List β) (hand : Option (Packet β D)) (pending : List (Packet β D)) : List β :=
  owned ++ (hand.toList.map (·.buf) ++ pending.map (·.buf))

/-- The queue holds what is pending, `rpc->sndm` holds `hand`, and every live buffer has one owner. -/
structure Carried (g : Vmsger α (Packet β D) (Packet β C)) (s : SendPath α β D)
    (t : Fifo (Packet β D)) (l : List α) (hand : Option (Packet β D)) : Prop where
  queued : Queued g ⟨s.heap, s.sndm.toList⟩ t l
  held : s.sndm.map s.heap.body = hand.map some
  nodup : (buffers s.owned hand t.pending).Nodup
  live : ∀ b, s.bufs b = true ↔ b ∈ buffers s.owned hand t.pending

/-- What was pushed has been tried or is pending, and a bit is set only if something is pending. -/
structure Underway (s : SendPath α β D) (t : Fifo (Packet β D)) : Prop where
  impl : s.impl = true
  polled : s.phase = .polled true → t.pending ≠ []
  selected : ∀ e, s.phase = .selected true e → t.pending ≠ []
  balanced : t.Balanced
  tried : s.tried = t.popped.map (·.body)

/-- The message that a step adds to the queue. -/
def accepted (g : Vmsger α (Packet β D) (Packet β C)) : PathOp α β C → Option (Packet β D)
  | .finish mu (some _) => g.pack_cb mu
  | _ => none

theorem fifoStep_accepted (g : Vmsger α (Packet β D) (Packet β C)) (t : Fifo (Packet β D))
    (mu : Packet β C) (block : Option α) :
    (fifoStep g.pack_cb t (.push mu block)).1 =
      ⟨t.pending ++ (accepted g (.finish mu block)).toList,
        t.pushed ++ (accepted g (.finish mu block)).toList, t.popped⟩ := by
  cases block with
  | none => simp [fifoStep_rejected, accepted]
  | some ms =>
    cases hm : g.pack_cb mu with
    | none => simp [fifoStep_rejected, accepted, hm]
    | some m => simp [fifoStep_packed t ms hm, accepted, hm]

/-- The buffer of a message that is pushed is the last one. -/
theorem buffers_pushed (owned : List β) (hand : Option (Packet β D)) (pending : List (Packet β D))
    {m : Packet β D} {buf : β} (hm : m.buf = buf) :
    (buf :: buffers owned hand pending).Perm (buffers owned hand (pending ++ [m])) := by
  have happend : buffers owned hand (pending ++ [m]) = buffers owned hand pending ++ [buf] := by
    simp only [buffers, List.map_append, List.map_singleton, List.append_assoc, hm]
  rw [happend]
  exact (List.perm_append_singleton buf _).symm

end Ownership

section Buffers

variable {β : Type} [DecidableEq β] {bufs : β → Bool} {l l' : List β} {buf : β}

theorem vmsgBufFree_ok (h : bufs buf = true) :
    vmsgBufFree bufs buf = .ok (Function.update bufs buf false) := if_pos h

/-- A buffer that is freed leaves the others live. -/
theorem live_freed (hlive : ∀ b, bufs b = true ↔ b ∈ l) (hnodup : l.Nodup)
    (hperm : l.Perm (buf :: l')) (b : β) : Function.update bufs buf false b = true ↔ b ∈ l' := by
  have hnot : buf ∉ l' := (List.nodup_cons.mp (hperm.nodup_iff.mp hnodup)).1
  by_cases hb : b = buf
  · subst hb
    rw [Function.update_self]
    exact ⟨fun h => absurd h Bool.false_ne_true, fun h => absurd h hnot⟩
  · rw [Function.update_of_ne hb, hlive, hperm.mem_iff, List.mem_cons, or_iff_right hb]

/-- A buffer that is allocated is live as well. -/
theorem live_allocated (hlive : ∀ b, bufs b = true ↔ b ∈ l) (b : β) :
    Function.update bufs buf true b = true ↔ b ∈ buf :: l := by
  by_cases hb : b = buf
  · subst hb
    rw [Function.update_self]
    exact ⟨fun _ => List.mem_cons_self, fun _ => rfl⟩
  · rw [Function.update_of_ne hb, hlive, List.mem_cons, or_iff_right hb]

end Buffers

section Steps

variable {α β C D : Type} {g : Vmsger α (Packet β D) (Packet β C)}
  {s : SendPath α β D} {t : Fifo (Packet β D)} {l : List α} {hand : Option (Packet β D)}
  {m : Packet β D} {rest : List (Packet β D)}

/-- What the loop keeps of its own changes no message. -/
theorem Carried.turned (h : Carried g s t l hand) (impl : Bool) (phase : Phase) (stat : VrpcStat)
    (tried : List D) :
    Carried g { s with
      impl := impl
      phase := phase
      stat := stat
      tried := tried } t l hand :=
  ⟨h.queued, h.held, h.nodup, h.live⟩

theorem Carried.sndm_none (h : Carried g s t l none) : s.sndm = none :=
  Option.map_eq_none_iff.mp h.held

variable [DecidableEq α]

/-- The first message that is pending goes to `rpc->sndm`, and its buffer with it. -/
theorem vmsgerPop_carried (h : Carried g s t l none) (ht : t.pending = m :: rest) :
    ∃ heap ms l', l = ms :: l' ∧ vmsgerPop g s.heap = .ok (heap, some ms, 0) ∧
      heap.body ms = some m ∧
      Carried g { s with heap := heap, sndm := some ms } ⟨rest, t.pushed, t.popped ++ [m]⟩ l'
        (some m) := by
  have hq := h.queued
  rw [h.sndm_none] at hq
  have hsame : buffers s.owned (some m) rest = buffers s.owned none t.pending := by
    rw [ht]
    rfl
  cases l with
  | nil =>
    have hnone : t.pending = [] := List.map_eq_nil_iff.mp hq.bodies.symm
    rw [ht] at hnone
    cases hnone
  | cons ms l =>
    obtain ⟨heap, hpop, hbody, hq'⟩ := vmsgerPop_first hq ht
    refine ⟨heap, ms, l, rfl, hpop, hbody, hq', congrArg some hbody, ?_, fun b => ?_⟩
    · exact hsame ▸ h.nodup
    · exact hsame ▸ h.live b

/-- A push changes no other message. -/
theorem vmsgerPush_body {block : Option α} {mu : Packet β C} {r : MsgHeap α (Packet β D) × Int}
    {x : α} (h : vmsgerPush g s.heap mu block = .ok r) (hx : ∀ ms ∈ block, x ≠ ms) :
    r.1.body x = s.heap.body x := by
  cases block with
  | none =>
    cases h
    rfl
  | some ms =>
    have hne := hx ms rfl
    cases hpack : g.pack_cb mu with
    | none =>
      rw [vmsgerPush, hpack] at h
      cases h
      exact (vmsgSysFree_ne _ hne).2.trans (vmsgSysAlloc_ne _ _ hne).2
    | some m =>
      obtain ⟨heap, hinit, hother, -⟩ := vmsgSysInit_ok g.null s.heap ms m
      rw [vmsgerPush, hpack] at h
      dsimp only at h
      rw [hinit, ok_bind] at h
      obtain ⟨q, -, hr⟩ := bind_ok.mp h
      cases hr
      exact (hother x hne).2

end Steps

section Freeing

variable {α β C D : Type} [DecidableEq α] [DecidableEq β]
  {g : Vmsger α (Packet β D) (Packet β C)} {s : SendPath α β D} {t : Fifo (Packet β D)} {l : List α}
  {hand : Option (Packet β D)} {m : Packet β D} {rest : List (Packet β D)}

/-- The message at `rpc->sndm` and its buffer are given back. -/
theorem vmsgSysDrop_carried {ms : α}
    (h : Carried g { s with sndm := some ms } t l (some m)) :
    ∃ heap bufs, vmsgSysDrop s ms = .ok { s with heap := heap, bufs := bufs } ∧
      Carried g { s with heap := heap, bufs := bufs, sndm := none } t l none := by
  have hbody : s.heap.body ms = some m := Option.some.inj h.held
  have hbuf : s.bufs m.buf = true :=
    (h.live m.buf).mpr (List.mem_append_right _ List.mem_cons_self)
  have hperm : (buffers s.owned (some m) t.pending).Perm (m.buf :: buffers s.owned none t.pending) :=
    List.perm_middle
  have hms : ms ∈ (some ms).toList := List.mem_cons_self
  have hfree : Queued g ⟨vmsgSysFree s.heap ms, [ms].erase ms⟩ t l :=
    vmsgSysFree_queued h.queued hms
  rw [List.erase_cons_head] at hfree
  obtain ⟨v, hv⟩ := Option.isSome_iff_exists.mp (h.queued.live ms hms)
  refine ⟨vmsgSysFree s.heap ms, Function.update s.bufs m.buf false, ?_, ?_, rfl, ?_, ?_⟩
  · change s.heap.links ms = some v at hv
    rw [vmsgSysDrop, hv, hbody]
    dsimp only
    rw [vmsgBufFree_ok hbuf]
    rfl
  · exact hfree
  · exact (List.nodup_cons.mp (hperm.nodup_iff.mp h.nodup)).2
  · exact live_freed h.live h.nodup hperm

theorem dropSndm_carried (h : Carried g s t l hand) :
    ∃ heap bufs, dropSndm s = .ok { s with heap := heap, bufs := bufs, sndm := none } ∧
      Carried g { s with heap := heap, bufs := bufs, sndm := none } t l none := by
  unfold dropSndm
  cases hand with
  | none =>
    have hsndm := h.sndm_none
    have hsame : { s with heap := s.heap, bufs := s.bufs, sndm := none } = s := by
      rw [← hsndm]
    refine ⟨s.heap, s.bufs, ?_, ?_⟩
    · rw [hsndm]
      exact congrArg Except.ok hsame.symm
    · rw [hsame]
      exact h
  | some m =>
    obtain ⟨ms, hsndm, -⟩ := Option.map_eq_some_iff.mp h.held
    have hsame : { s with sndm := some ms } = s := by rw [← hsndm]
    obtain ⟨heap, bufs, hdrop, hdropped⟩ := vmsgSysDrop_carried (hsame.symm ▸ h)
    refine ⟨heap, bufs, ?_, hdropped⟩
    rw [hsndm]
    dsimp only
    rw [hdrop]
    rfl

/-- One message goes from the queue to the socket, whether it can be sent or not. -/
theorem vrpcSnd_carried (himpl : s.impl = true) (h : Carried g s t l hand)
    (ht : t.pending = m :: rest) (ret : Int) :
    ∃ s' r l', vrpcSnd g s ret = .ok (s', r) ∧ s'.impl = true ∧ s'.tried = s.tried ++ [m.body] ∧
      Carried g s' ⟨rest, t.pushed, t.popped ++ [m]⟩ l' (some m) := by
  obtain ⟨heap, bufs, hdrop, hdropped⟩ := dropSndm_carried h
  obtain ⟨heap', ms, l', -, hpop, hbody, hpopped⟩ := vmsgerPop_carried hdropped ht
  have hsent : ∀ stat, _ := fun stat =>
    hpopped.turned s.impl s.phase stat (s.tried ++ [m.body])
  unfold vrpcSnd
  rw [himpl, Bool.not_true, if_neg Bool.false_ne_true, hdrop, ok_bind]
  dsimp only
  rw [hpop, ok_bind]
  dsimp only
  rw [Option.bind_some, hbody]
  dsimp only
  by_cases hret : ret < 0
  · rw [if_pos hret]
    exact ⟨_, _, l', rfl, himpl, rfl, hsent _⟩
  · rw [if_neg hret]
    exact ⟨_, _, l', rfl, himpl, rfl, hsent _⟩

/-- A message that is not accepted goes back to its sender, who frees the buffer. -/
theorem endQuery_carried (hkeeps : ∀ mu m, g.pack_cb mu = some m → m.buf = mu.buf)
    (h : Carried g s t l hand) {mu : Packet β C} {block : Option α} (hmu : mu.buf ∈ s.owned)
    (hblock : ∀ ms ∈ block, s.heap.links ms = none) :
    ∃ s' t' l', endQuery g s mu block = .ok s' ∧ s'.impl = s.impl ∧ s'.phase = s.phase ∧
      s'.tried = s.tried ∧ Carried g s' t' l' hand ∧
      t' = (fifoStep g.pack_cb t (.push mu block)).1 := by
  have hother : ∀ a ∈ s.sndm, ∀ ms ∈ block, a ≠ ms := by
    intro a ha ms hms heq
    have hlive := h.queued.live a (Option.mem_toList.mpr ha)
    rw [heq, hblock ms hms] at hlive
    cases hlive
  have hheld : ∀ r, vmsgerPush g s.heap mu block = .ok r →
      s.sndm.map r.1.body = hand.map some := by
    intro r hr
    rw [← h.held]
    exact Option.map_congr fun a ha => vmsgerPush_body hr (hother a ha)
  have hperm : (buffers s.owned hand t.pending).Perm
      (mu.buf :: buffers (s.owned.erase mu.buf) hand t.pending) :=
    (List.perm_cons_erase hmu).append_right _
  by_cases hpack : block = none ∨ g.pack_cb mu = none
  · obtain ⟨heap, hpush, hq⟩ := vmsgerPush_rejected h.queued hblock hpack
    have hbuf : s.bufs mu.buf = true := (h.live mu.buf).mpr (List.mem_append_left _ hmu)
    rw [fifoStep_rejected t hpack, endQuery, hpush, ok_bind]
    dsimp only
    rw [if_pos (by decide), vmsgBufFree_ok hbuf]
    refine ⟨_, _, l, rfl, rfl, rfl, rfl, ⟨hq, hheld _ hpush, ?_, ?_⟩, rfl⟩
    · exact (List.nodup_cons.mp (hperm.nodup_iff.mp h.nodup)).2
    · exact live_freed h.live h.nodup hperm
  · obtain ⟨hsome, hpacked⟩ := not_or.mp hpack
    obtain ⟨ms, rfl⟩ := Option.ne_none_iff_exists'.mp hsome
    obtain ⟨m, hm⟩ := Option.ne_none_iff_exists'.mp hpacked
    obtain ⟨heap, hpush, hq⟩ := vmsgerPush_packed h.queued (hblock ms rfl) hm
    have hpushed := hperm.trans (buffers_pushed (s.owned.erase mu.buf) hand t.pending (hkeeps mu m hm))
    rw [fifoStep_packed t ms hm, endQuery, hpush, ok_bind]
    dsimp only
    rw [if_neg (by decide)]
    refine ⟨_, _, l ++ [ms], rfl, rfl, rfl, rfl, ⟨hq, hheld _ hpush, ?_, fun b => ?_⟩, rfl⟩
    · exact hpushed.nodup_iff.mp h.nodup
    · exact (h.live b).trans hpushed.mem_iff

/-- A message is sent if the bit is set, and the rpc stays as it is otherwise. -/
theorem vrpcSnd_written (hway : Underway s t) (h : Carried g s t l hand) {wfds : Bool}
    (hwfds : wfds = true → t.pending ≠ []) (ret : Int) :
    ∃ s' t' l' hand', (if wfds then (vrpcSnd g s ret).map (·.1) else pure s) = .ok s' ∧
      s'.impl = true ∧ Carried g s' t' l' hand' ∧ t'.Balanced ∧
      s'.tried = t'.popped.map (·.body) ∧ t'.pushed = t.pushed ∧
      t'.pending = if wfds then t.pending.tail else t.pending := by
  cases wfds with
  | false => exact ⟨s, t, l, hand, rfl, hway.impl, h, hway.balanced, hway.tried, rfl, rfl⟩
  | true =>
    obtain ⟨m, rest, ht⟩ := List.exists_cons_of_ne_nil (hwfds rfl)
    obtain ⟨s', r, l', hsnd, himpl, htried, hc⟩ := vrpcSnd_carried hway.impl h ht ret
    have hbalanced := fifoStep_balanced g.pack_cb t (.pop (α := α)) hway.balanced
    rw [fifoStep, ht] at hbalanced
    refine ⟨s', _, l', _, ?_, himpl, hc, hbalanced, ?_, rfl, ?_⟩
    · rw [if_pos rfl, hsnd]
      rfl
    · rw [htried, hway.tried, List.map_append]
      rfl
    · rw [if_pos rfl, ht]
      rfl

/-- What `_aux_laundry_cb` leaves after a round. -/
theorem auxLaundryCb_carried (hway : Underway s t) (h : Carried g s t l hand) {wfds efds : Bool}
    (hwfds : wfds = true → t.pending ≠ []) {opened : Bool} (hopen : efds = true → opened = true)
    (ret : Int) :
    ∃ s' t' l' hand', auxLaundryCb g s wfds efds ret opened = .ok s' ∧ Carried g s' t' l' hand' ∧
      Underway s' t' ∧ t'.pushed = t.pushed ∧
      t'.pending = if wfds then t.pending.tail else t.pending := by
  obtain ⟨s', t', l', hand', hsnd, himpl, hc, hbalanced, htried, hpushed, hpending⟩ :=
    vrpcSnd_written hway h hwfds ret
  have herr : (if efds then (vrpcErr s' opened).map (·.1) else pure s') = .ok { s' with impl := true } := by
    cases efds with
    | false =>
      have hsame : { s' with impl := true } = s' := by rw [← himpl]
      exact congrArg Except.ok hsame.symm
    | true =>
      rw [if_pos rfl, vrpcErr, himpl, hopen rfl]
      rfl
  refine ⟨{ s' with impl := true, phase := .idle }, t', l', hand', ?_, ?_, ?_, hpushed, hpending⟩
  · rw [auxLaundryCb, hway.impl, Bool.not_true, if_neg Bool.false_ne_true, hsnd, ok_bind, herr]
    rfl
  · exact hc.turned true .idle s'.stat s'.tried
  · exact ⟨rfl, Phase.noConfusion, fun _ => Phase.noConfusion, hbalanced, htried⟩

/-! ## A step -/

theorem begin_carried (h : Carried g s t l hand) (hway : Underway s t) (buf : Option β)
    (hfree : ∀ b ∈ buf, s.bufs b = false) :
    ∃ s', pathStep g s (.begin buf) = .ok s' ∧ Carried g s' t l hand ∧ Underway s' t := by
  cases buf with
  | none => exact ⟨s, rfl, h, hway⟩
  | some buf =>
    refine ⟨_, rfl, ⟨h.queued, h.held, ?_, live_allocated h.live⟩, ?_⟩
    · refine List.nodup_cons.mpr ⟨fun hmem => ?_, h.nodup⟩
      have hlive := (h.live buf).mpr hmem
      rw [hfree buf rfl] at hlive
      cases hlive
    · exact ⟨hway.impl, hway.polled, hway.selected, hway.balanced, hway.tried⟩

theorem giveUp_carried (h : Carried g s t l hand) (hway : Underway s t) {buf : β}
    (hmem : buf ∈ s.owned) :
    ∃ s', pathStep g s (.giveUp buf) = .ok s' ∧ Carried g s' t l hand ∧ Underway s' t := by
  have hlive : s.bufs buf = true := (h.live buf).mpr (List.mem_append_left _ hmem)
  have hperm : (buffers s.owned hand t.pending).Perm
      (buf :: buffers (s.owned.erase buf) hand t.pending) :=
    (List.perm_cons_erase hmem).append_right _
  refine ⟨{ s with
    bufs := Function.update s.bufs buf false
    owned := s.owned.erase buf }, ?_, ⟨h.queued, h.held, ?_, ?_⟩, ?_⟩
  · rw [pathStep, vmsgBufFree_ok hlive]
    rfl
  · exact (List.nodup_cons.mp (hperm.nodup_iff.mp h.nodup)).2
  · exact live_freed h.live h.nodup hperm
  · exact ⟨hway.impl, hway.polled, hway.selected, hway.balanced, hway.tried⟩

/-- The write bit is asked for when a message is pending. -/
theorem fdsets_carried (h : Carried g s t l hand) (hway : Underway s t) :
    pathStep g s .fdsets = .ok { s with phase := .polled !l.isEmpty } ∧
      Underway { s with phase := .polled !l.isEmpty } t := by
  refine ⟨?_, hway.impl, fun hpolled hnil => ?_, fun _ => Phase.noConfusion, hway.balanced,
    hway.tried⟩
  · rw [pathStep, auxFdsetsCb, hway.impl, Bool.not_true, if_neg Bool.false_ne_true,
      vlistIsEmpty_ring h.queued.ring]
    rfl
  · have hl : l = [] := List.map_eq_nil_iff.mp (h.queued.bodies.trans (congrArg _ hnil))
    rw [hl] at hpolled
    cases hpolled

theorem select_underway (hway : Underway s t) (bits : Option (Bool × Bool)) {wfds : Bool}
    (hphase : s.phase = .polled wfds) :
    ∃ phase, pathStep g s (.select bits) = .ok { s with phase := phase } ∧
      Underway { s with phase := phase } t := by
  cases bits with
  | none =>
    refine ⟨.idle, ?_, hway.impl, Phase.noConfusion, fun _ => Phase.noConfusion, hway.balanced,
      hway.tried⟩
    unfold pathStep
    rw [hphase]
  | some bits =>
    refine ⟨.selected (wfds && bits.1) bits.2, ?_, hway.impl, Phase.noConfusion, fun e hsel => ?_,
      hway.balanced, hway.tried⟩
    · unfold pathStep
      rw [hphase]
    · have hwfds : wfds = true := (Bool.and_eq_true_iff.mp (Phase.selected.inj hsel).1).1
      exact hway.polled (hwfds ▸ hphase)

/-- A step adds what it accepts to the queue, and takes the first message when it sends. -/
theorem pathStep_carried (hkeeps : ∀ mu m, g.pack_cb mu = some m → m.buf = mu.buf)
    (h : Carried g s t l hand) (hway : Underway s t) (op : PathOp α β C) (hallowed : PathAllowed s op) :
    ∃ s', pathStep g s op = .ok s' ∧ ∃ t' l' hand', Carried g s' t' l' hand' ∧ Underway s' t' ∧
      t'.pushed = t.pushed ++ (accepted g op).toList := by
  cases op with
  | begin buf =>
    obtain ⟨s', hstep, hc, hway'⟩ := begin_carried h hway buf hallowed
    exact ⟨s', hstep, t, l, hand, hc, hway', (List.append_nil _).symm⟩
  | giveUp buf =>
    obtain ⟨s', hstep, hc, hway'⟩ := giveUp_carried h hway hallowed
    exact ⟨s', hstep, t, l, hand, hc, hway', (List.append_nil _).symm⟩
  | finish mu block =>
    obtain ⟨s', t', l', hend, himpl, hphase, htried, hc, ht'⟩ :=
      endQuery_carried hkeeps h hallowed.1 hallowed.2
    have hbalanced := fifoStep_balanced g.pack_cb t (.push mu block) hway.balanced
    rw [fifoStep_accepted] at ht' hbalanced
    subst ht'
    refine ⟨s', hend, _, l', hand, hc, ⟨himpl.trans hway.impl, ?_, ?_, hbalanced, ?_⟩, rfl⟩
    · rw [hphase]
      exact fun hpolled => List.append_ne_nil_of_left_ne_nil (hway.polled hpolled) _
    · rw [hphase]
      exact fun e hsel => List.append_ne_nil_of_left_ne_nil (hway.selected e hsel) _
    · exact htried.trans hway.tried
  | fdsets =>
    obtain ⟨hstep, hway'⟩ := fdsets_carried h hway
    exact ⟨_, hstep, t, l, hand, h.turned s.impl _ s.stat s.tried, hway', (List.append_nil _).symm⟩
  | select bits =>
    obtain ⟨wfds, hphase⟩ := hallowed
    obtain ⟨phase, hstep, hway'⟩ := select_underway hway bits hphase
    exact ⟨_, hstep, t, l, hand, h.turned s.impl _ s.stat s.tried, hway', (List.append_nil _).symm⟩
  | serve ret opened =>
    obtain ⟨wfds, efds, hphase, hopen⟩ := hallowed
    have hwfds : wfds = true → t.pending ≠ [] := fun hw => hway.selected efds (hw ▸ hphase)
    obtain ⟨s', t', l', hand', hserve, hc, hway', hpushed, -⟩ :=
      auxLaundryCb_carried hway h hwfds hopen ret
    refine ⟨s', ?_, t', l', hand', hc, hway', ?_⟩
    · rw [pathStep, hphase]
      exact hserve
    · exact hpushed.trans (List.append_nil _).symm

/-- A round with a socket that can be written to. -/
def writtenRound (ret : Int) : List (PathOp α β C) :=
  [.fdsets, .select (some (true, false)), .serve ret true]

theorem writtenRound_carried (h : Carried g s t l hand) (hway : Underway s t)
    (ht : t.pending = m :: rest) (ret : Int) :
    ∃ s' t' l' hand', run (pathStep g) s (writtenRound ret) = .ok s' ∧ Carried g s' t' l' hand' ∧
      Underway s' t' ∧ t'.pushed = t.pushed ∧ t'.pending = rest := by
  have hne : t.pending ≠ [] := ht ▸ List.cons_ne_nil m rest
  have hl : l.isEmpty = false := by
    cases l with
    | nil => exact absurd (List.map_eq_nil_iff.mp h.queued.bodies.symm) hne
    | cons ms l => rfl
  have hset : Underway { s with phase := .selected true false } t :=
    ⟨hway.impl, Phase.noConfusion, fun _ _ => hne, hway.balanced, hway.tried⟩
  obtain ⟨s', t', l', hand', hserve, hc, hway', hpushed, hpending⟩ :=
    auxLaundryCb_carried hset (h.turned s.impl _ s.stat s.tried) (fun _ : true = true => hne)
      (fun _ : false = true => (rfl : true = true)) ret
  refine ⟨s', t', l', hand', ?_, hc, hway', hpushed, ?_⟩
  · refine run_cons_ok.mpr ⟨{ s with phase := .polled true }, ?_, ?_⟩
    · rw [(fdsets_carried h hway).1, hl]
      rfl
    · refine run_cons_ok.mpr ⟨{ s with phase := .selected true false }, rfl, ?_⟩
      exact run_cons_ok.mpr ⟨s', hserve, rfl⟩
  · rw [hpending, if_pos rfl, ht]
    rfl

/-- As many rounds as messages are pending send them all. -/
theorem writtenRounds_carried (h : Carried g s t l hand) (hway : Underway s t)
    {rets : List Int} (hrets : rets.length = t.pending.length) :
    ∃ s', run (pathStep g) s (rets.flatMap writtenRound) = .ok s' ∧
      s'.tried = t.pushed.map (·.body) := by
  induction rets generalizing s t l hand with
  | nil =>
    have hnil : t.pending = [] := List.length_eq_zero_iff.mp hrets.symm
    have hbalanced := hway.balanced
    rw [Fifo.Balanced, hnil, List.append_nil] at hbalanced
    refine ⟨s, rfl, ?_⟩
    rw [hway.tried, hbalanced]
  | cons ret rets ih =>
    obtain ⟨m, rest, ht⟩ := List.exists_cons_of_length_eq_add_one hrets.symm
    obtain ⟨s', t', l', hand', hround, hc, hway', hpushed, hpending⟩ :=
      writtenRound_carried h hway ht ret
    have hlen : rets.length = t'.pending.length := by
      rw [ht] at hrets
      rw [hpending]
      exact Nat.succ.inj hrets
    obtain ⟨s'', hrun, htried⟩ := ih hc hway' hlen
    refine ⟨s'', ?_, hpushed ▸ htried⟩
    rw [List.flatMap_cons]
    exact run_append_ok hround hrun

/-! ## The end -/

omit [DecidableEq β] in
theorem vmsgerPop_some {heap heap' : MsgHeap α (Packet β D)} {ms : α} {ret : Int}
    (h : vmsgerPop g heap = .ok (heap', some ms, ret)) :
    vlistIsEmpty heap.links g.msgs = .ok false ∧
      vlistPopHead heap.links g.msgs = .ok (heap'.links, some ms) ∧
      heap' = { heap with links := heap'.links } := by
  obtain ⟨empty, hempty, h⟩ := bind_ok.mp h
  cases empty with
  | true => cases h
  | false =>
    obtain ⟨r, hr, h⟩ := bind_ok.mp h
    obtain ⟨links, node⟩ := r
    cases h
    exact ⟨hempty, hr, rfl⟩

/-- `_vmsger_clear` frees every message that is pending, with its buffer. -/
theorem vmsgerClear_carried (h : Carried g s t l none) {fuel : Nat} (hfuel : l.length < fuel) :
    ∃ s', vmsgerClear g fuel s = .ok s' ∧ s'.owned = s.owned ∧ Ring s'.heap.links g.msgs [] ∧
      ∀ b, s'.bufs b = true ↔ b ∈ s.owned := by
  induction l generalizing s t fuel with
  | nil =>
    obtain ⟨fuel, rfl⟩ := Nat.exists_eq_add_one.mpr hfuel
    have hnone : t.pending = [] := List.map_eq_nil_iff.mp h.queued.bodies.symm
    refine ⟨s, ?_, rfl, h.queued.ring, fun b => ?_⟩
    · rw [vmsgerClear, vlistIsEmpty_ring h.queued.ring]
      rfl
    · rw [h.live b, hnone]
      exact iff_of_eq (congrArg (b ∈ ·) (List.append_nil s.owned))
  | cons ms l ih =>
    obtain ⟨fuel, rfl⟩ := Nat.exists_eq_add_one.mpr (Nat.zero_lt_of_lt hfuel)
    obtain ⟨m, rest, ht, -⟩ := List.map_eq_cons_iff.mp h.queued.bodies.symm
    obtain ⟨heap, node, l', hl, hpop, -, hpopped⟩ := vmsgerPop_carried h ht
    obtain ⟨rfl, rfl⟩ := List.cons.inj hl
    obtain ⟨hempty, hhead, hheap⟩ := vmsgerPop_some hpop
    obtain ⟨heap', bufs, hdrop, hdropped⟩ := vmsgSysDrop_carried (s := { s with heap := heap }) hpopped
    have hsndm : ({ s with heap := heap', bufs := bufs, sndm := none } : SendPath α β D) =
        { s with heap := heap', bufs := bufs } := by
      rw [← h.sndm_none]
    obtain ⟨s', hclear, hrest⟩ :=
      ih (hsndm ▸ hdropped) (Nat.lt_of_succ_lt_succ hfuel)
    refine ⟨s', ?_, hrest⟩
    rw [vmsgerClear, hempty, ok_bind, if_neg Bool.false_ne_true, hhead, ok_bind]
    dsimp only
    rw [← hheap, hdrop, ok_bind]
    exact hclear

/-- What `vhost_deinit` leaves: the buffers of the threads that are sending. -/
theorem pathDeinit_carried (h : Carried g s t l hand) {fuel : Nat}
    (hfuel : t.pending.length < fuel) :
    ∃ s', pathDeinit g fuel s = .ok s' ∧ s'.owned = s.owned ∧ Ring s'.heap.links g.msgs [] ∧
      ∀ b, s'.bufs b = true ↔ b ∈ s.owned := by
  obtain ⟨heap, bufs, hdrop, hdropped⟩ := dropSndm_carried h
  have hlen : l.length = t.pending.length := by
    have hbodies := congrArg List.length h.queued.bodies
    rwa [List.length_map, List.length_map] at hbodies
  have hclosed := hdropped.turned false s.phase s.stat s.tried
  obtain ⟨s', hclear, hrest⟩ := vmsgerClear_carried hclosed (hlen ▸ hfuel)
  refine ⟨s', ?_, hrest⟩
  rw [pathDeinit, hdrop, ok_bind]
  exact hclear

end Freeing

/-! ## The sends in every run -/

/-- Nothing is sent, and no buffer is live. -/
def pathStart {α β D : Type} (heap : MsgHeap α (Packet β D)) : SendPath α β D :=
  ⟨heap, fun _ => false, [], none, true, .idle, ⟨0, 0, 0⟩, []⟩

section Runs

variable {α β C D : Type} [DecidableEq α] [DecidableEq β]

/-- What the threads have left after `ops`. -/
structure InOrder (g : Vmsger α (Packet β D) (Packet β C)) (ops : List (PathOp α β C))
    (s : SendPath α β D) (hand : Option (Packet β D)) (pending : List (Packet β D)) : Prop where
  /-- what was accepted has been tried once or is pending, in order -/
  sent : s.tried ++ pending.map (·.body) = (ops.filterMap (accepted g)).map (·.body)
  queued : ∃ l, Ring s.heap.links g.msgs l ∧ l.map s.heap.body = pending.map some
  held : s.sndm.map s.heap.body = hand.map some
  /-- a buffer is live when it has an owner, and it has one only -/
  owners : (buffers s.owned hand pending).Nodup
  live : ∀ b, s.bufs b = true ↔ b ∈ buffers s.owned hand pending
  ready : ∀ efds, s.phase = .selected true efds → pending ≠ []
  /-- rounds in which the socket can be written to send the rest -/
  rounds : ∀ rets : List Int, rets.length = pending.length →
    ∃ s', run (pathStep g) s (rets.flatMap writtenRound) = .ok s' ∧
      s'.tried = (ops.filterMap (accepted g)).map (·.body)
  /-- the queue is cleared, and the senders keep their buffers -/
  closed : ∀ fuel, pending.length < fuel → ∃ s', pathDeinit g fuel s = .ok s' ∧
    Ring s'.heap.links g.msgs [] ∧ ∀ b, s'.bufs b = true ↔ b ∈ s.owned

variable {g : Vmsger α (Packet β D) (Packet β C)}

/-- The steps keep what they have accepted. -/
theorem path_carried (hkeeps : ∀ mu m, g.pack_cb mu = some m → m.buf = mu.buf) {s : SendPath α β D}
    {t : Fifo (Packet β D)} {l : List α} {hand : Option (Packet β D)} (h : Carried g s t l hand)
    (hway : Underway s t) {ops : List (PathOp α β C)} (hallowed : Along (pathStep g) PathAllowed s ops) :
    ∃ s', run (pathStep g) s ops = .ok s' ∧ ∃ t' l' hand', Carried g s' t' l' hand' ∧
      Underway s' t' ∧ t'.pushed = t.pushed ++ ops.filterMap (accepted g) := by
  induction ops generalizing s t l hand with
  | nil => exact ⟨s, rfl, t, l, hand, h, hway, (List.append_nil _).symm⟩
  | cons op ops ih =>
    obtain ⟨m, hm, t₁, l₁, hand₁, hc, hway₁, hpushed₁⟩ := pathStep_carried hkeeps h hway op hallowed.1
    obtain ⟨s', hrun, t', l', hand', hc', hway', hpushed⟩ := ih hc hway₁ (hallowed.2 m hm)
    refine ⟨s', run_cons_ok.mpr ⟨m, hm, hrun⟩, t', l', hand', hc', hway', ?_⟩
    rw [hpushed, hpushed₁, List.append_assoc]
    congr 1
    cases hacc : accepted g op with
    | none => rw [List.filterMap_cons_none hacc]; rfl
    | some m => rw [List.filterMap_cons_some hacc]; rfl

theorem Carried.inOrder {s : SendPath α β D} {t : Fifo (Packet β D)} {l : List α}
    {hand : Option (Packet β D)} (h : Carried g s t l hand) (hway : Underway s t)
    {ops : List (PathOp α β C)} (hpushed : t.pushed = ops.filterMap (accepted g)) :
    InOrder g ops s hand t.pending where
  sent := by
    rw [← hpushed, hway.tried, ← List.map_append]
    exact congrArg _ hway.balanced
  queued := ⟨l, h.queued.ring, h.queued.bodies⟩
  held := h.held
  owners := h.nodup
  live := h.live
  ready := hway.selected
  rounds := fun rets hrets => hpushed ▸ writtenRounds_carried h hway hrets
  closed := fun fuel hfuel => by
    obtain ⟨s', hdeinit, -, hring, hlive⟩ := pathDeinit_carried h hfuel
    exact ⟨s', hdeinit, hring, hlive⟩

end Runs

/-- A messenger that packs small numbers. -/
def smallMsger : Vmsger Nat (Packet Nat Nat) (Packet Nat Nat) :=
  ⟨0, 100, Option.guard fun mu => mu.body < 9⟩

/-- A head at 0 in memory that is otherwise free. -/
def emptyPath : MsgHeap Nat (Packet Nat Nat) :=
  ⟨fun a => if a = 0 then some ⟨0, 0⟩ else none, fun _ => none⟩

/-- Two threads send while a round goes on, and the second message is not packed. -/
def sendsInARound : List (PathOp Nat Nat Nat) :=
  [.begin (some 5), .begin (some 6), .finish ⟨5, 7⟩ (some 1), .fdsets, .finish ⟨6, 9⟩ (some 2),
    .select (some (true, false)), .serve (-1) true]

end Vdht.Rpc
