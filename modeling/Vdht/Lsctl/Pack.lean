import Vdht.Lib.OutBuf
import Vdht.Lsctl.Wire

/-!
# Packing control messages

The daemon and the client write a message front to back, and each length over a place they left
for it. Addresses come out of arrays of `VSRVCINFO_MAX_ADDRS` entries. `Packs` says how many bytes
a packing function passes and what they look like; skipped bytes keep what the buffer held.
-/

namespace Vdht.Lsctl

open Lib NodeId

/-! ## Arrays of addresses -/

/-- An array of `VSRVCINFO_MAX_ADDRS` entries. -/
structure AddrSlots (α : Type) where
  slots : List α
  size : slots.length = VSRVCINFO_MAX_ADDRS

namespace AddrSlots

variable {α : Type}

/-- The same value in all twelve places. -/
def replicate (a : α) : AddrSlots α := ⟨List.replicate VSRVCINFO_MAX_ADDRS a, by simp⟩

/-- The value in a place; a place behind the twelfth is outside the array. -/
def get (s : AddrSlots α) (i : Nat) : Res α := getSlot s.slots i

/-- The array with a value in one of its places; a write behind the twelfth is outside the array. -/
def set (s : AddrSlots α) (i : Nat) (a : α) : Res (AddrSlots α) :=
  if i < VSRVCINFO_MAX_ADDRS then .ok ⟨s.slots.set i a, by rw [List.length_set, s.size]⟩
  else .error .bounds

/-- The loop that stores a list of entries from index `i` on. -/
def fill (s : AddrSlots α) (i : Nat) : List α → Res (AddrSlots α)
  | [] => .ok s
  | a :: l => do
    let s ← s.set i a
    fill s (i + 1) l

/-- The loop that hands out `n` entries from index `i` on. -/
def gather (s : AddrSlots α) : Nat → Nat → Res (List α)
  | _, 0 => .ok []
  | i, n + 1 => do
    let a ← s.get i
    let l ← s.gather (i + 1) n
    .ok (a :: l)

variable {s s' : AddrSlots α} {i n : Nat} {a : α} {l : List α}

theorem set_ok (h : i < VSRVCINFO_MAX_ADDRS) :
    ∃ s', s.set i a = .ok s' ∧ s'.slots = s.slots.set i a :=
  ⟨_, by rw [set, if_pos h], rfl⟩

theorem set_error (h : VSRVCINFO_MAX_ADDRS ≤ i) : s.set i a = .error .bounds := by
  rw [set, if_neg (by omega)]

theorem fill_ok (h : i + l.length ≤ VSRVCINFO_MAX_ADDRS) :
    ∃ s', s.fill i l = .ok s' ∧ s'.slots.take (i + l.length) = s.slots.take i ++ l := by
  induction l generalizing s i with
  | nil => exact ⟨s, rfl, by simp⟩
  | cons a l ih =>
    rw [List.length_cons] at h
    have hi : i < s.slots.length := by
      rw [s.size]
      omega
    obtain ⟨s₁, hs₁, hslots⟩ := @set_ok α s i a (by omega)
    obtain ⟨s', hs', htake⟩ := @ih s₁ (i + 1) (by omega)
    refine ⟨s', by rw [fill, hs₁, ok_bind, hs'], ?_⟩
    rw [List.length_cons, show i + (l.length + 1) = i + 1 + l.length by omega, htake, hslots,
      List.take_succ_eq_append_getElem (by simpa using hi), List.getElem_set_self,
      List.take_set_of_le (Nat.le_refl i), List.append_assoc, List.singleton_append]

theorem fill_error (h : VSRVCINFO_MAX_ADDRS < i + l.length) (hi : i ≤ VSRVCINFO_MAX_ADDRS) :
    s.fill i l = .error .bounds := by
  induction l generalizing s i with
  | nil =>
    rw [List.length_nil] at h
    omega
  | cons a l ih =>
    rw [List.length_cons] at h
    rcases Nat.lt_or_ge i VSRVCINFO_MAX_ADDRS with hlt | hge
    · obtain ⟨s₁, hs₁, -⟩ := @set_ok α s i a hlt
      rw [fill, hs₁, ok_bind]
      exact ih (by omega) hlt
    · rw [fill, set_error hge, error_bind]

theorem gather_ok (h : i + n ≤ VSRVCINFO_MAX_ADDRS) :
    s.gather i n = .ok ((s.slots.drop i).take n) := by
  induction n generalizing i with
  | zero => rfl
  | succ n ih =>
    have hi : i < s.slots.length := by
      rw [s.size]
      omega
    rw [gather, get, getSlot_ok hi, ok_bind, ih (by omega), ok_bind, List.drop_eq_getElem_cons hi,
      List.take_succ_cons]

end AddrSlots

/-! ## Packing -/

/-- `vassert(len > 0)`, where `len` is the room left in the buffer. -/
def assertRoom (b : OutBuf) (k : Res OutBuf) : Res OutBuf :=
  if b.rest.length = 0 then .error .assertion else k

/-- A write at the cursor, which has to have room. -/
def put (bs : List UInt8) (b : OutBuf) : Res OutBuf := orBounds (b.write bs)

/-- Bytes that are not written keep what the buffer held. -/
def pass (n : Nat) (b : OutBuf) : Res OutBuf := orBounds (b.skip n)

/-- `front`, a place for a length, `mid` and the content, whose length is written over that place
at the end. -/
def packSized (front mid : List UInt8) (content : OutBuf → Res OutBuf) (b : OutBuf) :
    Res OutBuf := do
  let b ← put front b
  let lenAddr := b.done.length
  let b ← put (putU16 0) b
  let b ← put mid b
  let start := b.done.length
  let b ← content b
  orBounds (b.patch lenAddr (putU16 (.ofNat (b.done.length - start))))

/-- A command block. -/
def packBlock (id : UInt16) (content : OutBuf → Res OutBuf) : OutBuf → Res OutBuf :=
  packSized (putU16 id) [] content

/-- The head of a message and its body. -/
def packMessage (type : UInt8) (body : OutBuf → Res OutBuf) : OutBuf → Res OutBuf :=
  packSized ([VLSCTL_VERSION] ++ [type]) (putU32 VLSCTL_MAGIC) body

/-- The loop that packs `n` entries of an array from index `i` on. -/
def packSlots {α : Type} (pack : α → OutBuf → Res OutBuf) (s : AddrSlots α) :
    Nat → Nat → OutBuf → Res OutBuf
  | _, 0, b => .ok b
  | i, n + 1, b => do
    let a ← s.get i
    let b ← pack a b
    packSlots pack s (i + 1) n b

/-- Given room for more than `n` bytes, `f` passes `n` bytes of the given shape. -/
def Packs (f : OutBuf → Res OutBuf) (n : Nat) (shape : List UInt8 → Prop) : Prop :=
  ∀ b : OutBuf, n < b.rest.length →
    ∃ b' out, f b = .ok b' ∧ b.Emits b' out ∧ out.length = n ∧ shape out

section Packing

variable {f g : OutBuf → Res OutBuf} {n m : Nat} {shape shape' : List UInt8 → Prop}

theorem packs_nil : Packs .ok 0 (· = []) := fun b _ => ⟨b, [], rfl, .refl b, rfl, rfl⟩

theorem put_ok {b : OutBuf} {bs : List UInt8} (h : bs.length ≤ b.rest.length) :
    ∃ b', put bs b = .ok b' ∧ b.Emits b' bs := by
  obtain ⟨b', hb', hemits⟩ := OutBuf.write_emits h
  exact ⟨b', by rw [put, hb', orBounds], hemits⟩

theorem packs_put (bs : List UInt8) : Packs (put bs) bs.length (· = bs) := by
  intro b hroom
  obtain ⟨b', hb', hemits⟩ := put_ok (Nat.le_of_lt hroom)
  exact ⟨b', bs, hb', hemits, rfl, rfl⟩

theorem packs_pass (n : Nat) : Packs (pass n) n fun _ => True := by
  intro b hroom
  obtain ⟨b', out, hb', hemits, hlen⟩ := OutBuf.skip_emits (Nat.le_of_lt hroom)
  exact ⟨b', out, by rw [pass, hb', orBounds], hemits, hlen, trivial⟩

theorem Packs.seq (hf : Packs f n shape) (hg : Packs g m shape') :
    Packs (fun b => f b >>= g) (n + m)
      fun out => ∃ o o', out = o ++ o' ∧ shape o ∧ shape' o' := by
  intro b hroom
  obtain ⟨b₁, o, hb₁, hemits, hlen, hshape⟩ := hf b (by omega)
  have hrest := hemits.room
  obtain ⟨b₂, o', hb₂, hemits', hlen', hshape'⟩ := hg b₁ (by omega)
  refine ⟨b₂, o ++ o', bind_ok.mpr ⟨b₁, hb₁, hb₂⟩, hemits.trans hemits', ?_, o, o', rfl,
    hshape, hshape'⟩
  rw [List.length_append, hlen, hlen']

theorem Packs.imp (hf : Packs f n shape) (h : ∀ out, out.length = n → shape out → shape' out) :
    Packs f n shape' := by
  intro b hroom
  obtain ⟨b', out, hb', hemits, hlen, hshape⟩ := hf b hroom
  exact ⟨b', out, hb', hemits, hlen, h out hlen hshape⟩

theorem Packs.assertRoom (hf : Packs f n shape) :
    Packs (fun b => assertRoom b (f b)) n shape := by
  intro b hroom
  obtain ⟨b', out, hb', h⟩ := hf b hroom
  exact ⟨b', out, (if_neg (by omega)).trans hb', h⟩

theorem packSized_packs {front mid : List UInt8} (hf : Packs f n shape) :
    Packs (packSized front mid f) (front.length + (2 + (mid.length + n)))
      fun out => ∃ o, out = front ++ (putU16 (.ofNat n) ++ (mid ++ o)) ∧ o.length = n ∧
        shape o := by
  intro b hroom
  obtain ⟨b₁, hb₁, hemits₁⟩ := @put_ok b front (by omega)
  have hroom₁ := hemits₁.room
  obtain ⟨b₂, hb₂, hemits₂⟩ := @put_ok b₁ (putU16 0) (by rw [length_putU16]; omega)
  have hroom₂ := hemits₂.room
  rw [length_putU16] at hroom₂
  obtain ⟨b₃, hb₃, hemits₃⟩ := @put_ok b₂ mid (by omega)
  have hroom₃ := hemits₃.room
  obtain ⟨b₄, o, hb₄, hemits₄, hlen₄, hshape⟩ := hf b₃ (by omega)
  have hall := hemits₁.trans (hemits₂.trans (hemits₃.trans hemits₄))
  have hsize : b₄.done.length - b₃.done.length = n := by
    rw [hemits₄.done, List.length_append, hlen₄, Nat.add_sub_cancel_left]
  have haddr : b₁.done.length = b.done.length + front.length := by
    rw [hemits₁.done, List.length_append]
  obtain ⟨b₅, hb₅, hemits⟩ := @OutBuf.Emits.patch b b₄ front (putU16 0) (putU16 (.ofNat n))
    (mid ++ o) hall (by rw [length_putU16, length_putU16])
  refine ⟨b₅, _, ?_, hemits, ?_, o, rfl, hlen₄, hshape⟩
  · rw [packSized, hb₁, ok_bind, hb₂, ok_bind, hb₃, ok_bind, hb₄, ok_bind, hsize, haddr, hb₅,
      orBounds]
  · simp only [List.length_append, length_putU16, hlen₄]

theorem packBlock_packs {id : UInt16} (hf : Packs f n shape) :
    Packs (packBlock id f) (4 + n)
      fun out => ∃ o, out = putU16 id ++ (putU16 (.ofNat n) ++ o) ∧ o.length = n ∧ shape o := by
  have hsized := @packSized_packs f n shape (putU16 id) [] hf
  rw [length_putU16, List.length_nil, show 2 + (2 + (0 + n)) = 4 + n by omega] at hsized
  exact hsized

theorem packMessage_packs {type : UInt8} (hf : Packs f n shape) :
    Packs (packMessage type f) (8 + n)
      fun out => ∃ o, out = [VLSCTL_VERSION, type] ++
        (putU16 (.ofNat n) ++ (putU32 VLSCTL_MAGIC ++ o)) ∧ o.length = n ∧ shape o := by
  have hsized := @packSized_packs f n shape ([VLSCTL_VERSION] ++ [type]) (putU32 VLSCTL_MAGIC) hf
  rw [length_putU32, show ([VLSCTL_VERSION] ++ [type]).length + (2 + (4 + n)) = 8 + n by
    rw [List.length_append, List.length_singleton, List.length_singleton]
    omega] at hsized
  exact hsized

theorem length_flatten_shapes {α : Type} {shapeOf : α → List UInt8 → Prop} {step : Nat}
    {addrs : List α} {os : List (List UInt8)} (hshape : List.Forall₂ shapeOf addrs os)
    (hsize : ∀ a ∈ addrs, ∀ o, shapeOf a o → o.length = step) :
    os.flatten.length = step * addrs.length := by
  induction hshape with
  | nil => rfl
  | @cons a o addrs os ho _ ih =>
    rw [List.flatten_cons, List.length_append, hsize a List.mem_cons_self o ho,
      ih fun a ha => hsize a (List.mem_cons_of_mem _ ha), List.length_cons, Nat.mul_succ,
      Nat.add_comm]

theorem packSlots_packs {α : Type} {pack : α → OutBuf → Res OutBuf} {k : Nat}
    {shapeOf : α → List UInt8 → Prop} (hpack : ∀ a, Packs (pack a) k (shapeOf a))
    {s : AddrSlots α} {i : Nat} {l : List α} (hs : (s.slots.drop i).take l.length = l) :
    Packs (packSlots pack s i l.length) (k * l.length)
      fun out => ∃ os, List.Forall₂ shapeOf l os ∧ out = os.flatten := by
  induction l generalizing i with
  | nil => exact packs_nil.imp fun out _ hout => ⟨[], .nil, hout⟩
  | cons a l ih =>
    have hi : i < s.slots.length := by
      by_contra hge
      rw [List.drop_of_length_le (by omega)] at hs
      cases hs
    rw [List.drop_eq_getElem_cons hi, List.length_cons, List.take_succ_cons] at hs
    obtain ⟨hget, htake⟩ := List.cons.inj hs
    have hseq := (hpack a).seq (ih htake)
    intro b hroom
    rw [List.length_cons, Nat.mul_succ, Nat.add_comm] at hroom
    obtain ⟨b', out, hb', hemits, hlen, o, o', hout, hshape, os, hos, ho'⟩ := hseq b hroom
    refine ⟨b', out, ?_, hemits, ?_, o :: os, .cons hshape hos, ?_⟩
    · rw [List.length_cons, packSlots, AddrSlots.get, getSlot_ok hi, ok_bind, hget]
      exact hb'
    · rw [hlen, List.length_cons, Nat.mul_succ, Nat.add_comm]
    · rw [hout, ho', List.flatten_cons]

end Packing

end Vdht.Lsctl
