import Mathlib.Data.List.Basic

/-!
# Output buffers

A byte buffer that is filled from the front: the part that has been passed over, and what lies
behind it. A field can be written, skipped (it keeps what the buffer held before), or written
later over a place that was passed. What a sequence of such steps leaves behind the starting point
is the output of the sequence.
-/

namespace Vdht.Lib

/-- A buffer with a cursor: the bytes in front of the cursor and those from it on. -/
structure OutBuf where
  done : List UInt8
  rest : List UInt8

namespace OutBuf

/-- `none` when the buffer ends before. -/
def write (b : OutBuf) (bs : List UInt8) : Option OutBuf :=
  if bs.length ≤ b.rest.length then some ⟨b.done ++ bs, b.rest.drop bs.length⟩ else none

/-- The cursor moves over `n` bytes and leaves them as they are; `none` when there are not so many.
-/
def skip (b : OutBuf) (n : Nat) : Option OutBuf :=
  if n ≤ b.rest.length then some ⟨b.done ++ b.rest.take n, b.rest.drop n⟩ else none

/-- Write over the place at `off`. -/
def patch (b : OutBuf) (off : Nat) (bs : List UInt8) : Option OutBuf :=
  if off + bs.length ≤ b.done.length then
    some { b with done := b.done.take off ++ (bs ++ b.done.drop (off + bs.length)) }
  else none

/-- From `b` to `b'` the bytes `out` were passed. -/
structure Emits (b b' : OutBuf) (out : List UInt8) : Prop where
  done : b'.done = b.done ++ out
  room : b.rest.length = out.length + b'.rest.length

variable {b b' b'' : OutBuf} {out out' bs : List UInt8}

theorem Emits.refl (b : OutBuf) : Emits b b [] := ⟨by simp, by simp⟩

theorem Emits.trans (h : Emits b b' out) (h' : Emits b' b'' out') :
    Emits b b'' (out ++ out') := by
  refine ⟨by rw [h'.done, h.done, List.append_assoc], ?_⟩
  rw [h.room, h'.room, List.length_append, Nat.add_assoc]

theorem write_emits (h : bs.length ≤ b.rest.length) :
    ∃ b', b.write bs = some b' ∧ Emits b b' bs := by
  refine ⟨_, by rw [write, if_pos h], rfl, ?_⟩
  rw [List.length_drop]
  omega

theorem skip_emits {n : Nat} (h : n ≤ b.rest.length) :
    ∃ b' out, b.skip n = some b' ∧ Emits b b' out ∧ out.length = n := by
  refine ⟨_, b.rest.take n, by rw [skip, if_pos h], ⟨rfl, ?_⟩, List.length_take_of_le h⟩
  rw [List.length_take_of_le h, List.length_drop]
  omega

/-- A place that was passed after `b` gets new bytes. -/
theorem Emits.patch {old new after : List UInt8} (h : Emits b b' (out ++ (old ++ after)))
    (hlen : old.length = new.length) :
    ∃ b'', b'.patch (b.done.length + out.length) new = some b'' ∧
      Emits b b'' (out ++ (new ++ after)) := by
  have hdone : b'.done = (b.done ++ out) ++ (old ++ after) := by
    rw [h.done, List.append_assoc]
  have hoff : b.done.length + out.length = (b.done ++ out).length := by
    rw [List.length_append]
  have hfits : b.done.length + out.length + new.length ≤ b'.done.length := by
    rw [hdone, List.length_append, List.length_append, List.length_append]
    omega
  have htake : b'.done.take (b.done.length + out.length) = b.done ++ out := by
    rw [hdone, hoff]
    exact List.take_left' rfl
  have hdrop : b'.done.drop (b.done.length + out.length + new.length) = after := by
    rw [hdone, hoff, ← List.drop_drop, List.drop_left' rfl, ← hlen]
    exact List.drop_left' rfl
  refine ⟨_, by rw [OutBuf.patch, if_pos hfits], ?_, ?_⟩
  · rw [htake, hdrop, List.append_assoc]
  · have hroom := h.room
    simp only [List.length_append] at hroom ⊢
    omega

end OutBuf

end Vdht.Lib
