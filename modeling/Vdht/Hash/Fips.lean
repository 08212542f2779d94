import Vdht.Lib.Absorb
import Mathlib.Algebra.Order.Ring.Int

/-!
# The Secure Hash Standard

SHA-1 as FIPS 180-1 defines it, for messages of whole bytes. Two of its terms are parameters: the
mix of earlier words in the word schedule and the function of the rounds 40 to 59. `fips` are the
terms of the standard.
-/

namespace Vdht.Hash

open Lib

/-- The 32 bits of a word; addition is modulo `2 ^ 32`. -/
abbrev Word := BitVec 32

/-- `S^n(X) = (X << n) OR (X >> 32-n)`. -/
def S (n : Nat) (x : Word) : Word := x <<< n ||| x >>> (32 - n)

/-- The terms in which a hash of this kind may differ from SHA-1. -/
structure Terms where
  /-- of `W(t-3)`, `W(t-8)`, `W(t-14)` and `W(t-16)` -/
  mix : Word → Word → Word → Word → Word
  /-- of `B`, `C` and `D`, for `40 <= t <= 59` -/
  third : Word → Word → Word → Word

/-- SHA-1 as the standard has it: the schedule mixes four words, and the function of the third
twenty rounds is the majority. -/
def fips : Terms where
  mix w₃ w₈ w₁₄ w₁₆ := w₃ ^^^ w₈ ^^^ w₁₄ ^^^ w₁₆
  third b c d := (b &&& c) ||| (b &&& d) ||| (c &&& d)

/-- `f(t;B,C,D)` -/
def Terms.f (v : Terms) (t : Nat) (b c d : Word) : Word :=
  if t < 20 then (b &&& c) ||| (~~~b &&& d)
  else if t < 40 then b ^^^ c ^^^ d
  else if t < 60 then v.third b c d
  else b ^^^ c ^^^ d

/-- `K(t)` -/
def K (t : Nat) : Word :=
  if t < 20 then 0x5A827999#32
  else if t < 40 then 0x6ED9EBA1#32
  else if t < 60 then 0x8F1BBCDC#32
  else 0xCA62C1D6#32

/-- `H0` to `H4`, or the five words `A` to `E`. -/
structure Digest where
  a : Word
  b : Word
  c : Word
  d : Word
  e : Word
deriving DecidableEq, Repr

/-- The sum of two digests, word by word. -/
def Digest.add (h g : Digest) : Digest :=
  ⟨h.a + g.a, h.b + g.b, h.c + g.c, h.d + g.d, h.e + g.e⟩

/-! ## One block -/

/-- The words of a block, first byte highest. -/
def wordAt (block : List UInt8) (i : Nat) : Word :=
  let octet := fun k => (block.getD (4 * i + k) 0).toBitVec.setWidth 32
  octet 0 <<< 24 ||| octet 1 <<< 16 ||| octet 2 <<< 8 ||| octet 3

/-- `W(0)` to `W(15 + n)`. -/
def Terms.schedule (v : Terms) (block : List UInt8) : Nat → List Word
  | 0 => (List.range 16).map (wordAt block)
  | n + 1 =>
    let w := v.schedule block n
    w ++ [S 1 (v.mix (w.getD (n + 13) 0) (w.getD (n + 8) 0) (w.getD (n + 2) 0) (w.getD n 0))]

/-- Step `t` of the eighty steps. -/
def Terms.step (v : Terms) (w : List Word) (s : Digest) (t : Nat) : Digest :=
  let temp := S 5 s.a + v.f t s.b s.c s.d + s.e + w.getD t 0 + K t
  ⟨temp, s.a, S 30 s.b, s.c, s.d⟩

/-- What a block adds to the digest: 80 rounds over the schedule of the block, from the digest on.
-/
def Terms.compress (v : Terms) (h : Digest) (block : List UInt8) : Digest :=
  h.add ((List.range 80).foldl (v.step (v.schedule block 64)) h)

/-! ## The message -/

/-- The zeros behind the one bit, up to the place of the length. -/
def zeros (len : Nat) : Nat := (119 - len % 64) % 64

/-- The 64 bits of the length of the message in bits, highest byte first. -/
def lengthBytes (len : Nat) : List UInt8 :=
  (List.range 8).map fun i => UInt8.ofNat (8 * len / 256 ^ (7 - i))

/-- The message, the bit behind it, zeros up to the last eight bytes of a block, and the length in
bits. -/
def pad (msg : List UInt8) : List UInt8 :=
  msg ++ 0x80 :: (List.replicate (zeros msg.length) 0 ++ lengthBytes msg.length)

/-- The digest before the first block. -/
def initial : Digest :=
  ⟨0x67452301#32, 0xEFCDAB89#32, 0x98BADCFE#32, 0x10325476#32, 0xC3D2E1F0#32⟩

/-- The digest over the blocks of the padded message, with the terms of one of the two versions. -/
def Terms.digest (v : Terms) (msg : List UInt8) : Digest :=
  (blocks 64 ((pad msg).length / 64) (pad msg)).foldl v.compress initial

/-- SHA-1. -/
def sha1 (msg : List UInt8) : Digest := fips.digest msg

/-! ## The steps

The same computation cut into its steps. `Working` holds what the steps work on: `H0` to `H4`, the
words `W(0)`, `W(1)`, ... that are there so far, and `A` to `E`.
-/

/-- What the engine works on: the digest so far, the schedule of the block as far as it is made, and
the five words of the rounds. -/
structure Working where
  h : Digest
  w : List Word
  s : Digest

/-- The steps for a block: its sixteen words, one more word, step `t` of the eighty, and the addition
to `H0` to `H4`. -/
inductive Step where
  | load (block : List UInt8)
  | word
  | turn (t : Nat)
  | add

/-- What one step does to the working state, with the terms of one of the two versions. -/
def Terms.exec (v : Terms) (x : Working) : Step → Working
  | .load block => { x with w := (List.range 16).map (wordAt block), s := x.h }
  | .word =>
    let t := x.w.length
    { x with w := x.w ++ [S 1 (v.mix (x.w.getD (t - 3) 0) (x.w.getD (t - 8) 0)
      (x.w.getD (t - 14) 0) (x.w.getD (t - 16) 0))] }
  | .turn t => { x with s := v.step x.w x.s t }
  | .add => { x with h := x.h.add x.s }

/-- The steps that a block takes: it is loaded, 64 words are made, 80 rounds follow, and the digest
is added to. -/
def blockSteps (block : List UInt8) : List Step :=
  .load block :: (List.replicate 64 .word ++ ((List.range 80).map .turn ++ [.add]))

/-- The steps for a message. -/
def steps (msg : List UInt8) : List Step :=
  (blocks 64 ((pad msg).length / 64) (pad msg)).flatMap blockSteps

/-- What is there after the first `n` steps. -/
def Terms.after (v : Terms) (msg : List UInt8) (n : Nat) : Working :=
  ((steps msg).take n).foldl v.exec ⟨initial, [], initial⟩

theorem length_schedule (v : Terms) (block : List UInt8) (n : Nat) :
    (v.schedule block n).length = 16 + n := by
  induction n with
  | zero => rfl
  | succ n ih =>
    rw [Terms.schedule, List.length_append, ih]
    rfl

theorem exec_words (v : Terms) (block : List UInt8) (h s : Digest) (n : Nat) :
    (List.replicate n Step.word).foldl v.exec ⟨h, v.schedule block 0, s⟩ =
      ⟨h, v.schedule block n, s⟩ := by
  induction n with
  | zero => rfl
  | succ n ih =>
    have h₃ : 16 + n - 3 = n + 13 := by omega
    have h₈ : 16 + n - 8 = n + 8 := by omega
    have h₁₄ : 16 + n - 14 = n + 2 := by omega
    rw [List.replicate_succ', List.foldl_append, ih, List.foldl_cons, List.foldl_nil, Terms.exec]
    dsimp only
    rw [length_schedule, h₃, h₈, h₁₄, Nat.add_sub_cancel_left]
    rfl

theorem exec_turns (v : Terms) (w : List Word) (h s : Digest) (l : List Nat) :
    (l.map Step.turn).foldl v.exec ⟨h, w, s⟩ = ⟨h, w, l.foldl (v.step w) s⟩ := by
  induction l generalizing s with
  | nil => rfl
  | cons t l ih =>
    rw [List.map_cons, List.foldl_cons, List.foldl_cons]
    exact ih (v.step w s t)

theorem exec_block (v : Terms) (x : Working) (block : List UInt8) :
    ((blockSteps block).foldl v.exec x).h = v.compress x.h block := by
  have hload : v.exec x (.load block) = ⟨x.h, v.schedule block 0, x.h⟩ := rfl
  rw [blockSteps, List.foldl_cons, hload, List.foldl_append, exec_words, List.foldl_append,
    exec_turns]
  rfl

/-- The steps compute the digest. -/
theorem digest_eq_after (v : Terms) (msg : List UInt8) :
    v.digest msg = (v.after msg (steps msg).length).h := by
  have hblocks : ∀ (l : List (List UInt8)) (x : Working),
      ((l.flatMap blockSteps).foldl v.exec x).h = l.foldl v.compress x.h := by
    intro l
    induction l with
    | nil => exact fun x => rfl
    | cons block l ih =>
      intro x
      rw [List.flatMap_cons, List.foldl_append, ih, exec_block, List.foldl_cons]
  rw [Terms.after, List.take_length, steps, hblocks]
  rfl

example : sha1 [0x61, 0x62, 0x63] =
    ⟨0xA9993E36#32, 0x4706816A#32, 0xBA3E2571#32, 0x7850C26C#32, 0x9CD0D89D#32⟩ := by
  decide +kernel

end Vdht.Hash
