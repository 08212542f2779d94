import Vdht.Def
import Vdht.Hash.Fips

/-!
# The hash engine

`vhashgen.c`. `len_low` and `len_high` are signed ints of 32 bits that are only added to, compared
with zero and shifted; they are their bit patterns, and an addition wraps. A message of 2^28 bytes
or more lets `len_low` overflow. The five words of the digest stand for the 20 bytes of the
hash, as `hash_array` does.
-/

namespace Vdht.Hash

/-- `struct vhashgen_ctxt_sha1`: the digest so far, the number of bits in two words, the block that
is filled with the place of its next byte, and the flag of a message that is too long. -/
structure VhashgenCtxtSha1 where
  digest : Digest
  lenLow : Word
  lenHigh : Word
  msgbuf : List UInt8
  cursor : Nat
  oops : Bool
  done : Bool

/-! ## One block -/

/-- `& 0xFFFFFFFF`, which changes nothing where words have 32 bits. -/
def mask (x : Word) : Word := x &&& 0xFFFFFFFF#32

/-- `sha1_circular_shift`: a rotation to the left. -/
def sha1CircularShift (bits : Nat) (word : Word) : Word :=
  mask (word <<< bits) ||| word >>> (32 - bits)

/-- The turns `16 <= i < 80` that fill `seq`. -/
def seqTurn (seq : List Word) (i : Nat) : List Word :=
  seq ++ [sha1CircularShift 1
    (seq.getD (i - 3) 0 ^^^ seq.getD (i - 14) 0 ^^^ seq.getD (i - 16) 0)]

/-- The loops that fill `seq`: 16 words of the block and 64 more, made from three words before them
each. -/
def fillSeq (msgbuf : List UInt8) : List Word :=
  (List.range' 16 64).foldl seqTurn ((List.range 16).map (wordAt msgbuf))

/-- One turn of a loop over the rounds: the loops differ in a term and a constant. -/
def roundTurn (term : Word → Word → Word → Word) (k : Word) (seq : List Word) (s : Digest)
    (i : Nat) : Digest :=
  let tmp := mask (sha1CircularShift 5 s.a + term s.b s.c s.d + s.e + seq.getD i 0 + k)
  ⟨tmp, s.a, sha1CircularShift 30 s.b, s.c, s.d⟩

/-- `tmp` in the rounds 40 to 59. -/
def thirdTerm (b c d : Word) : Word := (b &&& c) ||| (b &&& c) ||| (c &&& d)

/-- The four loops of twenty rounds, each with a function and a constant of its own. -/
def rounds (seq : List Word) (s : Digest) : Digest :=
  let s := (List.range' 0 20).foldl
    (roundTurn (fun b c d => (b &&& c) ||| (~~~b &&& d)) 0x5A827999#32 seq) s
  let s := (List.range' 20 20).foldl
    (roundTurn (fun b c d => b ^^^ c ^^^ d) 0x6ED9EBA1#32 seq) s
  let s := (List.range' 40 20).foldl (roundTurn thirdTerm 0x8F1BBCDC#32 seq) s
  (List.range' 60 20).foldl (roundTurn (fun b c d => b ^^^ c ^^^ d) 0xCA62C1D6#32 seq) s

/-- `_aux_sha1_digest_msgbuf`: the block is taken into the digest and filled from its first byte on
again. -/
def auxSha1DigestMsgbuf (ctxt : VhashgenCtxtSha1) : VhashgenCtxtSha1 :=
  let s := rounds (fillSeq ctxt.msgbuf) ctxt.digest
  let h := ctxt.digest
  { ctxt with
    digest := ⟨mask (h.a + s.a), mask (h.b + s.b), mask (h.c + s.c), mask (h.d + s.d),
      mask (h.e + s.e)⟩
    cursor := 0 }

/-! ## Padding -/

/-- `msgbuf[cursor++] = x` -/
def putByte (ctxt : VhashgenCtxtSha1) (x : UInt8) : Res VhashgenCtxtSha1 :=
  match setSlot ctxt.msgbuf ctxt.cursor x with
  | .error e => .error e
  | .ok msgbuf => .ok { ctxt with msgbuf := msgbuf, cursor := ctxt.cursor + 1 }

/-- `while (cursor < limit) msgbuf[cursor++] = 0`, which takes `limit - cursor` turns. -/
def putZeros : Nat → VhashgenCtxtSha1 → Res VhashgenCtxtSha1
  | 0, ctxt => .ok ctxt
  | n + 1, ctxt =>
    match putByte ctxt 0 with
    | .error e => .error e
    | .ok ctxt => putZeros n ctxt

/-- The loop that writes zeros until the cursor is at the limit. -/
def fillTo (limit : Nat) (ctxt : VhashgenCtxtSha1) : Res VhashgenCtxtSha1 :=
  putZeros (limit - ctxt.cursor) ctxt

/-- `(len >> n) & 0xFF`; the sign that is shifted in is masked away. -/
def lenByte (len : Word) (n : Nat) : UInt8 :=
  UInt8.ofBitVec ((len.sshiftRight n &&& 0xFF#32).setWidth 8)

/-- The stores to `msgbuf[56]` to `msgbuf[63]`. -/
def putLength (ctxt : VhashgenCtxtSha1) : Res VhashgenCtxtSha1 := do
  let buf ← setSlot ctxt.msgbuf 56 (lenByte ctxt.lenHigh 24)
  let buf ← setSlot buf 57 (lenByte ctxt.lenHigh 16)
  let buf ← setSlot buf 58 (lenByte ctxt.lenHigh 8)
  let buf ← setSlot buf 59 (lenByte ctxt.lenHigh 0)
  let buf ← setSlot buf 60 (lenByte ctxt.lenLow 24)
  let buf ← setSlot buf 61 (lenByte ctxt.lenLow 16)
  let buf ← setSlot buf 62 (lenByte ctxt.lenLow 8)
  let buf ← setSlot buf 63 (lenByte ctxt.lenLow 0)
  return { ctxt with msgbuf := buf }

/-- `_aux_sha1_padding_msgbuf`: the bit, zeros and the length are written, in two blocks when the
length does not fit behind the message. -/
def auxSha1PaddingMsgbuf (ctxt : VhashgenCtxtSha1) : Res VhashgenCtxtSha1 := do
  let ctxt ←
    if ctxt.cursor > 55 then do
      let ctxt ← putByte ctxt 0x80
      let ctxt ← fillTo 64 ctxt
      fillTo 56 (auxSha1DigestMsgbuf ctxt)
    else do
      let ctxt ← putByte ctxt 0x80
      fillTo 56 ctxt
  let ctxt ← putLength ctxt
  return auxSha1DigestMsgbuf ctxt

/-! ## The engine -/

/-- `cursor` and `msgbuf` stay. -/
def vhashgenSha1Reset (ctxt : VhashgenCtxtSha1) : VhashgenCtxtSha1 :=
  { ctxt with
    digest := ⟨0x67452301#32, 0xEFCDAB89#32, 0x98BADCFE#32, 0x10325476#32, 0xC3D2E1F0#32⟩
    lenLow := 0
    lenHigh := 0
    oops := false
    done := false }

/-- `len_low += 8` and what follows from its wrapping. -/
def countByte (ctxt : VhashgenCtxtSha1) : VhashgenCtxtSha1 :=
  let low := mask (ctxt.lenLow + 8)
  if low = 0 then
    let high := mask (ctxt.lenHigh + 1)
    { ctxt with lenLow := low, lenHigh := high, oops := if high = 0 then true else ctxt.oops }
  else { ctxt with lenLow := low }

/-- The loop of `_vhashgen_sha1_input` over the bytes of the message; it stops when the number of
bits has overflowed. -/
def inputLoop (ctxt : VhashgenCtxtSha1) : List UInt8 → Res VhashgenCtxtSha1
  | [] => .ok ctxt
  | x :: msg =>
    if ctxt.oops then .ok ctxt
    else
      match putByte ctxt x with
      | .error e => .error e
      | .ok ctxt =>
        let ctxt := countByte ctxt
        inputLoop (if ctxt.cursor = 64 then auxSha1DigestMsgbuf ctxt else ctxt) msg

/-- `vassert(len > 0)` comes before the test of `len` that sets `oops`. -/
def vhashgenSha1Input (ctxt : VhashgenCtxtSha1) (msg : List UInt8) : Res VhashgenCtxtSha1 :=
  if msg.length = 0 then .error .assertion
  else if ctxt.done || ctxt.oops then .ok { ctxt with oops := true }
  else inputLoop ctxt msg

/-- `none` is the return of `-1`, which leaves `hash_array` alone. -/
def vhashgenSha1Result (ctxt : VhashgenCtxtSha1) : Res (VhashgenCtxtSha1 × Option Digest) :=
  if ctxt.oops then .ok (ctxt, none)
  else if ctxt.done then .ok (ctxt, some ctxt.digest)
  else do
    let ctxt ← auxSha1PaddingMsgbuf ctxt
    return ({ ctxt with done := true }, some ctxt.digest)

/-- `_vhashgen_hash`: an empty message fails an assertion, and `none` stands for the return of `-1`.
-/
def vhashgenHash (ctxt : VhashgenCtxtSha1) (msg : List UInt8) :
    Res (VhashgenCtxtSha1 × Option Digest) :=
  if msg.length = 0 then .error .assertion
  else do
    let ctxt ← vhashgenSha1Input (vhashgenSha1Reset ctxt) msg
    vhashgenSha1Result ctxt

/-- `_vhashgen_hash_with_cookie`: the cookie is hashed behind the content, as one message. -/
def vhashgenHashWithCookie (ctxt : VhashgenCtxtSha1) (content cookie : List UInt8) :
    Res (VhashgenCtxtSha1 × Option Digest) :=
  if content.length = 0 then .error .assertion
  else if cookie.length = 0 then .error .assertion
  else do
    let ctxt ← vhashgenSha1Input (vhashgenSha1Reset ctxt) content
    let ctxt ← vhashgenSha1Input ctxt cookie
    vhashgenSha1Result ctxt

/-- `malloc` and `memset` in `vhashgen_init`. -/
def vhashgenInit : VhashgenCtxtSha1 where
  digest := ⟨0, 0, 0, 0, 0⟩
  lenLow := 0
  lenHigh := 0
  msgbuf := List.replicate 64 0
  cursor := 0
  oops := false
  done := false

end Vdht.Hash
