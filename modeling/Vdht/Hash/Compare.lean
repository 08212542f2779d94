import Vdht.Hash.Sha1

/-!
# The hash engine and the standard

For every message the engine computes the digest of the standard with two terms changed: the word
schedule leaves out `W(t-8)` and the rounds 40 to 59 leave out `B AND D`. The buffer, the count of
bits and the padding are those of the standard.
-/

namespace Vdht.Hash

open Lib

/-- The terms as `_aux_sha1_digest_msgbuf` has them. -/
def written : Terms where
  mix w₃ _ w₁₄ w₁₆ := w₃ ^^^ w₁₄ ^^^ w₁₆
  third b c d := (b &&& c) ||| (c &&& d)

/-! ## One block -/

theorem mask_eq (x : Word) : mask x = x := BitVec.and_allOnes

theorem circularShift_eq (n : Nat) (x : Word) : sha1CircularShift n x = S n x := by
  rw [sha1CircularShift, mask_eq, S]

theorem fillSeq_eq (msgbuf : List UInt8) : fillSeq msgbuf = written.schedule msgbuf 64 := by
  have hfill : ∀ n, (List.range' 16 n).foldl seqTurn ((List.range 16).map (wordAt msgbuf)) =
      written.schedule msgbuf n := by
    intro n
    induction n with
    | zero => rfl
    | succ n ih =>
      rw [List.range'_concat, List.foldl_append, ih, Terms.schedule, List.foldl_cons,
        List.foldl_nil, seqTurn, circularShift_eq]
      have h₃ : 16 + 1 * n - 3 = n + 13 := by omega
      have h₁₄ : 16 + 1 * n - 14 = n + 2 := by omega
      have h₁₆ : 16 + 1 * n - 16 = n := by omega
      rw [h₃, h₁₄, h₁₆]
      rfl
  exact hfill 64

theorem thirdTerm_eq (b c d : Word) : thirdTerm b c d = written.third b c d := by
  rw [thirdTerm, BitVec.or_self]
  rfl

/-- A loop of the engine is a part of the eighty steps. -/
theorem foldl_roundTurn {term : Word → Word → Word → Word} {k : Word} {lo n : Nat}
    (hterm : ∀ i, lo ≤ i → i < lo + n → ∀ b c d, term b c d = written.f i b c d)
    (hk : ∀ i, lo ≤ i → i < lo + n → k = K i) (seq : List Word) (s : Digest) :
    (List.range' lo n).foldl (roundTurn term k seq) s =
      (List.range' lo n).foldl (written.step seq) s := by
  apply List.foldl_ext
  intro s i hi
  obtain ⟨hlo, hhi⟩ := List.mem_range'_1.mp hi
  rw [roundTurn, Terms.step, mask_eq, circularShift_eq, circularShift_eq,
    hterm i hlo hhi, hk i hlo hhi]

theorem rounds_eq (seq : List Word) (s : Digest) :
    rounds seq s = (List.range 80).foldl (written.step seq) s := by
  have hrange : List.range 80 =
      List.range' 0 20 ++ (List.range' 20 20 ++ (List.range' 40 20 ++ List.range' 60 20)) := rfl
  rw [hrange, List.foldl_append, List.foldl_append, List.foldl_append, rounds]
  rw [foldl_roundTurn, foldl_roundTurn, foldl_roundTurn, foldl_roundTurn]
  · intro i hlo hhi b c d
    rw [Terms.f, if_pos (by omega)]
  · intro i hlo hhi
    rw [K, if_pos (by omega)]
  · intro i hlo hhi b c d
    rw [Terms.f, if_neg (by omega), if_pos (by omega)]
  · intro i hlo hhi
    rw [K, if_neg (by omega), if_pos (by omega)]
  · intro i hlo hhi b c d
    rw [Terms.f, if_neg (by omega), if_neg (by omega), if_pos (by omega), thirdTerm_eq]
  · intro i hlo hhi
    rw [K, if_neg (by omega), if_neg (by omega), if_pos (by omega)]
  · intro i hlo hhi b c d
    rw [Terms.f, if_neg (by omega), if_neg (by omega), if_neg (by omega)]
  · intro i hlo hhi
    rw [K, if_neg (by omega), if_neg (by omega), if_neg (by omega)]

/-- A full buffer is taken into the digest. -/
theorem digestMsgbuf_eq (ctxt : VhashgenCtxtSha1) :
    auxSha1DigestMsgbuf ctxt =
      { ctxt with digest := written.compress ctxt.digest ctxt.msgbuf, cursor := 0 } := by
  rw [auxSha1DigestMsgbuf, fillSeq_eq, rounds_eq]
  simp only [mask_eq]
  rfl

/-! ## The buffer -/

/-- The engine has taken the blocks of a message into `s.1`, and `s.2` lies in its buffer. -/
structure Holds (ctxt : VhashgenCtxtSha1) (s : Digest × List UInt8) : Prop where
  digest : ctxt.digest = s.1
  cursor : ctxt.cursor = s.2.length
  size : ctxt.msgbuf.length = 64
  pending : ctxt.msgbuf.take s.2.length = s.2

/-- A store to the buffer changes neither the count nor the flags. -/
structure Stays (ctxt ctxt' : VhashgenCtxtSha1) : Prop where
  lenLow : ctxt'.lenLow = ctxt.lenLow
  lenHigh : ctxt'.lenHigh = ctxt.lenHigh
  oops : ctxt'.oops = ctxt.oops
  done : ctxt'.done = ctxt.done

theorem Stays.trans {c₁ c₂ c₃ : VhashgenCtxtSha1} (h : Stays c₁ c₂) (h' : Stays c₂ c₃) :
    Stays c₁ c₃ :=
  ⟨h'.lenLow.trans h.lenLow, h'.lenHigh.trans h.lenHigh, h'.oops.trans h.oops,
    h'.done.trans h.done⟩

section Holds

variable {ctxt : VhashgenCtxtSha1} {d : Digest} {p : List UInt8}

theorem Holds.put (h : Holds ctxt (d, p)) (hp : p.length < 64) (x : UInt8) :
    ∃ ctxt', putByte ctxt x = .ok ctxt' ∧ Holds ctxt' (d, p ++ [x]) ∧ Stays ctxt ctxt' := by
  have hcursor : ctxt.cursor = p.length := h.cursor
  have hsize := h.size
  have hpending : ctxt.msgbuf.take p.length = p := h.pending
  have hset : setSlot ctxt.msgbuf ctxt.cursor x = .ok (ctxt.msgbuf.set ctxt.cursor x) :=
    setSlot_ok (by omega)
  refine ⟨{ ctxt with msgbuf := ctxt.msgbuf.set ctxt.cursor x, cursor := ctxt.cursor + 1 },
    by rw [putByte, hset], ⟨h.digest, ?_, ?_, ?_⟩, ⟨rfl, rfl, rfl, rfl⟩⟩
  · rw [List.length_append, List.length_singleton]
    exact congrArg (· + 1) hcursor
  · rw [List.length_set, hsize]
  · have hlt : p.length < ctxt.msgbuf.length := by omega
    show (ctxt.msgbuf.set ctxt.cursor x).take (p ++ [x]).length = p ++ [x]
    rw [List.length_append, List.length_singleton, hcursor,
      List.take_succ_eq_append_getElem (by rw [List.length_set]; exact hlt),
      List.take_set_of_le (Nat.le_refl _), hpending, List.getElem_set_self]

theorem Holds.full (h : Holds ctxt (d, p)) (hp : p.length = 64) :
    Holds (auxSha1DigestMsgbuf ctxt) (written.compress d p, []) := by
  have hdigest : ctxt.digest = d := h.digest
  have hpending : ctxt.msgbuf.take p.length = p := h.pending
  rw [hp, List.take_of_length_le (Nat.le_of_eq h.size)] at hpending
  rw [digestMsgbuf_eq]
  refine ⟨?_, rfl, h.size, rfl⟩
  show written.compress ctxt.digest ctxt.msgbuf = _
  rw [hdigest, hpending]

theorem digestMsgbuf_stays (ctxt : VhashgenCtxtSha1) :
    Stays ctxt (auxSha1DigestMsgbuf ctxt) := by
  rw [digestMsgbuf_eq]
  exact ⟨rfl, rfl, rfl, rfl⟩

theorem Holds.zeros (h : Holds ctxt (d, p)) {n : Nat} (hp : p.length + n ≤ 64) :
    ∃ ctxt', putZeros n ctxt = .ok ctxt' ∧ Holds ctxt' (d, p ++ List.replicate n 0) ∧
      Stays ctxt ctxt' := by
  induction n generalizing ctxt p with
  | zero =>
    refine ⟨ctxt, rfl, ?_, ⟨rfl, rfl, rfl, rfl⟩⟩
    rw [List.replicate_zero, List.append_nil]
    exact h
  | succ n ih =>
    obtain ⟨next, hput, hone, hstays⟩ := h.put (by omega) 0
    have hlen : (p ++ [(0 : UInt8)]).length + n ≤ 64 := by
      rw [List.length_append, List.length_singleton]
      omega
    obtain ⟨last, hzeros, hall, hstays'⟩ := ih hone hlen
    rw [List.append_assoc] at hall
    refine ⟨last, ?_, hall, hstays.trans hstays'⟩
    rw [putZeros, hput]
    exact hzeros

theorem Holds.fill (h : Holds ctxt (d, p)) (limit : Nat) (hp : p.length ≤ limit)
    (hlimit : limit ≤ 64) :
    ∃ ctxt', fillTo limit ctxt = .ok ctxt' ∧
      Holds ctxt' (d, p ++ List.replicate (limit - p.length) 0) ∧ Stays ctxt ctxt' := by
  have hcursor : ctxt.cursor = p.length := h.cursor
  rw [fillTo, hcursor]
  exact h.zeros (by omega)

end Holds

/-! ## The message -/

/-- The two words of the count of bits after `k` bytes. -/
structure Counts (ctxt : VhashgenCtxtSha1) (k : Nat) : Prop where
  low : ctxt.lenLow = BitVec.ofNat 32 (8 * k)
  high : ctxt.lenHigh = BitVec.ofNat 32 (8 * k / 2 ^ 32)

theorem Counts.stays {ctxt ctxt' : VhashgenCtxtSha1} {k : Nat} (h : Counts ctxt k)
    (hstays : Stays ctxt ctxt') : Counts ctxt' k :=
  ⟨hstays.lenLow.trans h.low, hstays.lenHigh.trans h.high⟩

theorem Counts.byte {ctxt : VhashgenCtxtSha1} {k : Nat} (h : Counts ctxt k)
    (hk : k + 1 < 2 ^ 61) :
    countByte ctxt = { ctxt with
      lenLow := BitVec.ofNat 32 (8 * (k + 1))
      lenHigh := BitVec.ofNat 32 (8 * (k + 1) / 2 ^ 32) } := by
  have hlow : mask (ctxt.lenLow + 8) = BitVec.ofNat 32 (8 * (k + 1)) := by
    rw [mask_eq, h.low, Nat.mul_succ, BitVec.ofNat_add]
    rfl
  have hzero : BitVec.ofNat 32 (8 * (k + 1)) = 0 ↔ 8 * (k + 1) % 2 ^ 32 = 0 := by
    rw [← BitVec.toNat_inj, BitVec.toNat_ofNat]
    rfl
  rw [countByte, hlow]
  by_cases hwrap : 8 * (k + 1) % 2 ^ 32 = 0
  · have hnext : 8 * (k + 1) / 2 ^ 32 = 8 * k / 2 ^ 32 + 1 := by omega
    have hhigh : mask (ctxt.lenHigh + 1) = BitVec.ofNat 32 (8 * (k + 1) / 2 ^ 32) := by
      rw [mask_eq, h.high, hnext, BitVec.ofNat_add]
      rfl
    have hne : BitVec.ofNat 32 (8 * (k + 1) / 2 ^ 32) ≠ 0 := by
      rw [Ne, ← BitVec.toNat_inj, BitVec.toNat_ofNat]
      show ¬ 8 * (k + 1) / 2 ^ 32 % 2 ^ 32 = 0
      omega
    rw [if_pos (hzero.mpr hwrap), hhigh]
    simp only [if_neg hne]
  · have hnext : 8 * (k + 1) / 2 ^ 32 = 8 * k / 2 ^ 32 := by omega
    rw [if_neg (mt hzero.mp hwrap), hnext, ← h.high]

/-- `k` bytes have been fed to an engine that accepts more of them. -/
structure Feeds (ctxt : VhashgenCtxtSha1) (s : Digest × List UInt8) (k : Nat) : Prop where
  holds : Holds ctxt s
  counts : Counts ctxt k
  room : s.2.length < 64
  oops : ctxt.oops = false
  done : ctxt.done = false

theorem Feeds.input {ctxt : VhashgenCtxtSha1} {s : Digest × List UInt8} {k : Nat}
    (h : Feeds ctxt s k) {msg : List UInt8} (hk : k + msg.length < 2 ^ 61) :
    ∃ ctxt', inputLoop ctxt msg = .ok ctxt' ∧
      Feeds ctxt' (msg.foldl (absorb 64 written.compress) s) (k + msg.length) := by
  induction msg generalizing ctxt s k with
  | nil => exact ⟨ctxt, rfl, h⟩
  | cons x msg ih =>
    obtain ⟨d, p⟩ := s
    rw [List.length_cons] at hk
    obtain ⟨stored, hput, hone, hstays⟩ := h.holds.put h.room x
    have hcounts := h.counts.stays hstays
    have hlen : k + (msg.length + 1) = k + 1 + msg.length := by omega
    rw [inputLoop, h.oops, if_neg Bool.false_ne_true, hput, List.length_cons, hlen,
      List.foldl_cons, absorb]
    simp only
    rw [hcounts.byte (by omega)]
    generalize hnext : ({ stored with
      lenLow := BitVec.ofNat 32 (8 * (k + 1))
      lenHigh := BitVec.ofNat 32 (8 * (k + 1) / 2 ^ 32) } : VhashgenCtxtSha1) = next
    have hnextholds : Holds next (d, p ++ [x]) := by
      rw [← hnext]
      exact ⟨hone.digest, hone.cursor, hone.size, hone.pending⟩
    have hnextcounts : Counts next (k + 1) := by
      rw [← hnext]
      exact ⟨rfl, rfl⟩
    have hoops : next.oops = false := by
      rw [← hnext]
      exact hstays.oops.trans h.oops
    have hdone : next.done = false := by
      rw [← hnext]
      exact hstays.done.trans h.done
    have hcursor : next.cursor = p.length + 1 := by
      rw [hnextholds.cursor, List.length_append, List.length_singleton]
    have hk' : k + 1 + msg.length < 2 ^ 61 := by omega
    rw [hcursor]
    by_cases hfull : p.length + 1 = 64
    · rw [if_pos hfull, if_pos hfull]
      have hblock := hnextholds.full (by rw [List.length_append, List.length_singleton, hfull])
      have hdig := digestMsgbuf_stays next
      exact ih ⟨hblock, hnextcounts.stays hdig, Nat.zero_lt_succ _, hdig.oops.trans hoops,
        hdig.done.trans hdone⟩ hk'
    · rw [if_neg hfull, if_neg hfull]
      have hroom : (p ++ [x]).length < 64 := by
        have hp : p.length < 64 := h.room
        rw [List.length_append, List.length_singleton]
        omega
      exact ih ⟨hnextholds, hnextcounts, hroom, hoops, hdone⟩ hk'

/-! ## Padding -/

theorem lenByte_eq {n : Nat} (hn : n + 8 ≤ 32) (x : Nat) :
    lenByte (BitVec.ofNat 32 x) n = UInt8.ofNat (x / 2 ^ n) := by
  have hbits : ((BitVec.ofNat 32 x).sshiftRight n &&& 0xFF#32).setWidth 8 =
      BitVec.ofNat 8 (x / 2 ^ n) := by
    apply BitVec.eq_of_getLsbD_eq
    intro i hi
    have hff : ∀ i < 8, (0xFF#32).getLsbD i = true := by decide
    have hlt : n + i < 32 := by omega
    rw [BitVec.getLsbD_setWidth, BitVec.getLsbD_and, BitVec.getLsbD_sshiftRight, hff i hi,
      if_pos hlt, BitVec.getLsbD_ofNat, BitVec.getLsbD_ofNat, Nat.testBit_div_two_pow]
    have hle : ¬ 32 ≤ i := by omega
    simp only [hlt, hi, hle, decide_true, decide_false, Bool.true_and, Bool.and_true,
      Bool.not_false]
    rw [Nat.add_comm]
  rw [lenByte, hbits]
  rfl

theorem lengthBytes_eq (k : Nat) : lengthBytes k =
    [UInt8.ofNat (8 * k / 2 ^ 32 / 2 ^ 24), UInt8.ofNat (8 * k / 2 ^ 32 / 2 ^ 16),
      UInt8.ofNat (8 * k / 2 ^ 32 / 2 ^ 8), UInt8.ofNat (8 * k / 2 ^ 32 / 2 ^ 0),
      UInt8.ofNat (8 * k / 2 ^ 24), UInt8.ofNat (8 * k / 2 ^ 16), UInt8.ofNat (8 * k / 2 ^ 8),
      UInt8.ofNat (8 * k / 2 ^ 0)] := by
  simp only [Nat.div_div_eq_div_mul, ← Nat.pow_add]
  rfl

theorem setSlot_append {p t : List UInt8} {i j : Nat} (hi : i = p.length + j)
    (hj : j < t.length) (x : UInt8) : setSlot (p ++ t) i x = .ok (p ++ t.set j x) := by
  subst hi
  rw [setSlot_ok (by rw [List.length_append]; omega),
    List.set_append_right _ _ (Nat.le_add_right _ _), Nat.add_sub_cancel_left]

/-- The eight stores behind the first 56 bytes. -/
theorem Holds.stores {ctxt : VhashgenCtxtSha1} {d : Digest} {p : List UInt8} {k : Nat}
    (h : Holds ctxt (d, p)) (hp : p.length = 56) (hcounts : Counts ctxt k) :
    putLength ctxt = .ok { ctxt with msgbuf := p ++ lengthBytes k } := by
  have htail : (ctxt.msgbuf.drop 56).length = 8 := by
    rw [List.length_drop, h.size]
  have hpending : ctxt.msgbuf.take p.length = p := h.pending
  have hbuf : ctxt.msgbuf = p ++ ctxt.msgbuf.drop 56 := by
    conv_lhs => rw [← List.take_append_drop p.length ctxt.msgbuf, hpending, hp]
  match hdrop : ctxt.msgbuf.drop 56, htail with
  | [a₀, a₁, a₂, a₃, a₄, a₅, a₆, a₇], _ =>
    rw [hdrop] at hbuf
    rw [putLength, hbuf, hcounts.high, hcounts.low]
    rw [lenByte_eq (by decide), lenByte_eq (by decide), lenByte_eq (by decide),
      lenByte_eq (by decide), lenByte_eq (by decide), lenByte_eq (by decide),
      lenByte_eq (by decide), lenByte_eq (by decide)]
    rw [setSlot_append (j := 0) (by omega) (by simp), ok_bind,
      setSlot_append (j := 1) (by omega) (by simp), ok_bind,
      setSlot_append (j := 2) (by omega) (by simp), ok_bind,
      setSlot_append (j := 3) (by omega) (by simp), ok_bind,
      setSlot_append (j := 4) (by omega) (by simp), ok_bind,
      setSlot_append (j := 5) (by omega) (by simp), ok_bind,
      setSlot_append (j := 6) (by omega) (by simp), ok_bind,
      setSlot_append (j := 7) (by omega) (by simp), ok_bind, lengthBytes_eq]
    rfl

theorem length_lengthBytes (k : Nat) : (lengthBytes k).length = 8 := by
  rw [lengthBytes, List.length_map, List.length_range]

/-- The length and the last block. -/
theorem Holds.lastBlock {ctxt : VhashgenCtxtSha1} {d : Digest} {p : List UInt8} {k : Nat}
    (h : Holds ctxt (d, p)) (hp : p.length = 56) (hcounts : Counts ctxt k) :
    ∃ ctxt', putLength ctxt = .ok ctxt' ∧
      (auxSha1DigestMsgbuf ctxt').digest = written.compress d (p ++ lengthBytes k) := by
  refine ⟨_, h.stores hp hcounts, ?_⟩
  rw [digestMsgbuf_eq]
  show written.compress ctxt.digest _ = _
  rw [h.digest]

/-- The padding behind `pos` bytes, as more of the stream, for a message of `len` bytes. -/
def paddingAt (pos len : Nat) : List UInt8 :=
  0x80 :: (List.replicate (zeros pos) 0 ++ lengthBytes len)

/-- The one bit and the zeros behind a short end of the message. -/
theorem absorb_padding_short {d : Digest} {p : List UInt8} {pos k : Nat}
    (hp : p.length = pos % 64) (hshort : p.length ≤ 55) :
    ((paddingAt pos k).foldl (absorb 64 written.compress) (d, p)).1 =
      written.compress d
        (p ++ [0x80] ++ List.replicate (56 - (p.length + 1)) 0 ++ lengthBytes k) := by
  have hzeros : zeros pos = 56 - (p.length + 1) := by
    rw [zeros]
    omega
  have hblock : (p ++ paddingAt pos k).length = 64 := by
    rw [paddingAt, hzeros, List.length_append, List.length_cons, List.length_append,
      List.length_replicate, length_lengthBytes]
    omega
  have hne : paddingAt pos k ≠ [] := List.cons_ne_nil _ _
  rw [absorb_block hne hblock, paddingAt, hzeros, List.append_cons p,
    List.append_assoc, List.append_assoc, List.append_assoc]

/-- Behind a long one the length goes into another block. -/
theorem absorb_padding_long {d : Digest} {p : List UInt8} {pos k : Nat}
    (hp : p.length = pos % 64) (hlong : 55 < p.length) :
    ((paddingAt pos k).foldl (absorb 64 written.compress) (d, p)).1 =
      written.compress
        (written.compress d (p ++ [0x80] ++ List.replicate (64 - (p.length + 1)) 0))
        (List.replicate 56 0 ++ lengthBytes k) := by
  have hroom : p.length < 64 := by omega
  have hzeros : zeros pos = 64 - (p.length + 1) + 56 := by
    rw [zeros]
    omega
  have hpad : paddingAt pos k = (0x80 :: List.replicate (64 - (p.length + 1)) 0) ++
      (List.replicate 56 0 ++ lengthBytes k) := by
    rw [paddingAt, hzeros, List.replicate_add, List.append_assoc, List.cons_append]
  have hfirst : (p ++ 0x80 :: List.replicate (64 - (p.length + 1)) (0 : UInt8)).length = 64 := by
    rw [List.length_append, List.length_cons, List.length_replicate]
    omega
  have hsecond : ([] ++ (List.replicate 56 (0 : UInt8) ++ lengthBytes k)).length = 64 := by
    rw [List.nil_append, List.length_append, List.length_replicate, length_lengthBytes]
  have hne : List.replicate 56 (0 : UInt8) ++ lengthBytes k ≠ [] := List.cons_ne_nil _ _
  rw [hpad, List.foldl_append, absorb_block (List.cons_ne_nil _ _) hfirst,
    absorb_block hne hsecond, List.nil_append, List.append_cons p]

theorem Feeds.pads {ctxt : VhashgenCtxtSha1} {s : Digest × List UInt8} {k : Nat}
    (h : Feeds ctxt s k) {pos : Nat} (hs : s.2.length = pos % 64) :
    ∃ ctxt', auxSha1PaddingMsgbuf ctxt = .ok ctxt' ∧
      ctxt'.digest = ((paddingAt pos k).foldl (absorb 64 written.compress) s).1 := by
  obtain ⟨d, p⟩ := s
  have hp : p.length = pos % 64 := hs
  have hroom : p.length < 64 := h.room
  have hcursor : ctxt.cursor = p.length := h.holds.cursor
  obtain ⟨marked, hput, hone, hstays⟩ := h.holds.put hroom 0x80
  have hcounts := h.counts.stays hstays
  have hlen : (p ++ [(0x80 : UInt8)]).length = p.length + 1 := by
    rw [List.length_append, List.length_singleton]
  rw [auxSha1PaddingMsgbuf, hput, hcursor]
  by_cases hlong : 55 < p.length
  · obtain ⟨filled, hfill, hfull, hstays'⟩ := hone.fill 64 (by omega) (Nat.le_refl _)
    rw [hlen] at hfull
    have hfulllen :
        (p ++ [0x80] ++ List.replicate (64 - (p.length + 1)) (0 : UInt8)).length = 64 := by
      rw [List.length_append, hlen, List.length_replicate]
      omega
    obtain ⟨ready, hfill', hready, hstays''⟩ :=
      (hfull.full hfulllen).fill 56 (Nat.zero_le _) (by omega)
    have hcounts' := ((hcounts.stays hstays').stays (digestMsgbuf_stays filled)).stays hstays''
    obtain ⟨last, hlength, hdigest⟩ := hready.lastBlock
      (by rw [List.nil_append, List.length_replicate]; rfl) hcounts'
    refine ⟨auxSha1DigestMsgbuf last, ?_, ?_⟩
    · rw [if_pos hlong, ok_bind, hfill, ok_bind, hfill', ok_bind]
      show (putLength ready >>= fun ctxt => pure (auxSha1DigestMsgbuf ctxt)) = _
      rw [hlength]
      rfl
    · rw [hdigest, absorb_padding_long hp hlong]
      rfl
  · obtain ⟨ready, hfill, hready, hstays'⟩ := hone.fill 56 (by omega) (by omega)
    rw [hlen] at hready
    have hreadylen :
        (p ++ [0x80] ++ List.replicate (56 - (p.length + 1)) (0 : UInt8)).length = 56 := by
      rw [List.length_append, hlen, List.length_replicate]
      omega
    obtain ⟨last, hlength, hdigest⟩ := hready.lastBlock hreadylen (hcounts.stays hstays')
    refine ⟨auxSha1DigestMsgbuf last, ?_, ?_⟩
    · rw [if_neg hlong, ok_bind, hfill, ok_bind]
      show (putLength ready >>= fun ctxt => pure (auxSha1DigestMsgbuf ctxt)) = _
      rw [hlength]
      rfl
    · rw [hdigest, absorb_padding_short hp (Nat.le_of_not_lt hlong)]

theorem Feeds.sha1Input {ctxt : VhashgenCtxtSha1} {s : Digest × List UInt8} {k : Nat}
    (h : Feeds ctxt s k) {msg : List UInt8} (hmsg : msg ≠ []) (hk : k + msg.length < 2 ^ 61) :
    ∃ ctxt', vhashgenSha1Input ctxt msg = .ok ctxt' ∧
      Feeds ctxt' (msg.foldl (absorb 64 written.compress) s) (k + msg.length) := by
  obtain ⟨fed, hinput, hfed⟩ := h.input hk
  refine ⟨fed, ?_, hfed⟩
  rw [vhashgenSha1Input, if_neg (mt List.eq_nil_of_length_eq_zero hmsg), h.oops, h.done]
  exact hinput

theorem Feeds.result {ctxt : VhashgenCtxtSha1} {s : Digest × List UInt8} {k : Nat}
    (h : Feeds ctxt s k) {pos : Nat} (hs : s.2.length = pos % 64) :
    ∃ ctxt', vhashgenSha1Result ctxt =
      .ok (ctxt', some ((paddingAt pos k).foldl (absorb 64 written.compress) s).1) := by
  obtain ⟨padded, hpads, hdigest⟩ := h.pads hs
  refine ⟨{ padded with done := true }, ?_⟩
  rw [vhashgenSha1Result, h.oops, h.done, hpads, ← hdigest]
  rfl

/-! ## The digest -/

/-! ## The digest -/

/-- What `_vhashgen_hash` is called with: at least one byte and fewer than 2^31. -/
structure Message where
  bytes : List UInt8
  nonempty : bytes ≠ []
  short : bytes.length < 2 ^ 31

theorem length_pad (msg : List UInt8) : (pad msg).length = 64 * ((pad msg).length / 64) := by
  have hlen : (pad msg).length = msg.length + (1 + (zeros msg.length + 8)) := by
    rw [pad, List.length_append, List.length_cons, List.length_append, List.length_replicate,
      length_lengthBytes, Nat.add_comm 1]
  rw [hlen, zeros]
  omega

theorem digest_eq_absorb (v : Terms) (msg : List UInt8) :
    v.digest msg = ((pad msg).foldl (absorb 64 v.compress) (initial, [])).1 := by
  rw [absorb_blocks (by decide) (length_pad msg)]
  rfl

/-- For every message the engine returns the digest with the terms it is written with. -/
theorem vhashgenHash_eq (m : Message) :
    ∃ ctxt, vhashgenHash vhashgenInit m.bytes = .ok (ctxt, some (written.digest m.bytes)) := by
  have hstart : Feeds (vhashgenSha1Reset vhashgenInit) (initial, []) 0 :=
    ⟨⟨rfl, rfl, rfl, rfl⟩, ⟨rfl, rfl⟩, Nat.zero_lt_succ _, rfl, rfl⟩
  have hshort : 0 + m.bytes.length < 2 ^ 61 := by
    have hbytes := m.short
    omega
  obtain ⟨fed, hinput, hfed⟩ := hstart.sha1Input m.nonempty hshort
  rw [Nat.zero_add] at hfed
  have hlen : (m.bytes.foldl (absorb 64 written.compress) (initial, [])).2.length =
      m.bytes.length % 64 := by
    rw [length_absorb (Nat.zero_lt_succ _), List.length_nil, Nat.zero_add]
  obtain ⟨ctxt, hresult⟩ := hfed.result hlen
  refine ⟨ctxt, ?_⟩
  rw [vhashgenHash, if_neg (mt List.eq_nil_of_length_eq_zero m.nonempty), hinput, ok_bind, hresult,
    digest_eq_absorb, pad, List.foldl_append]
  rfl

end Vdht.Hash
