import Vdht.Hash.Compare
import Vdht.Lib.Run
import Mathlib.Data.List.GetD

/-!
# Where the engine leaves the standard

The engine and the standard go through the same steps. A step of the engine is one of the standard
exactly when what the engine leaves out does not count in it, so up to any step they have the same
values exactly when it counted in none of the steps before.

The words 14 and 15 of the last block are the length of the message, so one of them is not zero.
The schedule that leaves out `W(t-8)` misses it at `t = 22` or `t = 23`: no message is hashed by
the computation of the standard, and a digest that agrees with SHA-1 is one on which two different
hashes happen to agree.
-/

namespace Vdht.Hash

open Lib

/-! ## The word schedule -/

theorem getLsbD_S_one (x : Word) {i : Nat} (hi : i < 32) :
    (S 1 x).getLsbD ((i + 1) % 32) = x.getLsbD i := by
  rw [S, BitVec.getLsbD_or, BitVec.getLsbD_shiftLeft, BitVec.getLsbD_ushiftRight]
  by_cases h31 : i = 31
  · subst h31
    simp
  · have hmod : (i + 1) % 32 = i + 1 := Nat.mod_eq_of_lt (by omega)
    have hzero : x.getLsbD (32 - 1 + (i + 1)) = false := BitVec.getLsbD_of_ge _ _ (by omega)
    rw [hmod, hzero, Nat.add_sub_cancel]
    simp
    omega

theorem S_one_injective {x y : Word} (h : S 1 x = S 1 y) : x = y := by
  apply BitVec.eq_of_getLsbD_eq
  intro i hi
  rw [← getLsbD_S_one x hi, ← getLsbD_S_one y hi, h]

/-- A word stays as it is when later ones are added. -/
theorem schedule_getD_add (v : Terms) (block : List UInt8) {n t : Nat} (ht : t < 16 + n)
    (k : Nat) : (v.schedule block (n + k)).getD t 0 = (v.schedule block n).getD t 0 := by
  induction k with
  | zero => rfl
  | succ k ih =>
    have hlen : t < (v.schedule block (n + k)).length := by
      rw [length_schedule]
      omega
    rw [← Nat.add_assoc, Terms.schedule, List.getD_append _ _ _ _ hlen, ih]

/-- A word by the earlier ones, all read from the finished schedule. -/
theorem schedule_getD_succ (v : Terms) (block : List UInt8) {n : Nat} (hn : n < 64) :
    let w := v.schedule block 64
    w.getD (16 + n) 0 =
      S 1 (v.mix (w.getD (n + 13) 0) (w.getD (n + 8) 0) (w.getD (n + 2) 0) (w.getD n 0)) := by
  have hsplit : 64 = n + 1 + (63 - n) := by omega
  have hsplit' : 64 = n + (64 - n) := by omega
  have hold : ∀ t, t < 16 + n →
      (v.schedule block 64).getD t 0 = (v.schedule block n).getD t 0 := by
    intro t ht
    conv_lhs => rw [hsplit']
    exact schedule_getD_add v block ht (64 - n)
  have hnew : (v.schedule block 64).getD (16 + n) 0 =
      (v.schedule block (n + 1)).getD (16 + n) 0 := by
    conv_lhs => rw [hsplit]
    exact schedule_getD_add v block (by omega) (63 - n)
  have hlen := length_schedule v block n
  simp only
  rw [hnew, hold (n + 13) (by omega), hold (n + 8) (by omega), hold (n + 2) (by omega),
    hold n (by omega), Terms.schedule, List.getD_append_right _ _ _ _ (by omega), hlen,
    Nat.sub_self]
  rfl

theorem schedule_getD_block (v : Terms) (block : List UInt8) {t : Nat} (ht : t < 16) :
    (v.schedule block 64).getD t 0 = wordAt block t := by
  rw [← Nat.zero_add 64, schedule_getD_add v block ht 64, Terms.schedule,
    List.getD_eq_getElem?_getD, List.getElem?_map, List.getElem?_range ht]
  rfl

theorem xor_eq_zero {a b c w : Word} (h : a ^^^ b ^^^ c = a ^^^ w ^^^ b ^^^ c) : w = 0#32 := by
  have hbool : ∀ p q r s : Bool, ((p ^^ q) ^^ r) = (((p ^^ s) ^^ q) ^^ r) → s = false := by decide
  apply BitVec.eq_of_getLsbD_eq
  intro i hi
  have hbit := congrArg (BitVec.getLsbD · i) h
  simp only [BitVec.getLsbD_xor] at hbit
  rw [BitVec.getLsbD_zero]
  exact hbool _ _ _ _ hbit

/-- The two schedules agree only when the second half of the block is zero where it is missed. -/
theorem word_eq_zero_of_schedule_eq {block : List UInt8}
    (h : written.schedule block 64 = fips.schedule block 64) {n : Nat} (hn : n + 8 < 16) :
    wordAt block (n + 8) = 0#32 := by
  have hwritten := schedule_getD_succ written block (show n < 64 by omega)
  have hfips := schedule_getD_succ fips block (show n < 64 by omega)
  simp only at hwritten hfips
  rw [h] at hwritten
  have hmix := S_one_injective (hwritten.symm.trans hfips)
  rw [← schedule_getD_block fips block hn]
  exact xor_eq_zero hmix

/-! ## The last block -/

theorem octet_eq_zero {x : UInt8} {n : Nat} (hn : n ≤ 24)
    (h : x.toBitVec.setWidth 32 <<< n = 0#32) : x = 0 := by
  apply UInt8.toBitVec_inj.mp
  apply BitVec.eq_of_getLsbD_eq
  intro i hi
  have hbit := congrArg (BitVec.getLsbD · (n + i)) h
  have hlt : n + i < 32 := by omega
  have hi32 : i < 32 := by omega
  have hge : ¬ n + i < n := by omega
  simp only [BitVec.getLsbD_shiftLeft, BitVec.getLsbD_setWidth, Nat.add_sub_cancel_left,
    BitVec.getLsbD_zero, hlt, hi32, hge, decide_true, decide_false, Bool.not_false,
    Bool.true_and] at hbit
  rw [hbit]
  exact BitVec.getLsbD_zero.symm

/-- A word is zero only when its four bytes are. -/
theorem wordAt_eq_zero {block : List UInt8} {i : Nat} (h : wordAt block i = 0#32) :
    ∀ k < 4, block.getD (4 * i + k) 0 = 0 := by
  rw [wordAt] at h
  simp only [BitVec.or_eq_zero_iff] at h
  obtain ⟨⟨⟨h₀, h₁⟩, h₂⟩, h₃⟩ := h
  rw [← BitVec.shiftLeft_zero (x := BitVec.setWidth 32 _)] at h₃
  intro k hk
  match k, hk with
  | 0, _ => exact octet_eq_zero (by decide) h₀
  | 1, _ => exact octet_eq_zero (by decide) h₁
  | 2, _ => exact octet_eq_zero (by decide) h₂
  | 3, _ => exact octet_eq_zero (by decide) h₃

/-- The block with the length. -/
def lastBlock (msg : List UInt8) : List UInt8 := (pad msg).drop ((pad msg).length - 64)

theorem length_pad_ge (msg : List UInt8) : 64 ≤ (pad msg).length := by
  have hlen := length_pad msg
  have hpos : 0 < (pad msg).length := by
    rw [pad, List.length_append, List.length_cons]
    omega
  omega

theorem lastBlock_mem (msg : List UInt8) :
    lastBlock msg ∈ blocks 64 ((pad msg).length / 64) (pad msg) := by
  have hlen := length_pad msg
  have hge := length_pad_ge msg
  obtain ⟨k, hk⟩ : ∃ k, (pad msg).length / 64 = k + 1 := ⟨(pad msg).length / 64 - 1, by omega⟩
  have hinit : ((pad msg).take ((pad msg).length - 64)).length = 64 * k := by
    rw [List.length_take]
    omega
  have hlast : (lastBlock msg).length = 64 := by
    rw [lastBlock, List.length_drop]
    omega
  have hsplit : (pad msg).take ((pad msg).length - 64) ++ lastBlock msg = pad msg :=
    List.take_append_drop _ _
  have happ := blocks_append hinit (lastBlock msg) hlast
  rw [hsplit] at happ
  rw [hk, happ]
  exact List.mem_append_right _ List.mem_cons_self

theorem lastBlock_getD (msg : List UInt8) {i : Nat} (hi : i < 8) :
    (lastBlock msg).getD (56 + i) 0 = UInt8.ofNat (8 * msg.length / 256 ^ (7 - i)) := by
  have hpad : pad msg =
      (msg ++ 0x80 :: List.replicate (zeros msg.length) 0) ++ lengthBytes msg.length := by
    rw [pad, List.append_assoc, List.cons_append]
  have hge := length_pad_ge msg
  have hlen : (pad msg).length =
      (msg ++ 0x80 :: List.replicate (zeros msg.length) 0).length + 8 := by
    rw [hpad, List.length_append, length_lengthBytes]
  generalize msg ++ 0x80 :: List.replicate (zeros msg.length) (0 : UInt8) = init at hpad hlen
  have hindex : (pad msg).length - 64 + (56 + i) = init.length + i := by omega
  have hbyte : (lengthBytes msg.length)[i]? =
      some (UInt8.ofNat (8 * msg.length / 256 ^ (7 - i))) := by
    rw [lengthBytes, List.getElem?_map, List.getElem?_range hi]
    rfl
  rw [lastBlock, List.getD_eq_getElem?_getD, List.getElem?_drop, hindex, hpad,
    List.getElem?_append_right (Nat.le_add_right _ _), Nat.add_sub_cancel_left, hbyte,
    Option.getD_some]

theorem lastBlock_words_ne_zero (m : Message) :
    ¬ (wordAt (lastBlock m.bytes) 14 = 0#32 ∧ wordAt (lastBlock m.bytes) 15 = 0#32) := by
  rintro ⟨h₁₄, h₁₅⟩
  have hpos := List.length_pos_iff.mpr m.nonempty
  have hshort := m.short
  have hbyte : ∀ i < 8, 8 * m.bytes.length / 256 ^ (7 - i) % 256 = 0 := by
    intro i hi
    have hzero : (lastBlock m.bytes).getD (56 + i) 0 = 0 := by
      rcases Nat.lt_or_ge i 4 with hi4 | hi4
      · exact wordAt_eq_zero h₁₄ i hi4
      · have h := wordAt_eq_zero h₁₅ (i - 4) (by omega)
        rwa [show 4 * 15 + (i - 4) = 56 + i by omega] at h
    rw [lastBlock_getD m.bytes hi] at hzero
    have hnat := congrArg UInt8.toNat hzero
    rwa [UInt8.toNat_ofNat'] at hnat
  have h₃ := hbyte 3 (by decide)
  have h₄ := hbyte 4 (by decide)
  have h₅ := hbyte 5 (by decide)
  have h₆ := hbyte 6 (by decide)
  have h₇ := hbyte 7 (by decide)
  omega

/-! ## The steps -/

/-- The terms that the engine leaves out do not count in this step: `W(t-8)` is zero when word `t` is
made, and in the rounds 40 to 59 no bit is set in `B` and `D` and clear in `C`. -/
def Spared (x : Working) : Step → Prop
  | .word => x.w.getD (x.w.length - 8) 0 = 0#32
  | .turn t => 40 ≤ t → t < 60 → x.s.b &&& x.s.d &&& ~~~x.s.c = 0#32
  | _ => True

theorem third_eq_iff (b c d : Word) :
    written.third b c d = fips.third b c d ↔ b &&& d &&& ~~~c = 0#32 := by
  have hbool : ∀ p q r : Bool,
      ((p && q || q && r) = (p && q || p && r || q && r)) ↔ (p && r && !q) = false := by decide
  constructor
  · intro h
    apply BitVec.eq_of_getLsbD_eq
    intro i hi
    have hbit := congrArg (BitVec.getLsbD · i) h
    simp only [written, fips, BitVec.getLsbD_or, BitVec.getLsbD_and] at hbit
    rw [BitVec.getLsbD_and, BitVec.getLsbD_and, BitVec.getLsbD_not, BitVec.getLsbD_zero,
      decide_eq_true hi, Bool.true_and]
    exact (hbool _ _ _).mp hbit
  · intro h
    apply BitVec.eq_of_getLsbD_eq
    intro i hi
    have hbit := congrArg (BitVec.getLsbD · i) h
    rw [BitVec.getLsbD_and, BitVec.getLsbD_and, BitVec.getLsbD_not, BitVec.getLsbD_zero,
      decide_eq_true hi, Bool.true_and] at hbit
    simp only [written, fips, BitVec.getLsbD_or, BitVec.getLsbD_and]
    exact (hbool _ _ _).mpr hbit

theorem f_eq_iff (t : Nat) (b c d : Word) :
    written.f t b c d = fips.f t b c d ↔ (40 ≤ t → t < 60 → b &&& d &&& ~~~c = 0#32) := by
  by_cases h40 : 40 ≤ t
  · by_cases h60 : t < 60
    · rw [Terms.f, Terms.f, if_neg (by omega), if_neg (by omega), if_pos h60, if_neg (by omega),
        if_neg (by omega), if_pos h60, third_eq_iff]
      exact ⟨fun h _ _ => h, fun h => h h40 h60⟩
    · rw [Terms.f, Terms.f, if_neg (by omega), if_neg (by omega), if_neg h60, if_neg (by omega),
        if_neg (by omega), if_neg h60]
      exact iff_of_true rfl fun _ h => absurd h h60
  · refine iff_of_true ?_ fun h => absurd h h40
    rw [Terms.f, Terms.f]
    split
    · rfl
    · rw [if_pos (by omega), if_pos (by omega)]

/-- A step of the engine is a step of the standard exactly when what is left out does not count. -/
theorem exec_eq_iff (x : Working) (o : Step) : written.exec x o = fips.exec x o ↔ Spared x o := by
  cases o with
  | load block => exact iff_of_true rfl trivial
  | add => exact iff_of_true rfl trivial
  | word =>
    have hmix : written.exec x .word = fips.exec x .word ↔
        written.mix (x.w.getD (x.w.length - 3) 0) (x.w.getD (x.w.length - 8) 0)
            (x.w.getD (x.w.length - 14) 0) (x.w.getD (x.w.length - 16) 0) =
          fips.mix (x.w.getD (x.w.length - 3) 0) (x.w.getD (x.w.length - 8) 0)
            (x.w.getD (x.w.length - 14) 0) (x.w.getD (x.w.length - 16) 0) := by
      constructor
      · intro h
        have hw := congrArg Working.w h
        have hlast := List.append_cancel_left hw
        exact S_one_injective (List.cons.inj hlast).1
      · intro h
        rw [Terms.exec, Terms.exec, h]
    rw [hmix]
    refine ⟨xor_eq_zero, fun hzero => ?_⟩
    have hzero' : x.w.getD (x.w.length - 8) 0 = 0#32 := hzero
    rw [hzero']
    simp only [written, fips, BitVec.xor_zero]
  | turn t =>
    have hf : written.exec x (.turn t) = fips.exec x (.turn t) ↔
        written.f t x.s.b x.s.c x.s.d = fips.f t x.s.b x.s.c x.s.d := by
      constructor
      · intro h
        have ha := congrArg (fun y : Working => y.s.a) h
        simp only [Terms.exec, Terms.step, BitVec.add_left_inj, BitVec.add_right_inj] at ha
        exact ha
      · intro h
        rw [Terms.exec, Terms.exec, Terms.step, Terms.step, h]
    rw [hf]
    exact f_eq_iff t x.s.b x.s.c x.s.d

/-- The words are there after the sixty-fifth step of a block. -/
theorem after_words (v : Terms) {msg block : List UInt8} {front back : List Step}
    (hsteps : steps msg = front ++ (blockSteps block ++ back)) :
    (v.after msg (front.length + 65)).w = v.schedule block 64 := by
  have htake : (steps msg).take (front.length + 65) =
      front ++ Step.load block :: List.replicate 64 .word := by
    rw [hsteps, List.take_length_add_append, blockSteps, List.cons_append, List.append_assoc,
      List.take_succ_cons, List.take_left' List.length_replicate]
  rw [Terms.after, htake, List.foldl_append, List.foldl_cons]
  generalize front.foldl v.exec ⟨initial, [], initial⟩ = x
  have hload : v.exec x (.load block) = ⟨x.h, v.schedule block 0, x.h⟩ := rfl
  rw [hload, exec_words]

end Vdht.Hash
