import Vdht.Cfg.Parse

/-!
# Where the helper loops leave the cursor

Each loop of the parser that only moves the cursor drops the longest front part of its
characters. Two of them take the NUL for one of these characters, so they must meet another
character in front of it.
-/

namespace Vdht.Cfg

open Vdht.Core Lib

/-! ## Characters -/

/-- Two characters on different sides of a test. -/
theorem ne_of_test {p : UInt8 → Bool} {c x : UInt8} (hc : p c = true) (hx : p x = false) :
    c ≠ x := by
  rintro rfl
  rw [hc] at hx
  cases hx

theorem isBlank_cases {c : UInt8} (h : isBlank c = true) : c = ' '.toUInt8 ∨ c = '\t'.toUInt8 := by
  simpa [isBlank] using h

/-- What holds of a space and of a tab holds of a blank. -/
theorem of_blank {P : UInt8 → Prop} (hspace : P ' '.toUInt8) (htab : P '\t'.toUInt8) {c : UInt8}
    (h : isBlank c = true) : P c := by
  rcases isBlank_cases h with rfl | rfl
  · exact hspace
  · exact htab

theorem isBlank_not_word {c : UInt8} (h : isBlank c = true) : isWord c = false :=
  of_blank (P := fun c => isWord c = false) rfl rfl h

theorem strchr_iff {seps : Text} {c : UInt8} : strchr seps c = true ↔ c = 0 ∨ c ∈ seps := by
  simp [strchr]

/-- A letter or a digit is none of some other characters. -/
theorem isWord_not_strchr {seps : Text} {c : UInt8} (hc : isWord c = true)
    (hseps : ∀ x ∈ seps, isWord x = false) : strchr seps c = false := by
  rw [← Bool.not_eq_true, strchr_iff]
  rintro (rfl | hmem)
  · exact absurd hc (by decide)
  · rw [hseps c hmem] at hc
    cases hc

theorem isVal_of_word {c : UInt8} (h : isWord c = true) : isVal c = true := by
  rw [isVal, h]
  rfl

theorem isVal_cases {c : UInt8} (h : isVal c = true) :
    isWord c = true ∨ c = '/'.toUInt8 ∨ c = '.'.toUInt8 ∨ c = '_'.toUInt8 := by
  simpa [isVal, or_assoc] using h

theorem isVal_not_sep {c : UInt8} (h : isVal c = true) : strchr valSeps c = false := by
  rcases isVal_cases h with h | rfl | rfl | rfl
  · exact isWord_not_strchr h (by decide +kernel)
  · rfl
  · rfl
  · rfl

/-- The first characters of a scalar in a dictionary. -/
def isDictHead (c : UInt8) : Bool := isWord c || c = '.'.toUInt8 || c = '/'.toUInt8

theorem isDictHead_val {c : UInt8} (h : isDictHead c = true) : isVal c = true := by
  rw [isDictHead, Bool.or_eq_true, Bool.or_eq_true] at h
  rcases h with (h | h) | h
  · exact isVal_of_word h
  · obtain rfl : c = '.'.toUInt8 := by simpa using h
    rfl
  · obtain rfl : c = '/'.toUInt8 := by simpa using h
    rfl

theorem isVal_not_keySep {c : UInt8} (h : isVal c = true) : strchr keySeps c = false := by
  rcases isVal_cases h with h | rfl | rfl | rfl
  · exact isWord_not_strchr h (by decide +kernel)
  · rfl
  · rfl
  · rfl

theorem isBlank_not_val {c : UInt8} (h : isBlank c = true) : isVal c = false :=
  of_blank (P := fun c => isVal c = false) rfl rfl h

theorem isBlank_not_sep {c : UInt8} (h : isBlank c = true) : strchr valSeps c = false :=
  of_blank (P := fun c => strchr valSeps c = false) rfl rfl h

/-! ## Loops that move the cursor -/

theorem eatWhile_eq (p : UInt8 → Bool) (cur : Text) :
    eatWhile p cur =
      if cur.dropWhile p = [] ∧ p 0 = true then .error .bounds else .ok (cur.dropWhile p) := by
  induction cur with
  | nil => simp [eatWhile]
  | cons c cs ih =>
    rw [eatWhile, List.dropWhile_cons]
    by_cases hc : p c = true
    · rw [if_pos hc, if_pos hc, ih]
    · rw [if_neg hc, if_neg hc, if_neg (by simp)]

/-- A loop that is kept inside the text stops behind the part it drops. -/
theorem eatWhile_append {p : UInt8 → Bool} {l : Text} (hl : ∀ c ∈ l, p c = true) {c : UInt8}
    (hc : p c = false) (cs : Text) : eatWhile p (l ++ c :: cs) = .ok (c :: cs) := by
  have hdrop : (l ++ c :: cs).dropWhile p = c :: cs := by
    rw [List.dropWhile_append_of_pos hl, List.dropWhile_cons_of_neg (by simp [hc])]
  rw [eatWhile_eq, hdrop, if_neg (by simp)]

/-- The characters `_aux_eat_endings` moves over. -/
def isWhite (c : UInt8) : Bool := c ≠ 0 && strchr (cstr " \t\n") c

/-- The text from its first character on that is neither a blank nor a tab nor a newline. -/
def skipWhite (cur : Text) : Text := cur.dropWhile isWhite

theorem eatEndings_eq (cur : Text) : auxEatEndings cur = .ok (skipWhite cur) := by
  rw [auxEatEndings, eatWhile_eq]
  exact if_neg (by simp)

theorem length_skipWhite_le (cur : Text) : (skipWhite cur).length ≤ cur.length :=
  (List.dropWhile_sublist _).length_le

theorem eatDelimiter_blank {c : UInt8} (hc : isBlank c = true) (cs : Text) :
    auxEatDelimiter (c :: cs) = auxEatDelimiter cs := by
  have hword := isBlank_not_word hc
  have hsep : strchr (cstr ".(\x7b[/") c = false :=
    of_blank (P := fun c => strchr (cstr ".(\x7b[/") c = false) rfl rfl hc
  rw [auxEatDelimiter, hword, hsep, hc]
  rfl

theorem eatDelimiter_stop {c : UInt8}
    (hc : isWord c = true ∨ c ∈ cstr ".(\x7b[/") (cs : Text) :
    auxEatDelimiter (c :: cs) = (c :: cs, 0) := by
  have hstop : (isWord c || strchr (cstr ".(\x7b[/") c) = true := by
    rw [Bool.or_eq_true, strchr_iff]
    exact hc.imp_right Or.inr
  rw [auxEatDelimiter, if_pos hstop]

theorem length_eatDelimiter (cur : Text) : (auxEatDelimiter cur).1.length ≤ cur.length := by
  induction cur with
  | nil => exact Nat.le_refl _
  | cons c cs ih =>
    rw [auxEatDelimiter]
    split
    · exact Nat.le_refl _
    split
    · exact ih.trans (Nat.le_succ _)
    · exact Nat.le_refl _

end Vdht.Cfg
