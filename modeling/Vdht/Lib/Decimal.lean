import Mathlib.Algebra.Order.Ring.Int
import Mathlib.Data.List.TakeDrop
import Mathlib.Data.List.TakeWhile

/-!
# Decimal numerals

`strtol` with base 10 on a 64-bit `long`, read from a memory object that need not contain a
terminating byte, and the decimal text printed by `%i`. `strtol` skips blanks, accepts one
sign and reads digits up to the first byte that is none; on a text without digits it stores
the start of the text and returns 0. It has to see the byte behind the number, so a number
that runs to the end of the object makes it read outside.
-/

namespace Vdht.Lib

/-- `isspace` in the C locale. -/
def isSpace (c : UInt8) : Bool := c == 32 || (9 ≤ c && c ≤ 13)

/-- The decimal digits of ASCII. -/
def isDigit (c : UInt8) : Bool := 48 ≤ c && c ≤ 57

/-- The value of a list of digits, most significant first. -/
def digitsVal (ds : List UInt8) : Nat := ds.foldl (fun v d => 10 * v + (d.toNat - 48)) 0

/-- The number with the sign that stands in front of its digits. -/
def signed (neg : Bool) (n : Nat) : Int := if neg then -(n : Int) else n

/-- The range of a 64-bit `long`. -/
def InLong (v : Int) : Prop := -2 ^ 63 ≤ v ∧ v ≤ 2 ^ 63 - 1

instance (v : Int) : Decidable (InLong v) := inferInstanceAs (Decidable (_ ∧ _))

/-- An optional sign in front of the digits, and what is behind it. -/
def splitSign : List UInt8 → Bool × List UInt8
  | [] => (false, [])
  | c :: s => if c = 45 then (true, s) else if c = 43 then (false, s) else (false, c :: s)

/-- What `strtol` gives back. -/
structure StrtolRet where
  val : Int
  /-- `errno` is `ERANGE` -/
  erange : Bool
  /-- the memory from `*endp` on -/
  rest : List UInt8
deriving DecidableEq

/-- The value of a number that was read, clamped to the range of `long`. -/
def strtolVal (v : Int) (rest : List UInt8) : StrtolRet :=
  if v < -2 ^ 63 then ⟨-2 ^ 63, true, rest⟩
  else if 2 ^ 63 - 1 < v then ⟨2 ^ 63 - 1, true, rest⟩
  else ⟨v, false, rest⟩

/-- `none` when the scan leaves the object. -/
def strtol (s : List UInt8) : Option StrtolRet :=
  let u := splitSign (s.dropWhile isSpace)
  if u.2.dropWhile isDigit = [] then none
  else if u.2.takeWhile isDigit = [] then some ⟨0, false, s⟩
  else some (strtolVal (signed u.1 (digitsVal (u.2.takeWhile isDigit))) (u.2.dropWhile isDigit))

/-! ## The words `strtol` reads -/

/-- The signs that may stand in front of the digits, and whether they negate. -/
inductive Sign : List UInt8 → Bool → Prop where
  | none : Sign [] false
  | plus : Sign [43] false
  | minus : Sign [45] true

/-- A number with no byte behind it. -/
def OpenNumber (s : List UInt8) : Prop :=
  ∃ blanks sign neg ds, s = blanks ++ (sign ++ ds) ∧ (∀ c ∈ blanks, isSpace c) ∧
    Sign sign neg ∧ ∀ c ∈ ds, isDigit c

/-- A word `strtol` reads without complaint, and its value. The empty word stands for a text
that does not start with a number. -/
inductive Numeral : List UInt8 → Int → Prop where
  | absent : Numeral [] 0
  | digits {blanks sign ds : List UInt8} {neg : Bool} (hb : ∀ c ∈ blanks, isSpace c)
      (hs : Sign sign neg) (hd : ∀ c ∈ ds, isDigit c) (hne : ds ≠ [])
      (hr : InLong (signed neg (digitsVal ds))) :
      Numeral (blanks ++ (sign ++ ds)) (signed neg (digitsVal ds))

/-- A byte that can neither belong to a number nor come before one. -/
def isStop (c : UInt8) : Bool := !isSpace c && !isDigit c && c != 43 && c != 45

theorem isDigit_iff_toNat {d : UInt8} : isDigit d = true ↔ 48 ≤ d.toNat ∧ d.toNat ≤ 57 := by
  simp only [isDigit, Bool.and_eq_true, decide_eq_true_eq, UInt8.le_iff_toNat_le]
  exact Iff.rfl

theorem isSpace_eq_false_of_isDigit {c : UInt8} (h : isDigit c = true) : isSpace c = false := by
  obtain ⟨hlow, -⟩ := isDigit_iff_toNat.mp h
  have h13 : (13 : UInt8).toNat = 13 := rfl
  have hne : c ≠ 32 := by
    rintro rfl
    exact absurd hlow (by decide)
  have hgt : ¬ c ≤ 13 := by
    rw [UInt8.le_iff_toNat_le]
    omega
  simp [isSpace, hne, hgt]

theorem isSpace_eq_false_of_sign {sign : List UInt8} {neg : Bool} (h : Sign sign neg) :
    ∀ c ∈ sign, isSpace c = false := by
  intro c hc
  cases h with
  | none => simp at hc
  | plus =>
    rw [List.mem_singleton] at hc
    subst hc
    rfl
  | minus =>
    rw [List.mem_singleton] at hc
    subst hc
    rfl

theorem dropWhile_append_of_all {p : UInt8 → Bool} {l : List UInt8} (hl : ∀ c ∈ l, p c = true)
    (m : List UInt8) : (l ++ m).dropWhile p = m.dropWhile p := by
  induction l with
  | nil => rfl
  | cons c l ih =>
    rw [List.cons_append, List.dropWhile_cons_of_pos (hl c List.mem_cons_self)]
    exact ih (fun d hd => hl d (List.mem_cons_of_mem _ hd))

theorem takeWhile_append_of_all {p : UInt8 → Bool} {l : List UInt8} (hl : ∀ c ∈ l, p c = true)
    (m : List UInt8) : (l ++ m).takeWhile p = l ++ m.takeWhile p := by
  induction l with
  | nil => rfl
  | cons c l ih =>
    rw [List.cons_append, List.takeWhile_cons_of_pos (hl c List.mem_cons_self),
      ih (fun d hd => hl d (List.mem_cons_of_mem _ hd))]
    rfl

theorem splitSign_append {sign : List UInt8} {neg : Bool} (h : Sign sign neg) {m : List UInt8}
    (hm : ∀ c, m.head? = some c → c ≠ 43 ∧ c ≠ 45) : splitSign (sign ++ m) = (neg, m) := by
  cases h with
  | none =>
    cases m with
    | nil => rfl
    | cons c m =>
      obtain ⟨h43, h45⟩ := hm c rfl
      simp only [List.nil_append, splitSign, if_neg h45, if_neg h43]
  | plus => rfl
  | minus => rfl

theorem head_ne_sign_of_digits {ds m : List UInt8} (hd : ∀ c ∈ ds, isDigit c)
    (hm : ∀ c, m.head? = some c → c ≠ 43 ∧ c ≠ 45) :
    ∀ c, (ds ++ m).head? = some c → c ≠ 43 ∧ c ≠ 45 := by
  intro c hc
  cases ds with
  | nil => exact hm c hc
  | cons d ds =>
    cases hc
    have hdig := hd c List.mem_cons_self
    constructor
    · rintro rfl
      exact absurd hdig (by decide)
    · rintro rfl
      exact absurd hdig (by decide)

/-- The scan takes blanks, sign and digits off the front. -/
theorem scan_append {blanks sign ds m : List UInt8} {neg : Bool}
    (hb : ∀ c ∈ blanks, isSpace c) (hs : Sign sign neg) (hd : ∀ c ∈ ds, isDigit c)
    (hm : ∀ c, m.head? = some c → isStop c) :
    splitSign ((blanks ++ (sign ++ (ds ++ m))).dropWhile isSpace) = (neg, ds ++ m) ∧
      (ds ++ m).takeWhile isDigit = ds ∧ (ds ++ m).dropWhile isDigit = m := by
  have hstop : ∀ c, m.head? = some c →
      isSpace c = false ∧ isDigit c = false ∧ c ≠ 43 ∧ c ≠ 45 := by
    intro c hc
    simpa [isStop, and_assoc] using hm c hc
  have hfront : ∀ c, (sign ++ (ds ++ m)).head? = some c → isSpace c = false := by
    intro c hc
    rw [List.head?_append] at hc
    cases hsg : sign.head? with
    | some d =>
      rw [hsg] at hc
      cases hc
      exact isSpace_eq_false_of_sign hs c (List.mem_of_head? hsg)
    | none =>
      rw [hsg, Option.none_or, List.head?_append] at hc
      cases hds : ds.head? with
      | some d =>
        rw [hds] at hc
        cases hc
        exact isSpace_eq_false_of_isDigit (hd c (List.mem_of_head? hds))
      | none =>
        rw [hds, Option.none_or] at hc
        exact (hstop c hc).1
  have hskip : (sign ++ (ds ++ m)).dropWhile isSpace = sign ++ (ds ++ m) := by
    cases hall : sign ++ (ds ++ m) with
    | nil => rfl
    | cons c t =>
      rw [List.dropWhile_cons_of_neg]
      simp [hfront c (by rw [hall]; rfl)]
  have hdig : m.takeWhile isDigit = [] ∧ m.dropWhile isDigit = m := by
    cases m with
    | nil => exact ⟨rfl, rfl⟩
    | cons c t =>
      have hc := (hstop c rfl).2.1
      exact ⟨List.takeWhile_cons_of_neg (by simp [hc]), List.dropWhile_cons_of_neg (by simp [hc])⟩
  refine ⟨?_, ?_, ?_⟩
  · rw [dropWhile_append_of_all hb, hskip]
    apply splitSign_append hs
    exact head_ne_sign_of_digits hd (fun c hc => (hstop c hc).2.2)
  · rw [takeWhile_append_of_all hd, hdig.1, List.append_nil]
  · rw [dropWhile_append_of_all hd, hdig.2]

/-- Every object splits into blanks, sign, digits and the rest, as the scan sees them. -/
theorem scan_split (s : List UInt8) :
    ∃ blanks sign neg ds m, s = blanks ++ (sign ++ (ds ++ m)) ∧ (∀ c ∈ blanks, isSpace c) ∧
      Sign sign neg ∧ (∀ c ∈ ds, isDigit c) ∧
      splitSign (s.dropWhile isSpace) = (neg, ds ++ m) ∧
      (ds ++ m).takeWhile isDigit = ds ∧ (ds ++ m).dropWhile isDigit = m := by
  have hblanks : ∀ c ∈ s.takeWhile isSpace, isSpace c := fun c hc => List.mem_takeWhile_imp hc
  have hs : s = s.takeWhile isSpace ++ s.dropWhile isSpace := List.takeWhile_append_dropWhile.symm
  have hsign : ∃ sign neg u, s.dropWhile isSpace = sign ++ u ∧ Sign sign neg ∧
      splitSign (s.dropWhile isSpace) = (neg, u) := by
    cases hd : s.dropWhile isSpace with
    | nil => exact ⟨[], false, [], rfl, Sign.none, rfl⟩
    | cons c t =>
      by_cases h45 : c = 45
      · exact ⟨[45], true, t, by rw [h45]; rfl, Sign.minus, by simp [splitSign, h45]⟩
      · by_cases h43 : c = 43
        · exact ⟨[43], false, t, by rw [h43]; rfl, Sign.plus, by simp [splitSign, h43]⟩
        · exact ⟨[], false, c :: t, rfl, Sign.none, by simp [splitSign, h43, h45]⟩
  obtain ⟨sign, neg, u, hu, hsg, hsplit⟩ := hsign
  have huu : u.takeWhile isDigit ++ u.dropWhile isDigit = u := List.takeWhile_append_dropWhile
  refine ⟨s.takeWhile isSpace, sign, neg, u.takeWhile isDigit, u.dropWhile isDigit, ?_, hblanks,
    hsg, fun c hc => List.mem_takeWhile_imp hc, ?_, ?_, ?_⟩
  · rw [huu, ← hu]
    exact hs
  · rw [huu]
    exact hsplit
  · rw [huu]
  · rw [huu]

/-! ## What `strtol` returns -/

theorem strtol_eq_none_iff {s : List UInt8} : strtol s = none ↔ OpenNumber s := by
  constructor
  · intro h
    obtain ⟨blanks, sign, neg, ds, m, hs, hb, hsg, hd, hsplit, htake, hdrop⟩ := scan_split s
    simp only [strtol, hsplit, htake, hdrop] at h
    have hm : m = [] := by
      by_contra hne
      rw [if_neg hne] at h
      split at h <;> cases h
    subst hm
    exact ⟨blanks, sign, neg, ds, by rw [hs, List.append_nil], hb, hsg, hd⟩
  · rintro ⟨blanks, sign, neg, ds, rfl, hb, hsg, hd⟩
    obtain ⟨hsplit, -, hdrop⟩ := scan_append (m := []) hb hsg hd (by simp)
    rw [List.append_nil] at hsplit hdrop
    simp only [strtol, hsplit, hdrop, if_true]

theorem strtolVal_of_inLong {v : Int} (h : InLong v) (rest : List UInt8) :
    strtolVal v rest = ⟨v, false, rest⟩ := by
  obtain ⟨hlo, hhi⟩ := h
  rw [strtolVal, if_neg (by omega), if_neg (by omega)]

theorem inLong_of_strtolVal {v : Int} {rest : List UInt8}
    (h : (strtolVal v rest).erange = false) : InLong v := by
  unfold strtolVal at h
  split at h
  · cases h
  · split at h
    · cases h
    · exact ⟨by omega, by omega⟩

/-- A number with a byte behind it that stops the scan is read in full. -/
theorem strtol_numeral {w rest : List UInt8} {v : Int} {c : UInt8} (h : Numeral w v)
    (hc : isStop c) : strtol (w ++ c :: rest) = some ⟨v, false, c :: rest⟩ := by
  have hm : ∀ d, (c :: rest).head? = some d → isStop d := by
    intro d hd
    cases hd
    exact hc
  cases h with
  | absent =>
    obtain ⟨hsplit, htake, hdrop⟩ :=
      @scan_append [] [] [] (c :: rest) false (by simp) Sign.none (by simp) hm
    simp only [List.nil_append] at hsplit htake hdrop ⊢
    simp only [strtol, hsplit, htake, hdrop, if_true, reduceCtorEq, if_false]
  | @digits blanks sign ds neg hb hs hd hne hr =>
    obtain ⟨hsplit, htake, hdrop⟩ := scan_append hb hs hd hm
    rw [show blanks ++ (sign ++ ds) ++ c :: rest = blanks ++ (sign ++ (ds ++ c :: rest)) by
      simp only [List.append_assoc]]
    simp only [strtol, hsplit, htake, hdrop, reduceCtorEq, if_false, if_neg hne,
      strtolVal_of_inLong hr]

/-- `*endp` points into the object. -/
theorem strtol_rest {s : List UInt8} {r : StrtolRet} (h : strtol s = some r) :
    ∃ w, s = w ++ r.rest ∧ r.rest ≠ [] := by
  obtain ⟨blanks, sign, neg, ds, m, hs, -, -, -, hsplit, htake, hdrop⟩ := scan_split s
  simp only [strtol, hsplit, htake, hdrop] at h
  by_cases hm : m = []
  · rw [if_pos hm] at h
    cases h
  · rw [if_neg hm] at h
    by_cases hds : ds = []
    · rw [if_pos hds] at h
      cases h
      refine ⟨[], rfl, ?_⟩
      rw [hs]
      simp [hm]
    · rw [if_neg hds] at h
      cases h
      have hrest : ∀ v, (strtolVal v m).rest = m := by
        intro v
        unfold strtolVal
        split
        · rfl
        · split <;> rfl
      rw [hrest]
      exact ⟨blanks ++ (sign ++ ds), by rw [hs]; simp only [List.append_assoc], hm⟩

/-- Whatever is read without a range error is a number. -/
theorem numeral_of_strtol {s rest : List UInt8} {v : Int}
    (h : strtol s = some ⟨v, false, rest⟩) : ∃ w, s = w ++ rest ∧ Numeral w v := by
  obtain ⟨blanks, sign, neg, ds, m, hs, hb, hsg, hd, hsplit, htake, hdrop⟩ := scan_split s
  simp only [strtol, hsplit, htake, hdrop] at h
  by_cases hm : m = []
  · rw [if_pos hm] at h
    cases h
  · rw [if_neg hm] at h
    by_cases hds : ds = []
    · rw [if_pos hds] at h
      cases h
      exact ⟨[], rfl, Numeral.absent⟩
    · rw [if_neg hds] at h
      have hval := Option.some.inj h
      have hr : InLong (signed neg (digitsVal ds)) := by
        apply @inLong_of_strtolVal _ m
        rw [hval]
      rw [strtolVal_of_inLong hr] at hval
      cases hval
      refine ⟨blanks ++ (sign ++ ds), ?_, Numeral.digits hb hsg hd hds hr⟩
      rw [hs]
      simp only [List.append_assoc]

/-! ## Printing -/

/-- The text of `%i` for a number that is not negative. -/
def decimalNat (n : Nat) : List UInt8 := (Nat.toDigits 10 n).map Char.toUInt8

/-- The text of `%i`. -/
def decimal (i : Int) : List UInt8 :=
  if i < 0 then 45 :: decimalNat i.natAbs else decimalNat i.natAbs

theorem decimalNat_ne_nil (n : Nat) : decimalNat n ≠ [] := by
  simp [decimalNat, Nat.toDigits_ne_nil]

theorem toNat_of_isDigit {c : Char} (h : c.isDigit = true) : 48 ≤ c.toNat ∧ c.toNat ≤ 57 :=
  Char.isDigit_iff_toNat.mp h

theorem toNat_toUInt8_of_isDigit {c : Char} (h : c.isDigit = true) : c.toUInt8.toNat = c.toNat := by
  have hlt : c.toNat < 256 := by
    have := toNat_of_isDigit h
    omega
  simp only [Char.toUInt8, UInt32.toNat_toUInt8]
  exact Nat.mod_eq_of_lt hlt

theorem isDigit_of_mem_decimalNat {n : Nat} : ∀ c ∈ decimalNat n, isDigit c := by
  intro c hc
  obtain ⟨d, hd, rfl⟩ := List.mem_map.mp hc
  have hdig : d.isDigit = true := Nat.isDigit_of_mem_toDigits (by decide) (by decide) hd
  rw [isDigit_iff_toNat, toNat_toUInt8_of_isDigit hdig]
  exact toNat_of_isDigit hdig

/-- Printing and reading back a number. -/
theorem digitsVal_decimalNat (n : Nat) : digitsVal (decimalNat n) = n := by
  have hfold : ∀ (l : List Char) (v : Nat), (∀ c ∈ l, c.isDigit = true) →
      (l.map Char.toUInt8).foldl (fun v d => 10 * v + (d.toNat - 48)) v =
        Nat.ofDigitChars 10 l v := by
    intro l
    induction l with
    | nil => intro v _; rfl
    | cons c l ih =>
      intro v hl
      rw [List.map_cons, List.foldl_cons, Nat.ofDigitChars_cons,
        toNat_toUInt8_of_isDigit (hl c List.mem_cons_self)]
      exact ih _ (fun d hd => hl d (List.mem_cons_of_mem _ hd))
  rw [digitsVal, decimalNat, hfold _ _ (fun c hc =>
    Nat.isDigit_of_mem_toDigits (by decide) (by decide) hc)]
  exact Nat.ofDigitChars_ten_toDigits

theorem numeral_decimalNat {n : Nat} (h : (n : Int) ≤ 2 ^ 63 - 1) :
    Numeral (decimalNat n) n := by
  have hval := digitsVal_decimalNat n
  have hin : InLong (signed false (digitsVal (decimalNat n))) := by
    rw [hval]
    exact ⟨by simp only [signed]; omega, h⟩
  have hn := @Numeral.digits [] [] _ _ (by simp) Sign.none
    isDigit_of_mem_decimalNat (decimalNat_ne_nil n) hin
  rw [hval] at hn
  exact hn

theorem numeral_decimal {i : Int} (h : InLong i) : Numeral (decimal i) i := by
  unfold decimal
  by_cases hneg : i < 0
  · rw [if_pos hneg]
    have hval := digitsVal_decimalNat i.natAbs
    have hi : signed true (digitsVal (decimalNat i.natAbs)) = i := by
      rw [hval]
      show -((i.natAbs : Nat) : Int) = i
      omega
    have hn := @Numeral.digits [] [45] _ _ (by simp) Sign.minus
      isDigit_of_mem_decimalNat (decimalNat_ne_nil i.natAbs) (by rw [hi]; exact h)
    rw [hi] at hn
    exact hn
  · rw [if_neg hneg]
    have hn := @numeral_decimalNat i.natAbs (by have := h.2; omega)
    rw [show ((i.natAbs : Nat) : Int) = i by omega] at hn
    exact hn

/-! ## Canonical numbers -/

/-- Digits without a zero in front, or a single zero. -/
inductive CanonicalNat : List UInt8 → Nat → Prop where
  | zero : CanonicalNat [48] 0
  | digits {d : UInt8} {ds : List UInt8} (hd : isDigit d) (hne : d ≠ 48)
      (hds : ∀ c ∈ ds, isDigit c) : CanonicalNat (d :: ds) (digitsVal (d :: ds))

/-- A minus sign stands in front of a number that is not zero only. -/
inductive Canonical : List UInt8 → Int → Prop where
  | nat {w : List UInt8} {n : Nat} (h : CanonicalNat w n) : Canonical w n
  | neg {w : List UInt8} {n : Nat} (h : CanonicalNat w n) (hne : n ≠ 0) :
      Canonical (45 :: w) (-(n : Int))

theorem decimalNat_digit {d : UInt8} (h : isDigit d) : decimalNat (d.toNat - 48) = [d] := by
  rw [isDigit_iff_toNat] at h
  have hlt : d.toNat - 48 < 10 := by omega
  have hchar : (Nat.digitChar (d.toNat - 48)).isDigit = true := by
    rw [Nat.isDigit_digitChar, decide_eq_true hlt]
  rw [decimalNat, Nat.toDigits_of_lt_base hlt, List.map_singleton, List.cons.injEq]
  refine ⟨?_, rfl⟩
  rw [← UInt8.toNat_inj, toNat_toUInt8_of_isDigit hchar, Nat.toNat_digitChar_of_lt_ten hlt]
  omega

theorem decimalNat_append {n : Nat} {d : UInt8} (hn : 0 < n) (hd : isDigit d) :
    decimalNat (10 * n + (d.toNat - 48)) = decimalNat n ++ [d] := by
  have hdig := isDigit_iff_toNat.mp hd
  rw [← decimalNat_digit hd, decimalNat, decimalNat, decimalNat, ← List.map_append,
    Nat.toDigits_append_toDigits (by decide) hn (by omega)]

/-- The text of a number is its only canonical numeral. -/
theorem CanonicalNat.decimalNat {w : List UInt8} {n : Nat} (h : CanonicalNat w n) :
    decimalNat n = w := by
  have hfold : ∀ (ds : List UInt8) (n : Nat), 0 < n → (∀ c ∈ ds, isDigit c) →
      Lib.decimalNat (ds.foldl (fun v d => 10 * v + (d.toNat - 48)) n) =
        Lib.decimalNat n ++ ds := by
    intro ds
    induction ds with
    | nil => simp
    | cons d ds ih =>
      intro n hn hds
      rw [List.foldl_cons, ih _ (by omega) fun c hc => hds c (List.mem_cons_of_mem _ hc),
        decimalNat_append hn (hds d List.mem_cons_self), List.append_assoc]
      rfl
  cases h with
  | zero => rfl
  | @digits d ds hd hne hds =>
    have hpos : 0 < d.toNat - 48 := by
      have hdig := isDigit_iff_toNat.mp hd
      have hnat : d.toNat ≠ 48 := fun heq => hne (UInt8.toNat_inj.mp heq)
      omega
    rw [digitsVal, List.foldl_cons, Nat.mul_zero, Nat.zero_add, hfold ds _ hpos hds,
      decimalNat_digit hd]
    rfl

theorem Canonical.decimal {w : List UInt8} {v : Int} (h : Canonical w v) : decimal v = w := by
  cases h with
  | nat h =>
    rw [Lib.decimal, if_neg (by omega), Int.natAbs_natCast, h.decimalNat]
  | neg h hne =>
    rw [Lib.decimal, if_pos (by omega), Int.natAbs_neg, Int.natAbs_natCast, h.decimalNat]

/-- A canonical number is read. -/
theorem Canonical.numeral {w : List UInt8} {v : Int} (h : Canonical w v) (hr : InLong v) :
    Numeral w v := by
  rw [← h.decimal]
  exact numeral_decimal hr

theorem CanonicalNat.head_digit {w : List UInt8} {n : Nat} (h : CanonicalNat w n) :
    ∃ b m, w = b :: m ∧ isDigit b := by
  cases h with
  | zero => exact ⟨48, [], rfl, by decide⟩
  | digits hd _ _ => exact ⟨_, _, rfl, hd⟩

end Vdht.Lib
