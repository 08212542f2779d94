import Vdht.Route.StoreTexts

/-!
# Reading ids and nonces

`vtoken_unstrlize` and `vnonce_unstrlize` give each character of the text to `sscanf` on its own and
stop when it returns 0. It does so for a character that no number starts with, but not for a blank
or for the NUL, where the input ends before a conversion and `EOF` is returned. So a text is read
for what it says unless the characters that are looked at are all digits or blanks, without being
the digits of a whole token.
-/

namespace Vdht.Route

open Vdht.Core NodeId Lib

variable {s m text : List UInt8} {c d : UInt8} {n : Nat} {high low : UInt32}

/-- `vnonce_strlize`: the hexadecimal text of a nonce, as far as it fits into the destination. -/
def vnonceStrlize (nonce : Vnonce) (cap : Nat) : List UInt8 × Int := strlizeBytes cap nonce.data []

/-- `vnonce_unstrlize`: a nonce is read from its hexadecimal text. The result says whether the text
could be read. -/
def vnonceUnstrlize (s : List UInt8) (nonce : Vnonce) : Res (Vnonce × Int) :=
  unstrlizeBlock s nonce

/-! ## Hexadecimal digits -/

/-- The digits that `%x` accepts, in either case. -/
def isXDigit (c : UInt8) : Bool :=
  isDigit c || (97 ≤ c && c ≤ 102) || (65 ≤ c && c ≤ 70)

/-- The value of a hexadecimal digit. -/
def xdigitVal (c : UInt8) : Nat :=
  if isDigit c then c.toNat - 48 else if 97 ≤ c then c.toNat - 87 else c.toNat - 55

/-- The bytes that a text of digits denotes. -/
def hexDenotes : List UInt8 → List UInt8
  | c :: d :: s => UInt8.ofNat (16 * xdigitVal c + xdigitVal d) :: hexDenotes s
  | _ => []

/-- The text starts with `k` hexadecimal digits. -/
def HexText (k : Nat) (text : List UInt8) : Prop :=
  k ≤ text.length ∧ ∀ c ∈ text.take k, isXDigit c = true

/-- What `sscanf` makes of a character, whatever the variable holds. -/
theorem sscanfHex_eq (c : UInt8) (val : UInt32) :
    sscanfHex c val =
      if isXDigit c then some (UInt32.ofNat (xdigitVal c))
      else if c = 0 ∨ isSpace c = true then some val
      else none := by
  have hdigits : ∀ i : Fin 256, (isDigit (UInt8.ofFin i) = true →
        (UInt8.ofFin i - 48).toUInt32 = UInt32.ofNat ((UInt8.ofFin i).toNat - 48)) ∧
      (97 ≤ UInt8.ofFin i → (UInt8.ofFin i - 87).toUInt32 =
        UInt32.ofNat ((UInt8.ofFin i).toNat - 87)) ∧
      (65 ≤ UInt8.ofFin i → (UInt8.ofFin i - 55).toUInt32 =
        UInt32.ofNat ((UInt8.ofFin i).toNat - 55)) := by
    decide +kernel
  obtain ⟨hdec, hlower, hupper⟩ := hdigits c.toFin
  rw [sscanfHex, isXDigit, xdigitVal]
  by_cases hd : isDigit c = true
  · rw [if_pos hd, if_pos hd, hd]
    exact congrArg some (hdec hd)
  · rw [if_neg hd, if_neg hd]
    by_cases hl : 97 ≤ c ∧ c ≤ 102
    · rw [if_pos hl, if_pos hl.1, if_pos (by simp [hl])]
      exact congrArg some (hlower hl.1)
    · rw [if_neg hl]
      by_cases hu : 65 ≤ c ∧ c ≤ 70
      · have hsmall : ¬ 97 ≤ c := by
          intro hle
          exact absurd (UInt8.le_trans hle hu.2) (by decide : ¬ (97 : UInt8) ≤ 70)
        rw [if_pos hu, if_neg hsmall, if_pos (by simp [hu])]
        exact congrArg some (hupper hu.1)
      · have hno : ¬ (isDigit c || (97 ≤ c && c ≤ 102) || (65 ≤ c && c ≤ 70)) = true := by
          simp only [Bool.or_eq_true, Bool.and_eq_true, decide_eq_true_eq]
          rintro ((h | h) | h)
          · exact hd h
          · exact hl h
          · exact hu h
        rw [if_neg hu, if_neg hno]

theorem xdigitVal_lt (hc : isXDigit c = true) : xdigitVal c < 16 := by
  have hall : ∀ i : Fin 256, isXDigit (UInt8.ofFin i) = true → xdigitVal (UInt8.ofFin i) < 16 := by
    decide +kernel
  exact hall c.toFin hc

/-- Two digits make a byte. -/
theorem join_digits {h l : Nat} (hh : h < 16) (hl : l < 16) :
    (UInt32.ofNat h <<< 4 ||| (0x0f &&& UInt32.ofNat l)).toUInt8 = UInt8.ofNat (16 * h + l) := by
  have hall : ∀ h l : Fin 16, (UInt32.ofNat h.val <<< 4 |||
      (0x0f &&& UInt32.ofNat l.val)).toUInt8 = UInt8.ofNat (16 * h.val + l.val) := by
    decide +kernel
  exact hall ⟨h, hh⟩ ⟨l, hl⟩

/-! ## The loop -/

/-- `sscanf` does not return 0 for the character. -/
def passesScan (c : UInt8) : Bool := isXDigit c || isSpace c

theorem sscanfHex_passes (hc : passesScan c = true) (val : UInt32) :
    ∃ v, sscanfHex c val = some v := by
  rw [sscanfHex_eq]
  by_cases hx : isXDigit c = true
  · exact ⟨_, if_pos hx⟩
  · rw [passesScan, Bool.or_eq_true] at hc
    exact ⟨val, by rw [if_neg hx, if_pos (Or.inr (hc.resolve_left hx))]⟩

theorem sscanfHex_stops (hc : passesScan c = false) (hne : c ≠ 0) (val : UInt32) :
    sscanfHex c val = none := by
  rw [passesScan, Bool.or_eq_false_iff] at hc
  rw [sscanfHex_eq, hc.1, hc.2]
  simp [hne]

/-- A turn of the loop whose characters pass. -/
theorem unstrlizeBytes_pair {high' low' : UInt32} (hc : sscanfHex c high = some high')
    (hd : sscanfHex d low = some low') :
    unstrlizeBytes (n + 1) (c :: d :: s) high low =
      unstrlizeBytes n s high' low' >>= fun (bs, ret) =>
        .ok ((high' <<< 4 ||| (0x0f &&& low')).toUInt8 :: bs, ret) := by
  rw [unstrlizeBytes]
  simp only [deref, ok_bind, hc, List.tail_cons, hd]

theorem unstrlizeBytes_first (hc : sscanfHex c high = none) :
    unstrlizeBytes (n + 1) (c :: s) high low = .ok ([], -1) := by
  rw [unstrlizeBytes]
  simp only [deref, ok_bind, hc]

theorem unstrlizeBytes_second {high' : UInt32} (hc : sscanfHex c high = some high')
    (hd : sscanfHex d low = none) :
    unstrlizeBytes (n + 1) (c :: d :: s) high low = .ok ([], -1) := by
  rw [unstrlizeBytes]
  simp only [deref, ok_bind, hc, List.tail_cons, hd]

/-- The digits of a whole block are read for what they denote. -/
theorem unstrlizeBytes_hexText (h : HexText (2 * n) s) (high low : UInt32) :
    unstrlizeBytes n (s ++ m) high low = .ok (hexDenotes (s.take (2 * n)), 0) := by
  induction n generalizing s high low with
  | zero => rfl
  | succ n ih =>
    obtain ⟨hlen, hdigits⟩ := h
    obtain ⟨c, d, s, rfl⟩ : ∃ c d t, s = c :: d :: t := by
      rcases s with _ | ⟨c, _ | ⟨d, t⟩⟩
      · simp at hlen
      · simp at hlen
        omega
      · exact ⟨c, d, t, rfl⟩
    have htake : (c :: d :: s).take (2 * (n + 1)) = c :: d :: s.take (2 * n) := rfl
    rw [htake] at hdigits ⊢
    obtain ⟨hc, hdigits⟩ := List.forall_mem_cons.mp hdigits
    obtain ⟨hd, hdigits⟩ := List.forall_mem_cons.mp hdigits
    have hrest : HexText (2 * n) s := by
      refine ⟨?_, hdigits⟩
      simp only [List.length_cons] at hlen
      omega
    have hhigh : sscanfHex c high = some (UInt32.ofNat (xdigitVal c)) := by
      rw [sscanfHex_eq, if_pos hc]
    have hlow : sscanfHex d low = some (UInt32.ofNat (xdigitVal d)) := by
      rw [sscanfHex_eq, if_pos hd]
    rw [List.cons_append, List.cons_append, unstrlizeBytes_pair hhigh hlow, ih hrest, ok_bind]
    dsimp only
    rw [join_digits (xdigitVal_lt hc) (xdigitVal_lt hd), hexDenotes]

/-- At the first character that does not pass the loop gives up. -/
theorem unstrlizeBytes_stops (hzero : 0 ∉ s) (hbad : ∃ c ∈ s.take (2 * n), passesScan c = false)
    (high low : UInt32) : ∃ bs, unstrlizeBytes n (s ++ m) high low = .ok (bs, -1) := by
  induction n generalizing s high low with
  | zero =>
    obtain ⟨c, hc, -⟩ := hbad
    simp at hc
  | succ n ih =>
    have hnone : ∀ c val, c ∈ s → passesScan c = false → sscanfHex c val = none :=
      fun c val hc hp => sscanfHex_stops hp (fun hz => hzero (hz ▸ hc)) val
    rcases s with _ | ⟨c, t⟩
    · obtain ⟨c, hc, -⟩ := hbad
      simp at hc
    by_cases hc : passesScan c = true
    · obtain ⟨high', hhigh⟩ := sscanfHex_passes hc high
      rcases t with _ | ⟨d, t⟩
      · obtain ⟨x, hx, hbadx⟩ := hbad
        rw [List.mem_singleton.mp (List.mem_of_mem_take hx), hc] at hbadx
        cases hbadx
      by_cases hd : passesScan d = true
      · obtain ⟨low', hlow⟩ := sscanfHex_passes hd low
        have hrest : ∃ x ∈ t.take (2 * n), passesScan x = false := by
          obtain ⟨x, hx, hbadx⟩ := hbad
          have htake : (c :: d :: t).take (2 * (n + 1)) = c :: d :: t.take (2 * n) := rfl
          rw [htake] at hx
          rcases List.mem_cons.mp hx with rfl | hx
          · rw [hc] at hbadx
            cases hbadx
          rcases List.mem_cons.mp hx with rfl | hx
          · rw [hd] at hbadx
            cases hbadx
          · exact ⟨x, hx, hbadx⟩
        have hzero' : 0 ∉ t := fun hz =>
          hzero (List.mem_cons_of_mem _ (List.mem_cons_of_mem _ hz))
        obtain ⟨bs, hbs⟩ := ih hzero' hrest high' low'
        rw [List.cons_append, List.cons_append, unstrlizeBytes_pair hhigh hlow, hbs]
        exact ⟨_, rfl⟩
      · have hlow := hnone d low (List.mem_cons_of_mem _ List.mem_cons_self)
          (Bool.not_eq_true _ ▸ hd)
        exact ⟨[], unstrlizeBytes_second hhigh hlow⟩
    · have hhigh := hnone c high List.mem_cons_self (Bool.not_eq_true _ ▸ hc)
      exact ⟨[], unstrlizeBytes_first hhigh⟩

/-- Where all characters pass, the loop reaches its end or the end of the memory. -/
theorem unstrlizeBytes_passes (hp : ∀ c ∈ s.take (2 * n), passesScan c = true)
    (high low : UInt32) :
    (∃ e, unstrlizeBytes n (s ++ [0]) high low = .error e) ∨
      ∃ bs, unstrlizeBytes n (s ++ [0]) high low = .ok (bs, 0) := by
  have hnul : ∀ val, sscanfHex 0 val = some val := fun val => rfl
  induction n generalizing s high low with
  | zero => exact Or.inr ⟨_, rfl⟩
  | succ n ih =>
    rcases s with _ | ⟨c, t⟩
    · left
      refine ⟨.bounds, ?_⟩
      rw [unstrlizeBytes]
      simp only [List.nil_append, deref, ok_bind, hnul, List.tail_cons, error_bind]
    have hc : passesScan c = true := hp c (List.mem_cons_self)
    obtain ⟨high', hhigh⟩ := sscanfHex_passes hc high
    rcases t with _ | ⟨d, t⟩
    · have hturn : unstrlizeBytes (n + 1) ([c] ++ [0]) high low =
          unstrlizeBytes n [] high' low >>= fun (bs, ret) =>
            .ok ((high' <<< 4 ||| (0x0f &&& low)).toUInt8 :: bs, ret) :=
        unstrlizeBytes_pair hhigh (hnul low)
      rw [hturn]
      cases n with
      | zero => exact Or.inr ⟨_, rfl⟩
      | succ n => exact Or.inl ⟨.bounds, rfl⟩
    have hd : passesScan d = true := hp d (List.mem_cons_of_mem _ List.mem_cons_self)
    obtain ⟨low', hlow⟩ := sscanfHex_passes hd low
    have hrest : ∀ x ∈ t.take (2 * n), passesScan x = true :=
      fun x hx => hp x (List.mem_cons_of_mem _ (List.mem_cons_of_mem _ hx))
    rw [List.cons_append, List.cons_append, unstrlizeBytes_pair hhigh hlow]
    rcases ih hrest high' low' with ⟨e, he⟩ | ⟨bs, hbs⟩
    · exact Or.inl ⟨e, by rw [he, error_bind]⟩
    · exact Or.inr ⟨_, by rw [hbs, ok_bind]⟩

theorem length_hexDenotes (h : 2 * n ≤ s.length) : (hexDenotes (s.take (2 * n))).length = n := by
  induction n generalizing s with
  | zero => rfl
  | succ n ih =>
    rcases s with _ | ⟨c, _ | ⟨d, t⟩⟩
    · simp at h
    · simp at h
      omega
    · have htake : (c :: d :: t).take (2 * (n + 1)) = c :: d :: t.take (2 * n) := rfl
      simp only [List.length_cons] at h
      rw [htake, hexDenotes, List.length_cons, ih (by omega)]

/-! ## Texts -/

/-- The text is taken exactly when it starts with the digits of a block, for the bytes that they
denote, whatever the block held; and nothing is read behind the NUL. -/
def ReadsHex (unstrlize : List UInt8 → Block n → Res (Block n × Int)) (text : List UInt8) : Prop :=
  ∀ old, ∃ out ret, unstrlize (text ++ [0]) old = .ok (out, ret) ∧
    (HexText (2 * n) text → ret = 0 ∧ out.data = hexDenotes (text.take (2 * n))) ∧
    (¬ HexText (2 * n) text → ret < 0)

/-- The text starts with `k` digits, or one of the first `k` characters is neither a digit nor a
blank. -/
def Screened (k : Nat) (text : List UInt8) : Prop :=
  HexText k text ∨ ∃ c ∈ text.take k, passesScan c = false

theorem HexText.passes (h : HexText n text) : ∀ c ∈ text.take n, passesScan c = true := by
  intro c hc
  rw [passesScan, h.2 c hc]
  rfl

theorem readsHex_iff (hzero : 0 ∉ text) :
    ReadsHex (n := n) unstrlizeBlock text ↔ Screened (2 * n) text := by
  constructor
  · intro h
    by_cases hbad : ∃ c ∈ text.take (2 * n), passesScan c = false
    · exact Or.inr hbad
    · have hp : ∀ c ∈ text.take (2 * n), passesScan c = true := by
        intro c hc
        rw [← Bool.not_eq_false]
        exact fun hno => hbad ⟨c, hc, hno⟩
      obtain ⟨out, ret, hread, -, hrefused⟩ := h (Block.zero n)
      rw [unstrlizeBlock] at hread
      left
      by_contra hno
      rcases unstrlizeBytes_passes hp 0 0 with ⟨e, he⟩ | ⟨bs, hbs⟩
      · rw [he] at hread
        cases hread
      · rw [hbs] at hread
        cases hread
        exact absurd (hrefused hno) (by decide)
  · intro h old
    rcases h with htext | hbad
    · have hlen := length_hexDenotes htext.1
      refine ⟨⟨hexDenotes (text.take (2 * n)), hlen⟩, 0, ?_, fun _ => ⟨rfl, rfl⟩,
        fun hno => absurd htext hno⟩
      rw [unstrlizeBlock, unstrlizeBytes_hexText htext, ok_bind]
      exact congrArg (fun b => Except.ok (b, (0 : Int))) (old.overwrite_full ⟨_, hlen⟩)
    · obtain ⟨bs, hbs⟩ := unstrlizeBytes_stops (m := [0]) hzero hbad 0 0
      refine ⟨old.overwrite bs, -1, ?_, fun htext => ?_, fun _ => by decide⟩
      · rw [unstrlizeBlock, hbs, ok_bind]
      · obtain ⟨c, hc, hno⟩ := hbad
        rw [htext.passes c hc] at hno
        cases hno

/-- Ids and nonces are read exactly from the texts of their digits, without a look behind the NUL,
if and only if a character that is neither a digit nor a blank stands among the first forty, or
eight, of every other text. What is printed is always read back. -/
theorem unstrlize_iff (text : List UInt8) (cap : Nat) :
    (0 ∉ text → (ReadsHex vtokenUnstrlize text ↔ Screened 40 text) ∧
      (ReadsHex vnonceUnstrlize text ↔ Screened 8 text)) ∧
      (40 < cap → ∀ token old, ∃ printed, vtokenStrlize token cap = (printed, 0) ∧
        vtokenUnstrlize (printed ++ [0]) old = .ok (token, 0)) ∧
      (8 < cap → ∀ nonce old, ∃ printed, vnonceStrlize nonce cap = (printed, 0) ∧
        vnonceUnstrlize (printed ++ [0]) old = .ok (nonce, 0)) := by
  refine ⟨fun hzero => ⟨?_, readsHex_iff hzero⟩, ?_, ?_⟩
  · rw [vtokenUnstrlize_eq]
    exact readsHex_iff hzero
  · intro hcap token old
    exact ⟨_, strlizeBlock_ok token hcap, unstrlizeBlock_hexBytes token old⟩
  · intro hcap nonce old
    exact ⟨_, strlizeBlock_ok nonce hcap, unstrlizeBlock_hexBytes nonce old⟩

/-- Forty blanks are taken for an id. -/
theorem blank_id_is_taken :
    vtokenUnstrlize (List.replicate 40 32 ++ [0]) (Block.zero VTOKEN_LEN) =
        .ok (Block.zero VTOKEN_LEN, 0) ∧
      ¬ ∀ text, 0 ∉ text → ReadsHex vtokenUnstrlize text := by
  refine ⟨rfl, fun h => ?_⟩
  have hzero : (0 : UInt8) ∉ List.replicate 40 32 := by decide
  have hread := h _ hzero
  rw [vtokenUnstrlize_eq, readsHex_iff hzero] at hread
  rcases hread with ⟨-, hdigits⟩ | ⟨c, hc, hbad⟩
  · exact absurd (hdigits 32 (by decide)) (by decide)
  · rw [List.eq_of_mem_replicate (List.mem_of_mem_take hc)] at hbad
    exact absurd hbad (by decide)

end Vdht.Route
