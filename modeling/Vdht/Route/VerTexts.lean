import Vdht.Route.StoreTexts

/-!
# Reading versions

`vnodeVer_unstrlize` reads numbers with dots between them into the bytes of a version, as many as
the text has: bytes for which there is no number keep what they held, and the bytes for further
numbers lie behind the version. A part between two dots is a number, or `strtol` stops inside of it,
or its value is out of range, which is found before anything is stored.
-/

namespace Vdht.Route

open Vdht.Core NodeId Lib

variable {p text : List UInt8} {parts : List (List UInt8)}

/-! ## What `strtol` makes of a part -/

variable {c : UInt8}

theorem isStop_spec (hc : isStop c = true) :
    isSpace c = false ∧ isDigit c = false ∧ c ≠ 43 ∧ c ≠ 45 := by
  simpa [isStop, and_assoc] using hc

theorem takeWhile_behind (hc : isStop c = true) (u m : List UInt8) :
    (u ++ c :: m).takeWhile isDigit = u.takeWhile isDigit := by
  obtain ⟨-, hdigit, -⟩ := isStop_spec hc
  rw [List.takeWhile_append]
  split
  · rename_i hall
    rw [List.takeWhile_cons_of_neg (by simp [hdigit]), List.append_nil]
    exact ((List.takeWhile_prefix isDigit).eq_of_length hall).symm
  · rfl

theorem dropWhile_behind (hc : isStop c = true) (u m : List UInt8) :
    (u ++ c :: m).dropWhile isDigit = u.dropWhile isDigit ++ c :: m := by
  obtain ⟨-, hdigit, -⟩ := isStop_spec hc
  rw [List.dropWhile_append]
  split
  · rename_i hall
    rw [List.dropWhile_cons_of_neg (by simp [hdigit]), List.isEmpty_iff.mp hall, List.nil_append]
  · rfl

theorem splitSign_behind (hc : isStop c = true) (u m : List UInt8) :
    splitSign ((u ++ c :: m).dropWhile isSpace) =
      ((splitSign (u.dropWhile isSpace)).1, (splitSign (u.dropWhile isSpace)).2 ++ c :: m) := by
  obtain ⟨hspace, -, hplus, hminus⟩ := isStop_spec hc
  rw [List.dropWhile_append]
  cases u.dropWhile isSpace with
  | nil =>
    have hsign : splitSign (c :: m) = (false, c :: m) := by
      rw [splitSign, if_neg hminus, if_neg hplus]
    rw [if_pos List.isEmpty_nil, List.dropWhile_cons_of_neg (by simp [hspace]), hsign]
    rfl
  | cons b t =>
    rw [if_neg (by simp), List.cons_append, splitSign, splitSign]
    split
    · rfl
    · split
      · rfl
      · rfl

/-- `strtol` looks no further than the byte that ends a number. -/
theorem strtol_behind (hc : isStop c = true) (u m : List UInt8) :
    strtol (u ++ c :: m) =
      some (if (splitSign (u.dropWhile isSpace)).2.takeWhile isDigit = [] then
          ⟨0, false, u ++ c :: m⟩
        else
          strtolVal (signed (splitSign (u.dropWhile isSpace)).1
              (digitsVal ((splitSign (u.dropWhile isSpace)).2.takeWhile isDigit)))
            ((splitSign (u.dropWhile isSpace)).2.dropWhile isDigit ++ c :: m)) := by
  rw [strtol]
  simp only [splitSign_behind hc u m, takeWhile_behind hc, dropWhile_behind hc]
  rw [if_neg (by simp)]
  split
  · rfl
  · rfl

theorem strtol_part (p : List UInt8) : ∃ v e w q, p = w ++ q ∧
    ∀ c m, isStop c = true → strtol (p ++ c :: m) = some ⟨v, e, q ++ c :: m⟩ := by
  obtain ⟨blanks, sign, neg, ds, q, hp, -, -, -, hsplit, htake, hdrop⟩ := scan_split p
  by_cases hds : ds = []
  · refine ⟨0, false, [], p, rfl, fun c m hc => ?_⟩
    rw [strtol_behind hc, hsplit, htake, if_pos hds]
  · obtain ⟨v, e, hval⟩ : ∃ v e, ∀ rest,
        strtolVal (signed neg (digitsVal ds)) rest = ⟨v, e, rest⟩ := by
      unfold strtolVal
      split
      · exact ⟨_, _, fun _ => rfl⟩
      · split
        · exact ⟨_, _, fun _ => rfl⟩
        · exact ⟨_, _, fun _ => rfl⟩
    refine ⟨v, e, blanks ++ (sign ++ ds), q, by simp [hp], fun c m hc => ?_⟩
    rw [strtol_behind hc, hsplit, htake, hdrop, if_neg hds, hval]

/-- `strtol` reads the whole part. -/
def IsNumber (p : List UInt8) : Prop := ∃ v, strtol (p ++ [0]) = some ⟨v, false, [0]⟩

/-- The part starts with a number that is not in the range of a `long`. -/
def TooLarge (p : List UInt8) : Prop := ∃ r, strtol (p ++ [0]) = some r ∧ r.erange = true

/-- The byte that is stored for a part. -/
def partByte (p : List UInt8) : UInt8 := UInt8.ofInt ((strtol (p ++ [0])).elim 0 StrtolRet.val)

/-- What is read of a part, by what it is. -/
inductive PartRead (p : List UInt8) : Prop where
  | number (v : Int) (hp : IsNumber p) (hv : partByte p = UInt8.ofInt v)
      (hread : ∀ c m, isStop c = true → readLong (p ++ c :: m) = .ok (some (v, c :: m)))
  | large (hp : TooLarge p) (hno : ¬ IsNumber p)
      (hread : ∀ c m, isStop c = true → readLong (p ++ c :: m) = .ok none)
  | stuck (v : Int) (b : UInt8) (q : List UInt8) (hb : b ∈ p) (hno : ¬ IsNumber p)
      (hsmall : ¬ TooLarge p)
      (hread : ∀ c m, isStop c = true →
        readLong (p ++ c :: m) = .ok (some (v, b :: (q ++ c :: m))))

theorem readLong_part (p : List UInt8) : PartRead p := by
  obtain ⟨v, e, w, q, hpq, hstrtol⟩ := strtol_part p
  have hnul := hstrtol 0 [] (by decide)
  have hlong : ∀ c m, isStop c = true →
      readLong (p ++ c :: m) = if e then .ok none else .ok (some (v, q ++ c :: m)) := by
    intro c m hc
    rw [readLong, hstrtol c m hc]
  cases e with
  | true =>
    refine .large ⟨_, hnul, rfl⟩ ?_ hlong
    rintro ⟨v', hv'⟩
    rw [hnul] at hv'
    cases hv'
  | false =>
    cases q with
    | nil =>
      refine .number v ⟨v, hnul⟩ ?_ hlong
      rw [partByte, hnul]
      rfl
    | cons b q =>
      refine .stuck v b q ?_ ?_ ?_ hlong
      · rw [hpq]
        exact List.mem_append_right _ List.mem_cons_self
      · rintro ⟨v', hv'⟩
        rw [hnul] at hv'
        simp at hv'
      · rintro ⟨r, hr, hrange⟩
        rw [hnul] at hr
        cases hr
        cases hrange

/-! ## The loop -/

/-- The memory of the parts, a dot in front of each. -/
def dotMem (parts : List (List UInt8)) : List UInt8 :=
  parts.flatMap (fun p => '.'.toUInt8 :: p) ++ [0]

theorem dotMem_cons : dotMem (p :: parts) = '.'.toUInt8 :: (p ++ dotMem parts) := by
  rw [dotMem, List.flatMap_cons, dotMem]
  simp

/-- What is behind a part ends a number. -/
theorem dotMem_stop (parts : List (List UInt8)) : ∃ c m, dotMem parts = c :: m ∧ isStop c = true := by
  cases parts with
  | nil => exact ⟨0, [], rfl, rfl⟩
  | cons p parts => exact ⟨'.'.toUInt8, _, dotMem_cons, rfl⟩

/-- The loop at a dot in front of `s`. -/
theorem unstrlizeVer_dot (o : UInt8) (old s : List UInt8) :
    unstrlizeVer (o :: old) ('.'.toUInt8 :: s) =
      readLong s >>= fun
        | none => .ok (o :: old, -1)
        | some (v, s) =>
          unstrlizeVer old s >>= fun (bs, ret) => .ok (UInt8.ofInt v :: bs, ret) := rfl

/-- The loop gives up at a byte that is neither a dot nor the NUL. -/
theorem unstrlizeVer_stuck (hzero : c ≠ 0) (hdot : c ≠ '.'.toUInt8) (old s : List UInt8) :
    unstrlizeVer old (c :: s) = .ok (old, -1) := by
  cases old with
  | nil =>
    rw [unstrlizeVer, deref, ok_bind, if_neg hzero, if_pos hdot]
  | cons o old =>
    rw [unstrlizeVer, deref, ok_bind, if_neg hzero, if_pos hdot]

/-- Parts of a text between dots. -/
def PlainParts (parts : List (List UInt8)) : Prop := ∀ p ∈ parts, 0 ∉ p ∧ '.'.toUInt8 ∉ p

/-- A number in front of the other parts is stored. -/
theorem unstrlizeVer_number (hp : IsNumber p) (o : UInt8) (old : List UInt8) :
    unstrlizeVer (o :: old) (dotMem (p :: parts)) =
      unstrlizeVer old (dotMem parts) >>= fun (bs, ret) => .ok (partByte p :: bs, ret) := by
  obtain ⟨c, m, hmem, hc⟩ := dotMem_stop parts
  rw [dotMem_cons, unstrlizeVer_dot, hmem]
  cases readLong_part p with
  | number v _ hv hread => rw [hread c m hc, ok_bind, hv]
  | large _ hno _ => exact absurd hp hno
  | stuck _ _ _ _ hno _ _ => exact absurd hp hno

/-- At a part that is no number the loop gives up. -/
theorem unstrlizeVer_refused (hplain : 0 ∉ p ∧ '.'.toUInt8 ∉ p) (hp : ¬ IsNumber p) (o : UInt8)
    (old : List UInt8) : ∃ bs, unstrlizeVer (o :: old) (dotMem (p :: parts)) = .ok (bs, -1) := by
  obtain ⟨c, m, hmem, hc⟩ := dotMem_stop parts
  rw [dotMem_cons, unstrlizeVer_dot, hmem]
  cases readLong_part p with
  | number _ hyes _ _ => exact absurd hyes hp
  | large _ _ hread => exact ⟨_, by rw [hread c m hc, ok_bind]⟩
  | stuck v b q hb _ _ hread =>
    have hzero : b ≠ 0 := fun h => hplain.1 (h ▸ hb)
    have hdot : b ≠ '.'.toUInt8 := fun h => hplain.2 (h ▸ hb)
    refine ⟨UInt8.ofInt v :: old, ?_⟩
    rw [hread c m hc, ok_bind]
    dsimp only
    rw [unstrlizeVer_stuck hzero hdot, ok_bind]

/-- Behind the version only a part that is out of range is not stored. -/
theorem unstrlizeVer_behind (p : List UInt8) (parts : List (List UInt8)) :
    (TooLarge p ∧ unstrlizeVer [] (dotMem (p :: parts)) = .ok ([], -1)) ∨
      (¬ TooLarge p ∧ unstrlizeVer [] (dotMem (p :: parts)) = .error .bounds) := by
  obtain ⟨c, m, hmem, hc⟩ := dotMem_stop parts
  have hturn : ∀ {s r}, readLong s = .ok r →
      unstrlizeVer [] ('.'.toUInt8 :: s) = r.elim (.ok ([], -1)) fun _ => .error .bounds := by
    intro s r hs
    change readLong s >>= _ = _
    rw [hs, ok_bind]
    cases r with
    | none => rfl
    | some x => rfl
  rw [dotMem_cons, hmem]
  cases readLong_part p with
  | number v hp _ hread =>
    right
    refine ⟨?_, hturn (hread c m hc)⟩
    rintro ⟨r, hr, hrange⟩
    obtain ⟨v, hv⟩ := hp
    rw [hr] at hv
    cases hv
    cases hrange
  | large hp _ hread => exact Or.inl ⟨hp, hturn (hread c m hc)⟩
  | stuck _ _ _ _ _ hsmall hread => exact Or.inr ⟨hsmall, hturn (hread c m hc)⟩

variable {old : List UInt8}

/-- Numbers that there is room for are all stored; the bytes behind them stay. -/
theorem unstrlizeVer_numbers (hall : ∀ p ∈ parts, IsNumber p) (hlen : parts.length ≤ old.length) :
    unstrlizeVer old (dotMem parts) =
      .ok (parts.map partByte ++ old.drop parts.length, 0) := by
  induction parts generalizing old with
  | nil =>
    cases old with
    | nil => rfl
    | cons o old => rfl
  | cons p parts ih =>
    cases old with
    | nil => simp at hlen
    | cons o old =>
      obtain ⟨hp, hall⟩ := List.forall_mem_cons.mp hall
      rw [unstrlizeVer_number hp, ih hall (Nat.le_of_succ_le_succ hlen), ok_bind]
      rfl

/-- A part for which there is room is no number. -/
theorem unstrlizeVer_early (hplain : PlainParts parts)
    (hbad : ∃ p ∈ parts.take old.length, ¬ IsNumber p) :
    ∃ bs, unstrlizeVer old (dotMem parts) = .ok (bs, -1) := by
  induction parts generalizing old with
  | nil => simp at hbad
  | cons p parts ih =>
    cases old with
    | nil => simp at hbad
    | cons o old =>
      obtain ⟨hp, hplain⟩ := List.forall_mem_cons.mp hplain
      by_cases hnum : IsNumber p
      · have hrest : ∃ q ∈ parts.take old.length, ¬ IsNumber q := by
          obtain ⟨q, hq, hno⟩ := hbad
          rw [List.length_cons, List.take_succ_cons] at hq
          rcases List.mem_cons.mp hq with rfl | hq
          · exact absurd hnum hno
          · exact ⟨q, hq, hno⟩
        obtain ⟨bs, hbs⟩ := ih hplain hrest
        exact ⟨_, by rw [unstrlizeVer_number hnum, hbs, ok_bind]⟩
      · exact unstrlizeVer_refused hp hnum o old

/-- There is one part more than there is room for. -/
theorem unstrlizeVer_late (hall : ∀ p ∈ parts.take old.length, IsNumber p)
    (hp : parts[old.length]? = some p) :
    (TooLarge p ∧ ∃ bs, unstrlizeVer old (dotMem parts) = .ok (bs, -1)) ∨
      (¬ TooLarge p ∧ unstrlizeVer old (dotMem parts) = .error .bounds) := by
  induction old generalizing parts with
  | nil =>
    cases parts with
    | nil => simp at hp
    | cons q parts =>
      obtain rfl : q = p := by simpa using hp
      exact (unstrlizeVer_behind q parts).imp_left fun h => ⟨h.1, _, h.2⟩
  | cons o old ih =>
    cases parts with
    | nil => simp at hp
    | cons q parts =>
      rw [List.length_cons, List.take_succ_cons] at hall
      rw [List.length_cons, List.getElem?_cons_succ] at hp
      obtain ⟨hq, hall⟩ := List.forall_mem_cons.mp hall
      rw [unstrlizeVer_number hq]
      rcases ih hall hp with ⟨hlarge, bs, hbs⟩ | ⟨hsmall, hfault⟩
      · exact Or.inl ⟨hlarge, _, by rw [hbs, ok_bind]⟩
      · exact Or.inr ⟨hsmall, by rw [hfault, error_bind]⟩

/-! ## Versions -/

/-- The loop over the whole version, as if a dot stood in front of the text. -/
theorem vnodeVerUnstrlize_eq (s : List UInt8) (ver : Token) :
    vnodeVerUnstrlize s ver =
      unstrlizeVer ver.data ('.'.toUInt8 :: s) >>= fun (bs, ret) =>
        .ok (ver.overwrite bs, ret) := by
  obtain ⟨data, hsize⟩ := ver
  cases data with
  | nil => cases hsize
  | cons o old =>
    rw [unstrlizeVer_dot, vnodeVerUnstrlize]
    cases readLong s with
    | error e => rfl
    | ok r =>
      cases r with
      | none =>
        rw [ok_bind, ok_bind]
        dsimp only
        rw [ok_bind]
        dsimp only
        rw [Block.overwrite_full ⟨o :: old, hsize⟩ ⟨o :: old, hsize⟩]
      | some r =>
        obtain ⟨v, rest⟩ := r
        rw [ok_bind, ok_bind]
        dsimp only
        rw [List.tail_cons]
        cases unstrlizeVer old rest with
        | error e => rfl
        | ok r => rfl

/-- The parts of a text. -/
def dotParts (text : List UInt8) : List (List UInt8) := text.splitOn '.'.toUInt8

theorem mem_of_mem_dotParts {b : UInt8} (hp : p ∈ dotParts text) (hb : b ∈ p) :
    b ∈ text ∧ b ≠ '.'.toUInt8 := by
  induction text generalizing p with
  | nil =>
    rw [dotParts, List.splitOn_nil, List.mem_singleton] at hp
    rw [hp] at hb
    cases hb
  | cons c text ih =>
    rw [dotParts, List.splitOn_cons_eq_if_modifyHead] at hp
    split at hp
    · rcases List.mem_cons.mp hp with rfl | hp
      · cases hb
      · exact ⟨List.mem_cons_of_mem _ (ih hp hb).1, (ih hp hb).2⟩
    · rename_i hc
      obtain ⟨q, ps, hps⟩ := List.exists_cons_of_ne_nil (List.splitOn_ne_nil '.'.toUInt8 text)
      rw [hps, List.modifyHead_cons] at hp
      have hmem : ∀ r ∈ q :: ps, b ∈ r → b ∈ text ∧ b ≠ '.'.toUInt8 := by
        intro r hr hbr
        apply ih _ hbr
        rw [dotParts, hps]
        exact hr
      rcases List.mem_cons.mp hp with rfl | hp
      · rcases List.mem_cons.mp hb with rfl | hb
        · exact ⟨List.mem_cons_self, by simpa using hc⟩
        · have hq := hmem q List.mem_cons_self hb
          exact ⟨List.mem_cons_of_mem _ hq.1, hq.2⟩
      · have hr := hmem p (List.mem_cons_of_mem _ hp) hb
        exact ⟨List.mem_cons_of_mem _ hr.1, hr.2⟩

theorem plain_dotParts (hzero : 0 ∉ text) : PlainParts (dotParts text) :=
  fun _ hp => ⟨fun hb => hzero (mem_of_mem_dotParts hp hb).1,
    fun hb => (mem_of_mem_dotParts hp hb).2 rfl⟩

theorem dotMem_dotParts (text : List UInt8) :
    dotMem (dotParts text) = '.'.toUInt8 :: (text ++ [0]) := by
  have hjoin : (dotParts text).flatMap (fun p => '.'.toUInt8 :: p) = '.'.toUInt8 :: text := by
    induction text with
    | nil => rfl
    | cons c text ih =>
      rw [dotParts, List.splitOn_cons_eq_if_modifyHead]
      rw [dotParts] at ih
      split
      · rename_i hc
        rw [List.flatMap_cons, ih, eq_of_beq hc]
        rfl
      · obtain ⟨q, ps, hps⟩ := List.exists_cons_of_ne_nil (List.splitOn_ne_nil '.'.toUInt8 text)
        rw [hps, List.flatMap_cons] at ih
        rw [hps, List.modifyHead_cons, List.flatMap_cons, List.cons_append, List.cons_append]
        rw [List.cons_append, List.cons.injEq] at ih
        rw [ih.2]
  rw [dotMem, hjoin]
  rfl

/-- The text is refused, or it determines all bytes of the version; and nothing is stored behind
the version. -/
def VerDetermined (text : List UInt8) : Prop :=
  ∃ out, ∀ ver, ∃ v ret, vnodeVerUnstrlize (text ++ [0]) ver = .ok (v, ret) ∧
    (ret < 0 ∨ ret = 0 ∧ v = out)

/-- Twenty numbers with dots between them. -/
def TwentyNumbers (text : List UInt8) : Prop :=
  (dotParts text).length = VTOKEN_LEN ∧ ∀ p ∈ dotParts text, IsNumber p

/-- One of the first twenty parts is no number, or the number of the next one is out of range. -/
def RefusedInTime (text : List UInt8) : Prop :=
  (∃ p ∈ (dotParts text).take VTOKEN_LEN, ¬ IsNumber p) ∨
    ∃ p, (dotParts text)[VTOKEN_LEN]? = some p ∧ TooLarge p

theorem vnodeVerUnstrlize_text (text : List UInt8) (ver : Token) :
    vnodeVerUnstrlize (text ++ [0]) ver =
      unstrlizeVer ver.data (dotMem (dotParts text)) >>= fun (bs, ret) =>
        .ok (ver.overwrite bs, ret) := by
  rw [vnodeVerUnstrlize_eq, dotMem_dotParts]

theorem unstrlizeVer_refusedInTime (hzero : 0 ∉ text) (h : RefusedInTime text) (ver : Token) :
    ∃ bs, unstrlizeVer ver.data (dotMem (dotParts text)) = .ok (bs, -1) := by
  by_cases hbad : ∃ p ∈ (dotParts text).take ver.data.length, ¬ IsNumber p
  · exact unstrlizeVer_early (plain_dotParts hzero) hbad
  · rw [ver.size] at hbad
    obtain ⟨p, hp, hlarge⟩ := h.resolve_left hbad
    have hall : ∀ q ∈ (dotParts text).take ver.data.length, IsNumber q := by
      rw [ver.size]
      intro q hq
      by_contra hno
      exact hbad ⟨q, hq, hno⟩
    rcases unstrlizeVer_late hall (by rw [ver.size]; exact hp) with ⟨-, hstop⟩ | ⟨hsmall, -⟩
    · exact hstop
    · exact absurd hlarge hsmall

/-- Numbers are stored one by one; the bytes behind the last one stay as they were. -/
theorem vnodeVerUnstrlize_numbers {s : List UInt8} (hs : dotMem parts = '.'.toUInt8 :: s)
    (hall : ∀ p ∈ parts, IsNumber p) (hlen : parts.length ≤ VTOKEN_LEN) (ver : Token) :
    ∃ out, vnodeVerUnstrlize s ver = .ok (out, 0) ∧
      out.data = parts.map partByte ++ ver.data.drop parts.length := by
  have hsize : (parts.map partByte ++ ver.data.drop parts.length).length = VTOKEN_LEN := by
    rw [List.length_append, List.length_map, List.length_drop, ver.size]
    omega
  refine ⟨⟨_, hsize⟩, ?_, rfl⟩
  rw [vnodeVerUnstrlize_eq, ← hs, unstrlizeVer_numbers hall (by rw [ver.size]; exact hlen), ok_bind]
  exact congrArg (fun b => Except.ok (b, (0 : Int))) (ver.overwrite_full ⟨_, hsize⟩)

/-- Fewer than twenty numbers leave the last byte as it was. -/
theorem length_of_determined (h : VerDetermined text) (hall : ∀ p ∈ dotParts text, IsNumber p)
    (hlen : (dotParts text).length ≤ VTOKEN_LEN) : (dotParts text).length = VTOKEN_LEN := by
  obtain ⟨out, hread⟩ := h
  have hout : ∀ ver : Token, out.data =
      (dotParts text).map partByte ++ ver.data.drop (dotParts text).length := by
    intro ver
    obtain ⟨v, ret, hv, hret⟩ := hread ver
    obtain ⟨new, hnew, hdata⟩ := vnodeVerUnstrlize_numbers (dotMem_dotParts text) hall hlen ver
    rw [hnew] at hv
    cases hv
    rw [← (hret.resolve_left (by decide)).2]
    exact hdata
  by_contra hne
  have hzeros := hout (Block.zero VTOKEN_LEN)
  have hones := hout ⟨List.replicate VTOKEN_LEN 1, List.length_replicate⟩
  rw [hzeros, List.append_cancel_left_eq, Block.zero, List.drop_replicate,
    List.drop_replicate, List.replicate_inj] at hones
  rcases hones.2 with hnone | hone
  · omega
  · exact absurd hone (by decide)

theorem verDetermined_iff (hzero : 0 ∉ text) :
    VerDetermined text ↔ TwentyNumbers text ∨ RefusedInTime text := by
  constructor
  · intro h
    by_cases hrefused : RefusedInTime text
    · exact Or.inr hrefused
    left
    rw [RefusedInTime, not_or] at hrefused
    have hfirst : ∀ p ∈ (dotParts text).take VTOKEN_LEN, IsNumber p := by
      intro p hp
      by_contra hno
      exact hrefused.1 ⟨p, hp, hno⟩
    by_cases hlen : (dotParts text).length ≤ VTOKEN_LEN
    · rw [List.take_of_length_le hlen] at hfirst
      exact ⟨length_of_determined h hfirst hlen, hfirst⟩
    · obtain ⟨p, hp⟩ : ∃ p, (dotParts text)[VTOKEN_LEN]? = some p :=
        ⟨_, List.getElem?_eq_getElem (by omega)⟩
      obtain ⟨out, hread⟩ := h
      obtain ⟨v, ret, hv, -⟩ := hread (Block.zero VTOKEN_LEN)
      have hsize : (Block.zero VTOKEN_LEN).data.length = VTOKEN_LEN := Block.length_data _
      rw [vnodeVerUnstrlize_text] at hv
      rcases @unstrlizeVer_late _ _ (Block.zero VTOKEN_LEN).data (by rwa [hsize])
        (by rwa [hsize]) with ⟨hlarge, -⟩ | ⟨-, hfault⟩
      · exact absurd ⟨p, hp, hlarge⟩ hrefused.2
      · rw [hfault] at hv
        cases hv
  · rintro (⟨hlen, hall⟩ | hrefused)
    · refine ⟨⟨(dotParts text).map partByte, by rw [List.length_map, hlen]⟩, fun ver => ?_⟩
      obtain ⟨out, hout, hdata⟩ :=
        vnodeVerUnstrlize_numbers (dotMem_dotParts text) hall (Nat.le_of_eq hlen) ver
      refine ⟨out, 0, hout, Or.inr ⟨rfl, ?_⟩⟩
      apply Block.ext
      rw [hdata, List.drop_of_length_le (by rw [ver.size, hlen]), List.append_nil]
    · refine ⟨Block.zero VTOKEN_LEN, fun ver => ?_⟩
      obtain ⟨bs, hbs⟩ := unstrlizeVer_refusedInTime hzero hrefused ver
      refine ⟨ver.overwrite bs, -1, ?_, Or.inl (by decide)⟩
      rw [vnodeVerUnstrlize_text, hbs, ok_bind]

/-! ## Printed versions -/

theorem ofInt_toNat (b : UInt8) : UInt8.ofInt (b.toNat : Int) = b := by
  have hlt := b.toNat_lt
  have hmod : (b.toNat : Int) % 2 ^ 8 = b.toNat := Int.emod_eq_of_lt (by omega) (by omega)
  rw [UInt8.ofInt, hmod, Int.toNat_natCast, UInt8.ofNat_toNat]

theorem isNumber_decimalByte (b : UInt8) :
    IsNumber (decimalNat b.toNat) ∧ partByte (decimalNat b.toNat) = b := by
  have hlt := b.toNat_lt
  have hnum : Numeral (decimalNat b.toNat) b.toNat := numeral_decimalNat (by omega)
  have hread := @strtol_numeral _ [] _ 0 hnum (by decide)
  refine ⟨⟨_, hread⟩, ?_⟩
  rw [partByte, hread]
  exact ofInt_toNat b

theorem dotMem_verWord (ver : Token) :
    dotMem ((ver.data.take VTOKEN_INTLEN).map fun b => decimalNat b.toNat) =
      '.'.toUInt8 :: (verWord ver ++ [0]) := by
  obtain ⟨data, hsize⟩ := ver
  cases data with
  | nil => cases hsize
  | cons b bs =>
    rw [dotMem, List.flatMap_map]
    show (b :: bs.take 4).flatMap _ ++ [0] = _
    rw [List.flatMap_cons]
    show _ = '.'.toUInt8 :: (decimalNat b.toNat ++ verTail (bs.take 4) ++ [0])
    rw [verTail]
    rfl

/-- A printed version is read back but for the bytes behind its five numbers. -/
theorem vnodeVerUnstrlize_printed (ver old : Token) :
    ∃ out, vnodeVerUnstrlize (verWord ver ++ [0]) old = .ok (out, 0) ∧
      out.data = ver.data.take VTOKEN_INTLEN ++ old.data.drop VTOKEN_INTLEN := by
  have hlen : ((ver.data.take VTOKEN_INTLEN).map fun b => decimalNat b.toNat).length =
      VTOKEN_INTLEN := by
    rw [List.length_map, List.length_take, ver.size]
    rfl
  have hall : ∀ p ∈ (ver.data.take VTOKEN_INTLEN).map fun b => decimalNat b.toNat,
      IsNumber p := by
    intro p hp
    obtain ⟨b, -, rfl⟩ := List.mem_map.mp hp
    exact (isNumber_decimalByte b).1
  have hbytes : ((ver.data.take VTOKEN_INTLEN).map fun b => decimalNat b.toNat).map partByte =
      ver.data.take VTOKEN_INTLEN := by
    rw [List.map_map]
    exact List.map_id'' (fun b => (isNumber_decimalByte b).2) _
  obtain ⟨out, hout, hdata⟩ :=
    vnodeVerUnstrlize_numbers (dotMem_verWord ver) hall (by rw [hlen]; decide) old
  rw [hlen, hbytes] at hdata
  exact ⟨out, hout, hdata⟩

/-- Bytes that are all 0. -/
theorem eq_of_zeros {l m : List UInt8} (hl : ∀ b ∈ l, b = 0) (hm : ∀ b ∈ m, b = 0)
    (hlen : l.length = m.length) : l = m := by
  rw [List.eq_replicate_of_mem hl, List.eq_replicate_of_mem hm, hlen]

end Vdht.Route
