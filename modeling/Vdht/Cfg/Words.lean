import Vdht.Cfg.Scan
import Vdht.Lib.Words

/-!
# Keys and values

A key and a value are read up to a separator, and blanks between their words become one character.
Both loops write what `joinLoop` writes. The key loop gives up when the key is too long. The value
loop writes into a block for the characters of the words alone, which is too short as soon as there
are two words.
-/

namespace Vdht.Cfg

open Vdht.Core Lib

/-- Words behind one another, with a character in front of each but the first. -/
def joinWords (sep : UInt8) (first : Text) (rest : List Text) : Text :=
  first ++ rest.flatMap (sep :: ·)

/-- The words of a text, with underscores between them. -/
def joined (v : Text) : Text := ['_'.toUInt8].intercalate (words isBlank v)

/-- A turn of the two loops, for a character of a word or a blank. -/
abbrev wordStep (st : Text × Bool) (c : UInt8) : Text × Bool := joinStep isBlank '_'.toUInt8 st c

/-- The loop that joins words with underscores: blanks between words become one underscore, blanks
at the end are none. -/
abbrev wordLoop (st : Text × Bool) (v : Text) : Text := joinLoop isBlank '_'.toUInt8 st v

theorem length_wordLoop (st : Text × Bool) (v : Text) : st.1.length ≤ (wordLoop st v).length :=
  length_joinLoop isBlank '_'.toUInt8 st v

/-! ## Keys -/

/-- The characters up to the separator of a key. -/
def keyText (cur : Text) : Text := cur.takeWhile fun c => !strchr keySeps c

/-- What is left of the text from the first separator of a key on. -/
def keyRest (cur : Text) : Text := cur.dropWhile fun c => !strchr keySeps c

/-- The text consists of words and blanks, as the text in front of the separator of a key has to. -/
def isKeyText (v : Text) : Bool := v.all fun c => isWord c || isBlank c

theorem isBlank_not_keySep {c : UInt8} (h : isBlank c = true) : strchr keySeps c = false :=
  of_blank (P := fun c => strchr keySeps c = false) rfl rfl h

theorem isWord_not_blank {c : UInt8} (h : isWord c = true) : isBlank c = false := by
  cases hb : isBlank c with
  | false => rfl
  | true => rw [isBlank_not_word hb] at h; cases h

theorem createKeyLoop_step {key : Text} {blank : Bool} (hblank : blank = true → key ≠ [])
    {c : UInt8} (hc : (isWord c || isBlank c) = true) (cs : Text) :
    createKeyLoop key blank (c :: cs) =
      if (wordStep (key, blank) c).1.length < 30 then
        createKeyLoop (wordStep (key, blank) c).1 (wordStep (key, blank) c).2 cs
      else none := by
  cases hword : isWord c with
  | true =>
    have hand : (key ≠ [] ∧ blank = true) ↔ blank = true := ⟨And.right, fun h => ⟨hblank h, h⟩⟩
    have hflag : (if blank = true then false else blank) = false := by cases blank <;> rfl
    rw [createKeyLoop, isWord_not_strchr hword (by decide +kernel), hword, wordStep,
      joinStep_word _ (isWord_not_blank hword)]
    simp only [Bool.false_eq_true, if_false, if_true, hand, hflag, ge_iff_le, ← Nat.not_lt, ite_not]
  | false =>
    rw [hword, Bool.false_or] at hc
    have hflag : (if key ≠ [] ∧ blank = false then true else blank) = (!key.isEmpty || blank) := by
      cases key <;> cases blank <;> rfl
    rw [createKeyLoop, isBlank_not_keySep hc, hword, hc, wordStep, joinStep_sep _ hc]
    simp only [Bool.false_eq_true, if_false, if_true, hflag, ge_iff_le, ← Nat.not_lt, ite_not]

theorem createKeyLoop_eq {key : Text} {blank : Bool} (hkey : key.length < 30)
    (hblank : blank = true → key ≠ []) (cur : Text) :
    createKeyLoop key blank cur =
      if isKeyText (keyText cur) = true ∧ (wordLoop (key, blank) (keyText cur)).length < 30 then
        some (wordLoop (key, blank) (keyText cur), keyRest cur)
      else none := by
  induction cur generalizing key blank with
  | nil =>
    rw [createKeyLoop]
    exact (if_pos ⟨rfl, hkey⟩).symm
  | cons c cs ih =>
    by_cases hsep : strchr keySeps c = true
    · have htext : keyText (c :: cs) = [] := List.takeWhile_cons_of_neg (by simp [hsep])
      have hrest : keyRest (c :: cs) = c :: cs := List.dropWhile_cons_of_neg (by simp [hsep])
      rw [createKeyLoop, if_pos hsep, htext, hrest]
      exact (if_pos ⟨rfl, hkey⟩).symm
    · have htext : keyText (c :: cs) = c :: keyText cs :=
        List.takeWhile_cons_of_pos (by simpa using hsep)
      have hrest : keyRest (c :: cs) = keyRest cs :=
        List.dropWhile_cons_of_pos (by simpa using hsep)
      rw [htext, hrest, isKeyText, List.all_cons, wordLoop, joinLoop_cons]
      by_cases hc : (isWord c || isBlank c) = true
      · rw [createKeyLoop_step hblank hc, hc, Bool.true_and]
        by_cases hlen : (wordStep (key, blank) c).1.length < 30
        · rw [if_pos hlen, ih hlen (joinStep_flag hblank c)]
          rfl
        · have hle := length_wordLoop (wordStep (key, blank) c) (keyText cs)
          rw [if_neg hlen, if_neg fun h => hlen (Nat.lt_of_le_of_lt hle h.2)]
      · obtain ⟨hword, hblank'⟩ : isWord c = false ∧ isBlank c = false := by simpa using hc
        rw [createKeyLoop, if_neg hsep, hword, hblank', if_neg Bool.false_ne_true,
          if_neg Bool.false_ne_true]
        exact (if_neg fun h => Bool.false_ne_true h.1).symm

/-- What becomes of a key, by the characters up to the separator. -/
theorem createKey_eq (cur : Text) :
    auxCreateKey cur =
      if isKeyText (keyText cur) = true ∧ (joined (keyText cur)).length < 30 then
        some (joined (keyText cur), keyRest cur)
      else none := by
  rw [auxCreateKey, createKeyLoop_eq (by decide) (by simp), wordLoop, joinLoop_eq]
  rfl

/-- A key takes at least one character. -/
theorem length_createKey {c : UInt8} (hc : strchr keySeps c = false) {cs name rest : Text}
    (h : auxCreateKey (c :: cs) = some (name, rest)) : rest.length ≤ cs.length := by
  rw [createKey_eq] at h
  split at h
  · cases h
    rw [keyRest, List.dropWhile_cons_of_pos (by simp [hc])]
    exact (List.dropWhile_sublist _).length_le
  · cases h

/-- A key written with blanks is read with underscores. -/
theorem createKey_words {first : Text} {rest : List Text}
    (hwords : ∀ w ∈ first :: rest, w ≠ [] ∧ ∀ c ∈ w, isWord c = true)
    (hlen : (joinWords '_'.toUInt8 first rest).length < 30) (cs : Text) :
    auxCreateKey (joinWords ' '.toUInt8 first rest ++ ':'.toUInt8 :: cs) =
      some (joinWords '_'.toUInt8 first rest, ':'.toUInt8 :: cs) := by
  obtain ⟨hfirst, hrest⟩ := List.forall_mem_cons.mp hwords
  have hchar : ∀ c ∈ joinWords ' '.toUInt8 first rest, (isWord c || isBlank c) = true := by
    intro c hc
    rcases List.mem_append.mp hc with hc | hc
    · rw [hfirst.2 c hc, Bool.true_or]
    · obtain ⟨w, hw, hc⟩ := List.mem_flatMap.mp hc
      rcases List.mem_cons.mp hc with rfl | hc
      · rfl
      · rw [(hrest w hw).2 c hc, Bool.true_or]
  have hin : ∀ c ∈ joinWords ' '.toUInt8 first rest, (!strchr keySeps c) = true := by
    intro c hc
    rcases Bool.or_eq_true_iff.mp (hchar c hc) with h | h
    · rw [isWord_not_strchr h (by decide +kernel), Bool.not_false]
    · rw [isBlank_not_keySep h, Bool.not_false]
  have htext : keyText (joinWords ' '.toUInt8 first rest ++ ':'.toUInt8 :: cs) =
      joinWords ' '.toUInt8 first rest := by
    rw [keyText, List.takeWhile_append_of_pos hin, List.takeWhile_cons_of_neg (by decide),
      List.append_nil]
  have hrest : keyRest (joinWords ' '.toUInt8 first rest ++ ':'.toUInt8 :: cs) =
      ':'.toUInt8 :: cs := by
    rw [keyRest, List.dropWhile_append_of_pos hin, List.dropWhile_cons_of_neg (by decide)]
  have hjoin : joined (joinWords ' '.toUInt8 first rest) = joinWords '_'.toUInt8 first rest := by
    rw [joined, joinWords, words_join rfl, intercalate_cons, joinWords]
    exact fun w hw => ⟨(hwords w hw).1, fun c hc => isWord_not_blank ((hwords w hw).2 c hc)⟩
  rw [createKey_eq, htext, hrest, hjoin]
  exact if_pos ⟨List.all_eq_true.mpr hchar, hlen⟩

/-! ## Values -/

/-- The end of a value: the end of the text or a separator. -/
def EndsValue (cs : Text) : Prop := ∀ c ∈ cs.head?, strchr valSeps c = true

/-- The characters up to the separator. -/
def valText (cur : Text) : Text := cur.takeWhile fun c => !strchr valSeps c

/-- What is left of the text from the first separator of a value on. -/
def valRest (cur : Text) : Text := cur.dropWhile fun c => !strchr valSeps c

theorem valText_append (cur : Text) : valText cur ++ valRest cur = cur :=
  List.takeWhile_append_dropWhile

theorem endsValue_valRest (cur : Text) : EndsValue (valRest cur) := by
  intro c hc
  have h := List.head?_dropWhile_not (fun c => !strchr valSeps c) cur
  rw [valRest, Option.mem_def] at hc
  rw [hc] at h
  simpa using h

/-- Values are made of their characters and of blanks. -/
def isValText (v : Text) : Bool := v.all fun c => isVal c || isBlank c

theorem countVal_eq (sz : Nat) (cur : Text) :
    countVal sz cur =
      if isValText (valText cur) then some (sz + (valText cur).countP isVal) else none := by
  induction cur generalizing sz with
  | nil => rfl
  | cons c cs ih =>
    by_cases hsep : strchr valSeps c = true
    · rw [countVal, if_pos hsep, valText, List.takeWhile_cons_of_neg (by simp [hsep])]
      rfl
    · have htext : valText (c :: cs) = c :: valText cs :=
        List.takeWhile_cons_of_pos (by simpa using hsep)
      rw [countVal, if_neg hsep, htext, isValText, List.all_cons, List.countP_cons]
      by_cases hval : isVal c = true
      · rw [if_pos hval, ih, hval, isValText]
        simp only [Bool.true_or, Bool.true_and, if_true]
        rw [Nat.add_right_comm, Nat.add_assoc]
      · rw [if_neg hval]
        by_cases hblank : isBlank c = true
        · rw [if_pos hblank, ih, hblank, isValText, isBlank_not_val hblank]
          simp only [Bool.or_true, Bool.true_and, Bool.false_eq_true, if_false, Nat.add_zero]
        · rw [if_neg hblank, Bool.not_eq_true] at *
          rw [hval, hblank]
          rfl

theorem putVal_ok {cap : Nat} {val : Text} (h : val.length < cap) (c : UInt8) :
    putVal cap val c = .ok (val ++ [c]) := if_pos h

theorem writeVal_end {cap : Nat} {val cs : Text} (hcs : EndsValue cs) (blank : Bool) :
    writeVal cap val blank cs =
      if val.length < cap then .ok (some (val, cs)) else .error .bounds := by
  cases cs with
  | nil => rw [writeVal]
  | cons c cs => rw [writeVal, if_pos (hcs c rfl)]

theorem writeVal_blank {cap : Nat} {val : Text} {blank : Bool} {c : UInt8}
    (hc : isBlank c = true) (cs : Text) :
    writeVal cap val blank (c :: cs) =
      writeVal cap val (if val ≠ [] ∧ blank = false then true else blank) cs := by
  rw [writeVal, isBlank_not_sep hc, isBlank_not_val hc, if_neg Bool.false_ne_true,
    if_neg Bool.false_ne_true, if_pos hc]

theorem writeVal_put {cap : Nat} {val : Text} {c : UInt8} (hc : isVal c = true)
    (hroom : val.length < cap) {cs : Text} :
    writeVal cap val false (c :: cs) = writeVal cap (val ++ [c]) false cs := by
  rw [writeVal, isVal_not_sep hc, if_neg Bool.false_ne_true, if_pos hc,
    if_neg Bool.false_ne_true]
  dsimp only
  rw [putVal_ok hroom]

/-- The blanks between two words are written as one character. -/
theorem writeVal_skip {cap : Nat} {val : Text} {c : UInt8} (hc : isVal c = true)
    (hroom : val.length < cap) {cs : Text} :
    writeVal cap val true (c :: cs) = writeVal cap (val ++ ['_'.toUInt8]) false (c :: cs) := by
  rw [writeVal, writeVal, isVal_not_sep hc, if_neg Bool.false_ne_true, if_pos hc, if_pos rfl,
    putVal_ok hroom, if_neg Bool.false_ne_true, if_pos hc, if_neg Bool.false_ne_true]

theorem writeVal_no_room {cap : Nat} {val : Text} {c : UInt8} (hc : isVal c = true)
    (hfull : ¬ val.length < cap) {blank : Bool} {cs : Text} :
    writeVal cap val blank (c :: cs) = .error .bounds := by
  have hput : ∀ x, putVal cap val x = .error .bounds := fun x => if_neg hfull
  rw [writeVal, isVal_not_sep hc, if_neg Bool.false_ne_true, if_pos hc]
  cases blank with
  | false =>
    rw [if_neg Bool.false_ne_true]
    dsimp only
    rw [hput]
  | true => rw [if_pos rfl, hput]

theorem isVal_not_blank {c : UInt8} (h : isVal c = true) : isBlank c = false := by
  cases hb : isBlank c with
  | false => rfl
  | true => rw [isBlank_not_val hb] at h; cases h

/-- A character is copied if there is room for it. -/
theorem writeVal_char {cap : Nat} {val : Text} {c : UInt8} (hc : isVal c = true) (cs : Text) :
    writeVal cap val false (c :: cs) =
      if (val ++ [c]).length ≤ cap then writeVal cap (val ++ [c]) false cs
      else .error .bounds := by
  rw [List.length_append, List.length_singleton]
  by_cases hroom : val.length < cap
  · rw [writeVal_put hc hroom]
    exact (if_pos hroom).symm
  · rw [writeVal_no_room hc hroom]
    exact (if_neg hroom).symm

theorem writeVal_step {cap : Nat} {val : Text} (hval : val.length ≤ cap) (blank : Bool) {c : UInt8}
    (hc : (isVal c || isBlank c) = true) (cs : Text) :
    writeVal cap val blank (c :: cs) =
      if (wordStep (val, blank) c).1.length ≤ cap then
        writeVal cap (wordStep (val, blank) c).1 (wordStep (val, blank) c).2 cs
      else .error .bounds := by
  cases hword : isVal c with
  | true =>
    rw [wordStep, joinStep_word _ (isVal_not_blank hword)]
    cases blank with
    | false => exact writeVal_char hword cs
    | true =>
      show _ = if (val ++ ['_'.toUInt8, c]).length ≤ cap then
        writeVal cap (val ++ ['_'.toUInt8, c]) false cs else _
      by_cases hroom : val.length < cap
      · rw [writeVal_skip hword hroom, writeVal_char hword, List.append_assoc]
        rfl
      · have hover : ¬ (val ++ ['_'.toUInt8, c]).length ≤ cap := by
          rw [List.length_append, List.length_cons, List.length_singleton]
          omega
        rw [writeVal_no_room hword hroom, if_neg hover]
  | false =>
    rw [hword, Bool.false_or] at hc
    have hflag : (if val ≠ [] ∧ blank = false then true else blank) = (!val.isEmpty || blank) := by
      cases val <;> cases blank <;> rfl
    rw [wordStep, joinStep_sep _ hc, if_pos hval, writeVal_blank hc, hflag]

/-- The loop and the final NUL stay inside the block if and only if the words joined do. -/
theorem writeVal_eq {cap : Nat} {v : Text} (hv : ∀ c ∈ v, (isVal c || isBlank c) = true)
    {cs : Text} (hcs : EndsValue cs) {val : Text} (hval : val.length ≤ cap) (blank : Bool) :
    writeVal cap val blank (v ++ cs) =
      if (wordLoop (val, blank) v).length < cap then .ok (some (wordLoop (val, blank) v, cs))
      else .error .bounds := by
  induction v generalizing val blank with
  | nil => exact writeVal_end hcs blank
  | cons c v ih =>
    obtain ⟨hc, hv⟩ := List.forall_mem_cons.mp hv
    rw [List.cons_append, writeVal_step hval blank hc, wordLoop, joinLoop_cons]
    by_cases hroom : (wordStep (val, blank) c).1.length ≤ cap
    · rw [if_pos hroom]
      exact ih hv hroom _
    · have hle := length_wordLoop (wordStep (val, blank) c) v
      rw [if_neg hroom, if_neg fun h => hroom (Nat.le_of_lt (Nat.lt_of_le_of_lt hle h))]

theorem isSep_of_value {c : UInt8} (h : (isVal c || isBlank c) = true) :
    strchr valSeps c = false := by
  rw [Bool.or_eq_true] at h
  exact h.elim isVal_not_sep isBlank_not_sep

theorem valText_eq {v : Text} (hv : ∀ c ∈ v, (isVal c || isBlank c) = true) {cs : Text}
    (hcs : EndsValue cs) : valText (v ++ cs) = v := by
  have hend : cs.takeWhile (fun c => !strchr valSeps c) = [] := by
    cases cs with
    | nil => rfl
    | cons c cs => exact List.takeWhile_cons_of_neg (by simp [hcs c rfl])
  rw [valText, List.takeWhile_append_of_pos fun c hc => by simp [isSep_of_value (hv c hc)], hend,
    List.append_nil]

/-- What becomes of a value, by the words up to the separator. -/
theorem createVal_words (cur : Text) :
    auxCreateVal cur =
      if isValText (valText cur) then
        if (words isBlank (valText cur)).length ≤ 1 then
          .ok (some (joined (valText cur), valRest cur))
        else .error .bounds
      else .ok none := by
  rw [auxCreateVal, countVal_eq]
  by_cases hall : isValText (valText cur) = true
  · have hv := List.all_eq_true.mp hall
    have hcount : (valText cur).countP isVal = (words isBlank (valText cur)).flatten.length := by
      rw [flatten_words, ← List.countP_eq_length_filter]
      refine List.countP_congr fun c hc => ?_
      have hor := hv c hc
      cases hblank : isBlank c with
      | false =>
        rw [hblank, Bool.or_false] at hor
        rw [hor, Bool.not_false]
      | true => rw [isBlank_not_val hblank, Bool.not_true]
    have hfit : (joined (valText cur)).length < 0 + (valText cur).countP isVal + 1 ↔
        (words isBlank (valText cur)).length ≤ 1 := by
      rw [joined, length_intercalate, hcount]
      omega
    have hwrite := @writeVal_eq (0 + (valText cur).countP isVal + 1) _ hv _
      (endsValue_valRest cur) [] (Nat.zero_le _) false
    rw [valText_append, wordLoop, joinLoop_eq] at hwrite
    rw [if_pos hall, if_pos hall]
    show writeVal _ [] false cur = _
    rw [hwrite]
    exact if_congr hfit rfl rfl
  · rw [if_neg hall, if_neg hall]

/-- A word is read as it is. -/
theorem createVal_word {w : Text} (hw : ∀ c ∈ w, isVal c = true) {cs : Text}
    (hcs : EndsValue cs) : auxCreateVal (w ++ cs) = .ok (some (w, cs)) := by
  have hv : ∀ c ∈ w, (isVal c || isBlank c) = true := fun c hc => by rw [hw c hc, Bool.true_or]
  have htext : valText (w ++ cs) = w := valText_eq hv hcs
  have hrest : valRest (w ++ cs) = cs := by
    have happ := valText_append (w ++ cs)
    rw [htext] at happ
    exact List.append_cancel_left happ
  have hall : isValText w = true := List.all_eq_true.mpr hv
  rw [createVal_words, htext, hrest, if_pos hall, joined]
  by_cases hne : w = []
  · rw [hne, words_nil]
    rfl
  · have hword := @words_append _ isBlank w [] hne (fun c hc => isVal_not_blank (hw c hc)) (by simp)
    rw [List.append_nil, words_nil] at hword
    rw [hword, List.intercalate_singleton]
    rfl

/-- A value that is two words or more. -/
def isSplit (v : Text) : Bool := (v.dropWhile isVal).any isVal

/-- What becomes of a value that begins with a word. -/
theorem createVal_eq {c : UInt8} (hc : isVal c = true) (cs : Text) :
    auxCreateVal (c :: cs) =
      if isValText (valText (c :: cs)) then
        if isSplit (valText (c :: cs)) then .error .bounds
        else .ok (some ((valText (c :: cs)).takeWhile isVal, valRest (c :: cs)))
      else .ok none := by
  rw [createVal_words]
  by_cases hall : isValText (valText (c :: cs)) = true
  · rw [if_pos hall, if_pos hall]
    have hv := List.all_eq_true.mp hall
    have hne : (valText (c :: cs)).takeWhile isVal ≠ [] := by
      have hcons : valText (c :: cs) = c :: valText cs :=
        List.takeWhile_cons_of_pos (by simp [isVal_not_sep hc])
      rw [hcons, List.takeWhile_cons_of_pos hc]
      exact List.cons_ne_nil _ _
    generalize valText (c :: cs) = v at *
    have hrest : ∀ x ∈ v.dropWhile isVal, (isVal x || isBlank x) = true :=
      fun x hx => hv x ((List.dropWhile_sublist isVal).subset hx)
    have hhead : ∀ x ∈ (v.dropWhile isVal).head?, isBlank x = true := by
      intro x hx
      have hnot := List.head?_dropWhile_not isVal v
      have hor := hrest x (List.mem_of_mem_head? hx)
      rw [Option.mem_def.mp hx] at hnot
      rwa [show isVal x = false from hnot, Bool.false_or] at hor
    have hwords := words_append hne
      (fun x hx => isVal_not_blank (List.mem_takeWhile_imp hx)) hhead
    rw [List.takeWhile_append_dropWhile] at hwords
    rw [hwords, joined, hwords]
    cases hlater : words isBlank (v.dropWhile isVal) with
    | nil =>
      have hblank := words_eq_nil.mp hlater
      have hone : isSplit v = false := by
        rw [isSplit, List.any_eq_false]
        exact fun x hx => by simp [isBlank_not_val (hblank x hx)]
      rw [hone, List.intercalate_singleton]
      rfl
    | cons w ws =>
      have hsplit : isSplit v = true := by
        rw [isSplit, ← Bool.not_eq_false, List.any_eq_false]
        intro hno
        have hblank : ∀ x ∈ v.dropWhile isVal, isBlank x = true := fun x hx =>
          (Bool.or_eq_true_iff.mp (hrest x hx)).resolve_left (hno x hx)
        rw [words_eq_nil.mpr hblank] at hlater
        cases hlater
      rw [hsplit, if_pos rfl, if_neg (by simp)]
  · rw [if_neg hall, if_neg hall]

end Vdht.Cfg
