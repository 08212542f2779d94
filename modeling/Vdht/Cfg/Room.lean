import Vdht.Cfg.Words

/-!
# Room for keys and values

A key stops growing in front of the end of its 32 bytes, so checking its writes changes nothing. The
block of a value is counted without the characters between the words: it is left by every value of
two words or more and by no other.
-/

namespace Vdht.Cfg

open Vdht.Core Lib

/-- The loop of `_aux_create_key` and the final NUL, in a block of `cap` bytes. -/
def writeKey (cap : Nat) (key : Text) (blank : Bool) : Text → Res (Option (Text × Text))
  | [] => if key.length < cap then .ok (some (key, [])) else .error .bounds
  | c :: cs =>
    if strchr keySeps c then
      if key.length < cap then .ok (some (key, c :: cs)) else .error .bounds
    else if isWord c then
      match if key ≠ [] ∧ blank = true then putVal cap key '_'.toUInt8 else .ok key with
      | .error e => .error e
      | .ok next =>
        match putVal cap next c with
        | .error e => .error e
        | .ok next =>
          let blank := if key ≠ [] ∧ blank = true then false else blank
          if next.length ≥ 30 then .ok none else writeKey cap next blank cs
    else if isBlank c then
      let blank := if key ≠ [] ∧ blank = false then true else blank
      if key.length ≥ 30 then .ok none else writeKey cap key blank cs
    else .ok none

/-- `_aux_create_key` with the block of 32 bytes that it writes the key into; a write behind the
block would be a fault. -/
def auxWriteKey (cur : Text) : Res (Option (Text × Text)) := writeKey 32 [] false cur

/-- Nothing is written behind a block, and what is returned are the words up to the separator with
underscores between them. -/
structure WritesWords (cur : Text) : Prop where
  key_room : ∀ e, auxWriteKey cur ≠ .error e
  key_words : ∀ key rest, auxWriteKey cur = .ok (some (key, rest)) →
    key = joined (keyText cur) ∧ rest = keyRest cur
  val_room : ∀ e, auxCreateVal cur ≠ .error e
  val_words : ∀ val rest, auxCreateVal cur = .ok (some (val, rest)) →
    val = joined (valText cur) ∧ rest = valRest cur

/-- What a turn adds to the key fits, a character in front of it included. -/
theorem putKey_eq {key : Text} (hkey : key.length < 30) (q : Prop) [Decidable q] (c : UInt8) :
    ∃ next, (if q then putVal 32 key '_'.toUInt8 else .ok key) = .ok next ∧
      putVal 32 next c = .ok (if q then key ++ ['_'.toUInt8, c] else key ++ [c]) := by
  by_cases hq : q
  · refine ⟨key ++ ['_'.toUInt8], ?_, ?_⟩
    · rw [if_pos hq, putVal_ok (by omega)]
    · rw [if_pos hq, putVal_ok (by rw [List.length_append, List.length_singleton]; omega),
        List.append_assoc]
      rfl
  · exact ⟨key, if_neg hq, by rw [if_neg hq, putVal_ok (by omega)]⟩

theorem writeKey_eq {key : Text} (hkey : key.length < 30) (blank : Bool) (cur : Text) :
    writeKey 32 key blank cur = .ok (createKeyLoop key blank cur) := by
  induction cur generalizing key blank with
  | nil => rw [writeKey, if_pos (by omega), createKeyLoop]
  | cons c cs ih =>
    rw [writeKey, createKeyLoop]
    by_cases hsep : strchr keySeps c = true
    · rw [if_pos hsep, if_pos (by omega), if_pos hsep]
    rw [if_neg hsep, if_neg hsep]
    by_cases hword : isWord c = true
    · obtain ⟨next, hjoint, hput⟩ := putKey_eq hkey (key ≠ [] ∧ blank = true) c
      rw [if_pos hword, if_pos hword, hjoint]
      dsimp only
      rw [hput]
      dsimp only
      generalize (if key ≠ [] ∧ blank = true then key ++ ['_'.toUInt8, c] else key ++ [c]) = next
      by_cases hlong : next.length ≥ 30
      · rw [if_pos hlong, if_pos hlong]
      · rw [if_neg hlong, if_neg hlong]
        exact ih (Nat.lt_of_not_ge hlong) _
    rw [if_neg hword, if_neg hword]
    by_cases hblank : isBlank c = true
    · rw [if_pos hblank, if_pos hblank, if_neg (Nat.not_le.mpr hkey),
        if_neg (Nat.not_le.mpr hkey)]
      exact ih hkey _
    · rw [if_neg hblank, if_neg hblank]

theorem auxWriteKey_eq (cur : Text) : auxWriteKey cur = .ok (auxCreateKey cur) :=
  writeKey_eq (by decide) false cur

/-- For the text behind any position: nothing is written behind the block of a key or of a value,
and what is returned are the words up to the separator joined by underscores, except for a value
that is two words or more. -/
theorem writesWords_iff (cur : Text) :
    WritesWords cur ↔
      ¬ (isValText (valText cur) = true ∧ 2 ≤ (words isBlank (valText cur)).length) := by
  constructor
  · rintro h ⟨hall, htwo⟩
    have hval := h.val_room .bounds
    rw [createVal_words, if_pos hall, if_neg (Nat.not_le.mpr htwo)] at hval
    exact hval rfl
  · intro hone
    have hval : auxCreateVal cur =
        .ok (if isValText (valText cur) then some (joined (valText cur), valRest cur) else none) := by
      rw [createVal_words]
      by_cases hall : isValText (valText cur) = true
      · have hfew : (words isBlank (valText cur)).length ≤ 1 :=
          Nat.le_of_not_lt fun htwo => hone ⟨hall, htwo⟩
        rw [if_pos hall, if_pos hfew, if_pos hall]
      · rw [if_neg hall, if_neg hall]
    refine ⟨fun e h => ?_, fun key rest h => ?_, fun e h => ?_, fun val rest h => ?_⟩
    · rw [auxWriteKey_eq] at h
      cases h
    · rw [auxWriteKey_eq, createKey_eq] at h
      split at h
      · cases h
        exact ⟨rfl, rfl⟩
      · cases h
    · rw [hval] at h
      cases h
    · rw [hval] at h
      split at h
      · cases h
        exact ⟨rfl, rfl⟩
      · cases h

/-- Two words at the end of a line: two characters are counted, three are written. -/
theorem two_words_leave_block :
    auxCreateVal (cstr "a b\n") = .error .bounds ∧ ¬ ∀ cur, WritesWords cur := by
  have hval : auxCreateVal (cstr "a b\n") = .error .bounds := rfl
  exact ⟨hval, fun h => (h (cstr "a b\n")).val_room _ hval⟩

end Vdht.Cfg
