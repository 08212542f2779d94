import Vdht.Cfg.Words
import Vdht.Lib.Turn

/-!
# Texts that do not stop the parser

The parser may read behind the end of the text, fail its assertion or write behind the block of a
value. Which of its branches does so is read off the text: a position is the loops that are running
and what is left of the text, and three kinds of positions go wrong. The parser comes to its end
exactly when it comes to none of these.
-/

namespace Vdht.Cfg

open Vdht.Core Lib

/-! ## Positions -/

/-- A loop of the parser: whether a key of the dictionary waits for its value, the key of the
list. -/
inductive Loop where
  | dict (pending : Bool)
  | list (key : Option Text)
  | tuple

/-- The loops that are running, the innermost one first, and the rest of the text. -/
abbrev Pos := List Loop × Text

/-- White space that the text ends with is skipped together with the NUL behind it. -/
def skipTurn (seps : Text) (st : List Loop) (cs : Text) : Turn Pos :=
  if cs.all (strchr seps) then .wrong else .go (st, cs.dropWhile (strchr seps))

/-- A value of two words needs more room than its characters. -/
def valueTurn (st : List Loop) (cur : Text) : Turn Pos :=
  if isValText (valText cur) then
    if isSplit (valText cur) then .wrong else .go (st, valRest cur)
  else .stop

/-- What is left of the text behind a comment; the newline that ends it stays. -/
def eatComment (cs : Text) : Text := cs.dropWhile fun c => !strchr (cstr "\n") c

/-- What one turn of the loop of a tuple does with a character, as a move on the stack of open loops
and the text. -/
def tupleTurn (st : List Loop) (c : UInt8) (cs : Text) : Turn Pos :=
  if isWord c then valueTurn (.tuple :: st) (c :: cs)
  else if c = ')'.toUInt8 then .go (st, skipWhite cs)
  else if isBlank c then skipTurn (cstr " \t") (.tuple :: st) cs
  else if c = '\n'.toUInt8 then skipTurn (cstr " \t\n") (.tuple :: st) cs
  else .stop

/-- What one turn of the loop of a list does with a character; a bracket opens a loop above it. -/
def listTurn (key : Option Text) (st : List Loop) (c : UInt8) (cs : Text) : Turn Pos :=
  if c = ';'.toUInt8 then .go (.list key :: st, eatComment cs)
  else if c = ':'.toUInt8 then .go (.list key :: st, (auxEatDelimiter cs).1)
  else if c = '{'.toUInt8 then .go (.dict false :: .list key :: st, cs)
  else if c = '['.toUInt8 then .go (.list none :: .list key :: st, cs)
  else if c = '('.toUInt8 then .go (.tuple :: .list key :: st, cs)
  else if c = ']'.toUInt8 then .go (st, skipWhite cs)
  else if isWord c then
    match auxCreateKey (c :: cs) with
    | none => .stop
    | some (name, cur) =>
      match key with
      | none => .go (.list (some name) :: st, cur)
      | some key => if name = key then .go (.list (some key) :: st, cur) else .stop
  else if isBlank c then skipTurn (cstr " \t") (.list key :: st) cs
  else if c = '\n'.toUInt8 then skipTurn (cstr " \t\n") (.list key :: st) cs
  else .stop

/-- A bracket in a dictionary stands behind a key. -/
def openTurn (inner : Loop) (pending : Bool) (st : List Loop) (cs : Text) : Turn Pos :=
  if pending then .go (inner :: .dict false :: st, cs) else .wrong

/-- What one turn of the loop of a dictionary does with a character; `pending` says whether a key
waits for its value, without which no value and no bracket is taken. -/
def dictTurn (pending : Bool) (st : List Loop) (c : UInt8) (cs : Text) : Turn Pos :=
  if c = ';'.toUInt8 then .go (.dict pending :: st, eatComment cs)
  else if c = ':'.toUInt8 then
    if pending then .go (.dict true :: st, (auxEatDelimiter cs).1) else .stop
  else if c = '{'.toUInt8 then openTurn (.dict false) pending st cs
  else if c = '['.toUInt8 then openTurn (.list none) pending st cs
  else if c = '('.toUInt8 then openTurn .tuple pending st cs
  else if c = '}'.toUInt8 then .go (st, skipWhite cs)
  else if isWord c || c = '.'.toUInt8 || c = '/'.toUInt8 then
    if pending then valueTurn (.dict false :: st) (c :: cs)
    else
      match auxCreateKey (c :: cs) with
      | none => .stop
      | some (_, cur) => .go (.dict true :: st, cur)
  else if isBlank c then skipTurn (cstr " \t") (.dict pending :: st) cs
  else if c = '\n'.toUInt8 then skipTurn (cstr " \t\n") (.dict pending :: st) cs
  else .stop

/-- At the end of the text every loop ends. -/
def turn : Pos → Turn Pos
  | ([], _) => .stop
  | (_ :: st, []) => .go (st, [])
  | (.tuple :: st, c :: cs) => tupleTurn st c cs
  | (.list key :: st, c :: cs) => listTurn key st c cs
  | (.dict pending :: st, c :: cs) => dictTurn pending st c cs

/-- The text takes the parser to no position that goes wrong. -/
def SafeText (text : Text) : Prop := Safe turn ([.dict false], text)

/-! ## Agreement with the parser -/

/-- What a loop at `p` does is what its turns say; `st` are the loops around it. -/
def Agrees {α : Type} (r : Res (Option (α × Text))) (st : List Loop) (p : Pos) : Prop :=
  match r with
  | .error _ => ¬ Safe turn p
  | .ok none => Safe turn p
  | .ok (some (_, cur)) => cur.length ≤ p.2.length ∧ (Safe turn p ↔ Safe turn (st, cur))

section Agrees

variable {α β : Type} {st : List Loop} {p : Pos}

theorem Agrees.congr {r : Res (Option (α × Text))} {q : Pos} (hsafe : Safe turn p ↔ Safe turn q)
    (hlen : q.2.length ≤ p.2.length) (h : Agrees r st q) : Agrees r st p := by
  match r with
  | .error _ => exact fun hp => h (hsafe.mp hp)
  | .ok none => exact hsafe.mpr h
  | .ok (some (_, cur)) => exact ⟨h.1.trans hlen, hsafe.trans h.2⟩

theorem Agrees.go {r : Res (Option (α × Text))} {q : Pos} (hturn : turn p = .go q)
    (hlen : q.2.length ≤ p.2.length) (h : Agrees r st q) : Agrees r st p :=
  h.congr (safe_of_go hturn) hlen

theorem agrees_stop (hturn : turn p = .stop) :
    Agrees (.ok none : Res (Option (α × Text))) st p := safe_of_stop hturn

theorem agrees_wrong {e : Fault} (hturn : turn p = .wrong) :
    Agrees (.error e : Res (Option (α × Text))) st p := not_safe_of_wrong hturn

theorem agrees_return (a : α) {cur : Text} (hturn : turn p = .go (st, cur))
    (hlen : cur.length ≤ p.2.length) : Agrees (.ok (some (a, cur))) st p :=
  ⟨hlen, safe_of_go hturn⟩

theorem agrees_ite {r₁ r₂ : Res (Option (α × Text))} {c : Prop} [Decidable c] {a b : Turn Pos}
    (hturn : turn p = if c then a else b) (hpos : c → turn p = a → Agrees r₁ st p)
    (hneg : ¬ c → turn p = b → Agrees r₂ st p) : Agrees (if c then r₁ else r₂) st p := by
  by_cases h : c
  · rw [if_pos h] at hturn ⊢
    exact hpos h hturn
  · rw [if_neg h] at hturn ⊢
    exact hneg h hturn

theorem agrees_skip {seps : Text} {lps : List Loop} {cs : Text}
    {f : Text → Res (Option (α × Text))} (hturn : turn p = skipTurn seps lps cs)
    (hlen : cs.length ≤ p.2.length)
    (h : ∀ cur, cur.length ≤ cs.length → Agrees (f cur) st (lps, cur)) :
    Agrees (onCur (eatWhile (strchr seps) cs) f) st p := by
  have hnul : strchr seps 0 = true := strchr_iff.mpr (Or.inl rfl)
  have hend : cs.dropWhile (strchr seps) = [] ↔ cs.all (strchr seps) = true := by
    rw [List.dropWhile_eq_nil_iff, List.all_eq_true]
  rw [eatWhile_eq, hnul]
  by_cases hall : cs.all (strchr seps) = true
  · rw [skipTurn, if_pos hall] at hturn
    rw [if_pos ⟨hend.mpr hall, rfl⟩]
    exact agrees_wrong hturn
  · rw [skipTurn, if_neg hall] at hturn
    rw [if_neg fun hdrop => hall (hend.mp hdrop.1)]
    have hle := (List.dropWhile_sublist (l := cs) (strchr seps)).length_le
    exact (h _ hle).go hturn (hle.trans hlen)

theorem agrees_value {lps : List Loop} {c : UInt8} {cs : Text}
    {f : Text × Text → Res (Option (α × Text))} (hc : isVal c = true)
    (hturn : turn p = valueTurn lps (c :: cs)) (hlen : cs.length ≤ p.2.length)
    (h : ∀ s cur, cur.length ≤ cs.length → Agrees (f (s, cur)) st (lps, cur)) :
    Agrees (orRetE (auxCreateVal (c :: cs)) f) st p := by
  have hrest : (valRest (c :: cs)).length ≤ cs.length := by
    rw [valRest, List.dropWhile_cons_of_pos (by simp [isVal_not_sep hc])]
    exact (List.dropWhile_sublist _).length_le
  rw [createVal_eq hc]
  rw [valueTurn] at hturn
  by_cases htext : isValText (valText (c :: cs)) = true
  · rw [if_pos htext] at hturn ⊢
    by_cases hsplit : isSplit (valText (c :: cs)) = true
    · rw [if_pos hsplit] at hturn ⊢
      exact agrees_wrong hturn
    · rw [if_neg hsplit] at hturn ⊢
      exact (h _ _ hrest).go hturn (hrest.trans hlen)
  · rw [if_neg htext] at hturn ⊢
    exact agrees_stop hturn

/-- A loop that is called and the rest of the loop that calls it. -/
theorem agrees_call {lp : Loop} {lps : List Loop} {cs : Text} {r : Res (Option (β × Text))}
    {f : β × Text → Res (Option (α × Text))} (hturn : turn p = .go (lp :: lps, cs))
    (hlen : cs.length ≤ p.2.length) (hr : Agrees r lps (lp :: lps, cs))
    (h : ∀ b cur, cur.length ≤ cs.length → Agrees (f (b, cur)) st (lps, cur)) :
    Agrees (orRetE r f) st p := by
  apply Agrees.go hturn hlen
  match r with
  | .error _ => exact hr
  | .ok none => exact hr
  | .ok (some (b, cur)) =>
    obtain ⟨hle, hsafe⟩ := hr
    exact (h b cur hle).congr hsafe hle

/-- A group in a dictionary. -/
theorem agrees_open {lp : Loop} {key : Option Text} {cs : Text} {r : Res (Option (β × Text))}
    {f : Text → β × Text → Res (Option (α × Text))}
    (hturn : turn p = openTurn lp key.isSome st cs) (hlen : cs.length ≤ p.2.length)
    (hr : Agrees r (.dict false :: st) (lp :: .dict false :: st, cs))
    (h : ∀ key b cur, cur.length ≤ cs.length →
      Agrees (f key (b, cur)) st (.dict false :: st, cur)) :
    Agrees (onKey key fun key => orRetE r (f key)) st p := by
  cases key with
  | none => exact agrees_wrong hturn
  | some key => exact agrees_call hturn hlen hr (h key)

end Agrees

theorem eatComments_eq (cs : Text) : auxEatComments cs = .ok (eatComment cs) := by
  rw [auxEatComments, eatWhile_eq]
  exact if_neg fun h => absurd h.2 (by decide)

theorem length_eatComment_le (cs : Text) : (eatComment cs).length ≤ cs.length :=
  (List.dropWhile_sublist _).length_le

theorem agrees_tuple {depth n : Nat} {t : List VcfgItem} {cur : Text} (st : List Loop)
    (hn : cur.length < n) : Agrees (auxParseTuple depth n t cur) st (.tuple :: st, cur) := by
  induction n generalizing t cur with
  | zero => exact absurd hn (Nat.not_lt_zero _)
  | succ n ih =>
    cases cur with
    | nil => exact agrees_return t rfl (Nat.le_refl _)
    | cons c cs =>
      have hcs : cs.length < n := Nat.lt_of_succ_lt_succ hn
      have hle : cs.length ≤ (c :: cs).length := Nat.le_succ _
      have hturn : turn (.tuple :: st, c :: cs) = tupleTurn st c cs := rfl
      rw [tupleTurn] at hturn
      rw [auxParseTuple]
      refine agrees_ite hturn (fun hc hturn => ?_) fun _ hturn => ?_
      · exact agrees_value (isVal_of_word hc) hturn hle fun s cur hcur =>
          ih (hcur.trans_lt hcs)
      refine agrees_ite hturn (fun _ hturn => ?_) fun _ hturn => ?_
      · rw [eatEndings_eq]
        exact agrees_return t hturn ((length_skipWhite_le cs).trans hle)
      refine agrees_ite hturn (fun _ hturn => ?_) fun _ hturn => ?_
      · exact agrees_skip hturn hle fun cur hcur => ih (hcur.trans_lt hcs)
      refine agrees_ite hturn (fun _ hturn => ?_) fun _ hturn => ?_
      · exact agrees_skip hturn hle fun cur hcur => ih (hcur.trans_lt hcs)
      · exact agrees_stop hturn

/-- The loops of a list and of a dictionary, which call each other. -/
theorem agrees_list_dict (n : Nat) :
    (∀ (depth : Nat) (key : Option Text) (l : List VcfgItem) (cur : Text) (st : List Loop),
      cur.length < n → Agrees (auxParseList depth n key l cur) st (.list key :: st, cur)) ∧
    (∀ (depth : Nat) (key : Option Text) (d : List (Text × VcfgItem)) (cur : Text)
      (st : List Loop), cur.length < n →
      Agrees (auxParseDict depth n key d cur) st (.dict key.isSome :: st, cur)) := by
  induction n with
  | zero => exact ⟨fun _ _ _ _ _ hn => absurd hn (Nat.not_lt_zero _),
      fun _ _ _ _ _ hn => absurd hn (Nat.not_lt_zero _)⟩
  | succ n ih =>
    obtain ⟨ihlist, ihdict⟩ := ih
    constructor
    · intro depth key l cur st hn
      cases cur with
      | nil => exact agrees_return (key, l) rfl (Nat.le_refl _)
      | cons c cs =>
        have hcs : cs.length < n := Nat.lt_of_succ_lt_succ hn
        have hle : cs.length ≤ (c :: cs).length := Nat.le_succ _
        have hturn : turn (.list key :: st, c :: cs) = listTurn key st c cs := rfl
        rw [listTurn] at hturn
        rw [auxParseList.eq_def]
        refine agrees_ite hturn (fun _ hturn => ?_) fun _ hturn => ?_
        · rw [eatComments_eq]
          have hlen := length_eatComment_le cs
          exact (ihlist depth key l _ st (hlen.trans_lt hcs)).go hturn (hlen.trans hle)
        refine agrees_ite hturn (fun _ hturn => ?_) fun _ hturn => ?_
        · have hlen := length_eatDelimiter cs
          exact (ihlist depth key l _ st (hlen.trans_lt hcs)).go hturn (hlen.trans hle)
        refine agrees_ite hturn (fun _ hturn => ?_) fun _ hturn => ?_
        · exact agrees_call hturn hle (ihdict _ none [] cs _ hcs) fun d cur hcur =>
            ihlist depth key _ cur st (hcur.trans_lt hcs)
        refine agrees_ite hturn (fun _ hturn => ?_) fun _ hturn => ?_
        · exact agrees_call hturn hle (ihlist _ none [] cs _ hcs) fun l' cur hcur =>
            ihlist depth key _ cur st (hcur.trans_lt hcs)
        refine agrees_ite hturn (fun _ hturn => ?_) fun _ hturn => ?_
        · exact agrees_call hturn hle (agrees_tuple _ hcs) fun t cur hcur =>
            ihlist depth key _ cur st (hcur.trans_lt hcs)
        refine agrees_ite hturn (fun _ hturn => ?_) fun _ hturn => ?_
        · rw [eatEndings_eq]
          exact agrees_return _ hturn ((length_skipWhite_le cs).trans hle)
        refine agrees_ite hturn (fun hc hturn => ?_) fun _ hturn => ?_
        · cases hkey : auxCreateKey (c :: cs) with
          | none =>
            rw [hkey] at hturn
            exact agrees_stop hturn
          | some r =>
            obtain ⟨name, cur⟩ := r
            have hlen := length_createKey (isWord_not_strchr hc (by decide +kernel)) hkey
            have hcur := hlen.trans_lt hcs
            rw [hkey] at hturn
            cases key with
            | none => exact (ihlist depth (some name) l cur st hcur).go hturn (hlen.trans hle)
            | some key =>
              refine agrees_ite hturn (fun _ hturn => ?_) fun _ hturn => agrees_stop hturn
              exact (ihlist depth (some key) l cur st hcur).go hturn (hlen.trans hle)
        refine agrees_ite hturn (fun _ hturn => ?_) fun _ hturn => ?_
        · exact agrees_skip hturn hle fun cur hcur =>
            ihlist depth key l cur st (hcur.trans_lt hcs)
        refine agrees_ite hturn (fun _ hturn => ?_) fun _ hturn => ?_
        · exact agrees_skip hturn hle fun cur hcur =>
            ihlist depth key l cur st (hcur.trans_lt hcs)
        · exact agrees_stop hturn
    · intro depth key d cur st hn
      cases cur with
      | nil => exact agrees_return d rfl (Nat.le_refl _)
      | cons c cs =>
        have hcs : cs.length < n := Nat.lt_of_succ_lt_succ hn
        have hle : cs.length ≤ (c :: cs).length := Nat.le_succ _
        have hturn : turn (.dict key.isSome :: st, c :: cs) = dictTurn key.isSome st c cs := rfl
        rw [dictTurn] at hturn
        rw [auxParseDict.eq_def]
        refine agrees_ite hturn (fun _ hturn => ?_) fun _ hturn => ?_
        · rw [eatComments_eq]
          have hlen := length_eatComment_le cs
          exact (ihdict depth key d _ st (hlen.trans_lt hcs)).go hturn (hlen.trans hle)
        refine agrees_ite hturn (fun _ hturn => ?_) fun _ hturn => ?_
        · have hlen := length_eatDelimiter cs
          cases key with
          | none => exact agrees_stop hturn
          | some key =>
            exact (ihdict depth (some key) d _ st (hlen.trans_lt hcs)).go hturn (hlen.trans hle)
        refine agrees_ite hturn (fun _ hturn => ?_) fun _ hturn => ?_
        · exact agrees_open hturn hle (ihdict _ none [] cs _ hcs) fun key d' cur hcur =>
            ihdict depth none _ cur st (hcur.trans_lt hcs)
        refine agrees_ite hturn (fun _ hturn => ?_) fun _ hturn => ?_
        · exact agrees_open hturn hle (ihlist _ none [] cs _ hcs) fun key l cur hcur =>
            ihdict depth none _ cur st (hcur.trans_lt hcs)
        refine agrees_ite hturn (fun _ hturn => ?_) fun _ hturn => ?_
        · exact agrees_open hturn hle (agrees_tuple _ hcs) fun key t cur hcur =>
            ihdict depth none _ cur st (hcur.trans_lt hcs)
        refine agrees_ite hturn (fun _ hturn => ?_) fun _ hturn => ?_
        · rw [eatEndings_eq]
          exact agrees_return _ hturn ((length_skipWhite_le cs).trans hle)
        refine agrees_ite hturn (fun hc hturn => ?_) fun _ hturn => ?_
        · have hval : isVal c = true := isDictHead_val hc
          cases key with
          | some key =>
            exact agrees_value hval hturn hle fun s cur hcur =>
              ihdict depth none _ cur st (hcur.trans_lt hcs)
          | none =>
            cases hkey : auxCreateKey (c :: cs) with
            | none =>
              rw [hkey] at hturn
              exact agrees_stop hturn
            | some r =>
              obtain ⟨name, cur⟩ := r
              have hlen := length_createKey (isVal_not_keySep hval) hkey
              rw [hkey] at hturn
              exact (ihdict depth (some name) d cur st (hlen.trans_lt hcs)).go hturn
                (hlen.trans hle)
        refine agrees_ite hturn (fun _ hturn => ?_) fun _ hturn => ?_
        · exact agrees_skip hturn hle fun cur hcur =>
            ihdict depth key d cur st (hcur.trans_lt hcs)
        refine agrees_ite hturn (fun _ hturn => ?_) fun _ hturn => ?_
        · exact agrees_skip hturn hle fun cur hcur =>
            ihdict depth key d cur st (hcur.trans_lt hcs)
        · exact agrees_stop hturn

/-- For every text: the parser comes to its end, with a result or with an error, exactly when the
text takes it to no position that goes wrong. Where it goes wrong is read off the text, by the
characters around the position and the kinds of the loops that are open there. -/
theorem parseConfig_ok_iff (text : Text) :
    (∃ r, parseConfig text = .ok r) ↔ SafeText text := by
  have hagrees := (agrees_list_dict (text.length + 1)).2 0 none [] text [] (Nat.lt_succ_self _)
  have hend : ∀ cur, Safe turn ([], cur) := fun cur => safe_of_stop rfl
  rw [parseConfig, SafeText]
  match hparse : auxParseDict 0 (text.length + 1) none [] text with
  | .error e =>
    rw [hparse] at hagrees
    exact iff_of_false (by rintro ⟨r, hr⟩; cases hr) hagrees
  | .ok none =>
    rw [hparse] at hagrees
    exact iff_of_true ⟨none, rfl⟩ hagrees
  | .ok (some (d, cur)) =>
    rw [hparse] at hagrees
    exact iff_of_true ⟨some (.dict 0 d), rfl⟩ (hagrees.2.mpr (hend cur))

/-- A configuration that ends with an end of line behind a value is read behind its end; a bracket
without a key stops the program. -/
theorem parseConfig_faults :
    parseConfig (cstr "syslog: 1\n") = .error .bounds ∧
      parseConfig (cstr "\x7b") = .error .assertion ∧
      parseConfig (cstr "log: a b") = .error .bounds := ⟨rfl, rfl, rfl⟩

end Vdht.Cfg
