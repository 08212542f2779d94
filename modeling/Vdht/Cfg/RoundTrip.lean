import Vdht.Cfg.Writer
import Vdht.Lib.Fuel

/-!
# The text of a configuration is read back

Behind every member the cursor stands at an end of line or at the end of the text. A loop moves on
from there to the first character of the next member, and so does the loop that ends a group, so
both leave the cursor in one place. One lemma for each kind of group says that its brackets are
read as its item, by induction on the tree.
-/

namespace Vdht.Cfg

open Vdht.Core Lib

/-! ## White space -/

/-- A text that begins with a character that is no white space. -/
def Opens (cur : Text) : Prop := ∃ c cs, cur = c :: cs ∧ strchr (cstr " \t\n") c = false

theorem Opens.append {cur : Text} (h : Opens cur) (rest : Text) : Opens (cur ++ rest) := by
  obtain ⟨c, cs, rfl, hc⟩ := h
  exact ⟨c, cs ++ rest, rfl, hc⟩

theorem Opens.skipWhite {cur : Text} (h : Opens cur) : skipWhite cur = cur := by
  obtain ⟨c, cs, rfl, hc⟩ := h
  exact List.dropWhile_cons_of_neg (by simp [isWhite, hc])

theorem skipWhite_append {w : Text} (hw : ∀ c ∈ w, isWhite c = true) (cur : Text) :
    skipWhite (w ++ cur) = skipWhite cur := List.dropWhile_append_of_pos hw

theorem isWhite_of_blank {c : UInt8} (h : isBlank c = true) : isWhite c = true :=
  of_blank (P := fun c => isWhite c = true) rfl rfl h

/-- What may stand behind a member: nothing or a new line that is not empty. -/
def Line (cur : Text) : Prop :=
  cur = [] ∨ ∃ w next, cur = '\n'.toUInt8 :: (w ++ next) ∧ (∀ c ∈ w, isBlank c = true) ∧ Opens next

theorem Line.endsValue {cur : Text} (h : Line cur) : EndsValue cur := by
  rcases h with rfl | ⟨w, next, rfl, -, -⟩
  · exact fun c hc => absurd hc (by simp)
  · intro c hc
    obtain rfl : '\n'.toUInt8 = c := by simpa using hc
    decide

theorem skipWhite_line {w next : Text} (hw : ∀ c ∈ w, isBlank c = true) (hnext : Opens next) :
    skipWhite ('\n'.toUInt8 :: (w ++ next)) = next := by
  have hwhite : ∀ c ∈ '\n'.toUInt8 :: w, isWhite c = true :=
    List.forall_mem_cons.mpr ⟨by decide, fun c hc => isWhite_of_blank (hw c hc)⟩
  rw [← List.cons_append, skipWhite_append hwhite, hnext.skipWhite]

theorem Indent.line (ind : Indent) (level : Nat) {next : Text} (hnext : Opens next) :
    Line (ind.newline level ++ next) :=
  Or.inr ⟨ind.text level, next, rfl, ind.blank level, hnext⟩

theorem Indent.skipWhite_newline (ind : Indent) (level : Nat) {next : Text}
    (hnext : Opens next) : skipWhite (ind.newline level ++ next) = next :=
  skipWhite_line (ind.blank level) hnext

/-! ## Loops over a text -/

/-- How much of the text is left in a state of a loop. -/
def left {α : Type} (s : α × Text) : Nat := s.2.length

/-- A loop that moves over blanks and ends of line and is otherwise not changed by them. -/
structure SkipsWhite {α β : Type} (loop : Nat → α × Text → Res (Option β)) : Prop where
  blank : ∀ n a c cs, isBlank c = true →
    loop (n + 1) (a, c :: cs) = onCur (auxEatBlanks cs) fun cur => loop n (a, cur)
  newline : ∀ n a cs,
    loop (n + 1) (a, '\n'.toUInt8 :: cs) = onCur (auxEatNewline cs) fun cur => loop n (a, cur)

section SkipsWhite

variable {α β : Type} {loop : Nat → α × Text → Res (Option β)}

theorem SkipsWhite.goes_blanks (h : SkipsWhite loop) (a : α) {w next : Text}
    (hw : ∀ c ∈ w, isBlank c = true) (hnext : Opens next) :
    Goes loop left (a, w ++ next) (a, next) := by
  obtain ⟨x, xs, rfl, hx⟩ := hnext
  cases w with
  | nil => exact Goes.refl _
  | cons c w =>
    obtain ⟨hc, hw⟩ := List.forall_mem_cons.mp hw
    apply goes_of_turn
    · simp only [left, List.cons_append, List.length_cons, List.length_append]
      omega
    intro n _
    have hx' : strchr (cstr " \t") x = false := by
      rw [← Bool.not_eq_true, strchr_iff] at hx ⊢
      rintro (h0 | hmem)
      · exact hx (Or.inl h0)
      · refine hx (Or.inr ?_)
        have hsub : cstr " \t" ⊆ cstr " \t\n" := by decide
        exact hsub hmem
    have hw' : ∀ c ∈ w, strchr (cstr " \t") c = true := fun c hmem =>
      of_blank (P := fun c => strchr (cstr " \t") c = true) rfl rfl (hw c hmem)
    have heat : auxEatBlanks (w ++ x :: xs) = .ok (x :: xs) := eatWhile_append hw' hx' xs
    rw [List.cons_append, h.blank n a c _ hc, heat]
    rfl

theorem SkipsWhite.goes_line (h : SkipsWhite loop) (a : α) {cur : Text} (hline : Line cur) :
    Goes loop left (a, cur) (a, skipWhite cur) := by
  rcases hline with rfl | ⟨w, next, rfl, hw, hnext⟩
  · exact Goes.refl _
  · rw [skipWhite_line hw hnext]
    obtain ⟨x, xs, rfl, hx⟩ := hnext
    apply goes_of_turn
    · simp only [left, List.length_cons, List.length_append]
      omega
    intro n _
    have hw' : ∀ c ∈ w, strchr (cstr " \t\n") c = true := fun c hmem =>
      of_blank (P := fun c => strchr (cstr " \t\n") c = true) rfl rfl (hw c hmem)
    have heat : auxEatNewline (w ++ x :: xs) = .ok (x :: xs) := eatWhile_append hw' hx xs
    rw [h.newline n a, heat]
    rfl

end SkipsWhite

/-- `auxParseTuple` as a function on the state of its loop, so that turns can be composed. -/
def tupleLoop (depth n : Nat) (s : List VcfgItem × Text) := auxParseTuple depth n s.1 s.2

/-- `auxParseList` as a function on the state of its loop, so that turns can be composed. -/
def listLoop (depth n : Nat) (s : (Option Text × List VcfgItem) × Text) :=
  auxParseList depth n s.1.1 s.1.2 s.2

/-- `auxParseDict` as a function on the state of its loop, so that turns can be composed. -/
def dictLoop (depth n : Nat) (s : (Option Text × List (Text × VcfgItem)) × Text) :=
  auxParseDict depth n s.1.1 s.1.2 s.2

theorem tupleLoop_skips (depth : Nat) : SkipsWhite (tupleLoop depth) where
  blank n a c cs hc := by
    rcases isBlank_cases hc with rfl | rfl
    · rfl
    · rfl
  newline _ _ _ := rfl

theorem listLoop_skips (depth : Nat) : SkipsWhite (listLoop depth) where
  blank n a c cs hc := by
    rcases isBlank_cases hc with rfl | rfl
    · rfl
    · rfl
  newline _ _ _ := rfl

theorem dictLoop_skips (depth : Nat) : SkipsWhite (dictLoop depth) where
  blank n a c cs hc := by
    rcases isBlank_cases hc with rfl | rfl
    · rfl
    · rfl
  newline _ _ _ := rfl

/-! ## Characters at the beginning of a member -/

theorem isVal_not_white {c : UInt8} (h : isVal c = true) : strchr (cstr " \t\n") c = false := by
  rw [← Bool.not_eq_true, strchr_iff]
  rintro (rfl | hmem)
  · exact absurd h (by decide)
  · have hno : ∀ x ∈ cstr " \t\n", isVal x = false := by decide +kernel
    rw [hno c hmem] at h
    cases h

theorem dict_head (depth n : Nat) {key : Option Text} {d : List (Text × VcfgItem)} {c : UInt8}
    (hc : isDictHead c = true) (cs : Text) :
    dictLoop depth (n + 1) ((key, d), c :: cs) =
      match key with
      | some key =>
        orRetE (auxCreateVal (c :: cs)) fun (s, cur) =>
          auxParseDict depth n none (d ++ [(key, .str (depth + 1) s)]) cur
      | none =>
        match auxCreateKey (c :: cs) with
        | none => .ok none
        | some (name, cur) => auxParseDict depth n (some name) d cur := by
  rw [dictLoop, auxParseDict.eq_def]
  dsimp only
  rw [if_neg (ne_of_test hc rfl), if_neg (ne_of_test hc rfl),
    if_neg (ne_of_test hc rfl), if_neg (ne_of_test hc rfl),
    if_neg (ne_of_test hc rfl), if_neg (ne_of_test hc rfl)]
  exact if_pos hc

theorem list_head (depth n : Nat) {key : Option Text} {l : List VcfgItem} {c : UInt8}
    (hc : isWord c = true) (cs : Text) :
    listLoop depth (n + 1) ((key, l), c :: cs) =
      match auxCreateKey (c :: cs) with
      | none => .ok none
      | some (name, cur) =>
        match key with
        | none => auxParseList depth n (some name) l cur
        | some key => if name = key then auxParseList depth n (some key) l cur else .ok none := by
  rw [listLoop, auxParseList]
  rw [if_neg (ne_of_test hc rfl), if_neg (ne_of_test hc rfl),
    if_neg (ne_of_test hc rfl), if_neg (ne_of_test hc rfl),
    if_neg (ne_of_test hc rfl), if_neg (ne_of_test hc rfl)]
  exact if_pos hc

theorem tuple_head (depth n : Nat) {t : List VcfgItem} {c : UInt8} (hc : isWord c = true)
    (cs : Text) :
    tupleLoop depth (n + 1) (t, c :: cs) =
      orRetE (auxCreateVal (c :: cs)) fun (s, cur) =>
        auxParseTuple depth n (t ++ [.str (depth + 1) s]) cur := by
  rw [tupleLoop, auxParseTuple]
  exact if_pos hc

/-! ## Scalars -/

theorem Scalar.read {isHead : UInt8 → Bool} (hhead : ∀ c, isHead c = true → isVal c = true)
    (s : Scalar isHead) {cur : Text} (hcur : EndsValue cur) :
    auxCreateVal (s.text ++ cur) = .ok (some (s.text, cur)) :=
  createVal_word (List.forall_mem_cons.mpr ⟨hhead s.head s.head_ok, s.tail_ok⟩) hcur

theorem Scalar.opens {isHead : UInt8 → Bool} (hhead : ∀ c, isHead c = true → isVal c = true)
    (s : Scalar isHead) : Opens s.text :=
  ⟨s.head, s.tail, rfl, isVal_not_white (hhead s.head s.head_ok)⟩

theorem Scalar.goes_tuple (depth : Nat) (s : Scalar isWord) (t : List VcfgItem) {cur : Text}
    (hcur : Line cur) :
    Goes (tupleLoop depth) left (t, s.text ++ cur)
      (t ++ [.str (depth + 1) s.text], skipWhite cur) := by
  refine Goes.trans ?_ ((tupleLoop_skips depth).goes_line _ hcur)
  apply goes_of_turn
  · simp only [left, Scalar.text, List.cons_append, List.length_cons, List.length_append]
    omega
  intro n _
  have hread := s.read (fun c hc => isVal_of_word hc) hcur.endsValue
  rw [Scalar.text, List.cons_append] at hread ⊢
  rw [tuple_head depth n s.head_ok, hread]
  rfl

theorem Scalar.goes_lines (ind : Indent) (level depth : Nat) (ts : List (Scalar isWord))
    (t : List VcfgItem) {cur : Text} (hcur : Line cur) :
    Goes (tupleLoop depth) left (t, skipWhite (Scalar.lines ind level ts ++ cur))
      (t ++ ts.map fun s => .str (depth + 1) s.text, skipWhite cur) := by
  induction ts generalizing t with
  | nil =>
    rw [List.map_nil, List.append_nil]
    exact Goes.refl _
  | cons s ts ih =>
    have hword := fun c (hc : isWord c = true) => isVal_of_word hc
    have hlines : Scalar.lines ind level (s :: ts) ++ cur =
        ind.newline level ++ (s.text ++ (Scalar.lines ind level ts ++ cur)) := by
      rw [Scalar.lines, List.flatMap_cons, List.append_assoc, List.append_assoc]
      rfl
    have hrest : Line (Scalar.lines ind level ts ++ cur) := by
      cases ts with
      | nil => exact hcur
      | cons s' ts =>
        rw [Scalar.lines, List.flatMap_cons, List.append_assoc, List.append_assoc]
        exact ind.line level ((s'.opens hword).append _)
    rw [hlines, ind.skipWhite_newline level ((s.opens hword).append _), List.map_cons]
    apply (s.goes_tuple depth t hrest).trans
    have hsplit := ih (t ++ [.str (depth + 1) s.text])
    rwa [List.append_assoc] at hsplit

/-! ## Keys -/

theorem Key.tag_head (key : Key) (cur : Text) :
    ∃ c cs, key.tag ++ cur = c :: cs ∧ isWord c = true := by
  obtain ⟨hne, hfirst⟩ := key.words key.first List.mem_cons_self
  obtain ⟨c, w, hw⟩ := List.exists_cons_of_ne_nil hne
  have hc : isWord c = true := hfirst c (by rw [hw]; exact List.mem_cons_self)
  rw [Key.tag, Key.written, joinWords, hw]
  exact ⟨c, _, rfl, hc⟩

theorem Key.create (key : Key) (cur : Text) :
    auxCreateKey (key.tag ++ cur) = some (key.name, ':'.toUInt8 :: ' '.toUInt8 :: cur) := by
  have h := createKey_words key.words (Nat.lt_succ_of_le key.short) (' '.toUInt8 :: cur)
  rw [Key.tag, List.append_assoc]
  exact h

theorem Key.opens (key : Key) (cur : Text) : Opens (key.tag ++ cur) := by
  obtain ⟨c, cs, htext, hc⟩ := key.tag_head cur
  exact ⟨c, cs, htext, isVal_not_white (isVal_of_word hc)⟩

/-- A text at which `_aux_eat_delimiter` stops. -/
def BeginsValue (cur : Text) : Prop :=
  ∃ c cs, cur = c :: cs ∧ (isWord c = true ∨ c ∈ cstr ".(\x7b[/")

theorem BeginsValue.eatDelimiter {cur : Text} (h : BeginsValue cur) :
    auxEatDelimiter (' '.toUInt8 :: cur) = (cur, 0) := by
  obtain ⟨c, cs, rfl, hc⟩ := h
  rw [eatDelimiter_blank (by decide), eatDelimiter_stop hc]

theorem Scalar.beginsValue (s : Scalar isDictHead) (cur : Text) : BeginsValue (s.text ++ cur) := by
  have hhead := s.head_ok
  rw [isDictHead, Bool.or_eq_true, Bool.or_eq_true] at hhead
  refine ⟨s.head, s.tail ++ cur, rfl, ?_⟩
  rcases hhead with (h | h) | h
  · exact Or.inl h
  · rw [show s.head = '.'.toUInt8 by simpa using h]
    exact Or.inr (by decide)
  · rw [show s.head = '/'.toUInt8 by simpa using h]
    exact Or.inr (by decide)

theorem Key.length_lt (key : Key) (cur : Text) : cur.length + 2 < (key.tag ++ cur).length := by
  obtain ⟨hne, -⟩ := key.words key.first List.mem_cons_self
  have hfirst := List.length_pos_iff.mpr hne
  have hlen : (key.tag ++ cur).length = key.written.length + (cur.length + 2) := by
    simp only [Key.tag, List.length_append, List.length_cons, List.length_nil]
    omega
  rw [hlen, Key.written, joinWords, List.length_append]
  omega

/-- A loop that takes a key and then skips the delimiter passes the key of a member. -/
theorem Key.goes {α β : Type} {loop : Nat → α × Text → Res (Option β)} (key : Key) {a b : α}
    {cur : Text} (hcur : BeginsValue cur)
    (htake : ∀ n c cs, isWord c = true →
      auxCreateKey (c :: cs) = some (key.name, ':'.toUInt8 :: ' '.toUInt8 :: cur) →
      loop (n + 1) (a, c :: cs) = loop n (b, ':'.toUInt8 :: ' '.toUInt8 :: cur))
    (hskip : ∀ n cs, loop (n + 1) (b, ':'.toUInt8 :: cs) = loop n (b, (auxEatDelimiter cs).1)) :
    Goes loop left (a, key.tag ++ cur) (b, cur) := by
  have hname : Goes loop left (a, key.tag ++ cur) (b, ':'.toUInt8 :: ' '.toUInt8 :: cur) := by
    apply goes_of_turn
    · exact key.length_lt cur
    intro n _
    have hcreate := key.create cur
    obtain ⟨c, cs, htext, hc⟩ := key.tag_head cur
    rw [htext] at hcreate ⊢
    exact htake n c cs hc hcreate
  apply hname.trans
  apply goes_of_turn
  · simp only [left, List.length_cons]
    omega
  intro n _
  rw [hskip, hcur.eatDelimiter]

theorem Key.goes_dict (key : Key) (depth : Nat) (d : List (Text × VcfgItem)) {cur : Text}
    (hcur : BeginsValue cur) :
    Goes (dictLoop depth) left ((none, d), key.tag ++ cur) ((some key.name, d), cur) := by
  refine key.goes hcur (fun n c cs hc hcreate => ?_) fun _ _ => rfl
  rw [dict_head depth n (by rw [isDictHead, hc]; rfl), hcreate]
  rfl

/-- The key in front of a member of a list is the first one or the one the list has. -/
theorem Key.goes_list (key : Key) (depth : Nat) {seen : Option Text}
    (hseen : seen = none ∨ seen = some key.name) (l : List VcfgItem) {cur : Text}
    (hcur : BeginsValue cur) :
    Goes (listLoop depth) left ((seen, l), key.tag ++ cur) ((some key.name, l), cur) := by
  refine key.goes hcur (fun n c cs hc hcreate => ?_) fun _ _ => rfl
  rw [list_head depth n hc, hcreate]
  rcases hseen with rfl | rfl
  · rfl
  · exact if_pos rfl

/-! ## Groups -/

/-- What the loops of a dictionary and of a list do alike at an opening bracket. -/
def openGroup (depth n : Nat) : Text → Res (Option (VcfgItem × Text))
  | [] => .ok none
  | c :: cs =>
    if c = '{'.toUInt8 then
      orRetE (auxParseDict depth n none [] cs) fun (d, cur) => .ok (some (.dict depth d, cur))
    else if c = '['.toUInt8 then
      orRetE (auxParseList depth n none [] cs) fun (l, cur) =>
        .ok (some (.list depth l.1 l.2, cur))
    else orRetE (auxParseTuple depth n [] cs) fun (t, cur) => .ok (some (.tuple depth t, cur))

/-- How much of the text is left behind an opening bracket. -/
def inner (cur : Text) : Nat := cur.tail.length

/-- The text starts with the bracket of a dictionary, a list or a tuple. -/
def OpensGroup (cur : Text) : Prop :=
  ∃ c cs, cur = c :: cs ∧ (c = '{'.toUInt8 ∨ c = '['.toUInt8 ∨ c = '('.toUInt8)

theorem OpensGroup.beginsValue {cur : Text} (h : OpensGroup cur) : BeginsValue cur := by
  obtain ⟨c, cs, rfl, hc⟩ := h
  refine ⟨c, cs, rfl, Or.inr ?_⟩
  rcases hc with rfl | rfl | rfl
  · decide
  · decide
  · decide

theorem OpensGroup.opens {cur : Text} (h : OpensGroup cur) : Opens cur := by
  obtain ⟨c, cs, rfl, hc⟩ := h
  refine ⟨c, cs, rfl, ?_⟩
  rcases hc with rfl | rfl | rfl
  · decide
  · decide
  · decide

theorem Group.opensGroup (ind : Indent) (level : Nat) (g : Group) (rest : Text) :
    OpensGroup (g.write ind level ++ rest) := by
  cases g with
  | tuple t => exact ⟨'('.toUInt8, _, rfl, Or.inr (Or.inr rfl)⟩
  | list l => exact ⟨'['.toUInt8, _, rfl, Or.inr (Or.inl rfl)⟩
  | keyed key first l => exact ⟨'['.toUInt8, _, rfl, Or.inr (Or.inl rfl)⟩
  | dict d => exact ⟨'{'.toUInt8, _, rfl, Or.inl rfl⟩

theorem orRetE_assoc {α β γ : Type} (x : Res (Option α)) (f : α → Res (Option β))
    (g : β → Res (Option γ)) : orRetE (orRetE x f) g = orRetE x fun a => orRetE (f a) g := by
  rcases x with e | _ | a
  · rfl
  · rfl
  · rfl

/-- A turn `T` that reads the three kinds of groups as `openGroup` does. -/
theorem openGroup_turn {β : Type} {depth n : Nat} {cur : Text} (hcur : OpensGroup cur)
    {T : Text → Res (Option β)} {f : VcfgItem × Text → Res (Option β)}
    (hdict : ∀ cs, T ('{'.toUInt8 :: cs) =
      orRetE (auxParseDict depth n none [] cs) fun (d, cur) => f (.dict depth d, cur))
    (hlist : ∀ cs, T ('['.toUInt8 :: cs) =
      orRetE (auxParseList depth n none [] cs) fun (l, cur) => f (.list depth l.1 l.2, cur))
    (htuple : ∀ cs, T ('('.toUInt8 :: cs) =
      orRetE (auxParseTuple depth n [] cs) fun (t, cur) => f (.tuple depth t, cur)) :
    T cur = orRetE (openGroup depth n cur) f := by
  obtain ⟨c, cs, rfl, hc⟩ := hcur
  rcases hc with rfl | rfl | rfl
  · rw [hdict, openGroup, if_pos rfl, orRetE_assoc]
    rfl
  · rw [hlist, openGroup, if_neg (by decide), if_pos rfl, orRetE_assoc]
    rfl
  · rw [htuple, openGroup, if_neg (by decide), if_neg (by decide), orRetE_assoc]
    rfl

theorem dict_open (depth n : Nat) (key : Text) (d : List (Text × VcfgItem)) {cur : Text}
    (hcur : OpensGroup cur) :
    dictLoop depth (n + 1) ((some key, d), cur) =
      orRetE (openGroup (depth + 1) n cur) fun (item, cur) =>
        auxParseDict depth n none (d ++ [(key, item)]) cur :=
  openGroup_turn hcur (T := fun cur => dictLoop depth (n + 1) ((some key, d), cur))
    (fun _ => rfl) (fun _ => rfl) fun _ => rfl

theorem list_open (depth n : Nat) (key : Option Text) (l : List VcfgItem) {cur : Text}
    (hcur : OpensGroup cur) :
    listLoop depth (n + 1) ((key, l), cur) =
      orRetE (openGroup (depth + 1) n cur) fun (item, cur) =>
        auxParseList depth n key (l ++ [item]) cur :=
  openGroup_turn hcur (T := fun cur => listLoop depth (n + 1) ((key, l), cur))
    (fun _ => rfl) (fun _ => rfl) fun _ => rfl

/-- A group is read, and what is left behind it is shorter. -/
def ReadsGroup (depth : Nat) (cur : Text) (item : VcfgItem) (next : Text) : Prop :=
  OpensGroup cur ∧ next.length < cur.length ∧
    Ends (openGroup depth) inner cur (.ok (some (item, next)))

theorem ReadsGroup.goes_dict {depth : Nat} {cur next : Text} {item : VcfgItem}
    (h : ReadsGroup (depth + 1) cur item next) (key : Text) (d : List (Text × VcfgItem)) :
    Goes (dictLoop depth) left ((some key, d), cur) ((none, d ++ [(key, item)]), next) := by
  obtain ⟨hopen, hlen, hends⟩ := h
  apply goes_of_turn
  · exact hlen
  intro n hn
  have hinner : inner cur < n := by
    obtain ⟨c, cs, rfl, -⟩ := hopen
    exact hn
  rw [dict_open depth n key d hopen, hends n hinner]
  rfl

theorem ReadsGroup.goes_list {depth : Nat} {cur next : Text} {item : VcfgItem}
    (h : ReadsGroup (depth + 1) cur item next) (key : Option Text) (l : List VcfgItem) :
    Goes (listLoop depth) left ((key, l), cur) ((key, l ++ [item]), next) := by
  obtain ⟨hopen, hlen, hends⟩ := h
  apply goes_of_turn
  · exact hlen
  intro n hn
  have hinner : inner cur < n := by
    obtain ⟨c, cs, rfl, -⟩ := hopen
    exact hn
  rw [list_open depth n key l hopen, hends n hinner]
  rfl

/-- The members of a group and its closing bracket. -/
theorem SkipsWhite.ends_lines {α β : Type} {loop : Nat → α × Text → Res (Option β)}
    (h : SkipsWhite loop) {a b : α} {lines close : Text} {r : Res (Option β)}
    (hlines : Goes loop left (a, skipWhite (lines ++ close)) (b, skipWhite close))
    (hline : Line (lines ++ close)) (hclose : Ends loop left (b, skipWhite close) r) :
    Ends loop left (a, lines ++ close) r :=
  (h.goes_line a hline).ends (hlines.ends hclose)

theorem tupleLoop_close (depth : Nat) (t : List VcfgItem) (rest : Text) :
    Ends (tupleLoop depth) left (t, ')'.toUInt8 :: rest) (.ok (some (t, skipWhite rest))) := by
  apply ends_of_turn
  intro n _
  show onCur (auxEatEndings rest) (fun cur => .ok (some (t, cur))) = _
  rw [eatEndings_eq]
  rfl

theorem listLoop_close (depth : Nat) (a : Option Text × List VcfgItem) (rest : Text) :
    Ends (listLoop depth) left (a, ']'.toUInt8 :: rest) (.ok (some (a, skipWhite rest))) := by
  apply ends_of_turn
  intro n _
  show onCur (auxEatEndings rest) (fun cur => .ok (some (a, cur))) = _
  rw [eatEndings_eq]
  rfl

theorem dictLoop_close (depth : Nat) (key : Option Text) (d : List (Text × VcfgItem))
    (rest : Text) :
    Ends (dictLoop depth) left ((key, d), '}'.toUInt8 :: rest)
      (.ok (some (d, skipWhite rest))) := by
  apply ends_of_turn
  intro n _
  show onCur (auxEatEndings rest) (fun cur => .ok (some (d, cur))) = _
  rw [eatEndings_eq]
  rfl

theorem openGroup_tuple {depth : Nat} {body next : Text} {t : List VcfgItem}
    (h : Ends (tupleLoop depth) left ([], body) (.ok (some (t, next)))) :
    Ends (openGroup depth) inner ('('.toUInt8 :: body) (.ok (some (.tuple depth t, next))) := by
  intro n hn
  show orRetE (tupleLoop depth n ([], body)) _ = _
  rw [h n hn]
  rfl

theorem openGroup_list {depth : Nat} {body next : Text} {key : Option Text} {l : List VcfgItem}
    (h : Ends (listLoop depth) left ((none, []), body) (.ok (some ((key, l), next)))) :
    Ends (openGroup depth) inner ('['.toUInt8 :: body)
      (.ok (some (.list depth key l, next))) := by
  intro n hn
  show orRetE (listLoop depth n ((none, []), body)) _ = _
  rw [h n hn]
  rfl

theorem openGroup_dict {depth : Nat} {body next : Text} {d : List (Text × VcfgItem)}
    (h : Ends (dictLoop depth) left ((none, []), body) (.ok (some (d, next)))) :
    Ends (openGroup depth) inner ('{'.toUInt8 :: body) (.ok (some (.dict depth d, next))) := by
  intro n hn
  show orRetE (dictLoop depth n ((none, []), body)) _ = _
  rw [h n hn]
  rfl

/-! ## Trees -/

/-- What stands in front of a member of a list does not change what the loop has. -/
structure Passes (depth : Nat) (key : Option Text) (tag : Text) : Prop where
  opens : ∀ {cur}, Opens cur → Opens (tag ++ cur)
  goes : ∀ l {cur}, OpensGroup cur →
    Goes (listLoop depth) left ((key, l), tag ++ cur) ((key, l), cur)

theorem passes_nil (depth : Nat) : Passes depth none [] := ⟨id, fun _ _ _ => Goes.refl _⟩

theorem Key.passes (key : Key) (depth : Nat) : Passes depth (some key.name) key.tag where
  opens _ := key.opens _
  goes l _ hcur := key.goes_list depth (Or.inr rfl) l hcur.beginsValue

theorem Scalar.line_lines (ind : Indent) (level : Nat) (t : List (Scalar isWord)) {cur : Text}
    (hcur : Line cur) : Line (Scalar.lines ind level t ++ cur) := by
  cases t with
  | nil => exact hcur
  | cons s t =>
    rw [Scalar.lines, List.flatMap_cons, List.append_assoc, List.append_assoc]
    exact ind.line level ((s.opens fun _ hc => isVal_of_word hc).append _)

theorem Group.line_lines (ind : Indent) (level : Nat) {depth : Nat} {key : Option Text}
    {tag : Text} (htag : Passes depth key tag) (l : List Group) {cur : Text} (hcur : Line cur) :
    Line (Group.lines ind level tag l ++ cur) := by
  cases l with
  | nil => exact hcur
  | cons g l =>
    have hopen := (g.opensGroup ind level (Group.lines ind level tag l ++ cur)).opens
    rw [Group.lines, List.append_assoc, List.append_assoc, List.append_assoc]
    exact ind.line level (htag.opens hopen)

theorem Entry.opens (ind : Indent) (level : Nat) (e : Entry) (cur : Text) :
    Opens (e.write ind level ++ cur) := by
  cases e with
  | str key s =>
    rw [Entry.write, List.append_assoc]
    exact key.opens _
  | group key g =>
    rw [Entry.write, List.append_assoc]
    exact key.opens _

theorem Entry.line_lines (ind : Indent) (level : Nat) (d : List Entry) {cur : Text}
    (hcur : Line cur) : Line (Entry.lines ind level d ++ cur) := by
  cases d with
  | nil => exact hcur
  | cons e d =>
    rw [Entry.lines, List.append_assoc, List.append_assoc]
    exact ind.line level (e.opens ind level _)

theorem Key.goes_str (key : Key) (depth : Nat) (d : List (Text × VcfgItem))
    (s : Scalar isDictHead) {cur : Text} (hcur : Line cur) :
    Goes (dictLoop depth) left ((some key.name, d), s.text ++ cur)
      ((none, d ++ [(key.name, .str (depth + 1) s.text)]), skipWhite cur) := by
  refine Goes.trans ?_ ((dictLoop_skips depth).goes_line _ hcur)
  apply goes_of_turn
  · simp only [left, Scalar.text, List.cons_append, List.length_cons, List.length_append]
    omega
  intro n _
  have hread := s.read (fun _ hc => isDictHead_val hc) hcur.endsValue
  rw [Scalar.text, List.cons_append] at hread ⊢
  rw [dict_head depth n s.head_ok, hread]
  rfl

mutual

theorem Group.readsGroup (ind : Indent) (level : Nat) (g : Group) (rest : Text) :
    ReadsGroup (level + 1) (g.write ind level ++ rest) (g.item (level + 1)) (skipWhite rest) := by
  refine ⟨g.opensGroup ind level rest, ?_, ?_⟩
  · have hopen := g.opensGroup ind level []
    have hrest := length_skipWhite_le rest
    obtain ⟨c, cs, htext, -⟩ := hopen
    rw [List.append_nil] at htext
    rw [htext, List.cons_append, List.length_cons, List.length_append]
    omega
  match g with
  | .tuple t =>
    have hclose : Opens (')'.toUInt8 :: rest) := ⟨_, _, rfl, by decide⟩
    have hlines := Scalar.goes_lines ind (level + 1) (level + 1) t [] (ind.line level hclose)
    have hend := tupleLoop_close (level + 1) (t.map fun s => .str (level + 2) s.text) rest
    rw [← ind.skipWhite_newline level hclose] at hend
    rw [Group.write, List.cons_append, List.append_assoc, List.append_assoc]
    apply openGroup_tuple
    exact (tupleLoop_skips _).ends_lines hlines
      (Scalar.line_lines ind (level + 1) t (ind.line level hclose)) hend
  | .list l =>
    have hclose : Opens (']'.toUInt8 :: rest) := ⟨_, _, rfl, by decide⟩
    have hlines := Group.goes_lines ind (level + 1) (passes_nil (level + 1)) l []
      (ind.line level hclose)
    have hend := listLoop_close (level + 1) (none, Group.items (level + 2) l) rest
    rw [← ind.skipWhite_newline level hclose] at hend
    rw [Group.write, List.cons_append, List.append_assoc, List.append_assoc]
    apply openGroup_list
    exact (listLoop_skips _).ends_lines hlines
      (Group.line_lines ind (level + 1) (passes_nil (level + 1)) l (ind.line level hclose)) hend
  | .keyed key first l =>
    have hclose : Opens (']'.toUInt8 :: rest) := ⟨_, _, rfl, by decide⟩
    let later := Group.lines ind (level + 1) key.tag l ++ (ind.newline level ++ ']'.toUInt8 :: rest)
    have hopen := first.opensGroup ind (level + 1) later
    have hkey := key.goes_list (level + 1) (Or.inl rfl) [] hopen.beginsValue
    have hfirst := (Group.readsGroup ind (level + 1) first later).goes_list (some key.name) []
    have hlines := Group.goes_lines ind (level + 1) (key.passes (level + 1)) l
      [first.item (level + 2)] (ind.line level hclose)
    have hend := listLoop_close (level + 1)
      (some key.name, first.item (level + 2) :: Group.items (level + 2) l) rest
    rw [← ind.skipWhite_newline level hclose] at hend
    have hbegin := (listLoop_skips (level + 1)).goes_line (none, [])
      (ind.line (level + 1) (key.opens (first.write ind (level + 1) ++ later)))
    rw [ind.skipWhite_newline (level + 1) (key.opens _)] at hbegin
    rw [Group.write, List.cons_append, List.append_assoc, List.append_assoc, List.append_assoc,
      List.append_assoc, List.append_assoc]
    apply openGroup_list
    exact hbegin.ends (hkey.ends (hfirst.ends (hlines.ends hend)))
  | .dict d =>
    have hclose : Opens ('}'.toUInt8 :: rest) := ⟨_, _, rfl, by decide⟩
    have hlines := Entry.goes_lines ind (level + 1) d [] (ind.line level hclose)
    have hend := dictLoop_close (level + 1) none (Entry.pairs (level + 2) d) rest
    rw [← ind.skipWhite_newline level hclose] at hend
    rw [Group.write, List.cons_append, List.append_assoc, List.append_assoc]
    apply openGroup_dict
    exact (dictLoop_skips _).ends_lines hlines
      (Entry.line_lines ind (level + 1) d (ind.line level hclose)) hend

theorem Group.goes_lines (ind : Indent) (level : Nat) {key : Option Text} {tag : Text}
    (htag : Passes level key tag) (l : List Group) (l' : List VcfgItem) {cur : Text}
    (hcur : Line cur) :
    Goes (listLoop level) left ((key, l'), skipWhite (Group.lines ind level tag l ++ cur))
      ((key, l' ++ Group.items (level + 1) l), skipWhite cur) := by
  match l with
  | [] =>
    rw [Group.items, List.append_nil]
    exact Goes.refl _
  | g :: l =>
    have hopen := g.opensGroup ind level (Group.lines ind level tag l ++ cur)
    have hmember := (Group.readsGroup ind level g (Group.lines ind level tag l ++ cur)).goes_list
      key l'
    have hrest := Group.goes_lines ind level htag l (l' ++ [g.item (level + 1)]) hcur
    rw [List.append_assoc] at hrest
    rw [Group.lines, List.append_assoc, List.append_assoc, List.append_assoc,
      ind.skipWhite_newline level (htag.opens hopen.opens)]
    exact (htag.goes l' hopen).trans (hmember.trans hrest)

theorem Entry.goes (ind : Indent) (level : Nat) (e : Entry) (d : List (Text × VcfgItem))
    {cur : Text} (hcur : Line cur) :
    Goes (dictLoop level) left ((none, d), e.write ind level ++ cur)
      ((none, d ++ [e.pair (level + 1)]), skipWhite cur) := by
  match e with
  | .str key s =>
    rw [Entry.write, List.append_assoc]
    exact (key.goes_dict level d (s.beginsValue cur)).trans (key.goes_str level d s hcur)
  | .group key g =>
    have hopen := g.opensGroup ind level cur
    rw [Entry.write, List.append_assoc]
    exact (key.goes_dict level d hopen.beginsValue).trans
      ((Group.readsGroup ind level g cur).goes_dict key.name d)

theorem Entry.goes_lines (ind : Indent) (level : Nat) (d : List Entry)
    (d' : List (Text × VcfgItem)) {cur : Text} (hcur : Line cur) :
    Goes (dictLoop level) left ((none, d'), skipWhite (Entry.lines ind level d ++ cur))
      ((none, d' ++ Entry.pairs (level + 1) d), skipWhite cur) := by
  match d with
  | [] =>
    rw [Entry.pairs, List.append_nil]
    exact Goes.refl _
  | e :: d =>
    have hentry := Entry.goes ind level e d' (Entry.line_lines ind level d hcur)
    have hrest := Entry.goes_lines ind level d (d' ++ [e.pair (level + 1)]) hcur
    rw [List.append_assoc] at hrest
    rw [Entry.lines, List.append_assoc, List.append_assoc,
      ind.skipWhite_newline level (e.opens ind level _)]
    exact hentry.trans hrest

end

/-- The text of a configuration, of any tree and however it is indented, is parsed back to the item
of that tree. No condition on the words is left, since an entry can only be built of words that the
parser takes for one. -/
theorem parseConfig_writeConfig (ind : Indent) (d : List Entry) :
    parseConfig (writeConfig ind d) = .ok (some ((Group.dict d).item 0)) := by
  have hread : Ends (dictLoop 0) left ((none, []), writeConfig ind d)
      (.ok (some (Entry.pairs 1 d, []))) := by
    have hend : Ends (dictLoop 0) left ((none, Entry.pairs 1 d), [])
        (.ok (some (Entry.pairs 1 d, []))) := ends_of_turn fun _ _ => rfl
    have hlines := (Entry.goes_lines ind 0 d [] (Or.inl rfl)).ends hend
    rw [List.append_nil] at hlines
    cases d with
    | nil => exact hend
    | cons e d =>
      have hopen := e.opens ind 0 (Entry.lines ind 0 d)
      rw [Entry.lines, ind.skipWhite_newline 0 hopen] at hlines
      exact ((dictLoop_skips 0).goes_blanks (none, []) (ind.blank 0) hopen).ends hlines
  have hdict := hread _ (Nat.lt_succ_self _)
  rw [dictLoop] at hdict
  rw [parseConfig, left] at *
  rw [hdict]
  rfl

end Vdht.Cfg
