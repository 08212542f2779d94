import Vdht.Core.RoundTrip

/-!
# The end of the encoder's buffer

Every text that `be_encode` prints is compared with the room that is left, and a text that does not
fit ends the call with `-1`. The bytes of a string are copied without a comparison, and nothing
looks at the room between the items of a list. So the buffer is respected unless it ends inside the
bytes of a string, or right behind a string that is followed by another item.
-/

namespace Vdht.Core

open Lib

variable {t : BeNode} {l : List BeNode} {d : List (BeStr × BeNode)} {len k : Int}

/-- The text in front of the bytes of a string. -/
def strHead (s : BeStr) : List UInt8 := decimal s.len ++ cstr ":"

/-- The text in front of the value of a key. -/
def keyText (key : BeStr) : List UInt8 := decimal key.len ++ cstr ":" ++ cText key.bytes

/-- The call returns `-1` or a number of bytes from one to `len`, and stores nothing behind the end
of the buffer. -/
def Bounded (t : BeNode) (len : Int) : Prop :=
  ∃ r, beEncode t len = .ok r ∧ ∀ out, r = some out → 0 < out.length ∧ (out.length : Int) ≤ len

/-- Behind `len` bytes the text of the tree is inside the bytes of a string, or at the end of a
string, not an empty one, that another item of the same list follows. -/
inductive Cut : BeNode → Int → Prop where
  | str {s : BeStr} {len : Int} (head : (strHead s).length < len)
      (bytes : len < (serialize (.str s)).length) : Cut (.str s) len
  | item {f b : List BeNode} {t : BeNode} {len : Int}
      (h : Cut t (len - 1 - (f.flatMap serialize).length)) : Cut (.list (f ++ t :: b)) len
  | behind {f b : List BeNode} {s : BeStr} {t : BeNode} {len : Int} (bytes : s.bytes ≠ [])
      (h : len - 1 - (f.flatMap serialize).length = (serialize (.str s)).length) :
      Cut (.list (f ++ .str s :: t :: b)) len
  | value {f b : List (BeStr × BeNode)} {key : BeStr} {t : BeNode} {len : Int}
      (h : Cut t (len - 1 - (f.flatMap serializePair).length - (keyText key).length)) :
      Cut (.dict (f ++ (key, t) :: b)) len

/-- The text fits with a byte to spare, or it ends in the bytes of a string. -/
def Fits (t : BeNode) (len : Int) : Prop :=
  (serialize t).length < len ∨
    (serialize t).length = len ∧ ∃ s : BeStr, t = .str s ∧ s.bytes ≠ []

/-! ## Where the text is cut -/

/-- The loop over a list is cut when it has room for `k` bytes. -/
def CutItems (l : List BeNode) (k : Int) : Prop :=
  ∃ f t b, l = f ++ t :: b ∧
    (Cut t (k - (f.flatMap serialize).length) ∨
      b ≠ [] ∧ (∃ s : BeStr, t = .str s ∧ s.bytes ≠ []) ∧
        k - (f.flatMap serialize).length = (serialize t).length)

/-- The loop over a dictionary is cut when it has room for `k` bytes. -/
def CutEntries (d : List (BeStr × BeNode)) (k : Int) : Prop :=
  ∃ f e b, d = f ++ e :: b ∧
    Cut e.2 (k - (f.flatMap serializePair).length - (keyText e.1).length)

theorem cut_str {s : BeStr} :
    Cut (.str s) len ↔ (strHead s).length < len ∧ len < (serialize (.str s)).length := by
  constructor
  · intro h
    cases h with
    | str head bytes => exact ⟨head, bytes⟩
  · rintro ⟨head, bytes⟩
    exact .str head bytes

theorem not_cut_int {i : Int32} : ¬ Cut (.int i) len := by
  intro h
  cases h

theorem cut_list : Cut (.list l) len ↔ CutItems l (len - 1) := by
  constructor
  · intro h
    cases h with
    | item h => exact ⟨_, _, _, rfl, Or.inl h⟩
    | behind bytes h =>
      exact ⟨_, _, _, rfl, Or.inr ⟨List.cons_ne_nil _ _, ⟨_, rfl, bytes⟩, h⟩⟩
  · rintro ⟨f, t, b, rfl, h | ⟨hb, ⟨s, rfl, bytes⟩, h⟩⟩
    · exact .item h
    · obtain ⟨u, b, rfl⟩ := List.exists_cons_of_ne_nil hb
      exact .behind bytes h

theorem cut_dict : Cut (.dict d) len ↔ CutEntries d (len - 1) := by
  constructor
  · intro h
    cases h with
    | value h => exact ⟨_, _, _, rfl, h⟩
  · rintro ⟨f, e, b, rfl, h⟩
    exact .value h

/-- A split at an item is a split at the first item or behind it. -/
theorem exists_split_cons {α : Type} {a : α} {l : List α} {P : List α → α → List α → Prop} :
    (∃ f x b, a :: l = f ++ x :: b ∧ P f x b) ↔
      P [] a l ∨ ∃ f x b, l = f ++ x :: b ∧ P (a :: f) x b := by
  constructor
  · rintro ⟨f, x, b, h, hp⟩
    cases f with
    | nil =>
      cases h
      exact Or.inl hp
    | cons y f =>
      cases h
      exact Or.inr ⟨f, x, b, rfl, hp⟩
  · rintro (hp | ⟨f, x, b, rfl, hp⟩)
    · exact ⟨[], a, l, rfl, hp⟩
    · exact ⟨a :: f, x, b, rfl, hp⟩

theorem cutItems_nil : ¬ CutItems [] k := by
  rintro ⟨f, t, b, h, -⟩
  exact List.append_ne_nil_of_right_ne_nil f (List.cons_ne_nil t b) h.symm

theorem cutItems_cons :
    CutItems (t :: l) k ↔
      Cut t k ∨ (l ≠ [] ∧ (∃ s : BeStr, t = .str s ∧ s.bytes ≠ []) ∧ k = (serialize t).length) ∨
        CutItems l (k - (serialize t).length) := by
  unfold CutItems
  rw [exists_split_cons]
  simp only [List.flatMap_nil, List.flatMap_cons, List.length_nil, List.length_append,
    Nat.cast_zero, Nat.cast_add, Int.sub_zero, Int.sub_sub, or_assoc]

theorem cutEntries_nil : ¬ CutEntries [] k := by
  rintro ⟨f, e, b, h, -⟩
  exact List.append_ne_nil_of_right_ne_nil f (List.cons_ne_nil _ b) h.symm

theorem cutEntries_cons {e : BeStr × BeNode} :
    CutEntries (e :: d) k ↔
      Cut e.2 (k - (keyText e.1).length) ∨ CutEntries d (k - (serializePair e).length) := by
  unfold CutEntries
  rw [exists_split_cons]
  simp only [List.flatMap_nil, List.flatMap_cons, List.length_nil, List.length_append,
    Nat.cast_zero, Nat.cast_add, Int.sub_zero, Int.sub_sub]

theorem Cut.pos (h : Cut t len) : 0 < len := by
  induction h with
  | str head bytes => omega
  | item h ih => omega
  | behind bytes h => omega
  | value h ih => omega

theorem CutItems.pos (h : CutItems l k) : 0 < k := by
  have hcut : Cut (.list l) (k + 1) := cut_list.mpr (by rwa [Int.add_sub_cancel])
  obtain ⟨f, t, b, -, hitem | ⟨-, -, hend⟩⟩ := h
  · have := hitem.pos
    omega
  · have := serialize_length_pos t
    omega

theorem CutEntries.pos (h : CutEntries d k) : 0 < k := by
  obtain ⟨f, e, b, -, hvalue⟩ := h
  have := hvalue.pos
  omega

/-! ## What is written -/

section Parts

variable {p out : List UInt8} {next : Int → Res (Option (List UInt8))}

@[simp] theorem andPut_error (e : Fault) : andPut (.error e) len next = .error e := rfl

@[simp] theorem andPut_none : andPut (.ok none) len next = .ok none := rfl

theorem andPut_next_error {e : Fault} (h : next (len - p.length) = .error e) :
    andPut (.ok (some p)) len next = .error e := by
  rw [andPut, h]

theorem andPut_next_none (h : next (len - p.length) = .ok none) :
    andPut (.ok (some p)) len next = .ok none := by
  rw [andPut, h]

theorem andPut_next_some (h : next (len - p.length) = .ok (some out)) :
    andPut (.ok (some p)) len next = .ok (some (p ++ out)) := by
  rw [andPut, h]

theorem snprintf_none (h : len ≤ p.length) : snprintf len p = none := if_pos h

theorem snprintf_fits (h : p.length < len) : snprintf len p = some p := if_neg (by omega)

end Parts

/-- The three ways in which the encoding of a tree ends. -/
structure Outcome (t : BeNode) (len : Int) : Prop where
  cut : Cut t len → ∃ e, beEncode t len = .error e
  ends : ¬ Cut t len →
    beEncode t len = .ok none ∨ beEncode t len = .ok (some (serialize t)) ∧ Fits t len

theorem length_lt_of_none (h : beEncode t len = .ok none) : len ≤ (serialize t).length := by
  by_contra hlt
  rw [beEncode_of_room t len (by omega)] at h
  cases h

theorem beEncode_str {s : BeStr} (h : 0 < len) :
    beEncode (.str s) len =
      if len ≤ (strHead s).length then .ok none
      else if len < (serialize (.str s)).length then .error .bounds
      else .ok (some (serialize (.str s))) := by
  have hlen : s.len = s.bytes.length := rfl
  have htext : serialize (.str s) = strHead s ++ s.bytes := rfl
  rw [beEncode, if_neg (by omega)]
  show andPut (.ok (snprintf len (strHead s))) len (copyOut s) = _
  split
  · rename_i hle
    rw [snprintf_none hle, andPut_none]
  · rename_i hlt
    rw [snprintf_fits (by omega), htext, List.length_append]
    split
    · rename_i hcut
      apply andPut_next_error
      rw [copyOut, if_pos (by omega)]
    · rename_i hfits
      apply andPut_next_some
      rw [copyOut, if_neg (by omega)]

theorem outcome_str {s : BeStr} (h : 0 < len) : Outcome (.str s) len := by
  have htext : (serialize (.str s)).length = (strHead s).length + s.bytes.length :=
    List.length_append
  constructor
  · intro hcut
    obtain ⟨hhead, hbytes⟩ := cut_str.mp hcut
    rw [beEncode_str h, if_neg (by omega), if_pos hbytes]
    exact ⟨_, rfl⟩
  · intro hnot
    rw [beEncode_str h]
    by_cases hhead : len ≤ (strHead s).length
    · exact Or.inl (if_pos hhead)
    · have hbytes : ¬ len < (serialize (.str s)).length := fun hlt =>
        hnot (cut_str.mpr ⟨by omega, hlt⟩)
      rw [if_neg hhead, if_neg hbytes]
      refine Or.inr ⟨rfl, ?_⟩
      rcases Int.lt_or_eq_of_le (Int.not_lt.mp hbytes) with hlt | heq
      · exact Or.inl hlt
      · refine Or.inr ⟨heq, s, rfl, fun hnil => ?_⟩
        rw [hnil, List.length_nil] at htext
        omega

/-- The end of a string that is not empty may be the end of the buffer. -/
theorem beEncode_str_full {s : BeStr} (h : s.bytes ≠ []) :
    beEncode (.str s) (serialize (.str s)).length = .ok (some (serialize (.str s))) := by
  have htext : (serialize (.str s)).length = (strHead s).length + s.bytes.length :=
    List.length_append
  have hpos := List.length_pos_iff.mpr h
  rw [beEncode_str (by omega), if_neg (by omega), if_neg (by omega)]

theorem beEncode_no_room (t : BeNode) : beEncode t 0 = .error .assertion := by
  unfold beEncode
  exact if_pos (Int.le_refl 0)

/-- The loop over a list, when every item in it ends in one of the three ways. -/
theorem outcome_items (h : ∀ t ∈ l, ∀ k : Int, 0 < k → Outcome t k) (hk : 0 < k) :
    (CutItems l k → ∃ e, beEncodeList l k = .error e) ∧
      (¬ CutItems l k → beEncodeList l k = .ok none ∨
        beEncodeList l k = .ok (some (serializeList l)) ∧ (serializeList l).length < k) := by
  induction l generalizing k with
  | nil =>
    refine ⟨fun hcut => absurd hcut cutItems_nil, fun _ => ?_⟩
    rw [beEncodeList, serializeList]
    by_cases hle : k ≤ (cstr "e").length
    · rw [snprintf_none hle]
      exact Or.inl rfl
    · rw [snprintf_fits (by omega)]
      exact Or.inr ⟨rfl, by omega⟩
  | cons t l ih =>
    have ht := h t List.mem_cons_self k hk
    rw [beEncodeList, cutItems_cons]
    by_cases hcut : Cut t k
    · obtain ⟨e, he⟩ := ht.cut hcut
      rw [he]
      exact ⟨fun _ => ⟨e, rfl⟩, fun hnot => absurd (Or.inl hcut) hnot⟩
    rcases ht.ends hcut with hnone | ⟨hsome, hfits⟩
    · have hlen := length_lt_of_none hnone
      rw [hnone]
      refine ⟨?_, fun _ => Or.inl rfl⟩
      rintro (hc | ⟨-, ⟨s, rfl, hbytes⟩, hend⟩ | hc)
      · exact absurd hc hcut
      · rw [hend, beEncode_str_full hbytes] at hnone
        cases hnone
      · have := hc.pos
        omega
    · rw [hsome]
      rcases hfits with hlt | ⟨heq, s, hs⟩
      · obtain ⟨hbad, hgood⟩ := @ih (k - (serialize t).length)
          (fun u hu => h u (List.mem_cons_of_mem _ hu)) (by omega)
        constructor
        · rintro (hc | ⟨-, -, hend⟩ | hc)
          · exact absurd hc hcut
          · omega
          · obtain ⟨e, he⟩ := hbad hc
            exact ⟨e, andPut_next_error he⟩
        · intro hnot
          rcases hgood fun hc => hnot (Or.inr (Or.inr hc)) with hnone | ⟨hrest, hroom⟩
          · exact Or.inl (andPut_next_none hnone)
          · refine Or.inr ⟨andPut_next_some hrest, ?_⟩
            rw [serializeList, List.length_append]
            omega
      · have hroom : k - (serialize t).length = 0 := by omega
        cases l with
        | nil =>
          have hnone : beEncodeList [] (k - (serialize t).length) = .ok none := by
            rw [hroom]
            rfl
          refine ⟨?_, fun _ => Or.inl (andPut_next_none hnone)⟩
          rintro (hc | ⟨hne, -, -⟩ | hc)
          · exact absurd hc hcut
          · exact absurd rfl hne
          · exact absurd hc cutItems_nil
        | cons u l =>
          have herr : beEncodeList (u :: l) (k - (serialize t).length) = .error .assertion := by
            rw [hroom, beEncodeList, beEncode_no_room, andPut_error]
          refine ⟨fun _ => ⟨_, andPut_next_error herr⟩, fun hnot => ?_⟩
          exact absurd (Or.inr (Or.inl ⟨List.cons_ne_nil u l, ⟨s, hs⟩, heq.symm⟩)) hnot

/-- One entry of a dictionary. -/
theorem outcome_pair {key : BeStr} (h : ∀ k : Int, 0 < k → Outcome t k) :
    (Cut t (k - (keyText key).length) → ∃ e, beEncodePair (key, t) k = .error e) ∧
      (¬ Cut t (k - (keyText key).length) → beEncodePair (key, t) k = .ok none ∧
          k ≤ (serializePair (key, t)).length ∨
        beEncodePair (key, t) k = .ok (some (serializePair (key, t))) ∧
          (serializePair (key, t)).length ≤ k) := by
  have htext : (serializePair (key, t)).length = (keyText key).length + (serialize t).length :=
    List.length_append
  have hpair : beEncodePair (key, t) k =
      andPut (.ok (snprintf k (keyText key))) k (beEncode t) := by
    rw [beEncodePair]
    rfl
  rw [hpair]
  by_cases hkey : k ≤ (keyText key).length
  · rw [snprintf_none hkey]
    refine ⟨fun hcut => ?_, fun _ => Or.inl ⟨rfl, by omega⟩⟩
    have := hcut.pos
    omega
  · rw [snprintf_fits (by omega)]
    have ht := h (k - (keyText key).length) (by omega)
    constructor
    · intro hcut
      obtain ⟨e, he⟩ := ht.cut hcut
      exact ⟨e, andPut_next_error he⟩
    · intro hnot
      rcases ht.ends hnot with hnone | ⟨hsome, hfits⟩
      · have hlen := length_lt_of_none hnone
        exact Or.inl ⟨andPut_next_none hnone, by omega⟩
      · refine Or.inr ⟨andPut_next_some hsome, ?_⟩
        rcases hfits with hlt | ⟨heq, -⟩ <;> omega

/-- The loop over a dictionary looks at the room before every entry. -/
theorem outcome_entries (h : ∀ e ∈ d, ∀ k : Int, 0 < k → Outcome e.2 k) :
    (CutEntries d k → ∃ err, beEncodeDict d k = .error err) ∧
      (¬ CutEntries d k → beEncodeDict d k = .ok none ∨
        beEncodeDict d k = .ok (some (serializeDict d)) ∧ (serializeDict d).length < k) := by
  induction d generalizing k with
  | nil =>
    refine ⟨fun hcut => absurd hcut cutEntries_nil, fun _ => ?_⟩
    rw [beEncodeDict, serializeDict]
    by_cases hle : k ≤ (cstr "e").length
    · rw [snprintf_none hle]
      exact Or.inl rfl
    · rw [snprintf_fits (by omega)]
      exact Or.inr ⟨rfl, by omega⟩
  | cons e d ih =>
    obtain ⟨key, t⟩ := e
    obtain ⟨hbad, hgood⟩ := @outcome_pair t k key (h (key, t) List.mem_cons_self)
    rw [beEncodeDict, cutEntries_cons]
    dsimp only
    by_cases hcut : Cut t (k - (keyText key).length)
    · obtain ⟨err, herr⟩ := hbad hcut
      rw [herr]
      exact ⟨fun _ => ⟨err, rfl⟩, fun hnot => absurd (Or.inl hcut) hnot⟩
    rcases hgood hcut with ⟨hnone, hlen⟩ | ⟨hsome, hlen⟩
    · rw [hnone]
      refine ⟨?_, fun _ => Or.inl rfl⟩
      rintro (hc | hc)
      · exact absurd hc hcut
      · have := hc.pos
        omega
    · rw [hsome]
      obtain ⟨hbad', hgood'⟩ := @ih (k - (serializePair (key, t)).length)
        fun u hu => h u (List.mem_cons_of_mem _ hu)
      constructor
      · rintro (hc | hc)
        · exact absurd hc hcut
        · obtain ⟨err, herr⟩ := hbad' hc
          exact ⟨err, andPut_next_error herr⟩
      · intro hnot
        rcases hgood' fun hc => hnot (Or.inr hc) with hnone | ⟨hrest, hroom⟩
        · exact Or.inl (andPut_next_none hnone)
        · refine Or.inr ⟨andPut_next_some hrest, ?_⟩
          rw [serializeDict, List.length_append]
          omega

/-- A list or a dictionary, behind its first byte. -/
theorem outcome_container {head text : List UInt8} {loop : Int → Res (Option (List UInt8))}
    {C : Int → Prop} (hhead : head.length = 1)
    (henc : beEncode t len = andPut (.ok (snprintf len head)) len loop)
    (htext : serialize t = head ++ text) (hcut : Cut t len ↔ C (len - 1))
    (hpos : C (len - 1) → 0 < len - 1)
    (hloop : 0 < len - 1 → (C (len - 1) → ∃ e, loop (len - 1) = .error e) ∧
      (¬ C (len - 1) → loop (len - 1) = .ok none ∨
        loop (len - 1) = .ok (some text) ∧ text.length < len - 1)) : Outcome t len := by
  by_cases hle : len ≤ head.length
  · rw [snprintf_none hle, andPut_none] at henc
    refine ⟨fun hc => ?_, fun _ => Or.inl henc⟩
    have := hpos (hcut.mp hc)
    omega
  · rw [snprintf_fits (by omega)] at henc
    obtain ⟨hbad, hgood⟩ := hloop (by omega)
    have hroom : len - head.length = len - 1 := by omega
    constructor
    · intro hc
      obtain ⟨e, he⟩ := hbad (hcut.mp hc)
      exact ⟨e, henc.trans (andPut_next_error (by rw [hroom, he]))⟩
    · intro hnot
      rcases hgood fun hc => hnot (hcut.mpr hc) with hnone | ⟨hsome, hlt⟩
      · exact Or.inl (henc.trans (andPut_next_none (by rw [hroom, hnone])))
      · have hput : beEncode t len = .ok (some (serialize t)) := by
          rw [htext]
          exact henc.trans (andPut_next_some (by rw [hroom, hsome]))
        refine Or.inr ⟨hput, Or.inl ?_⟩
        rw [htext, List.length_append]
        omega

theorem beEncode_outcome (t : BeNode) : ∀ len : Int, 0 < len → Outcome t len := by
  induction t with
  | str s => exact fun len h => outcome_str h
  | int i =>
    intro len h
    have henc : beEncode (.int i) len = .ok (snprintf len (serialize (.int i))) := by
      rw [beEncode, if_neg (by omega)]
      rfl
    refine ⟨fun hcut => absurd hcut not_cut_int, fun _ => ?_⟩
    rw [henc]
    by_cases hle : len ≤ (serialize (.int i)).length
    · rw [snprintf_none hle]
      exact Or.inl rfl
    · rw [snprintf_fits (by omega)]
      exact Or.inr ⟨rfl, Or.inl (by omega)⟩
  | list l ih =>
    intro len h
    exact outcome_container rfl (by rw [beEncode, if_neg (by omega)]) rfl cut_list CutItems.pos
      (outcome_items ih)
  | dict d ih =>
    intro len h
    exact outcome_container rfl (by rw [beEncode, if_neg (by omega)]) rfl cut_dict CutEntries.pos
      fun _ => outcome_entries ih

/-- For any tree and any buffer with room for a byte: the encoder returns, reports no more bytes
than the buffer has and at least one, and stores nothing behind its end, exactly when the end of the
buffer does not cut the text inside of a string or between it and a further item. -/
theorem beEncode_bounded_iff (t : BeNode) (h : 0 < len) : Bounded t len ↔ ¬ Cut t len := by
  have ht := beEncode_outcome t len h
  constructor
  · rintro ⟨r, hr, -⟩ hcut
    obtain ⟨e, he⟩ := ht.cut hcut
    rw [he] at hr
    cases hr
  · intro hnot
    rcases ht.ends hnot with hnone | ⟨hsome, hfits⟩
    · exact ⟨none, hnone, fun out hout => by cases hout⟩
    · refine ⟨_, hsome, fun out hout => ?_⟩
      cases hout
      refine ⟨serialize_length_pos t, ?_⟩
      rcases hfits with hlt | ⟨heq, -⟩ <;> omega

/-- The string node of the word, as `be_create_str` makes it. -/
def helloNode : BeNode := .str ⟨cstr "hello", by decide⟩

/-- The text of seven bytes fits in seven bytes. -/
theorem beEncode_bounded_iff_hello : Bounded helloNode 7 ↔ ¬ Cut helloNode 7 :=
  beEncode_bounded_iff helloNode (by decide)

/-- With room for four bytes the text is cut inside the string, which is copied all the same. -/
theorem hello_overruns : ¬ Bounded helloNode 4 := by
  rintro ⟨r, hr, -⟩
  have herr : beEncode helloNode 4 = .error .bounds := rfl
  rw [herr] at hr
  cases hr

end Vdht.Core
