import Vdht.Core.Taken

/-!
# The language of the decoder

`Spells` is the bencode grammar with canonical numbers: every tree without a NUL in a key has one
word, the text that the encoder writes. The decoder takes more words than these, because `strtol`
skips blanks and leading zeros, takes a sign, reads an empty number as zero, and is cut to 32 bits.
On a message in a buffer that goes on with zeros it follows the grammar exactly when the message
does not start with such a sloppy word.
-/

namespace Vdht.Core

open Lib

/-! ## The grammar -/

/-- The word is a canonical length, a colon and as many bytes. -/
inductive SpellsStr : List UInt8 → BeStr → Prop where
  | mk {w : List UInt8} {s : BeStr} (h : CanonicalNat w s.len) :
      SpellsStr (w ++ ':'.toUInt8 :: s.bytes) s

mutual

/-- The word `w` of the grammar denotes the tree `t`. -/
inductive Spells : List UInt8 → BeNode → Prop where
  | str {w : List UInt8} {s : BeStr} (h : SpellsStr w s) : Spells w (.str s)
  | int {w : List UInt8} {i : Int32} (h : Canonical w i.toInt) :
      Spells ('i'.toUInt8 :: (w ++ ['e'.toUInt8])) (.int i)
  | list {w : List UInt8} {l : List BeNode} (h : SpellsItems w l) :
      Spells ('l'.toUInt8 :: (w ++ ['e'.toUInt8])) (.list l)
  | dict {w : List UInt8} {d : List (BeStr × BeNode)} (h : SpellsEntries w d) :
      Spells ('d'.toUInt8 :: (w ++ ['e'.toUInt8])) (.dict d)

/-- The word spells the members of a list in their order. -/
inductive SpellsItems : List UInt8 → List BeNode → Prop where
  | nil : SpellsItems [] []
  | cons {v w : List UInt8} {t : BeNode} {l : List BeNode} (hv : Spells v t)
      (h : SpellsItems w l) : SpellsItems (v ++ w) (t :: l)

/-- The word spells the pairs of a dictionary in their order, which is not sorted by key. -/
inductive SpellsEntries : List UInt8 → List (BeStr × BeNode) → Prop where
  | nil : SpellsEntries [] []
  | cons {x v w : List UInt8} {key : BeStr} {t : BeNode} {d : List (BeStr × BeNode)}
      (hx : SpellsStr x key) (hv : Spells v t) (h : SpellsEntries w d) :
      SpellsEntries (x ++ v ++ w) ((key, t) :: d)

end

/-- A message in a buffer that has `n + 1` zeros behind it. -/
def padded (s : List UInt8) (n : Nat) : List UInt8 := s ++ List.replicate (n + 1) 0

/-- The decoder returns the trees that are spelled at the front of the message, and a tree that it
returns is encoded as it was spelled. -/
structure FollowsGrammar (s : List UInt8) (n : Nat) : Prop where
  returns : ∀ t, (∃ c, beDecode (padded s n) s.length = .ok (some (t, c))) ↔
    ∃ w m, s = w ++ m ∧ Spells w t
  reencodes : ∀ w m t, s = w ++ m →
    beDecode (padded s n) s.length = .ok (some (t, ⟨padded m n, m.length⟩)) → KeysNulFree t →
    ∀ len : Int, w.length < len → beEncode t len = .ok (some w)

/-- The message starts with a word that is taken although one of its numbers is not canonical. -/
def StartsSloppy (s : List UInt8) : Prop :=
  ∃ w m t, s = w ++ m ∧ Taken s.length w t ∧ ¬ Spells w t

variable {k : Int} {n : Nat} {w m s : List UInt8} {t : BeNode} {l : List BeNode}
  {d : List (BeStr × BeNode)} {key : BeStr}

/-! ## Canonical words are taken -/

theorem asInt32_len (s : BeStr) : asInt32 s.len = s.len := by
  have hshort : s.len < 2 ^ 31 := s.short
  rw [asInt32, Int32.toInt_ofInt_of_le (by omega) (by omega)]

theorem inLong_toInt (i : Int32) : InLong i.toInt := by
  have hlt := i.toInt_lt
  have hle := i.le_toInt
  constructor <;> omega

theorem inLong_len (s : BeStr) : InLong s.len := by
  have hshort : s.len < 2 ^ 31 := s.short
  constructor <;> omega

theorem SpellsStr.taken (h : SpellsStr w key) (hk : w.length ≤ k) :
    StrTaken k w key ∧ StartsWithDigit w := by
  cases h with
  | @mk w _ h =>
    have hbytes : key.bytes.length = key.len := rfl
    rw [List.length_append, List.length_cons, hbytes] at hk
    refine ⟨.mk ((Canonical.nat h).numeral (inLong_len key)) (asInt32_len key) (by omega), ?_⟩
    obtain ⟨b, m, rfl, hdig⟩ := h.head_digit
    exact ⟨b, _, rfl, hdig⟩

theorem Spells.taken_int {i : Int32} (h : Canonical w i.toInt)
    (hk : ('i'.toUInt8 :: (w ++ ['e'.toUInt8])).length ≤ k) :
    Taken k ('i'.toUInt8 :: (w ++ ['e'.toUInt8])) (.int i) := by
  rw [List.length_cons] at hk
  have hint := @Taken.int k _ w (by omega) (h.numeral (inLong_toInt i))
  rwa [Int32.ofInt_toInt] at hint

mutual

theorem Spells.taken {w : List UInt8} {t : BeNode} (h : Spells w t) :
    ∀ k : Int, w.length ≤ k → Taken k w t :=
  match h with
  | .str h => fun _ hk => .str (h.taken hk).1 (h.taken hk).2
  | .int h => fun _ hk => Spells.taken_int h hk
  | .list h => fun k hk => by
    rw [List.length_cons, List.length_append, List.length_singleton] at hk
    exact .list (by omega) (h.taken (k - 1) (by omega))
  | .dict h => fun k hk => by
    rw [List.length_cons, List.length_append, List.length_singleton] at hk
    exact .dict (by omega) (h.taken (k - 1) (by omega))

theorem SpellsItems.taken {w : List UInt8} {l : List BeNode} (h : SpellsItems w l) :
    ∀ k : Int, w.length ≤ k → TakenItems k w l :=
  match h with
  | .nil => fun _ _ => .nil
  | .cons hv h => fun k hk => by
    rw [List.length_append] at hk
    exact .cons (hv.taken k (by omega)) (h.taken _ (by omega))

theorem SpellsEntries.taken {w : List UInt8} {d : List (BeStr × BeNode)}
    (h : SpellsEntries w d) : ∀ k : Int, w.length ≤ k → TakenEntries k w d :=
  match h with
  | .nil => fun _ _ => .nil
  | .cons hx hv h => fun k hk => by
    simp only [List.length_append] at hk
    refine .cons (hx.taken (by omega)).1 (hv.taken _ (by omega)) (h.taken _ ?_)
    rw [List.length_append]
    omega

end

/-! ## Words in a padded buffer -/

theorem zero_not_mem_numeral {v : Int} (h : Numeral w v) : 0 ∉ w := by
  cases h with
  | absent => simp
  | @digits blanks sign ds neg hb hs hd _ _ =>
    simp only [List.mem_append, not_or]
    refine ⟨fun h => absurd (hb 0 h) (by decide), fun h => ?_, fun h => absurd (hd 0 h) (by decide)⟩
    cases hs with
    | none => simp at h
    | plus => exact absurd (List.mem_singleton.mp h) (by decide)
    | minus => exact absurd (List.mem_singleton.mp h) (by decide)

/-- The word ends before the zeros that follow the promised bytes. -/
def StaysIn (k : Int) (w : List UInt8) : Prop :=
  ∀ s n m, padded s n = w ++ m → k = s.length → w.length ≤ s.length

/-- What is left of a padded message behind a word. -/
theorem padded_split (h : padded s n = w ++ m) (hw : w.length ≤ s.length) :
    ∃ u, s = w ++ u ∧ m = padded u n := by
  obtain ⟨u, hu, hm⟩ | ⟨u, hu, hm⟩ := List.append_eq_append_iff.mp h
  · have hnil : u = [] := by
      rw [hu, List.length_append] at hw
      exact List.length_eq_zero_iff.mp (by omega)
    subst hnil
    exact ⟨[], by rw [hu]; simp, hm.symm⟩
  · exact ⟨u, hu, hm⟩

theorem StaysIn.append {x : List UInt8} (hx : StaysIn k x) (hw : StaysIn (k - x.length) w) :
    StaysIn k (x ++ w) := by
  intro s n m h hk
  rw [List.append_assoc] at h
  have hlen := hx s n (w ++ m) h hk
  obtain ⟨u, rfl, hu⟩ := padded_split h hlen
  rw [List.length_append] at hk
  have := hw u n m hu.symm (by omega)
  simp only [List.length_append]
  omega

theorem staysIn_of_no_nul (h : 0 ∉ w) : StaysIn k w := by
  intro s n m hpad _
  obtain ⟨u, rfl, hm⟩ | ⟨u, rfl, -⟩ := List.append_eq_append_iff.mp hpad
  · cases u with
    | nil => simp
    | cons b u =>
      rw [List.replicate_succ, List.cons_append] at hm
      have hb : b = 0 := (List.cons.inj hm).1.symm
      rw [hb] at h
      simp at h
  · simp

theorem StrTaken.staysIn (h : StrTaken k w key) : StaysIn k w := by
  intro s n m _ hk
  cases h with
  | mk hw hlen room =>
    have hbytes : key.bytes.length = key.len := rfl
    rw [List.length_append, List.length_cons, hbytes]
    omega

/-- Between a byte that opens a list or a dictionary and the byte that closes it. -/
theorem StaysIn.enclosed {b : UInt8} (hb : b ≠ 0) (h : StaysIn (k - 1) w) :
    StaysIn k (b :: (w ++ ['e'.toUInt8])) := by
  have hopen : StaysIn k [b] := staysIn_of_no_nul (by simpa using hb.symm)
  have hclose : StaysIn (k - 1 - w.length) ['e'.toUInt8] := staysIn_of_no_nul (by decide)
  exact hopen.append (h.append hclose)

mutual

theorem Taken.staysIn {k : Int} {w : List UInt8} {t : BeNode} (h : Taken k w t) : StaysIn k w :=
  match h with
  | .str h _ => h.staysIn
  | .int _ h => .enclosed (by decide) (staysIn_of_no_nul (zero_not_mem_numeral h))
  | .list _ h => h.staysIn.enclosed (by decide)
  | .dict _ h => h.staysIn.enclosed (by decide)

theorem TakenItems.staysIn {k : Int} {w : List UInt8} {l : List BeNode} (h : TakenItems k w l) :
    StaysIn k w :=
  match h with
  | .nil => staysIn_of_no_nul (by simp)
  | .cons hv h => hv.staysIn.append h.staysIn

theorem TakenEntries.staysIn {k : Int} {w : List UInt8} {d : List (BeStr × BeNode)}
    (h : TakenEntries k w d) : StaysIn k w :=
  match h with
  | .nil => staysIn_of_no_nul (by simp)
  | .cons hx hv h => (hx.staysIn.append hv.staysIn).append h.staysIn

end

/-! ## Spelled words are the encoder's -/

theorem SpellsStr.eq (h : SpellsStr w key) : w = decimal key.len ++ cstr ":" ++ key.bytes := by
  cases h with
  | mk h =>
    rw [← (Canonical.nat h).decimal]
    simp [cstr]

theorem KeysNulFree.dict_cons (h : KeysNulFree (.dict ((key, t) :: d))) :
    0 ∉ key.bytes ∧ KeysNulFree t ∧ KeysNulFree (.dict d) := by
  cases h with
  | dict hk h =>
    exact ⟨hk (key, t) List.mem_cons_self, h (key, t) List.mem_cons_self,
      .dict (fun e he => hk e (List.mem_cons_of_mem _ he))
        fun e he => h e (List.mem_cons_of_mem _ he)⟩

theorem KeysNulFree.list_cons (h : KeysNulFree (.list (t :: l))) :
    KeysNulFree t ∧ KeysNulFree (.list l) := by
  cases h with
  | list h =>
    exact ⟨h t List.mem_cons_self, .list fun u hu => h u (List.mem_cons_of_mem _ hu)⟩

theorem serializeEntry (h : 0 ∉ key.bytes) :
    serializePair (key, t) = decimal key.len ++ cstr ":" ++ key.bytes ++ serialize t := by
  rw [serializePair, cText_of_no_nul h]

mutual

theorem Spells.eq_serialize {w : List UInt8} {t : BeNode} (h : Spells w t) (hk : KeysNulFree t) :
    w = serialize t :=
  match h with
  | .str h => h.eq
  | .int h => by rw [serialize, h.decimal]; rfl
  | .list h => by rw [serialize, ← h.eq_serialize hk]; rfl
  | .dict h => by rw [serialize, ← h.eq_serialize hk]; rfl

theorem SpellsItems.eq_serialize {w : List UInt8} {l : List BeNode} (h : SpellsItems w l)
    (hk : KeysNulFree (.list l)) : w ++ ['e'.toUInt8] = serializeList l :=
  match h with
  | .nil => rfl
  | .cons hv h => by
    obtain ⟨hkt, hkl⟩ := hk.list_cons
    rw [serializeList, ← hv.eq_serialize hkt, ← h.eq_serialize hkl, List.append_assoc]

theorem SpellsEntries.eq_serialize {w : List UInt8} {d : List (BeStr × BeNode)}
    (h : SpellsEntries w d) (hk : KeysNulFree (.dict d)) : w ++ ['e'.toUInt8] = serializeDict d :=
  match h with
  | .nil => rfl
  | .cons hx hv h => by
    obtain ⟨hkey, hkt, hkd⟩ := hk.dict_cons
    rw [serializeDict, serializeEntry hkey, ← hx.eq, ← hv.eq_serialize hkt,
      ← h.eq_serialize hkd, List.append_assoc]

end

/-! ## The decoder against the grammar -/

theorem decodes_padded (h : Taken s.length w t) (hs : s = w ++ m) :
    beDecode (padded s n) s.length = .ok (some (t, ⟨padded m n, m.length⟩)) := by
  have hdec := h.decodes (padded m n)
  have hmem : w ++ padded m n = padded s n := by
    rw [hs, padded, padded, List.append_assoc]
  have hlen : (s.length : Int) - w.length = m.length := by
    rw [hs, List.length_append]
    omega
  rw [hmem, hlen] at hdec
  exact hdec

theorem taken_padded {c : Cursor} (h : beDecode (padded s n) s.length = .ok (some (t, c))) :
    ∃ w m, s = w ++ m ∧ Taken s.length w t ∧ c = ⟨padded m n, m.length⟩ := by
  obtain ⟨w, m, hs, hw, hc⟩ := taken_of_decode h
  have hle := hw.staysIn s n m hs rfl
  obtain ⟨u, hu, rfl⟩ := padded_split hs hle
  refine ⟨w, u, hu, hw, ?_⟩
  rw [hc, hu, List.length_append, Cursor.mk.injEq]
  exact ⟨rfl, by omega⟩

theorem padded_inj {u : List UInt8} (h : padded m n = padded u n) : m = u :=
  List.append_cancel_right h

/-- Whatever stands in the buffer and whatever length is given with it, the decoder accepts, refuses
and delivers as the grammar of canonical words says if and only if the text does not start with a
sloppy word. The canonical words themselves are always taken and written again as they were. -/
theorem beDecode_grammar_iff (s : List UInt8) (n : Nat) :
    FollowsGrammar s n ↔ ¬ StartsSloppy s := by
  constructor
  · rintro ⟨hreturns, -⟩ ⟨w, m, t, hs, hw, hnot⟩
    have hdec := @decodes_padded n w m s t hw hs
    obtain ⟨w', m', hs', hw'⟩ := (hreturns t).mp ⟨_, hdec⟩
    have hle : w'.length ≤ s.length := by
      rw [hs', List.length_append]
      omega
    have hdec' := @decodes_padded n w' m' s t (hw'.taken _ (by omega)) hs'
    rw [hdec] at hdec'
    have hcur := (Prod.mk.inj (Option.some.inj (Except.ok.inj hdec'))).2
    have hm : m = m' := padded_inj (Cursor.mk.inj hcur).1
    rw [hs, hm] at hs'
    rw [List.append_cancel_right hs'] at hnot
    exact hnot hw'
  · intro hgood
    have hspell : ∀ {w m t}, s = w ++ m → Taken s.length w t → Spells w t := by
      intro w m t hs hw
      by_contra hnot
      exact hgood ⟨w, m, t, hs, hw, hnot⟩
    refine ⟨fun t => ⟨?_, ?_⟩, ?_⟩
    · rintro ⟨c, hdec⟩
      obtain ⟨w, m, hs, hw, -⟩ := taken_padded hdec
      exact ⟨w, m, hs, hspell hs hw⟩
    · rintro ⟨w, m, hs, hw⟩
      have hle : w.length ≤ s.length := by
        rw [hs, List.length_append]
        omega
      exact ⟨_, decodes_padded (hw.taken _ (by omega)) hs⟩
    · intro w m t hs hdec hkeys len hlen
      obtain ⟨w', m', hs', hw', hc⟩ := taken_padded hdec
      have hm : m = m' := padded_inj (Cursor.mk.inj hc).1
      have hww : w = w' := by
        rw [hs', hm] at hs
        exact (List.append_cancel_right hs).symm
      subst hww
      have hser := (hspell hs' hw').eq_serialize hkeys
      rw [hser] at hlen ⊢
      exact beEncode_of_room t len hlen

/-- A plus sign is taken in front of an integer. -/
theorem plus_sign_is_taken : ¬ FollowsGrammar (cstr "i+5e") 0 := by
  rintro ⟨hreturns, -⟩
  obtain ⟨w, m, hs, hw⟩ := (hreturns (.int 5)).mp ⟨_, rfl⟩
  cases hw with
  | @int w _ h =>
    have hnum : w = cstr "5" := by
      rw [← h.decimal]
      rfl
    rw [hnum] at hs
    exact absurd (List.cons.inj (List.cons.inj hs).2).1 (by decide)

end Vdht.Core
