import Vdht.Core.Grammar

/-!
# The words that are decoded

`Taken k w t` says that the decoder takes the word `w` for the tree `t` when `k` bytes are promised
to be left in front of it. Numbers are what `strtol` reads, cut to 32 bits; only the text of a value
that is a string has to start with a digit. A length is compared with what is left, and something
has to be left where a value begins; nothing else looks at the promise. `taken_of_decode` and
`Taken.decodes` show that this is all the decoder does with a value it returns, whatever the memory
behind the word holds.
-/

namespace Vdht.Core

open Lib

/-- A length, a colon and as many bytes, all within what is left. -/
inductive StrTaken : Int → List UInt8 → BeStr → Prop where
  | mk {k v : Int} {w : List UInt8} {s : BeStr} (hw : Numeral w v) (hlen : asInt32 v = s.len)
      (room : w.length + 1 + s.len ≤ k) : StrTaken k (w ++ ':'.toUInt8 :: s.bytes) s

mutual

/-- The words that the decoder takes for a tree when `k` bytes are left to it: each number and each
length may have leading zeros or a sign, and every part has to fit what is left. -/
inductive Taken : Int → List UInt8 → BeNode → Prop where
  | str {k : Int} {w : List UInt8} {s : BeStr} (h : StrTaken k w s) (hd : StartsWithDigit w) :
      Taken k w (.str s)
  | int {k v : Int} {w : List UInt8} (hk : 0 < k) (h : Numeral w v) :
      Taken k ('i'.toUInt8 :: (w ++ ['e'.toUInt8])) (.int (Int32.ofInt v))
  | list {k : Int} {w : List UInt8} {l : List BeNode} (hk : 0 < k) (h : TakenItems (k - 1) w l) :
      Taken k ('l'.toUInt8 :: (w ++ ['e'.toUInt8])) (.list l)
  | dict {k : Int} {w : List UInt8} {d : List (BeStr × BeNode)} (hk : 0 < k)
      (h : TakenEntries (k - 1) w d) : Taken k ('d'.toUInt8 :: (w ++ ['e'.toUInt8])) (.dict d)

/-- The words that are taken for the members of a list, each with what is left behind the one
before. -/
inductive TakenItems : Int → List UInt8 → List BeNode → Prop where
  | nil {k : Int} : TakenItems k [] []
  | cons {k : Int} {v w : List UInt8} {t : BeNode} {l : List BeNode} (hv : Taken k v t)
      (h : TakenItems (k - v.length) w l) : TakenItems k (v ++ w) (t :: l)

/-- The words that are taken for the pairs of a dictionary, each with what is left behind the one
before. -/
inductive TakenEntries : Int → List UInt8 → List (BeStr × BeNode) → Prop where
  | nil {k : Int} : TakenEntries k [] []
  | cons {k : Int} {x v w : List UInt8} {key : BeStr} {t : BeNode} {d : List (BeStr × BeNode)}
      (hx : StrTaken k x key) (hv : Taken (k - x.length) v t)
      (h : TakenEntries (k - (x ++ v).length) w d) : TakenEntries k (x ++ v ++ w) ((key, t) :: d)

end

variable {k v : Int} {w m s : List UInt8} {t : BeNode} {l : List BeNode}
  {d : List (BeStr × BeNode)} {key : BeStr} {c : Cursor} {fuel : Nat}

/-! ## Peeling off the successful calls -/

theorem StrTaken.ne_nil (h : StrTaken k w key) : w ≠ [] := by
  cases h with
  | mk _ _ _ => simp

theorem orRet_eq_some {α β : Type} {x : Res (Option α)} {f : α → Res (Option β)} {b : β}
    (h : orRet x f = .ok (some b)) : ∃ a, x = .ok (some a) ∧ f a = .ok (some b) := by
  cases x with
  | error e => cases h
  | ok x =>
    cases x with
    | none => cases h
    | some a => exact ⟨a, rfl, h⟩

theorem onByte_eq_some {β : Type} {f : UInt8 → Res (Option β)} {b : β}
    (h : onByte ⟨s, k⟩ f = .ok (some b)) : ∃ a m, s = a :: m ∧ f a = .ok (some b) := by
  cases s with
  | nil => cases h
  | cons a m => exact ⟨a, m, rfl, h⟩

/-! ## What is decoded is taken -/

theorem numeral_of_decodeInt {i : Int32} (h : beDecodeInt ⟨s, k⟩ = .ok (some (i, c))) :
    ∃ w v m, s = w ++ m ∧ Numeral w v ∧ i = Int32.ofInt v ∧ c = ⟨m, k - w.length⟩ := by
  unfold beDecodeInt at h
  split at h
  · cases h
  · rename_i r hr
    split at h
    · cases h
    · rename_i hrange
      obtain ⟨v, erange, m⟩ := r
      rw [Bool.not_eq_true] at hrange
      subst hrange
      obtain ⟨w, rfl, hw⟩ := numeral_of_strtol hr
      cases h
      refine ⟨w, v, m, rfl, hw, rfl, ?_⟩
      simp only [List.length_append, Cursor.mk.injEq, true_and]
      omega

theorem copyIn_eq_some {data : List UInt8} {n : Int32} (h : copyIn data n = .ok (some key)) :
    n.toInt = key.len ∧ key.bytes = data.take n.toInt.toNat ∧ key.len ≤ data.length := by
  unfold copyIn at h
  split at h
  · rename_i hn
    cases h
    have hlen : BeStr.len ⟨data.take n.toInt.toNat, by
        have hl := n.toInt_lt
        simp only [List.length_take]
        omega⟩ = (data.take n.toInt.toNat).length := rfl
    rw [hlen, List.length_take]
    refine ⟨by omega, rfl, by omega⟩
  · cases h

theorem taken_of_decodeStr (h : beDecodeStr ⟨s, k⟩ = .ok (some (key, c))) :
    ∃ w m, s = w ++ m ∧ StrTaken k w key ∧ c = ⟨m, k - w.length⟩ := by
  unfold beDecodeStr at h
  obtain ⟨⟨n, c'⟩, hint, h⟩ := orRet_eq_some h
  obtain ⟨w, v, m, rfl, hw, rfl, rfl⟩ := numeral_of_decodeInt hint
  dsimp only at h
  split at h
  · cases h
  · rename_i hroom
    obtain ⟨b, u, rfl, h⟩ := onByte_eq_some h
    split at h
    · rename_i hb
      subst hb
      split at h
      · obtain ⟨key', hcopy, h⟩ := orRet_eq_some h
        obtain ⟨hlen, hbytes, hle⟩ := copyIn_eq_some hcopy
        cases h
        rw [next_mk] at hbytes hle
        dsimp only at hbytes hle hroom ⊢
        refine ⟨w ++ ':'.toUInt8 :: key.bytes, u.drop (Int32.ofInt v).toInt.toNat, ?_,
          .mk hw hlen (by omega), ?_⟩
        · rw [hbytes, List.append_assoc, List.cons_append, List.take_append_drop]
        · have hkey : key.bytes.length = key.len := rfl
          simp only [next_mk, List.length_append, List.length_cons, hkey, hlen, Cursor.mk.injEq,
            true_and]
          omega
      · cases h
    · cases h

theorem taken_of_decodeIntNode (hk : 0 < k)
    (h : beDecodeIntNode ⟨s, k - 1⟩ = .ok (some (t, c))) :
    ∃ w m, 'i'.toUInt8 :: s = w ++ m ∧ Taken k w t ∧ c = ⟨m, k - w.length⟩ := by
  unfold beDecodeIntNode at h
  obtain ⟨⟨i, c'⟩, hint, h⟩ := orRet_eq_some h
  obtain ⟨w, v, m, rfl, hw, rfl, rfl⟩ := numeral_of_decodeInt hint
  obtain ⟨b, u, rfl, h⟩ := onByte_eq_some h
  split at h
  · rename_i hb
    subst hb
    cases h
    refine ⟨'i'.toUInt8 :: (w ++ ['e'.toUInt8]), u, by simp, .int hk hw, ?_⟩
    simp only [next_mk, List.length_cons, List.length_append, List.length_nil, Cursor.mk.injEq,
      true_and]
    omega
  · cases h

/-- What the decoder of a value, and the two loops, have taken when they return. -/
structure TakesWords (fuel : Nat) : Prop where
  value : ∀ s k t c, beDecodeAux fuel ⟨s, k⟩ = .ok (some (t, c)) →
    ∃ w m, s = w ++ m ∧ Taken k w t ∧ c = ⟨m, k - w.length⟩
  list : ∀ s k l c, beDecodeList fuel ⟨s, k⟩ = .ok (some (l, c)) →
    ∃ w m, s = w ++ 'e'.toUInt8 :: m ∧ TakenItems k w l ∧ c = ⟨m, k - w.length - 1⟩
  dict : ∀ s k d c, beDecodeDict fuel ⟨s, k⟩ = .ok (some (d, c)) →
    ∃ w m, s = w ++ 'e'.toUInt8 :: m ∧ TakenEntries k w d ∧ c = ⟨m, k - w.length - 1⟩

theorem TakesWords.zero : TakesWords 0 := by
  constructor
  · rintro s k t c ⟨⟩
  · rintro s k l c ⟨⟩
  · rintro s k d c ⟨⟩

theorem TakesWords.value_succ (ih : TakesWords fuel) :
    ∀ s k t c, beDecodeAux (fuel + 1) ⟨s, k⟩ = .ok (some (t, c)) →
      ∃ w m, s = w ++ m ∧ Taken k w t ∧ c = ⟨m, k - w.length⟩ := by
  intro s k t c h
  obtain ⟨hk, b, u, rfl⟩ := beDecodeAux_room h
  rcases first_cases b with rfl | rfl | rfl | hdig | ⟨hl, hd, hi, hdig⟩
  · rw [beDecodeAux_list hk] at h
    obtain ⟨⟨l, c'⟩, hl, h⟩ := orRet_eq_some h
    obtain ⟨w, m, rfl, hw, rfl⟩ := ih.list _ _ _ _ hl
    cases h
    refine ⟨'l'.toUInt8 :: (w ++ ['e'.toUInt8]), m, by simp, .list hk hw, ?_⟩
    simp only [List.length_cons, List.length_append, List.length_nil, Cursor.mk.injEq, true_and]
    omega
  · rw [beDecodeAux_dict hk] at h
    obtain ⟨⟨d, c'⟩, hd, h⟩ := orRet_eq_some h
    obtain ⟨w, m, rfl, hw, rfl⟩ := ih.dict _ _ _ _ hd
    cases h
    refine ⟨'d'.toUInt8 :: (w ++ ['e'.toUInt8]), m, by simp, .dict hk hw, ?_⟩
    simp only [List.length_cons, List.length_append, List.length_nil, Cursor.mk.injEq, true_and]
    omega
  · rw [beDecodeAux_int hk] at h
    exact taken_of_decodeIntNode hk h
  · rw [beDecodeAux_str hk hdig] at h
    obtain ⟨⟨x, c'⟩, hx, h⟩ := orRet_eq_some h
    obtain ⟨w, m, hs, hw, rfl⟩ := taken_of_decodeStr hx
    cases h
    refine ⟨w, m, hs, .str hw ?_, rfl⟩
    cases w with
    | nil => exact absurd rfl hw.ne_nil
    | cons a w =>
      cases hs
      exact ⟨b, w, rfl, hdig⟩
  · rw [beDecodeAux_invalid hk hl hd hi hdig] at h
    cases h

theorem TakesWords.list_succ (ih : TakesWords fuel) :
    ∀ s k l c, beDecodeList (fuel + 1) ⟨s, k⟩ = .ok (some (l, c)) →
      ∃ w m, s = w ++ 'e'.toUInt8 :: m ∧ TakenItems k w l ∧ c = ⟨m, k - w.length - 1⟩ := by
  intro s k l c h
  unfold beDecodeList at h
  obtain ⟨b, u, rfl, h⟩ := onByte_eq_some h
  rw [next_mk] at h
  split at h
  · rename_i hb
    subst hb
    cases h
    exact ⟨[], u, rfl, .nil, by simp⟩
  · obtain ⟨⟨t, c₁⟩, ht, h⟩ := orRet_eq_some h
    obtain ⟨v, m, hs, hv, rfl⟩ := ih.value _ _ _ _ ht
    obtain ⟨⟨l', c₂⟩, hl, h⟩ := orRet_eq_some h
    obtain ⟨w, m', rfl, hw, rfl⟩ := ih.list _ _ _ _ hl
    cases h
    refine ⟨v ++ w, m', by rw [hs, List.append_assoc], .cons hv hw, ?_⟩
    simp only [List.length_append, Cursor.mk.injEq, true_and]
    omega

theorem TakesWords.dict_succ (ih : TakesWords fuel) :
    ∀ s k d c, beDecodeDict (fuel + 1) ⟨s, k⟩ = .ok (some (d, c)) →
      ∃ w m, s = w ++ 'e'.toUInt8 :: m ∧ TakenEntries k w d ∧ c = ⟨m, k - w.length - 1⟩ := by
  intro s k d c h
  unfold beDecodeDict at h
  obtain ⟨b, u, rfl, h⟩ := onByte_eq_some h
  rw [next_mk] at h
  split at h
  · rename_i hb
    subst hb
    cases h
    exact ⟨[], u, rfl, .nil, by simp⟩
  · obtain ⟨⟨key, c₁⟩, hkey, h⟩ := orRet_eq_some h
    obtain ⟨x, m, hs, hx, rfl⟩ := taken_of_decodeStr hkey
    obtain ⟨⟨t, c₂⟩, ht, h⟩ := orRet_eq_some h
    obtain ⟨v, m', rfl, hv, rfl⟩ := ih.value _ _ _ _ ht
    obtain ⟨⟨d', c₃⟩, hd, h⟩ := orRet_eq_some h
    have hroom : k - x.length - v.length = k - (x ++ v).length := by
      rw [List.length_append]
      omega
    rw [hroom] at hd
    obtain ⟨w, m₃, rfl, hw, rfl⟩ := ih.dict _ _ _ _ hd
    cases h
    refine ⟨x ++ v ++ w, m₃, by rw [hs]; simp, .cons hx hv hw, ?_⟩
    simp only [List.length_append, Cursor.mk.injEq, true_and]
    omega

theorem takesWords (fuel : Nat) : TakesWords fuel := by
  induction fuel with
  | zero => exact .zero
  | succ fuel ih => exact ⟨ih.value_succ, ih.list_succ, ih.dict_succ⟩

/-- A tree that is returned was taken from the front of the memory. -/
theorem taken_of_decode {len : Int} (h : beDecode s len = .ok (some (t, c))) :
    ∃ w m, s = w ++ m ∧ Taken len w t ∧ c = ⟨m, len - w.length⟩ :=
  (takesWords (decodeFuel s)).value _ _ _ _ h

/-! ## What is taken is decoded -/

theorem StrTaken.decodes (h : StrTaken k w key) (m : List UInt8) :
    beDecodeStr ⟨w ++ m, k⟩ = .ok (some (key, ⟨m, k - w.length⟩)) := by
  cases h with
  | @mk v w _ hw hlen room =>
    have hlen' : (Int32.ofInt v).toInt = key.len := hlen
    have hbytes : key.len = key.bytes.length := rfl
    have hcopy : copyIn (key.bytes ++ m) (Int32.ofInt v) = .ok (some key) := by
      have hofInt : Int32.ofInt v = Int32.ofInt key.len := by
        rw [← hlen', Int32.ofInt_toInt]
      rw [hofInt]
      exact copyIn_append key m
    have hsplit : w ++ ':'.toUInt8 :: key.bytes ++ m = w ++ ':'.toUInt8 :: (key.bytes ++ m) := by
      simp
    unfold beDecodeStr
    rw [hsplit, beDecodeInt_numeral hw (by decide), orRet_some]
    dsimp only
    rw [if_neg (by omega), onByte_cons, if_pos rfl, if_pos (by unfold Mallocable; omega), next_mk]
    dsimp only
    rw [hcopy, orRet_some, hlen', hbytes, Int.toNat_natCast, List.drop_left, List.length_append,
      List.length_cons]
    congr 4
    omega

theorem StrTaken.goesOn (h : StrTaken k w key) : GoesOn w := by
  cases h with
  | mk hw _ _ => exact goesOn_colon hw _

theorem Taken.goesOn (h : Taken k w t) : GoesOn w := by
  cases h with
  | str h _ => exact h.goesOn
  | int _ _ => rintro c ⟨⟩; decide
  | list _ _ => rintro c ⟨⟩; decide
  | dict _ _ => rintro c ⟨⟩; decide

theorem Taken.ne_nil (h : Taken k w t) : w ≠ [] := by
  cases h with
  | str h _ => exact h.ne_nil
  | int _ _ => simp
  | list _ _ => simp
  | dict _ _ => simp

/-- The loops pass over a word that does not start with `e`. -/
theorem onByte_word {β : Type} (hne : w ≠ []) (h : GoesOn w) (m : List UInt8)
    (done go : Res (Option β)) :
    onByte ⟨w ++ m, k⟩ (fun b => if b = 'e'.toUInt8 then done else go) = go := by
  cases w with
  | nil => exact absurd rfl hne
  | cons b w =>
    rw [List.cons_append, onByte_cons]
    exact if_neg (h b rfl)

/-- `w` is decoded to `t` whatever stands behind it. -/
def DecodesTo (k : Int) (w : List UInt8) (t : BeNode) : Prop :=
  ∀ m fuel, 2 * w.length ≤ fuel →
    beDecodeAux fuel ⟨w ++ m, k⟩ = .ok (some (t, ⟨m, k - w.length⟩))

/-- The loop over a list decodes the word and the letter behind it to the members, with any bytes
behind. -/
def ItemsDecodeTo (k : Int) (w : List UInt8) (l : List BeNode) : Prop :=
  ∀ m fuel, 2 * w.length + 1 ≤ fuel →
    beDecodeList fuel ⟨w ++ 'e'.toUInt8 :: m, k⟩ = .ok (some (l, ⟨m, k - w.length - 1⟩))

/-- The loop over a dictionary decodes the word and the letter behind it to the pairs, with any
bytes behind. -/
def EntriesDecodeTo (k : Int) (w : List UInt8) (d : List (BeStr × BeNode)) : Prop :=
  ∀ m fuel, 2 * w.length + 1 ≤ fuel →
    beDecodeDict fuel ⟨w ++ 'e'.toUInt8 :: m, k⟩ = .ok (some (d, ⟨m, k - w.length - 1⟩))

theorem decodesTo_str (h : StrTaken k w key) (hd : StartsWithDigit w) :
    DecodesTo k w (.str key) := by
  intro m fuel hf
  have hpos := List.length_pos_of_ne_nil h.ne_nil
  have hk : 0 < k := by
    cases h with
    | mk _ _ room => omega
  have hstr := h.decodes m
  obtain ⟨b, u, rfl, hdig⟩ := hd
  cases fuel with
  | zero => omega
  | succ fuel =>
    rw [List.cons_append, beDecodeAux_str hk hdig, ← List.cons_append, hstr, orRet_some]

theorem decodesTo_int (hk : 0 < k) (h : Numeral w v) :
    DecodesTo k ('i'.toUInt8 :: (w ++ ['e'.toUInt8])) (.int (Int32.ofInt v)) := by
  intro m fuel hf
  have hsplit : w ++ ['e'.toUInt8] ++ m = w ++ 'e'.toUInt8 :: m := by simp
  cases fuel with
  | zero => simp at hf
  | succ fuel =>
    rw [List.cons_append, beDecodeAux_int hk, hsplit]
    unfold beDecodeIntNode
    rw [beDecodeInt_numeral h (by decide), orRet_some]
    dsimp only
    rw [onByte_cons, if_pos rfl, next_mk, List.length_cons, List.length_append, List.length_singleton]
    congr 4
    omega

theorem decodesTo_list (hk : 0 < k) (h : ItemsDecodeTo (k - 1) w l) :
    DecodesTo k ('l'.toUInt8 :: (w ++ ['e'.toUInt8])) (.list l) := by
  intro m fuel hf
  simp only [List.length_cons, List.length_append, List.length_nil] at hf ⊢
  have hsplit : w ++ ['e'.toUInt8] ++ m = w ++ 'e'.toUInt8 :: m := by simp
  cases fuel with
  | zero => omega
  | succ fuel =>
    rw [List.cons_append, beDecodeAux_list hk, hsplit, h m fuel (by omega), orRet_some]
    dsimp only
    congr 4
    omega

theorem decodesTo_dict (hk : 0 < k) (h : EntriesDecodeTo (k - 1) w d) :
    DecodesTo k ('d'.toUInt8 :: (w ++ ['e'.toUInt8])) (.dict d) := by
  intro m fuel hf
  simp only [List.length_cons, List.length_append, List.length_nil] at hf ⊢
  have hsplit : w ++ ['e'.toUInt8] ++ m = w ++ 'e'.toUInt8 :: m := by simp
  cases fuel with
  | zero => omega
  | succ fuel =>
    rw [List.cons_append, beDecodeAux_dict hk, hsplit, h m fuel (by omega), orRet_some]
    dsimp only
    congr 4
    omega

theorem itemsDecodeTo_nil : ItemsDecodeTo k [] [] := by
  intro m fuel hf
  cases fuel with
  | zero => simp at hf
  | succ fuel =>
    show Except.ok (some ([], (⟨m, k - 1⟩ : Cursor))) = _
    simp

theorem entriesDecodeTo_nil : EntriesDecodeTo k [] [] := by
  intro m fuel hf
  cases fuel with
  | zero => simp at hf
  | succ fuel =>
    show Except.ok (some ([], (⟨m, k - 1⟩ : Cursor))) = _
    simp

theorem itemsDecodeTo_cons {x : List UInt8} (hx : Taken k x t) (ht : DecodesTo k x t)
    (h : ItemsDecodeTo (k - x.length) w l) : ItemsDecodeTo k (x ++ w) (t :: l) := by
  intro m fuel hf
  have hpos := List.length_pos_of_ne_nil hx.ne_nil
  rw [List.length_append] at hf ⊢
  cases fuel with
  | zero => omega
  | succ fuel =>
    rw [beDecodeList, List.append_assoc, onByte_word hx.ne_nil hx.goesOn, ht _ fuel (by omega),
      orRet_some]
    dsimp only
    rw [h m fuel (by omega), orRet_some]
    dsimp only
    congr 4
    omega

theorem entriesDecodeTo_cons {x y : List UInt8} (hx : StrTaken k x key)
    (ht : DecodesTo (k - x.length) y t) (h : EntriesDecodeTo (k - (x ++ y).length) w d) :
    EntriesDecodeTo k (x ++ y ++ w) ((key, t) :: d) := by
  intro m fuel hf
  have hpos := List.length_pos_of_ne_nil hx.ne_nil
  have hroom : k - (x ++ y).length = k - x.length - y.length := by
    rw [List.length_append]
    omega
  rw [hroom] at h
  simp only [List.length_append] at hf ⊢
  cases fuel with
  | zero => omega
  | succ fuel =>
    rw [beDecodeDict, List.append_assoc, List.append_assoc, onByte_word hx.ne_nil hx.goesOn,
      hx.decodes, orRet_some]
    dsimp only
    rw [ht _ fuel (by omega), orRet_some]
    dsimp only
    rw [h m fuel (by omega), orRet_some]
    dsimp only
    congr 4
    omega

mutual

theorem Taken.decodesTo {k : Int} {w : List UInt8} {t : BeNode} (h : Taken k w t) :
    DecodesTo k w t :=
  match h with
  | .str h hd => decodesTo_str h hd
  | .int hk h => decodesTo_int hk h
  | .list hk h => decodesTo_list hk h.decodeTo
  | .dict hk h => decodesTo_dict hk h.decodeTo

theorem TakenItems.decodeTo {k : Int} {w : List UInt8} {l : List BeNode} (h : TakenItems k w l) :
    ItemsDecodeTo k w l :=
  match h with
  | .nil => itemsDecodeTo_nil
  | .cons hv h => itemsDecodeTo_cons hv hv.decodesTo h.decodeTo

theorem TakenEntries.decodeTo {k : Int} {w : List UInt8} {d : List (BeStr × BeNode)}
    (h : TakenEntries k w d) : EntriesDecodeTo k w d :=
  match h with
  | .nil => entriesDecodeTo_nil
  | .cons hx hv h => entriesDecodeTo_cons hx hv.decodesTo h.decodeTo

end

/-- A word that is taken is decoded wherever it stands. -/
theorem Taken.decodes {len : Int} (h : Taken len w t) (m : List UInt8) :
    beDecode (w ++ m) len = .ok (some (t, ⟨m, len - w.length⟩)) := by
  apply h.decodesTo
  rw [decodeFuel, List.length_append]
  omega

end Vdht.Core
