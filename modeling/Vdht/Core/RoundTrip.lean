import Vdht.Core.Encode
import Vdht.Core.Decode

/-!
# Encoding and decoding a tree

The encoder writes the canonical text of the tree, `serialize`, or returns `-1`. The decoder
reads that text back whatever follows it, and stops right behind it. Both facts are
inductions over the tree; the second carries the remaining length and the fuel along, so
that the checks `len > *data_len - 1` and `*data_len > 0` are met at every depth.
-/

namespace Vdht.Core

open Lib

/-! ## The text of a tree -/

mutual

/-- What the encoder writes for a tree when there is room for all of it. -/
def serialize : BeNode → List UInt8
  | .str s => decimal s.len ++ cstr ":" ++ s.bytes
  | .int i => cstr "i" ++ decimal i.toInt ++ cstr "e"
  | .list l => cstr "l" ++ serializeList l
  | .dict d => cstr "d" ++ serializeDict d

/-- The members of a list and the letter that ends it. -/
def serializeList : List BeNode → List UInt8
  | [] => cstr "e"
  | t :: l => serialize t ++ serializeList l

/-- The pairs of a dictionary and the letter that ends it. -/
def serializeDict : List (BeStr × BeNode) → List UInt8
  | [] => cstr "e"
  | e :: d => serializePair e ++ serializeDict d

/-- A key and its value. The key is written up to its first NUL, while its length is counted beyond
it. -/
def serializePair : BeStr × BeNode → List UInt8
  | (key, t) => decimal key.len ++ cstr ":" ++ cText key.bytes ++ serialize t

end

/-- No key contains a NUL byte, at any depth. -/
inductive KeysNulFree : BeNode → Prop where
  | str (s : BeStr) : KeysNulFree (.str s)
  | int (i : Int32) : KeysNulFree (.int i)
  | list {l : List BeNode} (h : ∀ t ∈ l, KeysNulFree t) : KeysNulFree (.list l)
  | dict {d : List (BeStr × BeNode)} (hk : ∀ e ∈ d, 0 ∉ e.1.bytes)
      (h : ∀ e ∈ d, KeysNulFree e.2) : KeysNulFree (.dict d)

theorem serialize_length_pos (t : BeNode) : 0 < (serialize t).length := by
  cases t with
  | str s =>
    simp only [serialize, cstr, List.length_append]
    exact Nat.lt_of_lt_of_le (Nat.zero_lt_one) (by simp; omega)
  | int i => simp [serialize, cstr]
  | list l => simp [serialize, cstr]
  | dict d => simp [serialize, cstr]

/-! ## The encoder -/

theorem andPut_some {part : Res (Option (List UInt8))} {len : Int}
    {next : Int → Res (Option (List UInt8))} {out : List UInt8} :
    andPut part len next = .ok (some out) ↔
      ∃ p q, part = .ok (some p) ∧ next (len - p.length) = .ok (some q) ∧ out = p ++ q := by
  constructor
  · intro h
    unfold andPut at h
    split at h
    · cases h
    · cases h
    · rename_i p
      split at h
      · cases h
      · cases h
      · rename_i q hq
        cases h
        exact ⟨p, q, rfl, hq, rfl⟩
  · rintro ⟨p, q, rfl, hq, rfl⟩
    simp only [andPut, hq]

theorem snprintf_some {room : Int} {text out : List UInt8}
    (h : (.ok (snprintf room text) : Res (Option (List UInt8))) = .ok (some out)) : out = text := by
  unfold snprintf at h
  split at h
  · cases h
  · cases h
    rfl

theorem beEncode_cases {t : BeNode} {len : Int} {out : List UInt8}
    (h : beEncode t len = .ok (some out)) :
    (match t with
    | .str s => andPut (.ok (snprintf len (decimal s.len ++ cstr ":"))) len (copyOut s)
    | .int i => .ok (snprintf len (cstr "i" ++ decimal i.toInt ++ cstr "e"))
    | .list l => andPut (.ok (snprintf len (cstr "l"))) len (beEncodeList l)
    | .dict d => andPut (.ok (snprintf len (cstr "d"))) len (beEncodeDict d)) =
      .ok (some out) := by
  unfold beEncode at h
  split at h
  · cases h
  · exact h

/-- What is written is the text of the tree. -/
theorem beEncode_eq_serialize (t : BeNode) :
    ∀ len out, beEncode t len = .ok (some out) → out = serialize t := by
  induction t with
  | str s =>
    intro len out h
    obtain ⟨p, q, hp, hq, rfl⟩ := andPut_some.mp (beEncode_cases h)
    have hp' := snprintf_some hp
    unfold copyOut at hq
    split at hq
    · cases hq
    · cases hq
      rw [hp', serialize]
  | int i =>
    intro len out h
    exact snprintf_some (beEncode_cases h)
  | list l ih =>
    intro len out h
    obtain ⟨p, q, hp, hq, rfl⟩ := andPut_some.mp (beEncode_cases h)
    rw [snprintf_some hp, serialize]
    congr 1
    generalize len - (p.length : Int) = k at hq
    clear h hp
    induction l generalizing k q with
    | nil =>
      unfold beEncodeList at hq
      exact snprintf_some hq
    | cons t l ihl =>
      unfold beEncodeList at hq
      obtain ⟨a, b, ha, hb, rfl⟩ := andPut_some.mp hq
      rw [ih t List.mem_cons_self _ _ ha, ihl (fun u hu => ih u (List.mem_cons_of_mem _ hu)) _ _ hb,
        serializeList]
  | dict d ih =>
    intro len out h
    obtain ⟨p, q, hp, hq, rfl⟩ := andPut_some.mp (beEncode_cases h)
    rw [snprintf_some hp, serialize]
    congr 1
    generalize len - (p.length : Int) = k at hq
    clear h hp
    induction d generalizing k q with
    | nil =>
      unfold beEncodeDict at hq
      exact snprintf_some hq
    | cons e d ihd =>
      obtain ⟨key, t⟩ := e
      unfold beEncodeDict at hq
      obtain ⟨a, b, ha, hb, rfl⟩ := andPut_some.mp hq
      unfold beEncodePair at ha
      obtain ⟨u, v, hu, hv, rfl⟩ := andPut_some.mp ha
      rw [snprintf_some hu, ih (key, t) List.mem_cons_self _ _ hv,
        ihd (fun u hu => ih u (List.mem_cons_of_mem _ hu)) _ _ hb, serializeDict, serializePair]

theorem andPut_room {part : List UInt8} {rest : List UInt8} {len : Int}
    {next : Int → Res (Option (List UInt8))} (hpart : (part.length : Int) < len)
    (h : next (len - part.length) = .ok (some rest)) :
    andPut (.ok (snprintf len part)) len next = .ok (some (part ++ rest)) :=
  andPut_some.mpr ⟨part, rest, by rw [snprintf, if_neg (by omega)], h, rfl⟩

/-- A buffer with more room than the text is large enough for the tree. -/
def EncodesInRoom (t : BeNode) : Prop :=
  ∀ len : Int, (serialize t).length < len → beEncode t len = .ok (some (serialize t))

theorem beEncodeList_of_room {l : List BeNode} (h : ∀ t ∈ l, EncodesInRoom t) {k : Int}
    (hroom : ((serializeList l).length : Int) < k) :
    beEncodeList l k = .ok (some (serializeList l)) := by
  induction l generalizing k with
  | nil =>
    rw [serializeList] at hroom ⊢
    rw [beEncodeList, snprintf, if_neg (by omega)]
  | cons t l ih =>
    simp only [serializeList, List.length_append] at hroom
    have hl := @ih (fun u hu => h u (List.mem_cons_of_mem _ hu)) (k - (serialize t).length)
      (by omega)
    rw [beEncodeList, serializeList]
    exact andPut_some.mpr ⟨_, _, h t List.mem_cons_self k (by omega), hl, rfl⟩

theorem beEncodePair_of_room {key : BeStr} {t : BeNode} (h : EncodesInRoom t) {k : Int}
    (hroom : ((serializePair (key, t)).length : Int) < k) :
    beEncodePair (key, t) k = .ok (some (serializePair (key, t))) := by
  simp only [serializePair, List.length_append] at hroom ⊢
  rw [beEncodePair]
  apply andPut_room
  · simp only [List.length_append]
    omega
  · apply h
    simp only [List.length_append]
    omega

theorem beEncodeDict_of_room {d : List (BeStr × BeNode)} (h : ∀ e ∈ d, EncodesInRoom e.2)
    {k : Int} (hroom : ((serializeDict d).length : Int) < k) :
    beEncodeDict d k = .ok (some (serializeDict d)) := by
  induction d generalizing k with
  | nil =>
    rw [serializeDict] at hroom ⊢
    rw [beEncodeDict, snprintf, if_neg (by omega)]
  | cons e d ih =>
    obtain ⟨key, t⟩ := e
    simp only [serializeDict, List.length_append] at hroom
    have hd := @ih (fun u hu => h u (List.mem_cons_of_mem _ hu))
      (k - (serializePair (key, t)).length) (by omega)
    have hpair := beEncodePair_of_room (h (key, t) List.mem_cons_self)
      (show ((serializePair (key, t)).length : Int) < k by omega)
    rw [beEncodeDict, serializeDict]
    exact andPut_some.mpr ⟨_, _, hpair, hd, rfl⟩

theorem beEncode_of_room (t : BeNode) : EncodesInRoom t := by
  induction t with
  | str s =>
    intro len h
    simp only [serialize, List.length_append] at h
    rw [beEncode, if_neg (by omega), serialize]
    apply andPut_room
    · simp only [List.length_append]
      omega
    · have hl : s.len = s.bytes.length := rfl
      rw [copyOut, if_neg]
      simp only [List.length_append]
      omega
  | int i =>
    intro len h
    rw [serialize] at h
    rw [beEncode, if_neg (by omega), snprintf, if_neg (by omega), serialize]
  | list l ih =>
    intro len h
    simp only [serialize, List.length_append] at h
    rw [beEncode, if_neg (by omega), serialize]
    exact andPut_room (by omega) (beEncodeList_of_room ih (by omega))
  | dict d ih =>
    intro len h
    simp only [serialize, List.length_append] at h
    rw [beEncode, if_neg (by omega), serialize]
    exact andPut_room (by omega) (beEncodeDict_of_room ih (by omega))

/-! ## The decoder -/

@[simp] theorem orRet_some {α β : Type} (a : α) (f : α → Res (Option β)) :
    orRet (.ok (some a)) f = f a := rfl

@[simp] theorem onByte_cons {β : Type} (b : UInt8) (m : List UInt8) (k : Int)
    (f : UInt8 → Res (Option β)) : onByte ⟨b :: m, k⟩ f = f b := rfl

@[simp] theorem next_mk (b : UInt8) (m : List UInt8) (k : Int) :
    Cursor.next ⟨b :: m, k⟩ = ⟨m, k - 1⟩ := rfl

theorem beDecodeInt_numeral {w m : List UInt8} {v : Int} {b : UInt8} (h : Numeral w v)
    (hb : isStop b) (k : Int) :
    beDecodeInt ⟨w ++ b :: m, k⟩ =
      .ok (some (Int32.ofInt v, ⟨b :: m, k - w.length⟩)) := by
  unfold beDecodeInt
  rw [strtol_numeral h hb]
  simp only [Bool.false_eq_true, if_false, List.length_append]
  congr 4
  omega

theorem copyIn_append (s : BeStr) (m : List UInt8) :
    copyIn (s.bytes ++ m) (Int32.ofInt s.len) = .ok (some s) := by
  have hlen : (Int32.ofInt s.len).toInt = s.bytes.length := by
    have := s.short
    rw [Int32.toInt_ofInt_of_le (by simp only [BeStr.len]; omega) (by simp only [BeStr.len]; omega)]
    rfl
  unfold copyIn
  rw [dif_pos ⟨by omega, by rw [hlen, List.length_append]; omega⟩]
  congr 2
  apply BeStr.ext
  simp [hlen]

/-- Reading a string that was written with its length in front. -/
theorem beDecodeStr_text (s : BeStr) (m : List UInt8) {k : Int}
    (hk : ((decimal s.len ++ cstr ":" ++ s.bytes).length : Int) ≤ k) :
    beDecodeStr ⟨decimal s.len ++ cstr ":" ++ s.bytes ++ m, k⟩ =
      .ok (some (s, ⟨m, k - (decimal s.len ++ cstr ":" ++ s.bytes).length⟩)) := by
  have hs := s.short
  have hcolon : cstr ":" = [':'.toUInt8] := rfl
  have hlen : (Int32.ofInt s.len).toInt = s.bytes.length := by
    rw [Int32.toInt_ofInt_of_le (by simp only [BeStr.len]; omega) (by simp only [BeStr.len]; omega)]
    rfl
  have hnum : Numeral (decimal s.len) s.len := by
    apply numeral_decimal
    simp only [BeStr.len, InLong]
    omega
  rw [hcolon] at hk ⊢
  simp only [List.length_append, List.length_cons, List.length_nil] at hk
  have hsplit : decimal s.len ++ [':'.toUInt8] ++ s.bytes ++ m =
      decimal s.len ++ ':'.toUInt8 :: (s.bytes ++ m) := by simp
  unfold beDecodeStr
  rw [hsplit, beDecodeInt_numeral hnum (by decide), orRet_some]
  simp only [hlen]
  rw [if_neg (by omega), onByte_cons, if_pos rfl, if_pos (by unfold Mallocable; omega), next_mk]
  simp only [copyIn_append, orRet_some]
  simp only [List.length_append, List.length_cons, List.length_nil]
  congr 4
  · simp
  · omega

theorem beDecodeIntNode_text (i : Int32) (m : List UInt8) (k : Int) :
    beDecodeIntNode ⟨decimal i.toInt ++ cstr "e" ++ m, k⟩ =
      .ok (some (.int i, ⟨m, k - (decimal i.toInt ++ cstr "e").length⟩)) := by
  have he : cstr "e" = ['e'.toUInt8] := rfl
  have hnum : Numeral (decimal i.toInt) i.toInt := by
    apply numeral_decimal
    have := i.toInt_lt
    have := i.le_toInt
    simp only [InLong]
    omega
  have hsplit : decimal i.toInt ++ ['e'.toUInt8] ++ m = decimal i.toInt ++ 'e'.toUInt8 :: m := by
    simp
  unfold beDecodeIntNode
  rw [he, hsplit, beDecodeInt_numeral hnum (by decide), orRet_some]
  simp only [onByte_cons, if_true, next_mk, Int32.ofInt_toInt, List.length_append,
    List.length_cons, List.length_nil]
  congr 4
  omega

/-- The first byte of the text of a tree tells which branch of the decoder reads it. -/
theorem decimal_nat_head (n : Nat) : ∃ b m, decimal n = b :: m ∧ isDigit b := by
  have hne := decimalNat_ne_nil n
  unfold decimal
  rw [if_neg (by omega)]
  show ∃ b m, decimalNat n = b :: m ∧ isDigit b
  cases hd : decimalNat n with
  | nil => exact absurd hd hne
  | cons b m =>
    refine ⟨b, m, rfl, ?_⟩
    apply @isDigit_of_mem_decimalNat n
    rw [hd]
    exact List.mem_cons_self

theorem digit_ne {b c : UInt8} (hb : isDigit b) (hc : isDigit c = false) : b ≠ c := by
  rintro rfl
  rw [hb] at hc
  cases hc

theorem serialize_head_ne_e (t : BeNode) : ∃ b m, serialize t = b :: m ∧ b ≠ 'e'.toUInt8 := by
  cases t with
  | str s =>
    obtain ⟨b, m, hb, hdig⟩ := decimal_nat_head s.len
    exact ⟨b, m ++ cstr ":" ++ s.bytes, by rw [serialize, hb]; rfl, digit_ne hdig rfl⟩
  | int i => exact ⟨_, _, rfl, by decide⟩
  | list l => exact ⟨_, _, rfl, by decide⟩
  | dict d => exact ⟨_, _, rfl, by decide⟩

theorem serializeList_length_pos (l : List BeNode) : 0 < (serializeList l).length := by
  cases l with
  | nil => simp [serializeList, cstr]
  | cons t l =>
    have := serialize_length_pos t
    simp only [serializeList, List.length_append]
    omega

theorem serializeDict_length_pos (d : List (BeStr × BeNode)) : 0 < (serializeDict d).length := by
  cases d with
  | nil => simp [serializeDict, cstr]
  | cons e d =>
    obtain ⟨key, t⟩ := e
    have := serialize_length_pos t
    simp only [serializeDict, serializePair, List.length_append]
    omega

/-- `t` is read back from its text, wherever the text stands. -/
def ReadsBack (t : BeNode) : Prop :=
  ∀ fuel m (k : Int), 2 * (serialize t).length ≤ fuel → ((serialize t).length : Int) ≤ k →
    beDecodeAux fuel ⟨serialize t ++ m, k⟩ = .ok (some (t, ⟨m, k - (serialize t).length⟩))

theorem beDecodeList_text {l : List BeNode} (h : ∀ t ∈ l, ReadsBack t) :
    ∀ fuel m (k : Int), 2 * (serializeList l).length ≤ fuel →
      ((serializeList l).length : Int) ≤ k →
      beDecodeList fuel ⟨serializeList l ++ m, k⟩ =
        .ok (some (l, ⟨m, k - (serializeList l).length⟩)) := by
  induction l with
  | nil =>
    intro fuel m k hf hk
    simp only [serializeList, cstr] at hf ⊢
    cases fuel with
    | zero => simp at hf
    | succ fuel => rfl
  | cons t l ih =>
    intro fuel m k hf hk
    have ht := serialize_length_pos t
    have hl := serializeList_length_pos l
    simp only [serializeList, List.length_append] at hf hk ⊢
    cases fuel with
    | zero => omega
    | succ fuel =>
      obtain ⟨b, u, hb, hne⟩ := serialize_head_ne_e t
      have hread := h t List.mem_cons_self fuel (serializeList l ++ m) k (by omega) (by omega)
      have hrest := ih (fun u hu => h u (List.mem_cons_of_mem _ hu)) fuel m
        (k - (serialize t).length) (by omega) (by omega)
      have hbyte : ∀ f : UInt8 → Res (Option (List BeNode × Cursor)),
          onByte ⟨serialize t ++ (serializeList l ++ m), k⟩ f = f b := by
        intro f
        rw [hb]
        rfl
      unfold beDecodeList
      rw [List.append_assoc, hbyte, if_neg hne, hread, orRet_some]
      show orRet (beDecodeList fuel ⟨serializeList l ++ m, k - (serialize t).length⟩) _ = _
      rw [hrest, orRet_some]
      dsimp only
      congr 4
      omega

theorem beDecodeDict_text {d : List (BeStr × BeNode)} (hk : ∀ e ∈ d, 0 ∉ e.1.bytes)
    (h : ∀ e ∈ d, ReadsBack e.2) :
    ∀ fuel m (k : Int), 2 * (serializeDict d).length ≤ fuel →
      ((serializeDict d).length : Int) ≤ k →
      beDecodeDict fuel ⟨serializeDict d ++ m, k⟩ =
        .ok (some (d, ⟨m, k - (serializeDict d).length⟩)) := by
  induction d with
  | nil =>
    intro fuel m k hf _
    simp only [serializeDict, cstr] at hf ⊢
    cases fuel with
    | zero => simp at hf
    | succ fuel => rfl
  | cons e d ih =>
    obtain ⟨key, t⟩ := e
    intro fuel m k hf hlen
    have ht := serialize_length_pos t
    have hd := serializeDict_length_pos d
    have hkey : cText key.bytes = key.bytes := cText_of_no_nul (hk (key, t) List.mem_cons_self)
    simp only [serializeDict, serializePair, hkey] at hf hlen ⊢
    obtain ⟨b, u, hb, hdig⟩ := decimal_nat_head key.len
    generalize hw : decimal key.len ++ cstr ":" ++ key.bytes = w at hf hlen ⊢
    simp only [List.length_append] at hf hlen ⊢
    cases fuel with
    | zero => omega
    | succ fuel =>
      have hstr := beDecodeStr_text key (serialize t ++ (serializeDict d ++ m))
        (k := k) (by rw [hw]; omega)
      rw [hw] at hstr
      have hread := h (key, t) List.mem_cons_self fuel (serializeDict d ++ m) (k - w.length)
        (by show 2 * (serialize t).length ≤ fuel; omega)
        (by show ((serialize t).length : Int) ≤ _; omega)
      have hrest := ih (fun e he => hk e (List.mem_cons_of_mem _ he))
        (fun e he => h e (List.mem_cons_of_mem _ he)) fuel m
        (k - w.length - (serialize t).length) (by omega) (by omega)
      have hbyte : ∀ f : UInt8 → Res (Option (List (BeStr × BeNode) × Cursor)),
          onByte ⟨w ++ (serialize t ++ (serializeDict d ++ m)), k⟩ f = f b := by
        intro f
        rw [← hw, hb]
        rfl
      unfold beDecodeDict
      rw [List.append_assoc, List.append_assoc, hbyte, if_neg (digit_ne hdig rfl), hstr, orRet_some]
      show orRet (beDecodeAux fuel ⟨serialize t ++ (serializeDict d ++ m), k - w.length⟩) _ = _
      rw [hread, orRet_some]
      show orRet (beDecodeDict fuel ⟨serializeDict d ++ m, k - w.length - (serialize t).length⟩) _ = _
      rw [hrest, orRet_some]
      dsimp only
      congr 4
      omega

/-! ## The branches of the decoder -/

section Branches

variable {first : UInt8} {m : List UInt8} {k : Int}

theorem beDecodeAux_list (hk : 0 < k) (fuel : Nat) :
    beDecodeAux (fuel + 1) ⟨'l'.toUInt8 :: m, k⟩ =
      orRet (beDecodeList fuel ⟨m, k - 1⟩) fun (l, c) => .ok (some (.list l, c)) := by
  unfold beDecodeAux
  rw [if_neg (Int.not_le.mpr hk)]
  rfl

theorem beDecodeAux_dict (hk : 0 < k) (fuel : Nat) :
    beDecodeAux (fuel + 1) ⟨'d'.toUInt8 :: m, k⟩ =
      orRet (beDecodeDict fuel ⟨m, k - 1⟩) fun (d, c) => .ok (some (.dict d, c)) := by
  unfold beDecodeAux
  rw [if_neg (Int.not_le.mpr hk)]
  rfl

theorem beDecodeAux_int (hk : 0 < k) (fuel : Nat) :
    beDecodeAux (fuel + 1) ⟨'i'.toUInt8 :: m, k⟩ = beDecodeIntNode ⟨m, k - 1⟩ := by
  unfold beDecodeAux
  rw [if_neg (Int.not_le.mpr hk)]
  rfl

theorem beDecodeAux_str (hk : 0 < k) (hdig : isDigit first) (fuel : Nat) :
    beDecodeAux (fuel + 1) ⟨first :: m, k⟩ =
      orRet (beDecodeStr ⟨first :: m, k⟩) fun (x, c) => .ok (some (.str x, c)) := by
  unfold beDecodeAux
  rw [if_neg (Int.not_le.mpr hk), onByte_cons, if_neg (digit_ne hdig rfl),
    if_neg (digit_ne hdig rfl), if_neg (digit_ne hdig rfl), if_pos hdig]

theorem beDecodeAux_invalid (hk : 0 < k) (hl : first ≠ 'l'.toUInt8) (hd : first ≠ 'd'.toUInt8)
    (hi : first ≠ 'i'.toUInt8) (hdig : ¬ isDigit first) (fuel : Nat) :
    beDecodeAux (fuel + 1) ⟨first :: m, k⟩ = .ok none := by
  unfold beDecodeAux
  rw [if_neg (Int.not_le.mpr hk), onByte_cons, if_neg hl, if_neg hd, if_neg hi, if_neg hdig]

/-- A call that returns has seen a byte. -/
theorem beDecodeAux_room {s : List UInt8} {fuel : Nat} {out : Option (BeNode × Cursor)}
    (h : beDecodeAux (fuel + 1) ⟨s, k⟩ = .ok out) : 0 < k ∧ ∃ b u, s = b :: u := by
  unfold beDecodeAux at h
  split at h
  · cases h
  · rename_i hk
    cases s with
    | nil => cases h
    | cons b u => exact ⟨Int.not_le.mp hk, b, u, rfl⟩

/-- The branches of the decoder by the first byte. -/
theorem first_cases (b : UInt8) : b = 'l'.toUInt8 ∨ b = 'd'.toUInt8 ∨ b = 'i'.toUInt8 ∨
    isDigit b = true ∨
      (b ≠ 'l'.toUInt8 ∧ b ≠ 'd'.toUInt8 ∧ b ≠ 'i'.toUInt8 ∧ ¬ isDigit b = true) := by
  tauto

end Branches

theorem readsBack_str (s : BeStr) : ReadsBack (.str s) := by
  intro fuel m k hf hk
  have hpos := serialize_length_pos (.str s)
  obtain ⟨b, u, hb, hdig⟩ := decimal_nat_head s.len
  have hstr := beDecodeStr_text s m hk
  have htext : serialize (.str s) ++ m = b :: (u ++ cstr ":" ++ s.bytes ++ m) := by
    rw [serialize, hb]
    rfl
  rw [← serialize, htext] at hstr
  cases fuel with
  | zero => omega
  | succ fuel => rw [htext, beDecodeAux_str (by omega) hdig, hstr, orRet_some]

theorem readsBack_int (i : Int32) : ReadsBack (.int i) := by
  intro fuel m k hf hk
  have hpos := serialize_length_pos (.int i)
  have hint := beDecodeIntNode_text i m (k - 1)
  cases fuel with
  | zero => omega
  | succ fuel =>
    show beDecodeAux (fuel + 1) ⟨'i'.toUInt8 :: (decimal i.toInt ++ cstr "e" ++ m), k⟩ = _
    rw [beDecodeAux_int (by omega), hint]
    have hlen : (serialize (.int i)).length = 1 + (decimal i.toInt ++ cstr "e").length := by
      simp [serialize, cstr]
      omega
    rw [hlen]
    congr 4
    omega

theorem readsBack_list {l : List BeNode} (hsub : ∀ t ∈ l, ReadsBack t) :
    ReadsBack (.list l) := by
  intro fuel m k hf hk
  have hpos := serialize_length_pos (.list l)
  have hlen : (serialize (.list l)).length = 1 + (serializeList l).length := by
    simp [serialize, cstr]
    omega
  rw [hlen] at hf hk
  cases fuel with
  | zero => omega
  | succ fuel =>
    have hlist := beDecodeList_text hsub fuel m (k - 1) (by omega) (by omega)
    show beDecodeAux (fuel + 1) ⟨'l'.toUInt8 :: (serializeList l ++ m), k⟩ = _
    rw [beDecodeAux_list (by omega), hlist, orRet_some, hlen]
    dsimp only
    congr 4
    omega

theorem readsBack_dict {d : List (BeStr × BeNode)} (hkeys : ∀ e ∈ d, 0 ∉ e.1.bytes)
    (hsub : ∀ e ∈ d, ReadsBack e.2) : ReadsBack (.dict d) := by
  intro fuel m k hf hk
  have hpos := serialize_length_pos (.dict d)
  have hlen : (serialize (.dict d)).length = 1 + (serializeDict d).length := by
    simp [serialize, cstr]
    omega
  rw [hlen] at hf hk
  cases fuel with
  | zero => omega
  | succ fuel =>
    have hdict := beDecodeDict_text hkeys hsub fuel m (k - 1) (by omega) (by omega)
    show beDecodeAux (fuel + 1) ⟨'d'.toUInt8 :: (serializeDict d ++ m), k⟩ = _
    rw [beDecodeAux_dict (by omega), hdict, orRet_some, hlen]
    dsimp only
    congr 4
    omega

theorem readsBack {t : BeNode} (h : KeysNulFree t) : ReadsBack t := by
  induction t with
  | str s => exact readsBack_str s
  | int i => exact readsBack_int i
  | list l ih =>
    cases h with
    | list h => exact readsBack_list fun t ht => ih t ht (h t ht)
  | dict d ih =>
    cases h with
    | dict hk h => exact readsBack_dict hk fun e he => ih e he (h e he)

/-- Decoding the text of a tree gives the tree and consumes the text. -/
theorem beDecode_serialize {t : BeNode} (h : KeysNulFree t) :
    beDecode (serialize t) (serialize t).length = .ok (some (t, ⟨[], 0⟩)) := by
  have hread := readsBack h (decodeFuel (serialize t)) [] (serialize t).length
    (by unfold decodeFuel; omega) (Int.le_refl _)
  rw [List.append_nil, Int.sub_self] at hread
  exact hread

/-- Whatever the encoder writes into a buffer of any length is read back as the tree it was written
from, with nothing left behind it, provided that the keys of the tree have no NUL byte, at which the
encoder would cut them. -/
theorem beDecode_beEncode (t : BeNode) (hkeys : KeysNulFree t) (len : Int) (out : List UInt8)
    (h : beEncode t len = .ok (some out)) :
    0 < out.length ∧ beDecode out out.length = .ok (some (t, ⟨[], 0⟩)) := by
  have hout : out = serialize t := beEncode_eq_serialize t len out h
  rw [hout]
  exact ⟨serialize_length_pos t, beDecode_serialize hkeys⟩

/-- A string with a NUL, a negative integer and an empty string inside a dictionary and a
list, in a buffer of 64 bytes. -/
theorem beDecode_beEncode_nested :
    beDecode (cstr "d1:kli-7e0:2:a" ++ [0] ++ cstr "ee") 17 =
      .ok (some (.dict [(⟨cstr "k", by decide⟩, .list [.int (-7), .str ⟨[], by decide⟩,
        .str ⟨cstr "a" ++ [0], by decide⟩])], ⟨[], 0⟩)) := by
  refine (beDecode_beEncode _ ?_ 64 _ rfl).2
  apply KeysNulFree.dict
  · intro e he
    rw [List.mem_singleton] at he
    subst he
    decide
  · intro e he
    rw [List.mem_singleton] at he
    subst he
    apply KeysNulFree.list
    intro t ht
    simp only [List.mem_cons, List.not_mem_nil, or_false] at ht
    rcases ht with rfl | rfl | rfl
    · exact KeysNulFree.int _
    · exact KeysNulFree.str _
    · exact KeysNulFree.str _

end Vdht.Core
