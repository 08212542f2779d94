import Vdht.Core.RoundTrip

/-!
# What the decoder accepts, and where it leaves the buffer

The loops over lists and dictionaries look at `**data` without asking `*data_len`, `strtol`
reads up to a byte that stops it, and a length is only compared with what is left from above.
`Value` describes the words that are decoded; `Stuck` the buffers on which one of the three
goes wrong: the buffer ends inside open lists and dictionaries or inside a number, or a
string announces a length that is negative as an `int32_t`.

`decode_sound` and `stuck_faults` show that the decoder returns exactly on the buffers that
are not `Stuck`.
-/

namespace Vdht.Core

open Lib

/-! ## Words -/

/-- The value that `_be_decode_int` stores. -/
def asInt32 (v : Int) : Int := (Int32.ofInt v).toInt

/-- A length, a colon and as many bytes. -/
inductive StrWord : List UInt8 → Prop where
  | mk {w s : List UInt8} {v : Int} (hw : Numeral w v) (hlen : asInt32 v = s.length) :
      StrWord (w ++ ':'.toUInt8 :: s)

/-- The first byte is a digit, by which the decoder takes a value for a string. -/
def StartsWithDigit (s : List UInt8) : Prop := ∃ b m, s = b :: m ∧ isDigit b

mutual

/-- What is decoded as one value, whatever stands behind it: a string, a number, a list or a
dictionary. -/
inductive Value : List UInt8 → Prop where
  | str {s : List UInt8} (h : StrWord s) (hd : StartsWithDigit s) : Value s
  | int {w : List UInt8} {v : Int} (h : Numeral w v) : Value ('i'.toUInt8 :: (w ++ ['e'.toUInt8]))
  | list {ws : List UInt8} (h : Items ws) : Value ('l'.toUInt8 :: (ws ++ ['e'.toUInt8]))
  | dict {ws : List UInt8} (h : Entries ws) : Value ('d'.toUInt8 :: (ws ++ ['e'.toUInt8]))

/-- The members of a list, one behind the other. -/
inductive Items : List UInt8 → Prop where
  | nil : Items []
  | cons {v ws : List UInt8} (hv : Value v) (h : Items ws) : Items (v ++ ws)

/-- The pairs of a dictionary, one behind the other; a key is a string. -/
inductive Entries : List UInt8 → Prop where
  | nil : Entries []
  | cons {k v ws : List UInt8} (hk : StrWord k) (hv : Value v) (h : Entries ws) :
      Entries (k ++ (v ++ ws))

end

/-- A string whose length has no end, or is negative and yet small enough in absolute value
for the allocation to be granted. -/
def StuckStr (s : List UInt8) : Prop :=
  OpenNumber s ∨ ∃ w v m, s = w ++ ':'.toUInt8 :: m ∧ Numeral w v ∧
    -5 ≤ asInt32 v ∧ asInt32 v < 0

/-- The words at whose end the decoder still wants to read: in a string or a number that is open, or
behind the members and pairs of a list or a dictionary that is open. -/
inductive Stuck : List UInt8 → Prop where
  | ended : Stuck []
  | str {s : List UInt8} (h : StuckStr s) (hd : StartsWithDigit s) : Stuck s
  | int {w : List UInt8} (h : OpenNumber w) : Stuck ('i'.toUInt8 :: w)
  | list {ws u : List UInt8} (h : Items ws) (hu : Stuck u) : Stuck ('l'.toUInt8 :: (ws ++ u))
  | key {ws u : List UInt8} (h : Entries ws) (hu : StuckStr u) : Stuck ('d'.toUInt8 :: (ws ++ u))
  | val {ws k u : List UInt8} (h : Entries ws) (hk : StrWord k) (hu : Stuck u) :
      Stuck ('d'.toUInt8 :: (ws ++ (k ++ u)))

/-- The cursor at the front of a buffer that consists of `s`. -/
def at_ (s : List UInt8) : Cursor := ⟨s, s.length⟩

theorem at_cons_next (b : UInt8) (m : List UInt8) : (at_ (b :: m)).next = at_ m := by
  simp only [at_, next_mk, List.length_cons, Cursor.mk.injEq, true_and]
  omega

/-! ## Strings -/

theorem beDecodeInt_at {w m : List UInt8} {v : Int} {b : UInt8} (h : Numeral w v)
    (hb : isStop b) : beDecodeInt (at_ (w ++ b :: m)) =
      .ok (some (Int32.ofInt v, at_ (b :: m))) := by
  rw [at_, beDecodeInt_numeral h hb, at_]
  congr 4
  simp only [List.length_append, List.length_cons]
  omega

theorem beDecodeInt_open {s : List UInt8} (h : OpenNumber s) :
    beDecodeInt (at_ s) = .error .bounds := by
  unfold beDecodeInt at_
  rw [strtol_eq_none_iff.mpr h]

/-- The outcome of `_be_decode_int`. -/
theorem beDecodeInt_cases (s : List UInt8) :
    (beDecodeInt (at_ s) = .error .bounds ∧ OpenNumber s) ∨ beDecodeInt (at_ s) = .ok none ∨
      ∃ w v m, s = w ++ m ∧ Numeral w v ∧ m ≠ [] ∧
        beDecodeInt (at_ s) = .ok (some (Int32.ofInt v, at_ m)) := by
  unfold beDecodeInt at_
  cases hr : strtol s with
  | none => exact Or.inl ⟨rfl, strtol_eq_none_iff.mp hr⟩
  | some r =>
    obtain ⟨v, erange, m⟩ := r
    cases erange with
    | true => exact Or.inr (Or.inl rfl)
    | false =>
      obtain ⟨w, hs, hw⟩ := numeral_of_strtol hr
      obtain ⟨-, -, hm⟩ := strtol_rest hr
      refine Or.inr (Or.inr ⟨w, v, m, hs, hw, hm, ?_⟩)
      simp only [Bool.false_eq_true, if_false]
      congr 4
      omega

theorem copyIn_ok {data : List UInt8} {len : Int32} (h0 : 0 ≤ len.toInt)
    (h1 : len.toInt ≤ data.length) : ∃ s, copyIn data len = .ok (some s) := by
  unfold copyIn
  rw [dif_pos ⟨h0, h1⟩]
  exact ⟨_, rfl⟩

theorem strWord_reads {k : List UInt8} (h : StrWord k) (m : List UInt8) :
    ∃ s, beDecodeStr (at_ (k ++ m)) = .ok (some (s, at_ m)) := by
  obtain @⟨w, u, v, hw, hlen⟩ := h
  have hlen' : (Int32.ofInt v).toInt = u.length := hlen
  obtain ⟨s, hs⟩ := @copyIn_ok (u ++ m) (Int32.ofInt v) (by omega)
    (by rw [List.length_append]; omega)
  refine ⟨s, ?_⟩
  have hsplit : w ++ ':'.toUInt8 :: u ++ m = w ++ ':'.toUInt8 :: (u ++ m) := by simp
  unfold beDecodeStr
  rw [hsplit, beDecodeInt_at hw (by decide), orRet_some]
  dsimp only
  rw [at_cons_next, if_neg (by
    simp only [at_, List.length_cons, List.length_append]
    omega)]
  rw [at_, onByte_cons, if_pos rfl, if_pos (by unfold Mallocable; omega)]
  simp only [at_, hs, orRet_some, hlen', Int.toNat_natCast, List.drop_left]
  congr 4
  rw [List.length_append]
  omega

theorem stuckStr_faults {s : List UInt8} (h : StuckStr s) :
    beDecodeStr (at_ s) = .error .bounds := by
  unfold beDecodeStr
  rcases h with hopen | ⟨w, v, m, rfl, hw, hlow, hneg⟩
  · rw [beDecodeInt_open hopen]
    rfl
  · unfold asInt32 at hlow hneg
    rw [beDecodeInt_at hw (by decide), orRet_some]
    dsimp only
    rw [at_cons_next, if_neg (by
      simp only [at_, List.length_cons]
      omega)]
    rw [at_, onByte_cons, if_pos rfl, if_pos (by unfold Mallocable; omega)]
    unfold copyIn
    rw [dif_neg (by omega)]
    rfl

/-- The outcome of `_be_decode_str`. -/
theorem beDecodeStr_cases (s : List UInt8) :
    (beDecodeStr (at_ s) = .error .bounds ∧ StuckStr s) ∨ beDecodeStr (at_ s) = .ok none ∨
      ∃ k m x, s = k ++ m ∧ StrWord k ∧ beDecodeStr (at_ s) = .ok (some (x, at_ m)) := by
  unfold beDecodeStr
  rcases beDecodeInt_cases s with ⟨he, hopen⟩ | hnone | ⟨w, v, m, rfl, hw, hm, hok⟩
  · rw [he]
    exact Or.inl ⟨rfl, Or.inl hopen⟩
  · rw [hnone]
    exact Or.inr (Or.inl rfl)
  · rw [hok, orRet_some]
    dsimp only
    split
    · exact Or.inr (Or.inl rfl)
    · rename_i hlen
      cases m with
      | nil => exact absurd rfl hm
      | cons b m =>
        rw [at_cons_next]
        rw [at_, onByte_cons]
        by_cases hb : b = ':'.toUInt8
        · subst hb
          simp only [at_, List.length_cons] at hlen
          rw [if_pos rfl]
          by_cases hmal : Mallocable (Int32.ofInt v)
          · rw [if_pos hmal]
            by_cases hneg : (Int32.ofInt v).toInt < 0
            · refine Or.inl ⟨?_, Or.inr ⟨w, v, m, rfl, hw, ?_, hneg⟩⟩
              · unfold copyIn
                rw [dif_neg (by omega)]
                rfl
              · unfold Mallocable at hmal
                unfold asInt32
                omega
            · obtain ⟨x, hx⟩ := @copyIn_ok m (Int32.ofInt v) (by omega) (by omega)
              refine Or.inr (Or.inr ⟨w ++ ':'.toUInt8 :: m.take (Int32.ofInt v).toInt.toNat,
                m.drop (Int32.ofInt v).toInt.toNat, x, ?_, ⟨hw, ?_⟩, ?_⟩)
              · simp
              · unfold asInt32
                rw [List.length_take]
                omega
              · simp only [at_, hx, orRet_some]
                congr 4
                rw [List.length_drop]
                omega
          · rw [if_neg hmal]
            exact Or.inr (Or.inl rfl)
        · rw [if_neg hb]
          exact Or.inr (Or.inl rfl)

/-! ## First bytes -/

theorem e_not_mem_number {blanks sign ds : List UInt8} {neg : Bool}
    (hb : ∀ c ∈ blanks, isSpace c) (hs : Sign sign neg) (hd : ∀ c ∈ ds, isDigit c) :
    'e'.toUInt8 ∉ blanks ++ (sign ++ ds) := by
  simp only [List.mem_append, not_or]
  refine ⟨fun h => ?_, fun h => ?_, fun h => ?_⟩
  · exact absurd (hb _ h) (by decide)
  · cases hs with
    | none => simp at h
    | plus => exact absurd (List.mem_singleton.mp h) (by decide)
    | minus => exact absurd (List.mem_singleton.mp h) (by decide)
  · exact absurd (hd _ h) (by decide)

/-- Not the `e` that ends the loop of a list or a dictionary. -/
def GoesOn (s : List UInt8) : Prop := ∀ c, s.head? = some c → c ≠ 'e'.toUInt8

theorem goesOn_of_not_mem {s : List UInt8} (h : 'e'.toUInt8 ∉ s) : GoesOn s := by
  rintro c hc rfl
  exact h (List.mem_of_head? hc)

theorem goesOn_append {s : List UInt8} (hs : s ≠ []) (h : GoesOn s) (m : List UInt8) :
    GoesOn (s ++ m) := by
  cases s with
  | nil => exact absurd rfl hs
  | cons b s => exact h

theorem strWord_ne_nil {k : List UInt8} (h : StrWord k) : k ≠ [] := by
  cases h
  simp

theorem goesOn_colon {w : List UInt8} {v : Int} (h : Numeral w v) (m : List UInt8) :
    GoesOn (w ++ ':'.toUInt8 :: m) := by
  cases h with
  | absent =>
    intro c hc
    cases hc
    decide
  | digits hb hs hd hne _ =>
    exact goesOn_append (by simp [hne]) (goesOn_of_not_mem (e_not_mem_number hb hs hd)) _

theorem strWord_goesOn {k : List UInt8} (h : StrWord k) : GoesOn k := by
  cases h with
  | mk hw _ => exact goesOn_colon hw _

theorem stuckStr_goesOn {s : List UInt8} (h : StuckStr s) : GoesOn s := by
  rcases h with ⟨blanks, sign, neg, ds, rfl, hb, hs, hd⟩ | ⟨w, v, m, rfl, hw, -, -⟩
  · exact goesOn_of_not_mem (e_not_mem_number hb hs hd)
  · exact goesOn_colon hw m

theorem value_ne_nil {v : List UInt8} (h : Value v) : v ≠ [] := by
  cases h with
  | str h _ => exact strWord_ne_nil h
  | int _ => simp
  | list _ => simp
  | dict _ => simp

theorem value_goesOn {v : List UInt8} (h : Value v) : GoesOn v := by
  cases h with
  | str h _ => exact strWord_goesOn h
  | int _ => rintro c ⟨⟩; decide
  | list _ => rintro c ⟨⟩; decide
  | dict _ => rintro c ⟨⟩; decide

theorem stuck_goesOn {s : List UInt8} (h : Stuck s) : GoesOn s := by
  cases h with
  | ended => rintro c ⟨⟩
  | str h _ => exact stuckStr_goesOn h
  | int _ => rintro c ⟨⟩; decide
  | list _ _ => rintro c ⟨⟩; decide
  | key _ _ => rintro c ⟨⟩; decide
  | val _ _ _ => rintro c ⟨⟩; decide

/-- The loops look at the byte in front of them first. -/
theorem onByte_goesOn {β : Type} {s : List UInt8} (hne : s ≠ []) (h : GoesOn s)
    (done go : Res (Option β)) :
    onByte (at_ s) (fun b => if b = 'e'.toUInt8 then done else go) = go := by
  cases s with
  | nil => exact absurd rfl hne
  | cons b s =>
    rw [at_, onByte_cons]
    exact if_neg (h b rfl)

theorem onByte_nil {β : Type} (f : UInt8 → Res (Option β)) :
    onByte (at_ []) f = .error .bounds := rfl

/-! ## Words are read -/

/-- The fuel a value at the front of `s` may need. -/
def Enough (fuel : Nat) (s : List UInt8) : Prop := 2 * s.length + 1 ≤ fuel

theorem Enough.pos {fuel : Nat} {s : List UInt8} (h : Enough fuel s) : ∃ n, fuel = n + 1 :=
  Nat.exists_eq_add_one_of_ne_zero (by unfold Enough at h; omega)

/-- Behind an opening byte there is fuel for the branch and for the first turn of its loop. -/
theorem Enough.opened {fuel : Nat} {b : UInt8} {s : List UInt8} (h : Enough fuel (b :: s)) :
    ∃ n, fuel = n + 1 + 1 ∧ Enough n s := by
  rw [Enough, List.length_cons] at h
  refine ⟨fuel - 2, by omega, ?_⟩
  rw [Enough]
  omega

theorem Enough.behind {fuel : Nat} {s u : List UInt8} (h : Enough fuel (s ++ u)) :
    Enough fuel u := by
  rw [Enough, List.length_append] at h
  rw [Enough]
  omega

theorem at_cons (b : UInt8) (m : List UInt8) : at_ (b :: m) = ⟨b :: m, (m.length : Int) + 1⟩ := rfl

theorem str_branch {s : List UInt8} (hd : StartsWithDigit s) (fuel : Nat) :
    beDecodeAux (fuel + 1) (at_ s) =
      orRet (beDecodeStr (at_ s)) fun (x, c) => .ok (some (.str x, c)) := by
  obtain ⟨b, m, rfl, hdig⟩ := hd
  rw [at_cons, beDecodeAux_str (by omega) hdig]

theorem list_branch (m : List UInt8) (fuel : Nat) :
    beDecodeAux (fuel + 1) (at_ ('l'.toUInt8 :: m)) =
      orRet (beDecodeList fuel (at_ m)) fun (l, c) => .ok (some (.list l, c)) := by
  rw [at_cons, beDecodeAux_list (by omega), Int.add_sub_cancel]
  rfl

theorem dict_branch (m : List UInt8) (fuel : Nat) :
    beDecodeAux (fuel + 1) (at_ ('d'.toUInt8 :: m)) =
      orRet (beDecodeDict fuel (at_ m)) fun (d, c) => .ok (some (.dict d, c)) := by
  rw [at_cons, beDecodeAux_dict (by omega), Int.add_sub_cancel]
  rfl

theorem int_branch (m : List UInt8) (fuel : Nat) :
    beDecodeAux (fuel + 1) (at_ ('i'.toUInt8 :: m)) = beDecodeIntNode (at_ m) := by
  rw [at_cons, beDecodeAux_int (by omega), Int.add_sub_cancel]
  rfl

/-- `v` is decoded wherever it stands. -/
def Reads (v : List UInt8) : Prop :=
  ∀ m fuel, Enough fuel (v ++ m) →
    ∃ t, beDecodeAux fuel (at_ (v ++ m)) = .ok (some (t, at_ m))

/-- The list loop passes over `ws` and goes on behind it. -/
def PassesList (ws : List UInt8) : Prop :=
  ∀ m fuel, Enough fuel (ws ++ m) →
    ∃ l fuel', Enough fuel' m ∧ beDecodeList (fuel + 1) (at_ (ws ++ m)) =
      orRet (beDecodeList (fuel' + 1) (at_ m)) fun (r, c) => .ok (some (l ++ r, c))

/-- The dictionary loop passes over `ws` and goes on behind it. -/
def PassesDict (ws : List UInt8) : Prop :=
  ∀ m fuel, Enough fuel (ws ++ m) →
    ∃ d fuel', Enough fuel' m ∧ beDecodeDict (fuel + 1) (at_ (ws ++ m)) =
      orRet (beDecodeDict (fuel' + 1) (at_ m)) fun (r, c) => .ok (some (d ++ r, c))

theorem orRet_eta {α β : Type} (x : Res (Option (α × β))) :
    (orRet x fun (a, b) => .ok (some (a, b))) = x := by
  cases x with
  | error e => rfl
  | ok x => cases x <;> rfl

theorem orRet_assoc {α β γ : Type} (x : Res (Option α)) (f : α → Res (Option β))
    (g : β → Res (Option γ)) : orRet (orRet x f) g = orRet x fun a => orRet (f a) g := by
  cases x with
  | error e => rfl
  | ok x => cases x <;> rfl

theorem passesList_cons {v ws : List UInt8} (hv : Value v) (hread : Reads v)
    (hpass : PassesList ws) : PassesList (v ++ ws) := by
  intro m fuel hf
  have hne := value_ne_nil hv
  have hpos := List.length_pos_of_ne_nil hne
  unfold Enough at hf
  simp only [List.length_append] at hf
  obtain ⟨t, ht⟩ := hread (ws ++ m) fuel
    (by simp only [Enough, List.length_append]; omega)
  cases fuel with
  | zero => omega
  | succ fuel =>
    obtain ⟨l, fuel', hf', hl⟩ := hpass m fuel
      (by simp only [Enough, List.length_append]; omega)
    refine ⟨t :: l, fuel', hf', ?_⟩
    rw [List.append_assoc]
    have hgo := goesOn_append hne (value_goesOn hv) (ws ++ m)
    rw [beDecodeList, onByte_goesOn (by simp [hne]) hgo, ht, orRet_some]
    dsimp only
    rw [hl, orRet_assoc]
    congr 1

theorem passesDict_cons {k v ws : List UInt8} (hk : StrWord k) (hv : Value v) (hread : Reads v)
    (hpass : PassesDict ws) : PassesDict (k ++ (v ++ ws)) := by
  intro m fuel hf
  have hkne := strWord_ne_nil hk
  have hkpos := List.length_pos_of_ne_nil hkne
  have hvpos := List.length_pos_of_ne_nil (value_ne_nil hv)
  unfold Enough at hf
  simp only [List.length_append] at hf
  obtain ⟨x, hx⟩ := strWord_reads hk (v ++ (ws ++ m))
  obtain ⟨t, ht⟩ := hread (ws ++ m) fuel
    (by simp only [Enough, List.length_append]; omega)
  cases fuel with
  | zero => omega
  | succ fuel =>
    obtain ⟨d, fuel', hf', hd⟩ := hpass m fuel
      (by simp only [Enough, List.length_append]; omega)
    refine ⟨(x, t) :: d, fuel', hf', ?_⟩
    rw [List.append_assoc, List.append_assoc]
    have hgo := goesOn_append hkne (strWord_goesOn hk) (v ++ (ws ++ m))
    rw [beDecodeDict, onByte_goesOn (by simp [hkne]) hgo, hx, orRet_some]
    dsimp only
    rw [ht, orRet_some]
    dsimp only
    rw [hd, orRet_assoc]
    congr 1

theorem value_reads_int {w : List UInt8} {v : Int} (h : Numeral w v) :
    Reads ('i'.toUInt8 :: (w ++ ['e'.toUInt8])) := by
  intro m fuel hf
  obtain ⟨n, rfl⟩ := hf.pos
  refine ⟨.int (Int32.ofInt v), ?_⟩
  have hsplit : 'i'.toUInt8 :: (w ++ ['e'.toUInt8]) ++ m =
      'i'.toUInt8 :: (w ++ 'e'.toUInt8 :: m) := by simp
  rw [hsplit, int_branch]
  unfold beDecodeIntNode
  rw [beDecodeInt_at h (by decide), orRet_some]
  dsimp only
  rw [at_cons_next]
  rfl

theorem value_reads_list {ws : List UInt8} (h : PassesList ws) :
    Reads ('l'.toUInt8 :: (ws ++ ['e'.toUInt8])) := by
  intro m fuel hf
  have hsplit : 'l'.toUInt8 :: (ws ++ ['e'.toUInt8]) ++ m =
      'l'.toUInt8 :: (ws ++ 'e'.toUInt8 :: m) := by simp
  rw [hsplit] at hf ⊢
  obtain ⟨n, rfl, hn⟩ := hf.opened
  obtain ⟨l, fuel', -, hl⟩ := h ('e'.toUInt8 :: m) n hn
  refine ⟨.list (l ++ []), ?_⟩
  have hdone : beDecodeList (fuel' + 1) (at_ ('e'.toUInt8 :: m)) = .ok (some ([], at_ m)) := by
    rw [beDecodeList, at_cons_next]
    rfl
  rw [list_branch, hl, hdone]
  rfl

theorem value_reads_dict {ws : List UInt8} (h : PassesDict ws) :
    Reads ('d'.toUInt8 :: (ws ++ ['e'.toUInt8])) := by
  intro m fuel hf
  have hsplit : 'd'.toUInt8 :: (ws ++ ['e'.toUInt8]) ++ m =
      'd'.toUInt8 :: (ws ++ 'e'.toUInt8 :: m) := by simp
  rw [hsplit] at hf ⊢
  obtain ⟨n, rfl, hn⟩ := hf.opened
  obtain ⟨d, fuel', -, hd⟩ := h ('e'.toUInt8 :: m) n hn
  refine ⟨.dict (d ++ []), ?_⟩
  have hdone : beDecodeDict (fuel' + 1) (at_ ('e'.toUInt8 :: m)) = .ok (some ([], at_ m)) := by
    rw [beDecodeDict, at_cons_next]
    rfl
  rw [dict_branch, hd, hdone]
  rfl

mutual

theorem value_reads {v : List UInt8} (h : Value v) : Reads v :=
  match h with
  | .str hs hd => by
    intro m fuel hf
    have hd' : StartsWithDigit (v ++ m) := by
      obtain ⟨b, u, rfl, hb⟩ := hd
      exact ⟨b, u ++ m, rfl, hb⟩
    obtain ⟨x, hx⟩ := strWord_reads hs m
    obtain ⟨n, rfl⟩ := hf.pos
    exact ⟨.str x, by rw [str_branch hd', hx]; rfl⟩
  | .int hw => value_reads_int hw
  | .list hl => value_reads_list (items_pass hl)
  | .dict hd => value_reads_dict (entries_pass hd)

theorem items_pass {ws : List UInt8} (h : Items ws) : PassesList ws :=
  match h with
  | .nil => fun _ fuel hf => ⟨[], fuel, hf, (orRet_eta _).symm⟩
  | .cons hv hl => passesList_cons hv (value_reads hv) (items_pass hl)

theorem entries_pass {ws : List UInt8} (h : Entries ws) : PassesDict ws :=
  match h with
  | .nil => fun _ fuel hf => ⟨[], fuel, hf, (orRet_eta _).symm⟩
  | .cons hk hv hd => passesDict_cons hk hv (value_reads hv) (entries_pass hd)

end

/-! ## Stuck buffers fault -/

theorem stuck_faults {s : List UInt8} (h : Stuck s) :
    ∀ fuel, Enough fuel s → ∃ e, beDecodeAux fuel (at_ s) = .error e := by
  induction h with
  | ended =>
    intro fuel hf
    obtain ⟨n, rfl⟩ := hf.pos
    exact ⟨.assertion, rfl⟩
  | str h hd =>
    intro fuel hf
    obtain ⟨n, rfl⟩ := hf.pos
    exact ⟨.bounds, by rw [str_branch hd, stuckStr_faults h]; rfl⟩
  | int h =>
    intro fuel hf
    obtain ⟨n, rfl⟩ := hf.pos
    refine ⟨.bounds, ?_⟩
    rw [int_branch]
    unfold beDecodeIntNode
    rw [beDecodeInt_open h]
    rfl
  | @list ws u hws hu ih =>
    intro fuel hf
    obtain ⟨n, rfl, hn⟩ := hf.opened
    obtain ⟨l, fuel', hf', hl⟩ := items_pass hws u n hn
    obtain ⟨e, he⟩ := ih fuel' hf'
    rw [list_branch, hl]
    by_cases hne : u = []
    · subst hne
      exact ⟨.bounds, by rw [beDecodeList, onByte_nil]; rfl⟩
    · exact ⟨e, by rw [beDecodeList, onByte_goesOn hne (stuck_goesOn hu), he]; rfl⟩
  | @key ws u hws hu =>
    intro fuel hf
    obtain ⟨n, rfl, hn⟩ := hf.opened
    obtain ⟨d, fuel', hf', hd⟩ := entries_pass hws u n hn
    rw [dict_branch, hd]
    refine ⟨.bounds, ?_⟩
    by_cases hne : u = []
    · subst hne
      rw [beDecodeDict, onByte_nil]
      rfl
    · rw [beDecodeDict, onByte_goesOn hne (stuckStr_goesOn hu), stuckStr_faults hu]
      rfl
  | @val ws k u hws hk hu ih =>
    intro fuel hf
    obtain ⟨n, rfl, hn⟩ := hf.opened
    obtain ⟨d, fuel', hf', hd⟩ := entries_pass hws (k ++ u) n hn
    obtain ⟨x, hx⟩ := strWord_reads hk u
    obtain ⟨e, he⟩ := ih fuel' hf'.behind
    have hkne := strWord_ne_nil hk
    have hgo := goesOn_append hkne (strWord_goesOn hk) u
    refine ⟨e, ?_⟩
    rw [dict_branch, hd, beDecodeDict, onByte_goesOn (by simp [hkne]) hgo, hx, orRet_some]
    dsimp only
    rw [he]
    rfl

/-! ## Nothing else faults -/

/-- What the decoder of a value may do on `s`. -/
def ValueOutcome (s : List UInt8) (r : Res (Option (BeNode × Cursor))) : Prop :=
  (∃ e, r = .error e ∧ e ≠ .fuel ∧ Stuck s) ∨ r = .ok none ∨
    ∃ v m t, s = v ++ m ∧ Value v ∧ r = .ok (some (t, at_ m))

/-- What the loop of a list may do on `s`. -/
def ListOutcome (s : List UInt8) (r : Res (Option (List BeNode × Cursor))) : Prop :=
  (∃ e, r = .error e ∧ e ≠ .fuel ∧ ∃ ws u, s = ws ++ u ∧ Items ws ∧ Stuck u) ∨ r = .ok none ∨
    ∃ ws m l, s = ws ++ 'e'.toUInt8 :: m ∧ Items ws ∧ r = .ok (some (l, at_ m))

/-- Where the loop of a dictionary gets stuck: at a key or at the value behind one. -/
def StuckEntry (u : List UInt8) : Prop :=
  StuckStr u ∨ ∃ k u', u = k ++ u' ∧ StrWord k ∧ Stuck u'

/-- What the loop of a dictionary may do on `s`. -/
def DictOutcome (s : List UInt8) (r : Res (Option (List (BeStr × BeNode) × Cursor))) : Prop :=
  (∃ e, r = .error e ∧ e ≠ .fuel ∧ ∃ ws u, s = ws ++ u ∧ Entries ws ∧ StuckEntry u) ∨
    r = .ok none ∨
    ∃ ws m d, s = ws ++ 'e'.toUInt8 :: m ∧ Entries ws ∧ r = .ok (some (d, at_ m))

theorem openNumber_nil : OpenNumber [] := ⟨[], [], false, [], rfl, by simp, Sign.none, by simp⟩

theorem listOutcome_step {fuel : Nat} {s : List UInt8}
    (hval : ∀ u, u.length ≤ s.length → ValueOutcome u (beDecodeAux fuel (at_ u)))
    (hrest : ∀ u, u.length < s.length → ListOutcome u (beDecodeList fuel (at_ u))) :
    ListOutcome s (beDecodeList (fuel + 1) (at_ s)) := by
  cases s with
  | nil =>
    refine Or.inl ⟨.bounds, ?_, by decide, [], [], rfl, .nil, .ended⟩
    rw [beDecodeList, onByte_nil]
  | cons b s =>
    rw [beDecodeList, at_cons_next]
    by_cases hb : b = 'e'.toUInt8
    · subst hb
      exact Or.inr (Or.inr ⟨[], s, [], rfl, .nil, rfl⟩)
    · have hgo : GoesOn (b :: s) := by
        rintro c ⟨⟩
        exact hb
      rw [onByte_goesOn (by simp) hgo]
      rcases hval (b :: s) (Nat.le_refl _) with ⟨e, he, hne, hst⟩ | hnone | ⟨v, m, t, hs, hv, ht⟩
      · rw [he]
        exact Or.inl ⟨e, rfl, hne, [], b :: s, rfl, .nil, hst⟩
      · rw [hnone]
        exact Or.inr (Or.inl rfl)
      · have hvpos := List.length_pos_of_ne_nil (value_ne_nil hv)
        have hlen : m.length < (b :: s).length := by
          rw [hs, List.length_append]
          omega
        rw [ht, orRet_some]
        dsimp only
        rcases hrest m hlen with ⟨e, he, hne, ws, u, rfl, hws, hu⟩ | hnone | ⟨ws, u, l, rfl, hws, hl⟩
        · rw [he]
          exact Or.inl ⟨e, rfl, hne, v ++ ws, u, by rw [hs]; simp, .cons hv hws, hu⟩
        · rw [hnone]
          exact Or.inr (Or.inl rfl)
        · rw [hl]
          exact Or.inr (Or.inr ⟨v ++ ws, u, t :: l, by rw [hs]; simp, .cons hv hws, rfl⟩)

theorem dictOutcome_step {fuel : Nat} {s : List UInt8}
    (hval : ∀ u, u.length ≤ s.length → ValueOutcome u (beDecodeAux fuel (at_ u)))
    (hrest : ∀ u, u.length < s.length → DictOutcome u (beDecodeDict fuel (at_ u))) :
    DictOutcome s (beDecodeDict (fuel + 1) (at_ s)) := by
  cases s with
  | nil =>
    refine Or.inl ⟨.bounds, ?_, by decide, [], [], rfl, .nil, Or.inl (Or.inl openNumber_nil)⟩
    rw [beDecodeDict, onByte_nil]
  | cons b s =>
    rw [beDecodeDict, at_cons_next]
    by_cases hb : b = 'e'.toUInt8
    · subst hb
      exact Or.inr (Or.inr ⟨[], s, [], rfl, .nil, rfl⟩)
    · have hgo : GoesOn (b :: s) := by
        rintro c ⟨⟩
        exact hb
      rw [onByte_goesOn (by simp) hgo]
      rcases beDecodeStr_cases (b :: s) with ⟨he, hst⟩ | hnone | ⟨k, m', x, hk, hkw, hx⟩
      · rw [he]
        exact Or.inl ⟨.bounds, rfl, by decide, [], b :: s, rfl, .nil, Or.inl hst⟩
      · rw [hnone]
        exact Or.inr (Or.inl rfl)
      · have hkpos := List.length_pos_of_ne_nil (strWord_ne_nil hkw)
        have hlen' : m'.length < (b :: s).length := by
          rw [hk, List.length_append]
          omega
        rw [hx, orRet_some]
        dsimp only
        rcases hval m' (Nat.le_of_lt hlen') with
          ⟨e, he, hne, hst⟩ | hnone | ⟨v, m, t, rfl, hv, ht⟩
        · rw [he]
          exact Or.inl ⟨e, rfl, hne, [], b :: s, rfl, .nil, Or.inr ⟨k, m', hk, hkw, hst⟩⟩
        · rw [hnone]
          exact Or.inr (Or.inl rfl)
        · rw [ht, orRet_some]
          dsimp only
          have hlen : m.length < (b :: s).length := by
            rw [List.length_append] at hlen'
            omega
          rcases hrest m hlen with
            ⟨e, he, hne, ws, u, rfl, hws, hu⟩ | hnone | ⟨ws, u, d, rfl, hws, hd⟩
          · rw [he]
            exact Or.inl ⟨e, rfl, hne, k ++ (v ++ ws), u, by rw [hk]; simp, .cons hkw hv hws, hu⟩
          · rw [hnone]
            exact Or.inr (Or.inl rfl)
          · rw [hd]
            exact Or.inr (Or.inr ⟨k ++ (v ++ ws), u, (x, t) :: d, by rw [hk]; simp,
              .cons hkw hv hws, rfl⟩)

theorem int_outcome (m : List UInt8) :
    ValueOutcome ('i'.toUInt8 :: m) (beDecodeIntNode (at_ m)) := by
  unfold beDecodeIntNode
  rcases beDecodeInt_cases m with ⟨he, hopen⟩ | hnone | ⟨w, v, u, rfl, hw, hu, hok⟩
  · rw [he]
    exact Or.inl ⟨.bounds, rfl, by decide, .int hopen⟩
  · rw [hnone]
    exact Or.inr (Or.inl rfl)
  · rw [hok, orRet_some]
    dsimp only
    cases u with
    | nil => exact absurd rfl hu
    | cons b u =>
      rw [at_cons_next]
      rw [at_, onByte_cons]
      by_cases hb : b = 'e'.toUInt8
      · subst hb
        rw [if_pos rfl]
        exact Or.inr (Or.inr ⟨'i'.toUInt8 :: (w ++ ['e'.toUInt8]), u, _, by simp, .int hw, rfl⟩)
      · rw [if_neg hb]
        exact Or.inr (Or.inl rfl)

theorem str_outcome {s : List UInt8} (hd : StartsWithDigit s) :
    ValueOutcome s (orRet (beDecodeStr (at_ s)) fun (x, c) => .ok (some (.str x, c))) := by
  rcases beDecodeStr_cases s with ⟨he, hst⟩ | hnone | ⟨k, m, x, rfl, hk, hx⟩
  · rw [he]
    exact Or.inl ⟨.bounds, rfl, by decide, .str hst hd⟩
  · rw [hnone]
    exact Or.inr (Or.inl rfl)
  · rw [hx]
    refine Or.inr (Or.inr ⟨k, m, .str x, rfl, .str hk ?_, rfl⟩)
    obtain ⟨b, u, hb, hdig⟩ := hd
    cases k with
    | nil => exact absurd rfl (strWord_ne_nil hk)
    | cons c k =>
      cases hb
      exact ⟨b, k, rfl, hdig⟩

theorem list_outcome {m : List UInt8} {r : Res (Option (List BeNode × Cursor))}
    (h : ListOutcome m r) :
    ValueOutcome ('l'.toUInt8 :: m) (orRet r fun (l, c) => .ok (some (.list l, c))) := by
  rcases h with ⟨e, rfl, hne, ws, u, rfl, hws, hu⟩ | rfl | ⟨ws, u, l, rfl, hws, rfl⟩
  · exact Or.inl ⟨e, rfl, hne, .list hws hu⟩
  · exact Or.inr (Or.inl rfl)
  · exact Or.inr (Or.inr ⟨'l'.toUInt8 :: (ws ++ ['e'.toUInt8]), u, .list l, by simp, .list hws, rfl⟩)

theorem dict_outcome {m : List UInt8} {r : Res (Option (List (BeStr × BeNode) × Cursor))}
    (h : DictOutcome m r) :
    ValueOutcome ('d'.toUInt8 :: m) (orRet r fun (d, c) => .ok (some (.dict d, c))) := by
  rcases h with ⟨e, rfl, hne, ws, u, rfl, hws, hu⟩ | rfl | ⟨ws, u, d, rfl, hws, rfl⟩
  · refine Or.inl ⟨e, rfl, hne, ?_⟩
    rcases hu with hu | ⟨k, u', rfl, hk, hu⟩
    · exact .key hws hu
    · exact .val hws hk hu
  · exact Or.inr (Or.inl rfl)
  · exact Or.inr (Or.inr ⟨'d'.toUInt8 :: (ws ++ ['e'.toUInt8]), u, .dict d, by simp, .dict hws, rfl⟩)

/-- The branches of `_be_decode` by the first byte. -/
theorem value_outcome {fuel : Nat} {s : List UInt8} (hs : Enough fuel s)
    (hlist : ∀ m n, n + 1 + 1 = fuel → Enough n m →
      ListOutcome m (beDecodeList (n + 1) (at_ m)))
    (hdict : ∀ m n, n + 1 + 1 = fuel → Enough n m →
      DictOutcome m (beDecodeDict (n + 1) (at_ m))) :
    ValueOutcome s (beDecodeAux fuel (at_ s)) := by
  cases s with
  | nil =>
    obtain ⟨n, rfl⟩ := hs.pos
    exact Or.inl ⟨.assertion, rfl, by decide, .ended⟩
  | cons b m =>
    obtain ⟨n, rfl, hn⟩ := hs.opened
    by_cases hdig : isDigit b
    · have hd : StartsWithDigit (b :: m) := ⟨b, m, rfl, hdig⟩
      rw [str_branch hd]
      exact str_outcome hd
    · by_cases hl : b = 'l'.toUInt8
      · subst hl
        rw [list_branch]
        exact list_outcome (hlist m n rfl hn)
      · by_cases hd : b = 'd'.toUInt8
        · subst hd
          rw [dict_branch]
          exact dict_outcome (hdict m n rfl hn)
        · by_cases hi : b = 'i'.toUInt8
          · subst hi
            rw [int_branch]
            exact int_outcome m
          · refine Or.inr (Or.inl ?_)
            rw [at_cons, beDecodeAux_invalid (by omega) hl hd hi hdig]

/-- With enough fuel a value is decoded or rejected, or the buffer is stuck. -/
theorem decode_sound (fuel : Nat) :
    (∀ s, Enough fuel s → ValueOutcome s (beDecodeAux fuel (at_ s))) ∧
    (∀ s, Enough fuel s → ListOutcome s (beDecodeList (fuel + 1) (at_ s))) ∧
    (∀ s, Enough fuel s → DictOutcome s (beDecodeDict (fuel + 1) (at_ s))) := by
  induction fuel using Nat.strongRecOn with
  | ind fuel ih =>
    have hval : ∀ s, Enough fuel s → ValueOutcome s (beDecodeAux fuel (at_ s)) := fun s hs =>
      value_outcome hs (fun m n hn hm => (ih n (by omega)).2.1 m hm)
        fun m n hn hm => (ih n (by omega)).2.2 m hm
    refine ⟨hval, ?_, ?_⟩
    · intro s hs
      unfold Enough at hs
      apply listOutcome_step
      · intro u hu
        exact hval u (by unfold Enough; omega)
      · intro u hu
        cases fuel with
        | zero => omega
        | succ fuel => exact (ih fuel (by omega)).2.1 u (by unfold Enough; omega)
    · intro s hs
      unfold Enough at hs
      apply dictOutcome_step
      · intro u hu
        exact hval u (by unfold Enough; omega)
      · intro u hu
        cases fuel with
        | zero => omega
        | succ fuel => exact (ih fuel (by omega)).2.2 u (by unfold Enough; omega)

theorem enough_decodeFuel (bs : List UInt8) : Enough (decodeFuel bs) bs := by
  unfold Enough decodeFuel
  omega

/-- The decoder on any bytes, with their number for the length. It always comes to an end, and it
stays inside the buffer, keeps its assertion on the rest and accepts only lengths that fit exactly
on the buffers that are not stuck, which is a matter of the words of the text alone. -/
theorem beDecode_safe_iff (bs : List UInt8) :
    beDecode bs bs.length ≠ .error .fuel ∧
      ((∃ r, beDecode bs bs.length = .ok r) ↔ ¬ Stuck bs) := by
  have hout := (decode_sound (decodeFuel bs)).1 bs (enough_decodeFuel bs)
  have hdec : beDecode bs bs.length = beDecodeAux (decodeFuel bs) (at_ bs) := rfl
  rw [hdec]
  rcases hout with ⟨e, he, hne, hst⟩ | hnone | ⟨v, m, t, -, -, ht⟩
  · rw [he]
    refine ⟨by simpa using hne, ?_, fun hno => absurd hst hno⟩
    rintro ⟨r, hr⟩
    cases hr
  · have hno : ¬ Stuck bs := by
      intro hst
      obtain ⟨e, he⟩ := stuck_faults hst _ (enough_decodeFuel bs)
      rw [hnone] at he
      cases he
    rw [hnone]
    exact ⟨by simp, fun _ => hno, fun _ => ⟨none, rfl⟩⟩
  · have hno : ¬ Stuck bs := by
      intro hst
      obtain ⟨e, he⟩ := stuck_faults hst _ (enough_decodeFuel bs)
      rw [ht] at he
      cases he
    rw [ht]
    exact ⟨by simp, fun _ => hno, fun _ => ⟨_, rfl⟩⟩

/-- A single `l`: the loop reads the byte behind it. -/
theorem beDecode_leaves_buffer : ¬ ∃ r, beDecode (cstr "l") 1 = .ok r := by
  rintro ⟨r, hr⟩
  have hfault : beDecode (cstr "l") 1 = .error .bounds := rfl
  rw [hfault] at hr
  cases hr

end Vdht.Core
