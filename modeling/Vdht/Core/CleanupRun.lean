import Vdht.Core.Holds
import Vdht.Core.Taken

/-!
# What the calls return

One turn of the loop over a list or a dictionary, with the blocks that are live, and from it what a
call returns that succeeds: a node for the tree that the decoder without blocks returns. Such a node
can be released.
-/

namespace Vdht.Core

open Lib

variable {junk : Junk} {r : BeRef} {t : BeNode} {rs : List BeRef} {l : List BeNode}
  {es : List (StrRef × BeRef)} {d : List (BeStr × BeNode)} {b bs rest : List Nat} {h : Heap}
  {s m : List UInt8} {k : Int} {fuel id : Nat} {c c' : Cursor}

/-! ## The branches by the first byte -/

section Branches

variable {first : UInt8}

theorem decodeStrRef_some {key : BeStr} (hstr : beDecodeStr c = .ok (some (key, c'))) (h : Heap) :
    decodeStrRef c h = .ok (some (.block h.next key, c'), h.alloc) := by
  rw [decodeStrRef, hstr]
  rfl

theorem decodeStrRef_none (hstr : beDecodeStr c = .ok none) (h : Heap) :
    decodeStrRef c h = .ok (none, h) := by
  rw [decodeStrRef, hstr]
  rfl

theorem decodeRef_list (hk : 0 < k) : decodeRef junk (fuel + 1) ⟨'l'.toUInt8 :: m, k⟩ h =
    decodeSlots junk fuel h.next 0 none [] ⟨m, k - 1⟩ h.alloc := by
  unfold decodeRef
  rw [if_neg (Int.not_le.mpr hk)]
  rfl

theorem decodeRef_dict (hk : 0 < k) : decodeRef junk (fuel + 1) ⟨'d'.toUInt8 :: m, k⟩ h =
    decodeEntries junk fuel h.next 0 none [] ⟨m, k - 1⟩ h.alloc := by
  unfold decodeRef
  rw [if_neg (Int.not_le.mpr hk)]
  rfl

theorem decodeRef_int (hk : 0 < k) : decodeRef junk (fuel + 1) ⟨'i'.toUInt8 :: m, k⟩ h =
    decodeIntRef h.next ⟨m, k - 1⟩ h.alloc := by
  unfold decodeRef
  rw [if_neg (Int.not_le.mpr hk)]
  rfl

theorem decodeRef_str_some {key : BeStr} (hk : 0 < k) (hdig : isDigit first)
    (hstr : beDecodeStr ⟨first :: m, k⟩ = .ok (some (key, c))) :
    decodeRef junk (fuel + 1) ⟨first :: m, k⟩ h =
      .ok (some (.str h.next (.block h.alloc.next key), c), h.alloc.alloc) := by
  unfold decodeRef
  rw [if_neg (Int.not_le.mpr hk)]
  dsimp only [deref]
  rw [ok_bind, if_neg (digit_ne hdig rfl), if_neg (digit_ne hdig rfl),
    if_neg (digit_ne hdig rfl), if_pos hdig, decodeStrRef_some hstr]
  rfl

/-- The node without bytes cannot be released. -/
theorem decodeRef_str_none (hk : 0 < k) (hdig : isDigit first)
    (hstr : beDecodeStr ⟨first :: m, k⟩ = .ok none) :
    decodeRef junk (fuel + 1) ⟨first :: m, k⟩ h = .error .null := by
  unfold decodeRef
  rw [if_neg (Int.not_le.mpr hk)]
  dsimp only [deref]
  rw [ok_bind, if_neg (digit_ne hdig rfl), if_neg (digit_ne hdig rfl),
    if_neg (digit_ne hdig rfl), if_pos hdig, decodeStrRef_none hstr]
  rfl

theorem decodeRef_invalid (hk : 0 < k) (hl : first ≠ 'l'.toUInt8) (hd : first ≠ 'd'.toUInt8)
    (hi : first ≠ 'i'.toUInt8) (hdig : ¬ isDigit first) :
    decodeRef junk (fuel + 1) ⟨first :: m, k⟩ h = .ok (none, h) := by
  unfold decodeRef
  rw [if_neg (Int.not_le.mpr hk)]
  dsimp only [deref]
  rw [ok_bind, if_neg hl, if_neg hd, if_neg hi, if_neg hdig]

end Branches

/-! ## One turn of a loop -/

/-- A list whose node is `id`, behind the items `l`; the other live blocks are those of `rest`. -/
structure SlotsSoFar (id : Nat) (array : Option Nat) (slots : List BeRef) (l : List BeNode)
    (h : Heap) (rest : List Nat) (rs tail : List BeRef) (bs : List Nat) : Prop where
  held : HoldsItems rs l bs
  slots_eq : slots = rs ++ tail
  tail_length : tail.length = min rs.length 1
  array_some : rs ≠ [] → ∃ a, array = some a
  owns : h.Owns (array.toList ++ id :: bs) rest

/-- A dictionary whose node is `id`, behind the entries `d`. What follows them was never written. -/
structure EntriesSoFar (junk : Junk) (id : Nat) (array : Option Nat)
    (entries : List (StrRef × BeRef)) (d : List (BeStr × BeNode)) (h : Heap) (rest : List Nat)
    (es tail : List (StrRef × BeRef)) (bs : List Nat) : Prop where
  held : HoldsEntries es d bs
  entries_eq : entries = es ++ tail
  tail_length : tail.length = min es.length 1
  tail_junk : ∀ e ∈ tail, ∃ a j, e = (junk.key a j, junk.node a j)
  array_some : es ≠ [] → ∃ a, array = some a
  owns : h.Owns (array.toList ++ id :: bs) rest

/-- What is done with the item that was decoded. -/
def afterItem (junk : Junk) (fuel id a : Nat) (rs : List BeRef) (x : BeRef) :
    Res (MemRet BeRef) → Res (MemRet BeRef)
  | .error e => .error e
  | .ok (none, h) => cleanup (.list id (some a) (rs ++ [.null, x])) h
  | .ok (some (r, c), h) =>
    decodeSlots junk fuel id (rs.length + 1) (some a) (rs ++ [r, x]) c h

/-- What is done with the value that was decoded. -/
def afterVal (junk : Junk) (fuel id a : Nat) (es : List (StrRef × BeRef)) (key : StrRef)
    (y : StrRef × BeRef) : Res (MemRet BeRef) → Res (MemRet BeRef)
  | .error e => .error e
  | .ok (none, h) => cleanup (.dict id (some a) (es ++ [(key, .null), y])) h
  | .ok (some (r, c), h) =>
    decodeEntries junk fuel id (es.length + 1) (some a) (es ++ [(key, r), y]) c h

/-- What is done with the key that was decoded. -/
def afterKey (junk : Junk) (fuel id a : Nat) (es : List (StrRef × BeRef)) (x y : StrRef × BeRef) :
    Res (MemRet StrRef) → Res (MemRet BeRef)
  | .error e => .error e
  | .ok (none, h) => cleanup (.dict id (some a) (es ++ [(.null, x.2), y])) h
  | .ok (some (key, c), h) => afterVal junk fuel id a es key y (decodeRef junk fuel c h)

theorem cleanup_held (hr : Holds r t bs) (ho : h.Owns bs rest) :
    ∃ h', cleanup r h = .ok (none, h') ∧ h'.Owns [] rest := by
  obtain ⟨h', hfree, ho'⟩ := hr.freed h rest ho
  refine ⟨h', ?_, ho'⟩
  rw [cleanup, hfree, ok_bind]

section Slots

variable {array : Option Nat} {slots tail : List BeRef} {a : Nat} {x : BeRef}

theorem SlotsSoFar.start (h : Heap) : SlotsSoFar h.next none [] [] h.alloc h.live [] [] [] where
  held := .nil
  slots_eq := rfl
  tail_length := rfl
  array_some := fun hne => absurd rfl hne
  owns := h.owns_nil.alloc

/-- Behind another item. -/
theorem SlotsSoFar.next {h₁ h₂ : Heap} (inv : SlotsSoFar id array slots l h rest rs tail bs)
    (x : BeRef)
    (ho : h₁.Owns (a :: id :: bs) rest) (hr : Holds r t b) (hitem : h₂.Owns b h₁.live) :
    SlotsSoFar id (some a) (rs ++ [r, x]) (l ++ [t]) h₂ rest (rs ++ [r]) [x] (bs ++ b) where
  held := inv.held.concat hr
  slots_eq := by rw [List.append_assoc]; rfl
  tail_length := by simp
  array_some := fun _ => ⟨a, rfl⟩
  owns := hitem.join ho

theorem SlotsSoFar.turn (junk : Junk) (fuel : Nat) {first : UInt8} {u : List UInt8}
    (inv : SlotsSoFar id array slots l h rest rs tail bs) (hgo : first ≠ 'e'.toUInt8) :
    ∃ a x h₁, h₁.Owns (a :: id :: bs) rest ∧
      decodeSlots junk (fuel + 1) id rs.length array slots ⟨first :: u, k⟩ h =
        afterItem junk fuel id a rs x (decodeRef junk fuel ⟨first :: u, k⟩ h₁) := by
  obtain ⟨a, h₁, hrealloc, ho⟩ := reallocBlock_owned inv.owns
  obtain ⟨x, y, hgrow, -, -⟩ := @regrow_two _ rs tail (junk.node a)
    (by rw [inv.tail_length]; exact Nat.min_le_right _ _)
  refine ⟨a, y, h₁, ho, ?_⟩
  unfold decodeSlots
  rw [inv.slots_eq]
  dsimp only [deref]
  rw [ok_bind, if_neg hgo, hrealloc, ok_bind]
  dsimp only
  rw [hgrow]
  cases decodeRef junk fuel ⟨first :: u, k⟩ h₁ with
  | error e => rfl
  | ok out =>
    obtain ⟨ret, h₂⟩ := out
    cases ret with
    | none =>
      show (setSlot (rs ++ x :: [y]) rs.length .null >>= _) = _
      rw [setSlot_behind]
      rfl
    | some rc =>
      obtain ⟨r, c⟩ := rc
      show (setSlot (rs ++ x :: [y]) rs.length r >>= _) = _
      rw [setSlot_behind]
      rfl

/-- The loop ends and the array gets its NULL. -/
theorem SlotsSoFar.finish (junk : Junk) (fuel : Nat) (m : List UInt8)
    (inv : SlotsSoFar id array slots l h rest rs tail bs) :
    ∃ r h' b, decodeSlots junk (fuel + 1) id rs.length array slots ⟨'e'.toUInt8 :: m, k⟩ h =
        .ok (some (r, ⟨m, k - 1⟩), h') ∧ Holds r (.list l) b ∧ h'.Owns b rest := by
  unfold decodeSlots
  rw [inv.slots_eq]
  dsimp only [deref]
  rw [ok_bind, if_pos rfl]
  by_cases hnil : rs = []
  · subst hnil
    have htail : tail = [] := List.length_eq_zero_iff.mp inv.tail_length
    obtain ⟨a, h₁, hrealloc, ho⟩ := reallocBlock_owned inv.owns
    subst htail
    refine ⟨.list id (some a) [.null], h₁, a :: id :: bs, ?_, .list inv.held, ho⟩
    rw [if_pos List.length_nil, hrealloc]
    rfl
  · obtain ⟨a, rfl⟩ := inv.array_some hnil
    have hpos := List.length_pos_iff.mpr hnil
    have hone : tail.length = 1 := by
      rw [inv.tail_length]
      omega
    obtain ⟨x, rfl⟩ := List.length_eq_one_iff.mp hone
    refine ⟨.list id (some a) (rs ++ [.null]), h, a :: id :: bs, ?_, .list inv.held, inv.owns⟩
    rw [if_neg (by omega), setSlot_behind]
    rfl

end Slots

section Entries

variable {array : Option Nat} {entries tail : List (StrRef × BeRef)} {a : Nat}
  {x y : StrRef × BeRef}

theorem EntriesSoFar.start (junk : Junk) (h : Heap) :
    EntriesSoFar junk h.next none [] [] h.alloc h.live [] [] [] where
  held := .nil
  entries_eq := rfl
  tail_length := rfl
  tail_junk := by simp
  array_some := fun hne => absurd rfl hne
  owns := h.owns_nil.alloc

/-- Behind another entry. -/
theorem EntriesSoFar.next {h₁ h₂ : Heap} {kid : Nat}
    (inv : EntriesSoFar junk id array entries d h rest es tail bs) (key : BeStr)
    (ho : h₁.Owns (a :: id :: bs) rest) (hr : Holds r t b) (hentry : h₂.Owns (kid :: b) h₁.live)
    (hy : ∃ i j, y = (junk.key i j, junk.node i j)) :
    EntriesSoFar junk id (some a) (es ++ [(.block kid key, r), y]) (d ++ [(key, t)]) h₂ rest
      (es ++ [(.block kid key, r)]) [y] (bs ++ kid :: b) where
  held := inv.held.concat hr
  entries_eq := by rw [List.append_assoc]; rfl
  tail_length := by simp
  tail_junk := by simpa using hy
  array_some := fun _ => ⟨a, rfl⟩
  owns := hentry.join ho

theorem EntriesSoFar.turn (fuel : Nat) {first : UInt8} {u : List UInt8}
    (inv : EntriesSoFar junk id array entries d h rest es tail bs) (hgo : first ≠ 'e'.toUInt8) :
    ∃ a x y h₁, h₁.Owns (a :: id :: bs) rest ∧
      (∃ i j, x = (junk.key i j, junk.node i j)) ∧ (∃ i j, y = (junk.key i j, junk.node i j)) ∧
      decodeEntries junk (fuel + 1) id es.length array entries ⟨first :: u, k⟩ h =
        afterKey junk fuel id a es x y (decodeStrRef ⟨first :: u, k⟩ h₁) := by
  obtain ⟨a, h₁, hrealloc, ho⟩ := reallocBlock_owned inv.owns
  obtain ⟨x, y, hgrow, hx, hy⟩ := @regrow_two _ es tail (fun j => (junk.key a j, junk.node a j))
    (by rw [inv.tail_length]; exact Nat.min_le_right _ _)
  have hjunk : ∀ z, (z ∈ tail ∨ ∃ j, z = (junk.key a j, junk.node a j)) →
      ∃ i j, z = (junk.key i j, junk.node i j) := by
    rintro z (hz | ⟨j, hz⟩)
    · exact inv.tail_junk z hz
    · exact ⟨a, j, hz⟩
  refine ⟨a, x, y, h₁, ho, hjunk x hx, hjunk y hy, ?_⟩
  unfold decodeEntries
  rw [inv.entries_eq]
  dsimp only [deref]
  rw [ok_bind, if_neg hgo, hrealloc, ok_bind]
  dsimp only
  rw [hgrow]
  cases decodeStrRef ⟨first :: u, k⟩ h₁ with
  | error e => rfl
  | ok out =>
    obtain ⟨ret, h₂⟩ := out
    cases ret with
    | none =>
      show (setKey (es ++ x :: [y]) es.length .null >>= _) = _
      rw [setKey_behind]
      rfl
    | some kc =>
      obtain ⟨key, c⟩ := kc
      show (setKey (es ++ x :: [y]) es.length key >>= _) =
        afterVal junk fuel id a es key y (decodeRef junk fuel c h₂)
      rw [setKey_behind, ok_bind]
      cases decodeRef junk fuel c h₂ with
      | error e => rfl
      | ok out =>
        obtain ⟨ret, h₃⟩ := out
        cases ret with
        | none =>
          show (setVal (es ++ (key, x.2) :: [y]) es.length .null >>= _) = _
          rw [setVal_behind]
          rfl
        | some rc =>
          obtain ⟨r, c⟩ := rc
          show (setVal (es ++ (key, x.2) :: [y]) es.length r >>= _) = _
          rw [setVal_behind]
          rfl

/-- The loop ends and the array gets its NULL. -/
theorem EntriesSoFar.finish (fuel : Nat) (m : List UInt8)
    (inv : EntriesSoFar junk id array entries d h rest es tail bs) :
    ∃ r h' b, decodeEntries junk (fuel + 1) id es.length array entries
        ⟨'e'.toUInt8 :: m, k⟩ h = .ok (some (r, ⟨m, k - 1⟩), h') ∧ Holds r (.dict d) b ∧
      h'.Owns b rest := by
  unfold decodeEntries
  rw [inv.entries_eq]
  dsimp only [deref]
  rw [ok_bind, if_pos rfl]
  by_cases hnil : es = []
  · subst hnil
    have htail : tail = [] := List.length_eq_zero_iff.mp inv.tail_length
    obtain ⟨a, h₁, hrealloc, ho⟩ := reallocBlock_owned inv.owns
    subst htail
    refine ⟨.dict id (some a) [(junk.key a 0, .null)], h₁, a :: id :: bs, ?_, .dict inv.held, ho⟩
    rw [if_pos List.length_nil, hrealloc]
    rfl
  · obtain ⟨a, rfl⟩ := inv.array_some hnil
    have hpos := List.length_pos_iff.mpr hnil
    have hone : tail.length = 1 := by
      rw [inv.tail_length]
      omega
    obtain ⟨x, rfl⟩ := List.length_eq_one_iff.mp hone
    refine ⟨.dict id (some a) (es ++ [(x.1, .null)]), h, a :: id :: bs, ?_, .dict inv.held,
      inv.owns⟩
    rw [if_neg (by omega), setVal_behind]
    rfl

end Entries

/-! ## Successful calls -/

/-- The tree is returned as a node with new blocks, and the cursor behind it. -/
def Makes (x : Res (MemRet BeRef)) (rest : List Nat) (t : BeNode) (c : Cursor) : Prop :=
  ∃ r h b, x = .ok (some (r, c), h) ∧ Holds r t b ∧ h.Owns b rest

/-- The decoder with blocks returns whatever the one without returns. -/
structure MakesTrees (junk : Junk) (fuel : Nat) : Prop where
  value : ∀ c t c', beDecodeAux fuel c = .ok (some (t, c')) →
    ∀ h, Makes (decodeRef junk fuel c h) h.live t c'
  list : ∀ c l' c', beDecodeList fuel c = .ok (some (l', c')) →
    ∀ id array slots l h rest rs tail bs, SlotsSoFar id array slots l h rest rs tail bs →
      Makes (decodeSlots junk fuel id rs.length array slots c h) rest (.list (l ++ l')) c'
  dict : ∀ c d' c', beDecodeDict fuel c = .ok (some (d', c')) →
    ∀ id array entries d h rest es tail bs,
      EntriesSoFar junk id array entries d h rest es tail bs →
      Makes (decodeEntries junk fuel id es.length array entries c h) rest (.dict (d ++ d')) c'

theorem MakesTrees.zero : MakesTrees junk 0 := by
  constructor
  · rintro c t c' ⟨⟩
  · rintro c l' c' ⟨⟩
  · rintro c d' c' ⟨⟩


theorem decodeIntRef_some (hint : beDecodeIntNode c = .ok (some (t, c'))) (ho : h.Owns [id] rest) :
    Makes (decodeIntRef id c h) rest t c' := by
  unfold beDecodeIntNode at hint
  obtain ⟨⟨i, c₁⟩, hi, hint⟩ := orRet_eq_some hint
  obtain ⟨b, m, hdata, hint⟩ := onByte_eq_some hint
  split at hint
  · rename_i hb
    cases hint
    refine ⟨.int id i, h, [id], ?_, .int, ho⟩
    rw [decodeIntRef, hi, ok_bind]
    dsimp only
    rw [hdata]
    exact if_pos hb
  · cases hint

theorem MakesTrees.value_succ (ih : MakesTrees junk fuel) :
    ∀ c t c', beDecodeAux (fuel + 1) c = .ok (some (t, c')) →
      ∀ h, Makes (decodeRef junk (fuel + 1) c h) h.live t c' := by
  rintro ⟨s, k⟩ t c' hdec h
  obtain ⟨hk, b, u, rfl⟩ := beDecodeAux_room hdec
  rcases first_cases b with rfl | rfl | rfl | hdig | ⟨hl, hd, hi, hdig⟩
  · rw [beDecodeAux_list hk] at hdec
    obtain ⟨⟨l, c₁⟩, hitems, hdec⟩ := orRet_eq_some hdec
    cases hdec
    rw [decodeRef_list hk]
    exact ih.list _ _ _ hitems _ _ _ _ _ _ _ _ _ (.start h)
  · rw [beDecodeAux_dict hk] at hdec
    obtain ⟨⟨d, c₁⟩, hentries, hdec⟩ := orRet_eq_some hdec
    cases hdec
    rw [decodeRef_dict hk]
    exact ih.dict _ _ _ hentries _ _ _ _ _ _ _ _ _ (.start junk h)
  · rw [beDecodeAux_int hk] at hdec
    rw [decodeRef_int hk]
    exact decodeIntRef_some hdec h.owns_nil.alloc
  · rw [beDecodeAux_str hk hdig] at hdec
    obtain ⟨⟨key, c₁⟩, hstr, hdec⟩ := orRet_eq_some hdec
    cases hdec
    exact ⟨_, _, _, decodeRef_str_some hk hdig hstr, .str, h.owns_nil.alloc.alloc⟩
  · rw [beDecodeAux_invalid hk hl hd hi hdig] at hdec
    cases hdec

theorem MakesTrees.list_succ (ih : MakesTrees junk fuel) :
    ∀ c l' c', beDecodeList (fuel + 1) c = .ok (some (l', c')) →
      ∀ id array slots l h rest rs tail bs, SlotsSoFar id array slots l h rest rs tail bs →
        Makes (decodeSlots junk (fuel + 1) id rs.length array slots c h) rest (.list (l ++ l')) c' := by
  rintro ⟨s, k⟩ l' c' hdec id array slots l h rest rs tail bs inv
  unfold beDecodeList at hdec
  obtain ⟨first, u, rfl, hdec⟩ := onByte_eq_some hdec
  split at hdec
  · rename_i he
    subst he
    cases hdec
    rw [List.append_nil]
    exact inv.finish junk fuel u
  · rename_i he
    obtain ⟨⟨t, c₁⟩, hitem, hdec⟩ := orRet_eq_some hdec
    obtain ⟨⟨l₂, c₂⟩, hitems, hdec⟩ := orRet_eq_some hdec
    cases hdec
    obtain ⟨a, x, h₁, ho, hturn⟩ := inv.turn junk fuel he
    obtain ⟨r, h₂, b, hr, hheld, ho₂⟩ := ih.value _ _ _ hitem h₁
    have hnext := ih.list _ _ _ hitems _ _ _ _ _ _ _ _ _ (inv.next x ho hheld ho₂)
    rw [List.length_append, List.append_assoc] at hnext
    rw [hturn, hr]
    exact hnext

theorem MakesTrees.dict_succ (ih : MakesTrees junk fuel) :
    ∀ c d' c', beDecodeDict (fuel + 1) c = .ok (some (d', c')) →
      ∀ id array entries d h rest es tail bs,
        EntriesSoFar junk id array entries d h rest es tail bs →
        Makes (decodeEntries junk (fuel + 1) id es.length array entries c h) rest
          (.dict (d ++ d')) c' := by
  rintro ⟨s, k⟩ d' c' hdec id array entries d h rest es tail bs inv
  unfold beDecodeDict at hdec
  obtain ⟨first, u, rfl, hdec⟩ := onByte_eq_some hdec
  split at hdec
  · rename_i he
    subst he
    cases hdec
    rw [List.append_nil]
    exact inv.finish fuel u
  · rename_i he
    obtain ⟨⟨key, c₁⟩, hkey, hdec⟩ := orRet_eq_some hdec
    obtain ⟨⟨t, c₂⟩, hval, hdec⟩ := orRet_eq_some hdec
    obtain ⟨⟨d₃, c₃⟩, hentries, hdec⟩ := orRet_eq_some hdec
    cases hdec
    obtain ⟨a, x, y, h₁, ho, -, hy, hturn⟩ := inv.turn fuel he
    obtain ⟨r, h₂, b, hr, hheld, ho₂⟩ := ih.value _ _ _ hval h₁.alloc
    have hentry : h₂.Owns (h₁.next :: b) h₁.live := ho₂.of_perm List.perm_middle
    have hnext := ih.dict _ _ _ hentries _ _ _ _ _ _ _ _ _ (inv.next key ho hheld hentry hy)
    rw [List.length_append, List.append_assoc] at hnext
    rw [hturn, decodeStrRef_some hkey]
    show Makes (afterVal junk fuel id a es _ y (decodeRef junk fuel c₁ h₁.alloc)) _ _ _
    rw [hr]
    exact hnext

theorem makesTrees (junk : Junk) (fuel : Nat) : MakesTrees junk fuel := by
  induction fuel with
  | zero => exact .zero
  | succ fuel ih => exact ⟨ih.value_succ, ih.list_succ, ih.dict_succ⟩

end Vdht.Core
