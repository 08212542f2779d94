import Vdht.Core.CleanupRun
import Vdht.Core.Taken

/-!
# What a failing call leaves behind

The error paths of lists and integers hand `be_free` a node it can handle. A string that cannot be
read leaves a node without bytes, a key that cannot be read leaves an entry whose value was never
written, and a value that cannot be read leaves a key behind the place where `be_free` stops. So a
failing call cleans up exactly when it fails in lists only, at an integer or at a byte that no value
starts with.
-/

namespace Vdht.Core

open Lib

/-- The call returns NULL with every block released once, whatever new memory holds. -/
def CleansUp (mem : List UInt8) (len : Int) : Prop :=
  ∀ junk, ∃ h, beDecodeMem junk mem len = .ok (none, h) ∧ h.live = []

/-- A byte that no value starts with, an integer without its end, or a list that comes to such a
place behind the items it could take. -/
inductive FailsPlainly : List UInt8 → Int → Prop where
  | byte {b : UInt8} {m : List UInt8} {k : Int}
      (hb : b ∉ ['l'.toUInt8, 'd'.toUInt8, 'i'.toUInt8]) (hdig : ¬ isDigit b) :
      FailsPlainly (b :: m) k
  | int {m : List UInt8} {k : Int} (h : ∀ w v u, m = w ++ 'e'.toUInt8 :: u → ¬ Numeral w v) :
      FailsPlainly ('i'.toUInt8 :: m) k
  | list {w m : List UInt8} {l : List BeNode} {k : Int} (h : TakenItems (k - 1) w l)
      (hgo : GoesOn m) (hm : FailsPlainly m (k - 1 - w.length)) :
      FailsPlainly ('l'.toUInt8 :: (w ++ m)) k

variable {junk : Junk} {r : BeRef} {t : BeNode} {rs : List BeRef} {l : List BeNode}
  {es : List (StrRef × BeRef)} {d : List (BeStr × BeNode)} {b bs rest : List Nat} {h : Heap}
  {s m v w : List UInt8} {k : Int} {fuel id : Nat} {c : Cursor}

/-! ## Plain failures clean up -/

/-- NULL is returned, and what is live was live before. -/
def Cleaned (x : Res (MemRet BeRef)) (rest : List Nat) : Prop :=
  ∃ h, x = .ok (none, h) ∧ h.Owns [] rest

/-- With enough fuel the value is not there, and the call cleans up. -/
def Plain (s : List UInt8) (k : Int) : Prop :=
  ∀ fuel, 2 * s.length ≤ fuel →
    (∃ e, beDecodeAux fuel ⟨s, k⟩ = .error e) ∨
      beDecodeAux fuel ⟨s, k⟩ = .ok none ∧
        ∀ junk h, Cleaned (decodeRef junk fuel ⟨s, k⟩ h) h.live

/-- Decoding the members of a list from here on faults or fails, and in the latter case the members
that were decoded before are released by the path of the error. -/
def PlainItems (s : List UInt8) (k : Int) : Prop :=
  ∀ fuel, 2 * s.length + 1 ≤ fuel →
    (∃ e, beDecodeList fuel ⟨s, k⟩ = .error e) ∨
      beDecodeList fuel ⟨s, k⟩ = .ok none ∧
        ∀ junk id array slots l h rest rs tail bs, SlotsSoFar id array slots l h rest rs tail bs →
          Cleaned (decodeSlots junk fuel id rs.length array slots ⟨s, k⟩ h) rest

theorem FailsPlainly.ne_nil (hf : FailsPlainly s k) : s ≠ [] := by
  cases hf <;> simp

/-- Without a promised byte the call stops, and without fuel there is no byte. -/
theorem plain_of_pos (hne : s ≠ [])
    (h : 0 < k → ∀ fuel, 2 * s.length ≤ fuel + 1 →
      (∃ e, beDecodeAux (fuel + 1) ⟨s, k⟩ = .error e) ∨
        beDecodeAux (fuel + 1) ⟨s, k⟩ = .ok none ∧
          ∀ junk h, Cleaned (decodeRef junk (fuel + 1) ⟨s, k⟩ h) h.live) : Plain s k := by
  intro fuel hf
  have hpos := List.length_pos_iff.mpr hne
  cases fuel with
  | zero => omega
  | succ fuel =>
    by_cases hk : 0 < k
    · exact h hk fuel hf
    · left
      unfold beDecodeAux
      exact ⟨_, if_pos (Int.not_lt.mp hk)⟩

theorem plain_byte {first : UInt8} (hb : first ∉ ['l'.toUInt8, 'd'.toUInt8, 'i'.toUInt8])
    (hdig : ¬ isDigit first) : Plain (first :: m) k := by
  simp only [List.mem_cons, List.not_mem_nil, or_false, not_or] at hb
  obtain ⟨hl, hd, hi⟩ := hb
  refine plain_of_pos (List.cons_ne_nil _ _) fun hk fuel _ => Or.inr ⟨?_, fun junk h => ?_⟩
  · exact beDecodeAux_invalid hk hl hd hi hdig fuel
  · exact ⟨h, decodeRef_invalid hk hl hd hi hdig, h.owns_nil⟩

/-- The node of an integer has no other block. -/
theorem cleaned_int {i : Int32} (ho : h.Owns [id] rest) : Cleaned (cleanup (.int id i) h) rest :=
  cleanup_held .int ho

theorem decodeIntRef_cleaned (hint : beDecodeIntNode c = .ok none) (ho : h.Owns [id] rest) :
    Cleaned (decodeIntRef id c h) rest := by
  unfold beDecodeIntNode at hint
  unfold decodeIntRef
  cases hi : beDecodeInt c with
  | error e => rw [hi] at hint; cases hint
  | ok out =>
    rw [hi] at hint
    rw [ok_bind]
    cases out with
    | none => exact cleaned_int ho
    | some ic =>
      obtain ⟨i, data, k⟩ := ic
      cases data with
      | nil => cases hint
      | cons first u =>
        rw [orRet_some] at hint
        dsimp only at hint ⊢
        rw [onByte_cons] at hint
        dsimp only [deref]
        rw [ok_bind]
        split at hint
        · cases hint
        · rename_i he
          rw [if_neg he]
          exact cleaned_int ho

theorem int_not_some (h : ∀ w v u, m = w ++ 'e'.toUInt8 :: u → ¬ Numeral w v) :
    ∀ out, beDecodeIntNode ⟨m, k⟩ ≠ .ok (some out) := by
  rintro ⟨t, c'⟩ hint
  unfold beDecodeIntNode at hint
  obtain ⟨⟨i, c₁⟩, hi, hint⟩ := orRet_eq_some hint
  obtain ⟨w, v, u, rfl, hw, rfl, rfl⟩ := numeral_of_decodeInt hi
  obtain ⟨first, u, rfl, hint⟩ := onByte_eq_some hint
  split at hint
  · rename_i he
    subst he
    exact h w v u rfl hw
  · cases hint

theorem plain_int (h : ∀ w v u, m = w ++ 'e'.toUInt8 :: u → ¬ Numeral w v) :
    Plain ('i'.toUInt8 :: m) k := by
  apply plain_of_pos (List.cons_ne_nil _ _)
  intro hk fuel _
  rw [beDecodeAux_int hk]
  cases hint : beDecodeIntNode ⟨m, k - 1⟩ with
  | error e => exact Or.inl ⟨e, rfl⟩
  | ok out =>
    cases out with
    | none =>
      refine Or.inr ⟨rfl, fun junk h => ?_⟩
      rw [decodeRef_int hk]
      exact decodeIntRef_cleaned hint h.owns_nil.alloc
    | some out => exact absurd hint (int_not_some h out)

theorem plain_list (hm : PlainItems m (k - 1)) : Plain ('l'.toUInt8 :: m) k := by
  apply plain_of_pos (List.cons_ne_nil _ _)
  intro hk fuel hf
  rw [List.length_cons] at hf
  rw [beDecodeAux_list hk]
  rcases hm fuel (by omega) with ⟨e, he⟩ | ⟨hnone, hclean⟩
  · exact Or.inl ⟨e, by rw [he]; rfl⟩
  · refine Or.inr ⟨by rw [hnone]; rfl, fun junk h => ?_⟩
    rw [decodeRef_list hk]
    exact hclean junk _ _ _ _ _ _ _ _ _ (.start h)

/-- The item that fails. -/
theorem plainItems_fails (hne : m ≠ []) (hgo : GoesOn m) (hm : Plain m k) : PlainItems m k := by
  intro fuel hf
  cases m with
  | nil => exact absurd rfl hne
  | cons first u =>
    have he : first ≠ 'e'.toUInt8 := hgo first rfl
    cases fuel with
    | zero => omega
    | succ fuel =>
      rw [beDecodeList, onByte_cons, if_neg he]
      rcases hm fuel (by omega) with ⟨e, herr⟩ | ⟨hnone, hclean⟩
      · exact Or.inl ⟨e, by rw [herr]; rfl⟩
      · refine Or.inr ⟨by rw [hnone]; rfl, ?_⟩
        intro junk id array slots l h rest rs tail bs inv
        obtain ⟨a, x, h₁, ho, hturn⟩ := inv.turn junk fuel he
        obtain ⟨h₂, hret, ho₂⟩ := hclean junk h₁
        rw [hturn, hret]
        apply cleanup_held (.list inv.held)
        have hback := ho₂.join ho
        rwa [List.append_nil] at hback

/-- An item in front. -/
theorem plainItems_cons (hv : Taken k v t) (hm : PlainItems m (k - v.length)) :
    PlainItems (v ++ m) k := by
  intro fuel hf
  have hpos := List.length_pos_of_ne_nil hv.ne_nil
  rw [List.length_append] at hf
  cases fuel with
  | zero => omega
  | succ fuel =>
    have hval := hv.decodesTo m fuel (by omega)
    rw [beDecodeList, onByte_word hv.ne_nil hv.goesOn, hval, orRet_some]
    dsimp only
    rcases hm fuel (by omega) with ⟨e, herr⟩ | ⟨hnone, hclean⟩
    · exact Or.inl ⟨e, by rw [herr]; rfl⟩
    · refine Or.inr ⟨by rw [hnone]; rfl, ?_⟩
      intro junk id array slots l h rest rs tail bs inv
      obtain ⟨first, u, hsplit⟩ := List.exists_cons_of_ne_nil hv.ne_nil
      have he : first ≠ 'e'.toUInt8 := hv.goesOn first (by rw [hsplit]; rfl)
      obtain ⟨a, x, h₁, ho, hturn⟩ := inv.turn (k := k) (u := u ++ m) junk fuel he
      obtain ⟨r, h₂, b, hr, hheld, ho₂⟩ := (makesTrees junk fuel).value _ _ _ hval h₁
      have hnext := hclean junk _ _ _ _ _ _ _ _ _ (inv.next x ho hheld ho₂)
      rw [List.length_append] at hnext
      rw [← List.cons_append, ← hsplit] at hturn
      rw [hturn, hr]
      exact hnext

theorem TakenItems.plainItems {k : Int} {w : List UInt8} {l : List BeNode} (hw : TakenItems k w l)
    (hm : PlainItems m (k - w.length)) : PlainItems (w ++ m) k :=
  match hw with
  | .nil => by
    simpa using hm
  | .cons (v := v) (w := w) hv hw => by
    have hrest : k - (v ++ w).length = k - v.length - w.length := by
      rw [List.length_append]
      omega
    rw [hrest] at hm
    rw [List.append_assoc]
    exact plainItems_cons hv (hw.plainItems hm)

theorem FailsPlainly.plain (hf : FailsPlainly s k) : Plain s k := by
  induction hf with
  | byte hb hdig => exact plain_byte hb hdig
  | int h => exact plain_int h
  | list hw hgo hm ih => exact plain_list (hw.plainItems (plainItems_fails hm.ne_nil hgo ih))

/-! ## Other failures do not -/

/-- New memory that was never written to. -/
def wild : Junk := ⟨fun _ _ => .wild, fun _ _ => .wild⟩

/-- The call stops, or it returns NULL and may lose blocks; if it loses none, `P` holds. -/
def Leaves (x : Res (MemRet BeRef)) (rest : List Nat) (P : Prop) : Prop :=
  (∃ e, x = .error e) ∨ ∃ h lost, x = .ok (none, h) ∧ h.Owns lost rest ∧ (lost = [] → P)

theorem Leaves.imp {x : Res (MemRet BeRef)} {P Q : Prop} (hx : Leaves x rest P) (hpq : P → Q) :
    Leaves x rest Q := by
  rcases hx with he | ⟨h, lost, hret, ho, hp⟩
  · exact Or.inl he
  · exact Or.inr ⟨h, lost, hret, ho, fun hnil => hpq (hp hnil)⟩

/-- What was lost stays lost when the node around it is released. -/
theorem cleanup_leaves {lost : List Nat} {P : Prop} (hr : Holds r t bs)
    (ho : h.Owns (bs ++ lost) rest) (hp : lost = [] → P) : Leaves (cleanup r h) rest P := by
  obtain ⟨h', hret, ho'⟩ := cleanup_held hr (owns_append.mp ho)
  exact Or.inr ⟨h', lost, hret, ho', hp⟩

/-- `be_free` comes to the entry without a key. -/
theorem cleanup_wild {a : Nat} {y : StrRef × BeRef} (hs : HoldsEntries es d bs)
    (ho : h.Owns (a :: id :: bs) rest) :
    cleanup (.dict id (some a) (es ++ [(.null, .wild), y])) h = .error .null := by
  obtain ⟨h', hfree, -⟩ := hs.freed h _ (owns_items_first ho)
  rw [cleanup, beFree, hfree]
  rfl

/-- The loop over a list fails at an item that fails plainly. -/
def FailsAtItem (s : List UInt8) (k : Int) : Prop :=
  ∃ w l m, s = w ++ m ∧ TakenItems k w l ∧ GoesOn m ∧ FailsPlainly m (k - w.length)

/-- What a failing call, with memory that is never written before it is read, leaves behind. -/
structure LeavesBlocks (fuel : Nat) : Prop where
  value : ∀ s k, beDecodeAux fuel ⟨s, k⟩ = .ok none →
    ∀ h, Leaves (decodeRef wild fuel ⟨s, k⟩ h) h.live (FailsPlainly s k)
  list : ∀ s k, beDecodeList fuel ⟨s, k⟩ = .ok none →
    ∀ id array slots l h rest rs tail bs, SlotsSoFar id array slots l h rest rs tail bs →
      Leaves (decodeSlots wild fuel id rs.length array slots ⟨s, k⟩ h) rest (FailsAtItem s k)
  dict : ∀ s k, beDecodeDict fuel ⟨s, k⟩ = .ok none →
    ∀ id array entries d h rest es tail bs,
      EntriesSoFar wild id array entries d h rest es tail bs →
      Leaves (decodeEntries wild fuel id es.length array entries ⟨s, k⟩ h) rest False

theorem LeavesBlocks.zero : LeavesBlocks 0 := by
  constructor
  · rintro s k ⟨⟩
  · rintro s k ⟨⟩
  · rintro s k ⟨⟩

/-- A call that fails has failed first, or behind a call that did not. -/
theorem orRet_eq_none {α β : Type} {x : Res (Option α)} {f : α → Res (Option β)}
    (h : orRet x f = .ok none) : x = .ok none ∨ ∃ a, x = .ok (some a) ∧ f a = .ok none := by
  cases x with
  | error e => cases h
  | ok x =>
    cases x with
    | none => exact Or.inl rfl
    | some a => exact Or.inr ⟨a, rfl, h⟩

theorem onByte_eq_none {β : Type} {f : UInt8 → Res (Option β)} (h : onByte ⟨s, k⟩ f = .ok none) :
    ∃ a m, s = a :: m ∧ f a = .ok none := by
  cases s with
  | nil => cases h
  | cons a m => exact ⟨a, m, rfl, h⟩

/-- An integer that is decoded by a call that fails has no end. -/
theorem no_end_of_failed (hint : beDecodeIntNode ⟨m, k⟩ = .ok none) :
    ∀ w v u, m = w ++ 'e'.toUInt8 :: u → ¬ Numeral w v := by
  rintro w v u rfl hw
  unfold beDecodeIntNode at hint
  rw [beDecodeInt_numeral hw (by decide), orRet_some] at hint
  dsimp only at hint
  rw [onByte_cons, if_pos rfl] at hint
  cases hint

theorem LeavesBlocks.value_succ (ih : LeavesBlocks fuel) :
    ∀ s k, beDecodeAux (fuel + 1) ⟨s, k⟩ = .ok none →
      ∀ h, Leaves (decodeRef wild (fuel + 1) ⟨s, k⟩ h) h.live (FailsPlainly s k) := by
  intro s k hdec h
  obtain ⟨hk, b, u, rfl⟩ := beDecodeAux_room hdec
  rcases first_cases b with rfl | rfl | rfl | hdig | ⟨hl, hd, hi, hdig⟩
  · rw [beDecodeAux_list hk] at hdec
    rw [decodeRef_list hk]
    rcases orRet_eq_none hdec with hnone | ⟨a, -, hret⟩
    · apply (ih.list _ _ hnone _ _ _ _ _ _ _ _ _ (.start h)).imp
      rintro ⟨w, l, m, rfl, hw, hgo, hm⟩
      exact .list hw hgo hm
    · cases hret
  · rw [beDecodeAux_dict hk] at hdec
    rw [decodeRef_dict hk]
    rcases orRet_eq_none hdec with hnone | ⟨a, -, hret⟩
    · exact (ih.dict _ _ hnone _ _ _ _ _ _ _ _ _ (.start wild h)).imp False.elim
    · cases hret
  · rw [beDecodeAux_int hk] at hdec
    rw [decodeRef_int hk]
    have hnode : h.alloc.Owns [h.next] h.live := h.owns_nil.alloc
    obtain ⟨h', hret, ho⟩ := decodeIntRef_cleaned hdec hnode
    exact Or.inr ⟨h', [], hret, ho, fun _ => .int (no_end_of_failed hdec)⟩
  · rw [beDecodeAux_str hk hdig] at hdec
    rcases orRet_eq_none hdec with hnone | ⟨a, -, hret⟩
    · exact Or.inl ⟨.null, decodeRef_str_none hk hdig hnone⟩
    · cases hret
  · rw [decodeRef_invalid hk hl hd hi hdig]
    refine Or.inr ⟨h, [], rfl, h.owns_nil, fun _ => .byte ?_ hdig⟩
    simp only [List.mem_cons, List.not_mem_nil, or_false, not_or]
    exact ⟨hl, hd, hi⟩

theorem LeavesBlocks.list_succ (ih : LeavesBlocks fuel) :
    ∀ s k, beDecodeList (fuel + 1) ⟨s, k⟩ = .ok none →
      ∀ id array slots l h rest rs tail bs, SlotsSoFar id array slots l h rest rs tail bs →
        Leaves (decodeSlots wild (fuel + 1) id rs.length array slots ⟨s, k⟩ h) rest
          (FailsAtItem s k) := by
  intro s k hdec id array slots l h rest rs tail bs inv
  unfold beDecodeList at hdec
  obtain ⟨first, u, rfl, hdec⟩ := onByte_eq_none hdec
  split at hdec
  · cases hdec
  · rename_i he
    obtain ⟨a, x, h₁, ho, hturn⟩ := inv.turn wild fuel he
    rw [hturn]
    rcases orRet_eq_none hdec with hnone | ⟨⟨t, c₁⟩, hitem, hdec⟩
    · rcases ih.value _ _ hnone h₁ with ⟨e, herr⟩ | ⟨h₂, lost, hret, ho₂, hp⟩
      · rw [herr]
        exact Or.inl ⟨e, rfl⟩
      · rw [hret]
        apply cleanup_leaves (.list inv.held) (ho₂.join ho)
        intro hnil
        have hgo : GoesOn (first :: u) := by
          rintro c ⟨⟩
          exact he
        exact ⟨[], [], _, rfl, .nil, hgo, by simpa using hp hnil⟩
    · obtain ⟨v, m, hs, hv, rfl⟩ := (takesWords fuel).value _ _ _ _ hitem
      obtain ⟨r, h₂, b, hr, hheld, ho₂⟩ := (makesTrees wild fuel).value _ _ _ hitem h₁
      rcases orRet_eq_none hdec with hnone | ⟨a', -, hret⟩
      · have hnext := ih.list _ _ hnone _ _ _ _ _ _ _ _ _ (inv.next x ho hheld ho₂)
        rw [List.length_append] at hnext
        rw [hr, hs]
        apply hnext.imp
        rintro ⟨w, l', m', rfl, hw, hgo, hm⟩
        have hrest : k - (v ++ w).length = k - v.length - w.length := by
          rw [List.length_append]
          omega
        exact ⟨v ++ w, t :: l', m', by rw [List.append_assoc], .cons hv hw, hgo, by rwa [hrest]⟩
      · cases hret

theorem LeavesBlocks.dict_succ (ih : LeavesBlocks fuel) :
    ∀ s k, beDecodeDict (fuel + 1) ⟨s, k⟩ = .ok none →
      ∀ id array entries d h rest es tail bs,
        EntriesSoFar wild id array entries d h rest es tail bs →
        Leaves (decodeEntries wild (fuel + 1) id es.length array entries ⟨s, k⟩ h) rest False := by
  intro s k hdec id array entries d h rest es tail bs inv
  unfold beDecodeDict at hdec
  obtain ⟨first, u, rfl, hdec⟩ := onByte_eq_none hdec
  split at hdec
  · cases hdec
  · rename_i he
    obtain ⟨a, x, y, h₁, ho, ⟨i, j, rfl⟩, hy, hturn⟩ := inv.turn fuel he
    rw [hturn]
    rcases orRet_eq_none hdec with hnone | ⟨⟨key, c₁⟩, hkey, hdec⟩
    · rw [decodeStrRef_none hnone]
      exact Or.inl ⟨_, cleanup_wild inv.held ho⟩
    · rw [decodeStrRef_some hkey]
      show Leaves (afterVal wild fuel id a es (.block h₁.next key) y
        (decodeRef wild fuel c₁ h₁.alloc)) rest False
      rcases orRet_eq_none hdec with hnone | ⟨⟨t, c₂⟩, hval, hdec⟩
      · rcases ih.value _ _ hnone h₁.alloc with ⟨e, herr⟩ | ⟨h₂, lost, hret, ho₂, -⟩
        · rw [herr]
          exact Or.inl ⟨e, rfl⟩
        · rw [hret]
          -- The loop of `be_free` ends at the entry that has the key.
          have hkeep : h₂.Owns (h₁.next :: lost) h₁.live := ho₂.of_perm List.perm_middle
          apply cleanup_leaves (.dict inv.held) (hkeep.join ho)
          intro hnil
          cases hnil
      · obtain ⟨r, h₂, b, hr, hheld, ho₂⟩ := (makesTrees wild fuel).value _ _ _ hval h₁.alloc
        have hentry : h₂.Owns (h₁.next :: b) h₁.live := ho₂.of_perm List.perm_middle
        rcases orRet_eq_none hdec with hnone | ⟨a', -, hret⟩
        · have hnext := ih.dict _ _ hnone _ _ _ _ _ _ _ _ _ (inv.next key ho hheld hentry hy)
          rw [List.length_append] at hnext
          rw [hr]
          exact hnext
        · cases hret

theorem leavesBlocks (fuel : Nat) : LeavesBlocks fuel := by
  induction fuel with
  | zero => exact .zero
  | succ fuel ih => exact ⟨ih.value_succ, ih.list_succ, ih.dict_succ⟩

/-! ## The condition -/

/-- A call that fails, for any memory behind the buffer and any length, leaves nothing allocated and
frees nothing that was never allocated exactly when it fails plainly: at a byte that starts no node,
at a number that has no end, or so in an item of a list. -/
theorem cleansUp_iff {mem : List UInt8} {len : Int} (hfail : beDecode mem len = .ok none) :
    CleansUp mem len ↔ FailsPlainly mem len := by
  constructor
  · intro hclean
    obtain ⟨h, hret, hlive⟩ := hclean wild
    rcases (leavesBlocks (decodeFuel mem)).value _ _ hfail .empty with
      ⟨e, herr⟩ | ⟨h', lost, hret', ho, hp⟩
    · rw [beDecodeMem, herr] at hret
      cases hret
    · rw [beDecodeMem, hret'] at hret
      cases hret
      apply hp
      rw [Heap.Owns, hlive] at ho
      exact (List.append_eq_nil_iff.mp ho.nil_eq.symm).1
  · intro hf junk
    rcases hf.plain (decodeFuel mem) (by rw [decodeFuel]; omega) with ⟨e, herr⟩ | ⟨-, hclean⟩
    · rw [beDecode, herr] at hfail
      cases hfail
    · obtain ⟨h, hret, ho⟩ := hclean junk .empty
      exact ⟨h, hret, ho.eq_nil⟩

/-- A list fails behind an item, and is cleaned up. -/
theorem cleansUp_iff_list : beDecode (cstr "l2:abx") 6 = .ok none ∧
    (CleansUp (cstr "l2:abx") 6 ↔ FailsPlainly (cstr "l2:abx") 6) :=
  ⟨rfl, cleansUp_iff rfl⟩

/-- A string announces five bytes and has three: its node is released without bytes. -/
theorem short_string_faults : beDecode (cstr "5:abc") 5 = .ok none ∧
    ¬ CleansUp (cstr "5:abc") 5 := by
  refine ⟨rfl, fun hclean => ?_⟩
  obtain ⟨h, hret, -⟩ := hclean wild
  have hfault : beDecodeMem wild (cstr "5:abc") 5 = .error .null := rfl
  rw [hfault] at hret
  cases hret

/-- The value of the key is missing, and the key stays allocated. -/
example : ∃ h, beDecodeMem wild (cstr "d1:ax") 5 = .ok (none, h) ∧ h.live = [2] := ⟨_, rfl, rfl⟩

end Vdht.Core
