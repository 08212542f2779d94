import Vdht.Cfg.Parse

/-!
# Looking up a dotted key

`_aux_get_cfg_item` of `vcfg.c` takes a key apart at its dots and asks one item after the other
for a component (`vcfg_item_get`). The branch for tuples declares a second `item`, which is NULL,
and asks that one for its members; a list without a key compares the component with NULL. A walk
that comes to neither ends with the item that the components lead to, or without one.
-/

namespace Vdht.Cfg

open Vdht.Core

/-- The loop of `vdict_get`: the first entry with the key. -/
def vdictGet (key : Text) : List (Text × VcfgItem) → Option VcfgItem
  | [] => none
  | e :: items => if e.1 = key then some e.2 else vdictGet key items

/-- `NULL` is `none`. The size that the loop over a tuple asks for is that of the inner `item`. -/
def vcfgItemGet (item : VcfgItem) (key : Text) : Res (Option VcfgItem) :=
  match item with
  | .dict _ d => .ok (vdictGet key d)
  | .list _ none _ => .error .null
  | .list depth (some name) l => .ok (if key = name then some (.list depth (some name) l) else none)
  | .tuple _ _ => .error .null
  | .str _ _ => .ok none

/-- The character between two components of a key. -/
def isDot (c : UInt8) : Bool := c = '.'.toUInt8

/-- `comma` is the rest of the key from its first dot on; `strndup` succeeds. -/
def auxGetCfgItem (item : VcfgItem) (longKey : Text) : Res (Option VcfgItem) :=
  match _hcomma : longKey.dropWhile (!isDot ·) with
  | [] => vcfgItemGet item longKey
  | _ :: rest => do
    let subItem ← vcfgItemGet item (longKey.takeWhile (!isDot ·))
    match subItem with
    | none => .ok none
    | some sub => auxGetCfgItem sub rest
termination_by longKey.length
decreasing_by
  have hlen := (List.dropWhile_suffix (!isDot ·) : _ <:+ longKey).length_le
  rw [_hcomma, List.length_cons] at hlen
  exact hlen

/-! ## Following the components -/

mutual

/-- What an item has for a component: a dictionary the entry with that key, a list itself where
this is its key, a tuple what the first of its members has that has something. -/
def VcfgItem.answer (c : Text) : VcfgItem → Option VcfgItem
  | .dict _ d => (d.find? (·.1 = c)).map Prod.snd
  | .list depth key l => if key = some c then some (.list depth key l) else none
  | .tuple _ t => firstAnswer c t
  | .str _ _ => none

/-- What the first of the items has that has something for the component. -/
def firstAnswer (c : Text) : List VcfgItem → Option VcfgItem
  | [] => none
  | item :: items => (item.answer c).or (firstAnswer c items)

end

/-- The item that the components lead to. -/
def follow (item : VcfgItem) : List Text → Option VcfgItem
  | [] => some item
  | c :: cs => (item.answer c).bind fun sub => follow sub cs

/-- Neither a tuple nor a list without a key. -/
def VcfgItem.Answering : VcfgItem → Prop
  | .list _ none _ => False
  | .tuple _ _ => False
  | _ => True

/-- No component on the way is asked of a tuple or of a list without a key. -/
def Walkable (item : VcfgItem) : List Text → Prop
  | [] => True
  | c :: cs => item.Answering ∧ ∀ sub, item.answer c = some sub → Walkable sub cs

/-- The components of a key such as `route.max_next_tmo`, which stand between its dots. An empty key
is one empty component. -/
def components (key : Text) : List Text := key.splitOn '.'.toUInt8

/-! ## One component -/

theorem vdictGet_eq (key : Text) (d : List (Text × VcfgItem)) :
    vdictGet key d = (d.find? (·.1 = key)).map Prod.snd := by
  induction d with
  | nil => rfl
  | cons e d ih =>
    rw [vdictGet, List.find?_cons]
    by_cases h : e.1 = key
    · simp [h]
    · simpa [h] using ih

theorem vcfgItemGet_answering {item : VcfgItem} (h : item.Answering) (c : Text) :
    vcfgItemGet item c = .ok (item.answer c) := by
  cases item with
  | dict depth d => rw [vcfgItemGet, vdictGet_eq, VcfgItem.answer]
  | list depth key l =>
    cases key with
    | none => exact h.elim
    | some name => simp only [vcfgItemGet, VcfgItem.answer, Option.some.injEq, eq_comm]
  | tuple depth t => exact h.elim
  | str depth s => rw [vcfgItemGet, VcfgItem.answer]

theorem vcfgItemGet_null {item : VcfgItem} (h : ¬ item.Answering) (c : Text) :
    vcfgItemGet item c = .error .null := by
  cases item with
  | dict depth d => exact absurd trivial h
  | list depth key l =>
    cases key with
    | none => rfl
    | some name => exact absurd trivial h
  | tuple depth t => rfl
  | str depth s => exact absurd trivial h

/-! ## The walk -/

/-- One component after the other, as the code asks for them. -/
def walk (item : VcfgItem) : List Text → Res (Option VcfgItem)
  | [] => .ok (some item)
  | c :: cs => do
    let subItem ← vcfgItemGet item c
    match subItem with
    | none => .ok none
    | some sub => walk sub cs

theorem components_last {key : Text} (h : key.dropWhile (!isDot ·) = []) : components key = [key] := by
  refine List.splitOn_eq_singleton fun hdot => ?_
  have hall := List.dropWhile_eq_nil_iff.mp h _ hdot
  simp [isDot] at hall

theorem components_cons {key rest : Text} {c : UInt8}
    (h : key.dropWhile (!isDot ·) = c :: rest) :
    components key = key.takeWhile (!isDot ·) :: components rest := by
  have hc : c = '.'.toUInt8 := by
    have hhead := List.head?_dropWhile_not (!isDot ·) key
    rw [h] at hhead
    simpa [isDot] using hhead
  have hfront : '.'.toUInt8 ∉ key.takeWhile (!isDot ·) := by
    intro hdot
    have hkeep := List.mem_takeWhile_imp hdot
    simp [isDot] at hkeep
  have hkey : key = key.takeWhile (!isDot ·) ++ '.'.toUInt8 :: rest := by
    rw [← hc, ← h, List.takeWhile_append_dropWhile]
  rw [components, hkey, List.splitOn_append_cons_self_of_not_mem hfront, ← hkey, components]

theorem auxGetCfgItem_last {key : Text} (h : key.dropWhile (!isDot ·) = []) (item : VcfgItem) :
    auxGetCfgItem item key = vcfgItemGet item key := by
  rw [auxGetCfgItem]
  split
  · rfl
  · rename_i hcons
    rw [h] at hcons
    cases hcons

theorem auxGetCfgItem_cons {key rest : Text} {c : UInt8}
    (h : key.dropWhile (!isDot ·) = c :: rest) (item : VcfgItem) :
    auxGetCfgItem item key = vcfgItemGet item (key.takeWhile (!isDot ·)) >>= fun subItem =>
      subItem.elim (.ok none) fun sub => auxGetCfgItem sub rest := by
  rw [auxGetCfgItem]
  split
  · rename_i hnil
    rw [h] at hnil
    cases hnil
  · rename_i hcons
    rw [h] at hcons
    cases hcons
    refine congrArg (vcfgItemGet item _ >>= ·) (funext fun subItem => ?_)
    cases subItem <;> rfl

theorem auxGetCfgItem_eq_walk (item : VcfgItem) (key : Text) :
    auxGetCfgItem item key = walk item (components key) := by
  induction item, key using auxGetCfgItem.induct with
  | case1 item key h =>
    rw [auxGetCfgItem_last h, components_last h, walk]
    cases vcfgItemGet item key with
    | error e => rfl
    | ok r => cases r <;> rfl
  | case2 item key c rest h ih =>
    rw [auxGetCfgItem_cons h, components_cons h, walk]
    cases vcfgItemGet item (key.takeWhile (!isDot ·)) with
    | error e => rfl
    | ok r =>
      cases r with
      | none => rfl
      | some sub => exact ih sub

theorem walk_walkable {item : VcfgItem} {cs : List Text} (h : Walkable item cs) :
    walk item cs = .ok (follow item cs) := by
  induction cs generalizing item with
  | nil => rfl
  | cons c cs ih =>
    obtain ⟨hanswering, hrest⟩ := h
    rw [walk, vcfgItemGet_answering hanswering, ok_bind, follow]
    cases hsub : item.answer c with
    | none => rfl
    | some sub => exact ih (hrest sub hsub)

theorem walk_null {item : VcfgItem} {cs : List Text} (h : ¬ Walkable item cs) :
    walk item cs = .error .null := by
  induction cs generalizing item with
  | nil => exact absurd trivial h
  | cons c cs ih =>
    by_cases hanswering : item.Answering
    · rw [walk, vcfgItemGet_answering hanswering, ok_bind]
      obtain ⟨sub, hsub, hstuck⟩ : ∃ sub, item.answer c = some sub ∧ ¬ Walkable sub cs := by
        by_contra hall
        refine h ⟨hanswering, fun sub hsub => ?_⟩
        by_contra hstuck
        exact hall ⟨sub, hsub, hstuck⟩
      rw [hsub]
      exact ih hstuck
    · rw [walk, vcfgItemGet_null hanswering, error_bind]

/-- For every tree and every key: the lookup answers with the item to which the components of the
key lead, or with none where there is none, exactly when no component on the way is asked of a tuple
or of a list without a key. -/
theorem auxGetCfgItem_follow_iff (item : VcfgItem) (key : Text) :
    auxGetCfgItem item key = .ok (follow item (components key)) ↔
      Walkable item (components key) := by
  rw [auxGetCfgItem_eq_walk]
  by_cases h : Walkable item (components key)
  · exact iff_of_true (walk_walkable h) h
  · rw [walk_null h]
    exact iff_of_false (fun hok => (nomatch hok)) h

/-- A tuple where the node's settings are expected. -/
def tupleConfig : Text := cstr "host: (x)"

/-- What the parser makes of it. -/
def tupleItem : VcfgItem := .dict 0 [(cstr "host", .tuple 1 [.str 2 (cstr "x")])]

theorem tuple_asked_for_timeout :
    parseConfig tupleConfig = .ok (some tupleItem) ∧
      auxGetCfgItem tupleItem (cstr "host.tick_timeout") = .error .null ∧
      follow tupleItem (components (cstr "host.tick_timeout")) = none := by
  have hsplit : components (cstr "host.tick_timeout") = [cstr "host", cstr "tick_timeout"] := by
    decide
  rw [auxGetCfgItem_eq_walk, hsplit]
  exact ⟨rfl, rfl, rfl⟩

end Vdht.Cfg
