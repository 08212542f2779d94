import Mathlib.Data.List.Induction
import Mathlib.Data.List.MinMax

/-!
# A scan for two extremes

One pass over a list keeps the greatest value of a measure `high` and the least value of a measure
`low`, each from a starting value on. An item that raises the maximum is picked; any other item is
picked when it lowers the minimum. At the end the item that was picked last is the choice.

The rule such a scan is meant to follow puts the first measure first: an item above the starting
value decides, whatever its place. The scan follows the rule unless an item behind the greatest one
is picked for being low.
-/

namespace Vdht.Lib

variable {α : Type*} (high low : α → Int) (top bottom : Int)

/-- The state of a loop that looks for a large and a small item at once and keeps one choice for
both. -/
structure Scan (α : Type*) where
  max : Int
  min : Int
  pick : Option α

/-- One turn of the loop: an item above all before it is chosen, and otherwise one below all that
did not rise. -/
def scanItem (s : Scan α) (a : α) : Scan α :=
  if s.max < high a then { s with max := high a, pick := some a }
  else if s.min > low a then { s with min := low a, pick := some a }
  else s

/-- The loop over a list, from bounds that every item may pass. -/
def scan (l : List α) : Scan α := l.foldl (scanItem high low) ⟨top, bottom, none⟩

/-! ## What the scan picks -/

/-- Behind the items of `front`, `a` raises the maximum. -/
def Raises (front : List α) (a : α) : Prop := top < high a ∧ ∀ q ∈ front, high q < high a

/-- Behind the items of `front`, `a` lowers the minimum. The items that were picked for the first
measure do not count for the minimum. -/
def Lowers (front : List α) (a : α) : Prop :=
  low a < bottom ∧ ∀ f q b, front = f ++ q :: b → Raises high top f q ∨ low a < low q

/-- The item is chosen behind the items in front of it, as one that is higher or as one that is
lower. -/
def Picks (front : List α) (a : α) : Prop :=
  Raises high top front a ∨ Lowers high low top bottom front a

/-- The choice is the last item of the list that is picked. -/
def LastPick (l : List α) : Option α → Prop
  | none => ∀ f a b, l = f ++ a :: b → ¬ Picks high low top bottom f a
  | some a => ∃ f b, l = f ++ a :: b ∧ Picks high low top bottom f a ∧
      ∀ g c d, b = g ++ c :: d → ¬ Picks high low top bottom (f ++ a :: g) c

/-- What the scan knows behind the items of `l`. -/
structure Scanned (l : List α) (s : Scan α) : Prop where
  raises : ∀ a, s.max < high a ↔ Raises high top l a
  lowers : ∀ a, low a < s.min ↔ Lowers high low top bottom l a
  last : LastPick high low top bottom l s.pick

variable {high low top bottom} {l : List α}

/-- The places of `l ++ [a]`. -/
theorem concat_split {f b : List α} {a c : α} (h : l ++ [a] = f ++ c :: b) :
    (f = l ∧ c = a ∧ b = []) ∨ ∃ b', b = b' ++ [a] ∧ l = f ++ c :: b' := by
  rcases List.eq_nil_or_concat' b with rfl | ⟨b', d, rfl⟩
  · obtain ⟨rfl, hca⟩ := List.append_inj' h rfl
    exact Or.inl ⟨rfl, (List.singleton_inj.mp hca).symm, rfl⟩
  · rw [← List.cons_append, ← List.append_assoc] at h
    obtain ⟨hl, hda⟩ := List.append_inj' h rfl
    exact Or.inr ⟨b', by rw [List.singleton_inj.mp hda], hl⟩

theorem raises_concat {a c : α} :
    Raises high top (l ++ [a]) c ↔ Raises high top l c ∧ high a < high c := by
  simp only [Raises, List.forall_mem_append, List.forall_mem_singleton, and_assoc]

theorem lowers_concat {a c : α} :
    Lowers high low top bottom (l ++ [a]) c ↔
      Lowers high low top bottom l c ∧ (Raises high top l a ∨ low c < low a) := by
  constructor
  · rintro ⟨hc, hall⟩
    refine ⟨⟨hc, ?_⟩, hall l a [] rfl⟩
    rintro f q b rfl
    exact hall f q (b ++ [a]) (by simp)
  · rintro ⟨⟨hc, hall⟩, ha⟩
    refine ⟨hc, fun f q b hsplit => ?_⟩
    rcases concat_split hsplit with ⟨rfl, rfl, -⟩ | ⟨b', -, hl⟩
    · exact ha
    · exact hall f q b' hl

theorem lastPick_picked {a : α} (h : Picks high low top bottom l a) :
    LastPick high low top bottom (l ++ [a]) (some a) :=
  ⟨l, [], rfl, h, by simp⟩

theorem lastPick_passed {a : α} {choice : Option α} (h : LastPick high low top bottom l choice)
    (ha : ¬ Picks high low top bottom l a) : LastPick high low top bottom (l ++ [a]) choice := by
  cases choice with
  | none =>
    intro f c b hsplit
    rcases concat_split hsplit with ⟨rfl, rfl, -⟩ | ⟨b', -, hl⟩
    · exact ha
    · exact h f c b' hl
  | some v =>
    obtain ⟨f, b, rfl, hv, hlast⟩ := h
    refine ⟨f, b ++ [a], by simp, hv, fun g c d hsplit => ?_⟩
    rcases concat_split hsplit with ⟨rfl, rfl, -⟩ | ⟨d', -, hb⟩
    · exact ha
    · exact hlast g c d' hb

/-- One item of the scan. -/
theorem Scanned.item {s : Scan α} (h : Scanned high low top bottom l s) (a : α) :
    Scanned high low top bottom (l ++ [a]) (scanItem high low s a) := by
  unfold scanItem
  by_cases hraise : s.max < high a
  · have ha : Raises high top l a := (h.raises a).mp hraise
    rw [if_pos hraise]
    refine ⟨fun c => ?_, fun c => ?_, lastPick_picked (Or.inl ha)⟩
    · rw [raises_concat, ← h.raises c]
      show high a < high c ↔ _
      omega
    · rw [lowers_concat, ← h.lowers c, and_iff_left (Or.inl ha)]
  · have ha : ¬ Raises high top l a := fun hr => hraise ((h.raises a).mpr hr)
    rw [if_neg hraise]
    by_cases hlower : s.min > low a
    · have hlow : Lowers high low top bottom l a := (h.lowers a).mp hlower
      rw [if_pos hlower]
      refine ⟨fun c => ?_, fun c => ?_, lastPick_picked (Or.inr hlow)⟩
      · rw [raises_concat, ← h.raises c]
        show s.max < high c ↔ _
        omega
      · rw [lowers_concat, ← h.lowers c, or_iff_right ha]
        show low c < low a ↔ _
        omega
    · have hlow : ¬ Lowers high low top bottom l a := fun hl => hlower ((h.lowers a).mpr hl)
      rw [if_neg hlower]
      refine ⟨fun c => ?_, fun c => ?_, lastPick_passed h.last (not_or.mpr ⟨ha, hlow⟩)⟩
      · rw [raises_concat, ← h.raises c]
        omega
      · rw [lowers_concat, ← h.lowers c, or_iff_right ha]
        omega

theorem scan_scanned (l : List α) : Scanned high low top bottom l (scan high low top bottom l) := by
  induction l using List.reverseRecOn with
  | nil =>
    refine ⟨fun a => ?_, fun a => ?_, by simp [scan, LastPick]⟩
    · simp [scan, Raises]
    · simp [scan, Lowers]
  | append_singleton l a ih =>
    rw [scan, List.foldl_concat]
    exact ih.item a

/-! ## The rule -/

variable (high low top bottom) in
/-- The choice by the rule: a greatest item when one is above `top`, else a least one when one is
below `bottom`. -/
structure ByRule (l : List α) (choice : Option α) : Prop where
  greatest : (∃ a ∈ l, top < high a) → ∃ v ∈ l, choice = some v ∧ ∀ q ∈ l, high q ≤ high v
  least : (∀ a ∈ l, high a ≤ top) → (∃ a ∈ l, low a < bottom) →
    ∃ v ∈ l, choice = some v ∧ ∀ q ∈ l, low v ≤ low q
  none : (∀ a ∈ l, high a ≤ top) → (∀ a ∈ l, bottom ≤ low a) → choice = none

variable (high low top bottom) in
/-- Behind a greatest item above `top` there is a smaller one that is picked for being low, and no
later one is lower. -/
def Hidden (l : List α) : Prop :=
  ∃ f p b, l = f ++ p :: b ∧ Lowers high low top bottom f p ∧ (∀ q ∈ b, low p ≤ low q) ∧
    ∃ r ∈ f, top < high r ∧ high p < high r ∧ ∀ q ∈ l, high q ≤ high r

/-- Of the greatest items the first one raises the maximum. -/
theorem exists_first_greatest (h : ∃ a ∈ l, top < high a) :
    ∃ f r b, l = f ++ r :: b ∧ Raises high top f r ∧ ∀ q ∈ l, high q ≤ high r := by
  obtain ⟨a, ha, htop⟩ := h
  obtain ⟨m, hm⟩ : ∃ m, l.argmax high = some m := by
    rw [← Option.isSome_iff_exists, ← Option.ne_none_iff_isSome, ne_eq, List.argmax_eq_none]
    exact List.ne_nil_of_mem ha
  have hmax : ∀ q ∈ l, high q ≤ high m := fun q hq => List.le_of_mem_argmax hq hm
  obtain ⟨r, hr⟩ : ∃ r, l.find? (fun q => high q = high m) = some r := by
    rw [← Option.isSome_iff_exists, List.find?_isSome]
    exact ⟨m, List.argmax_mem hm, by simp⟩
  obtain ⟨hrm, f, b, rfl, hfront⟩ := List.find?_eq_some_iff_append.mp hr
  have heq : high r = high m := by simpa using hrm
  have hma := hmax a ha
  refine ⟨f, r, b, rfl, ⟨by omega, fun q hq => ?_⟩, by rwa [heq]⟩
  have hne : high q ≠ high m := by simpa using hfront q hq
  have hle := hmax q (List.mem_append_left _ hq)
  omega

theorem lowers_trans {f : List α} {v c : α} (hv : Lowers high low top bottom f v)
    (hcv : low c < low v) : Lowers high low top bottom (f ++ [v]) c := by
  refine lowers_concat.mpr ⟨⟨Int.lt_trans hcv hv.1, fun g q b hsplit => ?_⟩, Or.inr hcv⟩
  exact (hv.2 g q b hsplit).imp_right (Int.lt_trans hcv)

/-- Where no item raises the maximum `m` that is reached behind `f`, all items are below it. -/
theorem le_of_not_raises {f b : List α} {m : Int} (hf : ∀ c, m < high c → Raises high top f c)
    (hno : ∀ g c d, b = g ++ c :: d → ¬ Raises high top (f ++ g) c) : ∀ q ∈ b, high q ≤ m := by
  induction b using List.reverseRecOn with
  | nil => simp
  | append_singleton b c ih =>
    have hle := ih fun g d e hb => hno g d (e ++ [c]) (by simp [hb])
    intro q hq
    rcases List.mem_append.mp hq with hq | hq
    · exact hle q hq
    · rw [List.mem_singleton.mp hq]
      by_contra hgt
      obtain ⟨htop, hfront⟩ := hf c (by omega)
      refine hno b c [] rfl ⟨htop, fun r hr => ?_⟩
      rcases List.mem_append.mp hr with hr | hr
      · exact hfront r hr
      · have := hle r hr
        omega

/-- Where no item lowers the minimum `m` that is reached behind `f`, all items are above it. -/
theorem le_of_not_lowers {f b : List α} {m : Int}
    (hf : ∀ c, low c < m → Lowers high low top bottom f c)
    (hno : ∀ g c d, b = g ++ c :: d → ¬ Lowers high low top bottom (f ++ g) c) :
    ∀ q ∈ b, m ≤ low q := by
  induction b using List.reverseRecOn with
  | nil => simp
  | append_singleton b c ih =>
    have hle := ih fun g d e hb => hno g d (e ++ [c]) (by simp [hb])
    intro q hq
    rcases List.mem_append.mp hq with hq | hq
    · exact hle q hq
    · rw [List.mem_singleton.mp hq]
      by_contra hlt
      obtain ⟨hbottom, hfront⟩ := hf c (by omega)
      refine hno b c [] rfl ⟨hbottom, fun g r d hsplit => ?_⟩
      rcases List.append_eq_append_iff.mp hsplit with ⟨g', rfl, hb⟩ | ⟨g', rfl, hr⟩
      · have := hle r (by simp [hb])
        exact Or.inr (by omega)
      · cases g' with
        | nil =>
          have hrb : r ∈ b := by
            rw [← List.nil_append b, ← hr]
            exact List.mem_cons_self
          have := hle r hrb
          exact Or.inr (by omega)
        | cons w g' =>
          cases hr
          exact hfront g r g' rfl

theorem byRule_none (h : LastPick high low top bottom l none) :
    ByRule high low top bottom l none ∧ ¬ Hidden high low top bottom l := by
  have hraise : ∀ q ∈ l, high q ≤ top :=
    @le_of_not_raises _ high top [] _ _ (fun c hc => ⟨hc, by simp⟩)
      fun g c d hl hc => h g c d hl (Or.inl hc)
  have hlow : ∀ q ∈ l, bottom ≤ low q :=
    @le_of_not_lowers _ high low top bottom [] _ _ (fun c hc => ⟨hc, by simp⟩)
      fun g c d hl hc => h g c d hl (Or.inr hc)
  refine ⟨⟨?_, ?_, fun _ _ => rfl⟩, ?_⟩
  · rintro ⟨a, ha, htop⟩
    have := hraise a ha
    omega
  · rintro - ⟨a, ha, hbottom⟩
    have := hlow a ha
    omega
  · rintro ⟨f, p, b, rfl, -, -, r, hr, htop, -⟩
    have := hraise r (List.mem_append_left _ hr)
    omega

/-- The places of a list before, at and behind a given one. -/
theorem split_cases {f b g d : List α} {v p : α} (h : f ++ v :: b = g ++ p :: d) :
    (∃ e, f = g ++ p :: e ∧ d = e ++ v :: b) ∨ (f = g ∧ v = p ∧ b = d) ∨
      ∃ e, g = f ++ v :: e ∧ b = e ++ p :: d := by
  rcases List.append_eq_append_iff.mp h with ⟨e, rfl, he⟩ | ⟨e, rfl, he⟩
  · cases e with
    | nil =>
      cases he
      exact Or.inr (Or.inl ⟨by simp, rfl, rfl⟩)
    | cons w e =>
      cases he
      exact Or.inr (Or.inr ⟨e, rfl, rfl⟩)
  · cases e with
    | nil =>
      cases he
      exact Or.inr (Or.inl ⟨by simp, rfl, rfl⟩)
    | cons w e =>
      cases he
      exact Or.inl ⟨e, rfl, rfl⟩

section LastPick

variable {f b : List α} {v : α}
  (hlater : ∀ g c d, b = g ++ c :: d → ¬ Picks high low top bottom (f ++ v :: g) c)
include hlater

theorem byRule_raised (hv : Raises high top f v) :
    ByRule high low top bottom (f ++ v :: b) (some v) ∧
      ¬ Hidden high low top bottom (f ++ v :: b) := by
  have hb : ∀ q ∈ b, high q ≤ high v := by
    refine @le_of_not_raises _ high top (f ++ [v]) _ _ (fun c hc => raises_concat.mpr ⟨⟨?_, ?_⟩, hc⟩) ?_
    · exact Int.lt_trans hv.1 hc
    · exact fun q hq => Int.lt_trans (hv.2 q hq) hc
    · intro g c d hbd hc
      rw [List.append_assoc] at hc
      exact hlater g c d hbd (Or.inl hc)
  have hmax : ∀ q ∈ f ++ v :: b, high q ≤ high v := by
    intro q hq
    rcases List.mem_append.mp hq with hq | hq
    · exact Int.le_of_lt (hv.2 q hq)
    · rcases List.mem_cons.mp hq with rfl | hq
      · exact Int.le_refl _
      · exact hb q hq
  have hmem : v ∈ f ++ v :: b := by simp
  have htop := hv.1
  refine ⟨⟨fun _ => ⟨v, hmem, rfl, hmax⟩, fun hle _ => ?_, fun hle _ => ?_⟩, ?_⟩
  · have := hle v hmem
    omega
  · have := hle v hmem
    omega
  · rintro ⟨g, p, d, hsplit, hp, -, r, hr, -, hpr, hrmax⟩
    have hvr := hrmax v hmem
    rcases split_cases hsplit with ⟨e, rfl, -⟩ | ⟨rfl, rfl, -⟩ | ⟨e, rfl, rfl⟩
    · have := hv.2 r (List.mem_append_left _ hr)
      omega
    · have := hv.2 r hr
      omega
    · exact hlater e p d rfl (Or.inr hp)

theorem byRule_lowered (hr : ¬ Raises high top f v) (hv : Lowers high low top bottom f v) :
    ByRule high low top bottom (f ++ v :: b) (some v) ↔
      ¬ Hidden high low top bottom (f ++ v :: b) := by
  have hb : ∀ q ∈ b, low v ≤ low q := by
    apply @le_of_not_lowers _ high low top bottom (f ++ [v]) _ _ (fun c hc => lowers_trans hv hc)
    intro g c d hbd hc
    rw [List.append_assoc] at hc
    exact hlater g c d hbd (Or.inr hc)
  have hmem : v ∈ f ++ v :: b := by simp
  constructor
  · rintro hrule ⟨g, p, d, hsplit, hp, hpd, r, hrg, htop, hpr, hrmax⟩
    obtain ⟨w, -, hw, hwmax⟩ :=
      hrule.greatest ⟨r, by rw [hsplit]; exact List.mem_append_left _ hrg, htop⟩
    cases hw
    rcases split_cases hsplit with ⟨e, rfl, rfl⟩ | ⟨rfl, rfl, -⟩ | ⟨e, rfl, rfl⟩
    · have hle := hpd v (by simp)
      rcases hv.2 g p e rfl with hraise | hlt
      · have := hraise.2 r hrg
        omega
      · omega
    · have := hwmax r (List.mem_append_left _ hrg)
      omega
    · exact hlater e p d rfl (Or.inr hp)
  · intro hhid
    refine ⟨?_, ?_, fun _ hle => ?_⟩
    · intro habove
      obtain ⟨g, r, d, hsplit, hraise, hmax⟩ := exists_first_greatest habove
      refine ⟨v, hmem, rfl, ?_⟩
      rcases split_cases hsplit with ⟨e, rfl, rfl⟩ | ⟨rfl, rfl, -⟩ | ⟨e, rfl, rfl⟩
      · by_contra hsmall
        have hvr : high v < high r := by
          by_contra hge
          exact hsmall fun q hq => Int.le_trans (hmax q hq) (by omega)
        exact hhid ⟨_, v, b, rfl, hv, hb, r, by simp, hraise.1, hvr, hmax⟩
      · exact hmax
      · exact absurd (Or.inl hraise) (hlater e r d rfl)
    · intro hle _
      refine ⟨v, hmem, rfl, fun q hq => ?_⟩
      rcases List.mem_append.mp hq with hq | hq
      · obtain ⟨g, d, rfl⟩ := List.append_of_mem hq
        rcases hv.2 g q d rfl with hraise | hlt
        · have := hle q (by simp)
          have := hraise.1
          omega
        · exact Int.le_of_lt hlt
      · rcases List.mem_cons.mp hq with rfl | hq
        · exact Int.le_refl _
        · exact hb q hq
    · have := hle v hmem
      have := hv.1
      omega

end LastPick

/-- The scan follows the rule unless a greatest item is hidden. -/
theorem scan_byRule_iff :
    ByRule high low top bottom l (scan high low top bottom l).pick ↔
      ¬ Hidden high low top bottom l := by
  have hlast := (@scan_scanned _ high low top bottom l).last
  cases hpick : (scan high low top bottom l).pick with
  | none =>
    rw [hpick] at hlast
    obtain ⟨hrule, hhid⟩ := byRule_none hlast
    exact iff_of_true hrule hhid
  | some v =>
    rw [hpick] at hlast
    obtain ⟨f, b, rfl, hv, hlater⟩ := hlast
    by_cases hr : Raises high top f v
    · obtain ⟨hrule, hhid⟩ := byRule_raised hlater hr
      exact iff_of_true hrule hhid
    · exact byRule_lowered hlater hr (hv.resolve_left hr)

/-- Two orders of the same items: choices by the rule are equal in the measure that decides. -/
theorem ByRule.perm {m : List α} {c d : Option α} (hc : ByRule high low top bottom l c)
    (hd : ByRule high low top bottom m d) (h : l.Perm m) :
    c.isSome = d.isSome ∧ ∀ v ∈ c, ∀ w ∈ d,
      ((∃ a ∈ l, top < high a) → high v = high w) ∧
      ((∀ a ∈ l, high a ≤ top) → low v = low w) := by
  have hmem : ∀ {a}, a ∈ l ↔ a ∈ m := h.mem_iff
  by_cases habove : ∃ a ∈ l, top < high a
  · obtain ⟨v, hv, rfl, hvmax⟩ := hc.greatest habove
    obtain ⟨w, hw, rfl, hwmax⟩ := hd.greatest (habove.imp fun a ha => ⟨hmem.mp ha.1, ha.2⟩)
    refine ⟨rfl, ?_⟩
    rintro _ ⟨⟩ _ ⟨⟩
    refine ⟨fun _ => ?_, fun hle => ?_⟩
    · exact Int.le_antisymm (hwmax v (hmem.mp hv)) (hvmax w (hmem.mpr hw))
    · obtain ⟨a, ha, htop⟩ := habove
      have := hle a ha
      omega
  · have hle : ∀ a ∈ l, high a ≤ top := by
      intro a ha
      by_contra hlt
      exact habove ⟨a, ha, by omega⟩
    have hle' : ∀ a ∈ m, high a ≤ top := fun a ha => hle a (hmem.mpr ha)
    by_cases hbelow : ∃ a ∈ l, low a < bottom
    · obtain ⟨v, hv, rfl, hvmin⟩ := hc.least hle hbelow
      obtain ⟨w, hw, rfl, hwmin⟩ :=
        hd.least hle' (hbelow.imp fun a ha => ⟨hmem.mp ha.1, ha.2⟩)
      refine ⟨rfl, ?_⟩
      rintro _ ⟨⟩ _ ⟨⟩
      refine ⟨fun h => absurd h habove, fun _ => ?_⟩
      exact Int.le_antisymm (hvmin w (hmem.mpr hw)) (hwmin v (hmem.mp hv))
    · have hge : ∀ a ∈ l, bottom ≤ low a := by
        intro a ha
        by_contra hlt
        exact hbelow ⟨a, ha, by omega⟩
      rw [hc.none hle hge, hd.none hle' fun a ha => hge a (hmem.mpr ha)]
      exact ⟨rfl, by simp⟩

end Vdht.Lib
