import Vdht.Cfg.Lookup
import Vdht.Utils.Vsys

/-!
# Timeouts of the configuration

Three getters of `vcfg.c` read a timeout: a number and a unit, `s` or `m`. They are copies of one
another but for the key and the default. The unit is the last character; the number is what
`strtol` finds at the start of the value, cut to 32 bits, and nothing asks what is between the two
or whether the product is positive.

A getter returns what its value says exactly when the value is `WellRead`: a duration, or a value
that happens to end in the default.
-/

namespace Vdht.Cfg

open Vdht.Core Vdht.Utils Lib

/-- `vcfg_get_str_val`: the string that the key leads to, if it leads to a string; the depth of the
item does not matter. -/
def vcfgGetStrVal (cfg : VcfgItem) (key : Text) : Res (Option Text) := do
  let item ← auxGetCfgItem cfg key
  match item with
  | some (.str _ s) => .ok (some s)
  | _ => .ok none

/-- `val[i]`; the NUL behind the characters belongs to the object. -/
def charAt (val : Text) (i : Int) : Res UInt8 :=
  if i < 0 then .error .bounds else getSlot (val ++ [0]) i.toNat

/-- The number of seconds in the unit of a timeout, for the two units that the program knows. -/
def tmsOf (c : UInt8) : Option Int :=
  if c = 's'.toUInt8 then some 1 else if c = 'm'.toUInt8 then some 60 else none

/-- What a getter makes of the string `val`. -/
def tmoOf (val : Text) (default : Int) : Res Int := do
  let ret := castInt val.length
  let i ← int32 (ret - 1)
  let c ← charAt val i
  match tmsOf c with
  | none => .ok default
  | some tms =>
    match strtol (val ++ [0]) with
    | none => .error .bounds
    | some r => if r.erange then .ok default else int32 (castInt r.val * tms)

/-- What the getters of the timeouts share: the default when there is no string for the key, and
otherwise what the string says. -/
def getTmo (key : Text) (default : Int) (cfg : VcfgItem) : Res Int := do
  let val ← vcfgGetStrVal cfg key
  match val with
  | none => .ok default
  | some val => tmoOf val default

/-- `vcfg_get_host_tick_tmo`, 5 seconds by default. -/
def vcfgGetHostTickTmo (cfg : VcfgItem) : Res Int := getTmo (cstr "host.tick_timeout") 5 cfg

/-- `vcfg_get_host_wb_tmo`, 60 seconds by default. -/
def vcfgGetHostWbTmo (cfg : VcfgItem) : Res Int := getTmo (cstr "host.writeback_timeout") 60 cfg

/-- `vcfg_get_route_max_next_tmo`, 60 seconds by default. -/
def vcfgGetRouteMaxNextTmo (cfg : VcfgItem) : Res Int := getTmo (cstr "route.max_next_tmo") 60 cfg

/-! ## What a value says -/

/-- Digits and a unit; the product `n` of both is a positive `int`. -/
inductive Duration : Text → Int → Prop where
  | mk {ds : Text} {u : UInt8} {tms : Int} (hne : ds ≠ []) (hd : ∀ c ∈ ds, isDigit c)
      (hu : tmsOf u = some tms) (hpos : 1 ≤ digitsVal ds * tms)
      (hmax : digitsVal ds * tms ≤ 2 ^ 31 - 1) : Duration (ds ++ [u]) (digitsVal ds * tms)

/-- The duration that is written in `val`, and the default where there is none. -/
def Says (val : Text) (default n : Int) : Prop :=
  Duration val n ∨ (∀ m, ¬ Duration val m) ∧ n = default

/-- The character that is taken for the unit. It is the last one of a value of less than `2 ^ 31`
characters. -/
def unitChar (val : Text) : Option UInt8 :=
  if 0 < castInt val.length then val[(castInt val.length - 1).toNat]? else none

/-- No unit is seen, the number at the start is none of a `long`, or it gives the default. -/
def GivesDefault (val : Text) (default : Int) (c : UInt8) : Prop :=
  ∀ tms, tmsOf c = some tms → ∀ r, strtol (val ++ [0]) = some r →
    r.erange = true ∨ castInt r.val * tms = default

/-- The string is a duration whose unit is known, or gives the default by being no duration at all
in one of the ways that the getter notices. -/
def WellRead (val : Text) (default : Int) : Prop :=
  ∃ c, unitChar val = some c ∧
    ((∃ n, Duration val n ∧ (tmsOf c ≠ none ∨ n = default)) ∨
      (∀ n, ¬ Duration val n) ∧ GivesDefault val default c)

/-- A string ends the number at its start. -/
theorem strtol_string (val : Text) : ∃ r, strtol (val ++ [0]) = some r := by
  rw [← Option.isSome_iff_exists, ← Option.ne_none_iff_isSome, Ne, strtol_eq_none_iff]
  rintro ⟨blanks, sign, neg, ds, hval, hb, hs, hd⟩
  have hnul : (0 : UInt8) ∈ blanks ++ (sign ++ ds) := by
    rw [← hval]
    exact List.mem_append_right _ List.mem_cons_self
  rcases List.mem_append.mp hnul with h | h
  · exact absurd (hb 0 h) (by decide)
  · rcases List.mem_append.mp h with h | h
    · cases hs with
      | none => cases h
      | plus => simp at h
      | minus => simp at h
    · exact absurd (hd 0 h) (by decide)

/-! ## Durations -/

section Duration

variable {val : Text} {default n : Int} {c : UInt8} {tms : Int}

theorem tms_pos (h : tmsOf c = some tms) : 1 ≤ tms := by
  rw [tmsOf] at h
  split_ifs at h <;> cases h <;> decide

theorem isStop_of_unit (h : tmsOf c = some tms) : isStop c = true := by
  rw [tmsOf] at h
  split_ifs at h with hs hm
  · rw [hs]
    rfl
  · rw [hm]
    rfl

theorem isDigit_of_unit (h : tmsOf c = some tms) : isDigit c = false := by
  rw [tmsOf] at h
  split_ifs at h with hs hm
  · rw [hs]
    rfl
  · rw [hm]
    rfl

theorem Duration.unique {m : Int} (h : Duration val n) (h' : Duration val m) : m = n := by
  obtain ⟨-, -, hu, -, -⟩ := h
  generalize hval : _ ++ [_] = val at h'
  obtain ⟨-, -, hu', -, -⟩ := h'
  obtain ⟨rfl, hlast⟩ := List.append_inj' hval rfl
  obtain rfl := List.head_eq_of_cons_eq hlast
  rw [hu, Option.some.injEq] at hu'
  rw [hu']

theorem Duration.range (h : Duration val n) : 1 ≤ n ∧ n < 2 ^ 31 := by
  obtain ⟨-, -, -, hpos, hmax⟩ := h
  exact ⟨hpos, Int.lt_of_le_sub_one hmax⟩

theorem Says.pos (h : Says val default n) (hdefault : 0 < default) : 0 < n := by
  rcases h with h | ⟨-, rfl⟩
  · exact h.range.1
  · exact hdefault

theorem says_duration {m : Int} (h : Duration val m) : Says val default n ↔ n = m := by
  constructor
  · intro hn
    exact h.unique (hn.resolve_right fun hnone => hnone.1 m h)
  · intro heq
    rw [heq]
    exact Or.inl h

theorem says_other (h : ∀ m, ¬ Duration val m) : Says val default n ↔ n = default :=
  ⟨fun hn => (hn.resolve_left (h n)).2, fun heq => Or.inr ⟨h, heq⟩⟩

/-- The number of a duration is read, and with the unit it gives the duration. -/
theorem Duration.read (h : Duration val n) (hc : c ∈ val) (hunit : tmsOf c = some tms) :
    ∃ v rest, strtol (val ++ [0]) = some ⟨v, false, rest⟩ ∧ castInt v * tms = n := by
  obtain @⟨ds, u, t, hne, hd, hu, hpos, hmax⟩ := h
  have hcu : c = u := by
    rcases List.mem_append.mp hc with hds | hlast
    · have hdigit := hd c hds
      rw [isDigit_of_unit hunit] at hdigit
      cases hdigit
    · exact List.mem_singleton.mp hlast
  rw [← hcu, hunit, Option.some.injEq] at hu
  rw [← hu] at hpos hmax ⊢
  have hsmall : (digitsVal ds : Int) ≤ digitsVal ds * tms :=
    le_mul_of_one_le_right (Int.natCast_nonneg _) (tms_pos hunit)
  have hlong : InLong (signed false (digitsVal ds)) := by
    have hsigned : signed false (digitsVal ds) = digitsVal ds := rfl
    rw [hsigned]
    exact ⟨by omega, by omega⟩
  have hnum : Numeral ([] ++ ([] ++ ds)) (digitsVal ds) :=
    Numeral.digits (by simp) Sign.none hd hne hlong
  rw [← hcu, List.append_assoc]
  refine ⟨digitsVal ds, _, strtol_numeral hnum (isStop_of_unit hunit), ?_⟩
  rw [castInt_eq (.of_nonneg (Int.natCast_nonneg _) (by omega))]

end Duration

/-! ## Reading a value -/

section Read

variable {val : Text} {default n : Int} {c : UInt8}

/-- No character is seen where the number of characters, as an `int`, is not positive. -/
theorem unitChar_none (h : unitChar val = none) : castInt val.length ≤ 0 := by
  by_contra hpos
  have hle := castInt_le (Int.natCast_nonneg val.length)
  rw [unitChar, if_pos (by omega), List.getElem?_eq_none_iff] at h
  omega

theorem tmoOf_unseen (h : unitChar val = none) (default : Int) :
    ∃ e, tmoOf val default = .error e := by
  have hle := unitChar_none h
  rw [tmoOf]
  cases hi : int32 (castInt val.length - 1) with
  | error e => exact ⟨e, rfl⟩
  | ok i =>
    obtain ⟨-, rfl⟩ := int32_ok_iff.mp hi
    rw [ok_bind, charAt, if_pos (by omega)]
    exact ⟨.bounds, rfl⟩

theorem charAt_seen (h : unitChar val = some c) :
    (int32 (castInt val.length - 1) >>= charAt val) = .ok c := by
  rw [unitChar] at h
  split_ifs at h with hpos
  have hrange := castInt_range val.length
  obtain ⟨hlt, -⟩ := List.getElem?_eq_some_iff.mp h
  rw [int32_ok (.of_nonneg (by omega) (by have := hrange.2; omega)), ok_bind, charAt,
    if_neg (by omega), getSlot, List.getElem?_append_left hlt, h]

theorem tmoOf_seen (h : unitChar val = some c) (default : Int) :
    tmoOf val default = (tmsOf c).elim (.ok default) fun tms =>
      (strtol (val ++ [0])).elim (.error .bounds) fun r =>
        if r.erange then .ok default else int32 (castInt r.val * tms) := by
  obtain ⟨i, hi, hc⟩ := bind_ok.mp (charAt_seen h)
  rw [tmoOf, hi, ok_bind, hc, ok_bind]
  cases tmsOf c with
  | none => rfl
  | some tms => cases strtol (val ++ [0]) <;> rfl

theorem mem_of_unitChar (h : unitChar val = some c) : c ∈ val := by
  rw [unitChar] at h
  split_ifs at h
  exact List.mem_of_getElem? h

/-- A value with a duration gives it when the unit is seen, and the default when it is not. -/
theorem tmoOf_duration (h : unitChar val = some c) (hn : Duration val n) (default : Int) :
    tmoOf val default = .ok (if tmsOf c = none then default else n) := by
  rw [tmoOf_seen h]
  cases hunit : tmsOf c with
  | none => rfl
  | some tms =>
    obtain ⟨v, rest, hread, hprod⟩ := hn.read (mem_of_unitChar h) hunit
    have hrange := hn.range
    rw [Option.elim_some, hread, Option.elim_some, if_neg Bool.false_ne_true, hprod,
      int32_ok (.of_nonneg (by omega) hrange.2), if_neg (Option.some_ne_none tms)]

theorem tmoOf_default_iff (h : unitChar val = some c) (hdefault : InSigned 31 default) :
    tmoOf val default = .ok default ↔ GivesDefault val default c := by
  rw [tmoOf_seen h, GivesDefault]
  obtain ⟨r, hr⟩ := strtol_string val
  cases tmsOf c with
  | none => exact iff_of_true rfl fun tms htms => (nomatch htms)
  | some tms =>
    simp only [Option.elim_some, hr, Option.some.injEq, forall_eq']
    cases r.erange with
    | true => exact iff_of_true rfl (Or.inl rfl)
    | false =>
      rw [if_neg Bool.false_ne_true, int32_ok_iff, or_iff_right Bool.false_ne_true]
      exact ⟨And.right, fun heq => ⟨heq ▸ hdefault, heq⟩⟩

/-- A value that is well read gives what it says, and nothing else does. -/
theorem tmoOf_says_iff (val : Text) (hdefault : InSigned 31 default) :
    (∃ n, tmoOf val default = .ok n ∧ Says val default n) ↔ WellRead val default := by
  cases hseen : unitChar val with
  | none =>
    obtain ⟨e, he⟩ := tmoOf_unseen hseen default
    refine iff_of_false (fun h => ?_) (fun h => ?_)
    · obtain ⟨n, hn, -⟩ := h
      rw [he] at hn
      cases hn
    · obtain ⟨c, hc, -⟩ := h
      rw [hseen] at hc
      cases hc
  | some c =>
    have hwell : WellRead val default ↔
        (∃ n, Duration val n ∧ (tmsOf c ≠ none ∨ n = default)) ∨
          (∀ n, ¬ Duration val n) ∧ GivesDefault val default c := by
      rw [WellRead, hseen]
      simp only [Option.some.injEq, exists_eq_left']
    rw [hwell]
    by_cases hdur : ∃ m, Duration val m
    · obtain ⟨m, hm⟩ := hdur
      rw [or_iff_left fun h => h.1 m hm, tmoOf_duration hseen hm]
      constructor
      · rintro ⟨n, hn, htold⟩
        obtain rfl := (says_duration hm).mp htold
        refine ⟨n, hm, ?_⟩
        by_cases hunit : tmsOf c = none
        · rw [if_pos hunit] at hn
          exact Or.inr (Except.ok.inj hn).symm
        · exact Or.inl hunit
      · rintro ⟨n, hn, hunit⟩
        refine ⟨n, congrArg Except.ok ?_, Or.inl hn⟩
        by_cases hnone : tmsOf c = none
        · rw [if_pos hnone]
          exact (hunit.resolve_left fun h => h hnone).symm
        · rw [if_neg hnone]
          exact hn.unique hm
    · rw [not_exists] at hdur
      rw [or_iff_right fun h => hdur h.choose h.choose_spec.1, and_iff_right hdur,
        ← tmoOf_default_iff hseen hdefault]
      simp only [says_other hdur, exists_eq_right]

end Read

/-! ## The three getters -/

/-- The timeouts of the configuration that are read by a getter of their own. -/
inductive Timeout where
  | hostTick
  | hostWb
  | routeMaxNext

/-- The key under which the timeout stands. -/
def Timeout.key : Timeout → Text
  | .hostTick => cstr "host.tick_timeout"
  | .hostWb => cstr "host.writeback_timeout"
  | .routeMaxNext => cstr "route.max_next_tmo"

/-- The seconds that are taken when the configuration says nothing. -/
def Timeout.default : Timeout → Int
  | .hostTick => 5
  | .hostWb => 60
  | .routeMaxNext => 60

/-- The getter of the timeout. -/
def Timeout.get : Timeout → VcfgItem → Res Int
  | .hostTick => vcfgGetHostTickTmo
  | .hostWb => vcfgGetHostWbTmo
  | .routeMaxNext => vcfgGetRouteMaxNextTmo

theorem Timeout.default_pos (t : Timeout) : 0 < t.default := by
  cases t <;> decide

theorem Timeout.inSigned_default (t : Timeout) : InSigned 31 t.default := by
  cases t <;> decide

theorem Timeout.get_eq (t : Timeout) (cfg : VcfgItem) : t.get cfg = getTmo t.key t.default cfg := by
  cases t <;> rfl

/-- The getter answers with what the value says, a positive number. -/
def Timeout.Met (t : Timeout) (cfg : VcfgItem) (val : Text) : Prop :=
  ∃ n, t.get cfg = .ok n ∧ Says val t.default n ∧ 0 < n

/-- Each of the three timeouts, in a configuration that has any string for it: the getter answers
with what the string says, a positive number, exactly when the string is a duration whose unit is
known, or gives the default by being no duration in one of the ways that the getter notices. -/
theorem timeout_met_iff (t : Timeout) (cfg : VcfgItem) (val : Text)
    (hval : vcfgGetStrVal cfg t.key = .ok (some val)) :
    t.Met cfg val ↔ WellRead val t.default := by
  have hget : t.get cfg = tmoOf val t.default := by rw [t.get_eq, getTmo, hval, ok_bind]
  rw [← tmoOf_says_iff val t.inSigned_default, Timeout.Met, hget]
  constructor
  · rintro ⟨n, hn, htold, -⟩
    exact ⟨n, hn, htold⟩
  · rintro ⟨n, hn, htold⟩
    exact ⟨n, hn, htold, htold.pos t.default_pos⟩

/-- The item of the text `host: {tick timeout: ...}` with a value. -/
def hostConfig (val : String) : VcfgItem :=
  .dict 0 [(cstr "host", .dict 1 [(cstr "tick_timeout", .str 2 (cstr val))])]

theorem vcfgGetStrVal_hostConfig (val : String) :
    vcfgGetStrVal (hostConfig val) (cstr "host.tick_timeout") = .ok (some (cstr val)) := by
  have hsplit : components (cstr "host.tick_timeout") = [cstr "host", cstr "tick_timeout"] := by
    decide
  rw [vcfgGetStrVal, auxGetCfgItem_eq_walk, hsplit]
  rfl

theorem timeout_met_five_minutes : Timeout.Met .hostTick (hostConfig "5m") (cstr "5m") := by
  refine (timeout_met_iff .hostTick _ _ (vcfgGetStrVal_hostConfig "5m")).mpr ?_
  have hdur : Duration (cstr "5m") 300 :=
    @Duration.mk [53] 109 60 (List.cons_ne_nil 53 []) (List.forall_mem_singleton.mpr rfl) rfl
      (by decide) (by decide)
  exact ⟨109, rfl, Or.inl ⟨300, hdur, Or.inl (Option.some_ne_none 60)⟩⟩

/-- The parser takes a timeout of no seconds, and the getter returns it. -/
theorem zero_seconds_returned :
    parseConfig (cstr "host: \x7btick timeout: 0s\x7d") = .ok (some (hostConfig "0s")) ∧
      vcfgGetHostTickTmo (hostConfig "0s") = .ok 0 ∧
      ¬ Timeout.Met .hostTick (hostConfig "0s") (cstr "0s") := by
  have hzero : vcfgGetHostTickTmo (hostConfig "0s") = .ok 0 := by
    rw [vcfgGetHostTickTmo, getTmo, vcfgGetStrVal_hostConfig]
    rfl
  refine ⟨rfl, hzero, ?_⟩
  rintro ⟨n, hn, -, hpos⟩
  obtain rfl := Except.ok.inj (hzero.symm.trans hn)
  exact absurd hpos (by decide)

end Vdht.Cfg
