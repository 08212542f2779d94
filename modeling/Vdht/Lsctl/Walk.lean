import Vdht.Lsctl.Dispatch

/-!
# Which messages the daemon handles within bounds

The loop trusts the three lengths it is given: the length of the datagram is not looked at, a
command that is not found is passed over without its content, and what a handler consumed is
subtracted unchecked. `Walks` says what has to hold of a message for the loop to stay inside it.
-/

namespace Vdht.Lsctl

open Lib

variable {τ : Type} {exec : Exec τ} {d : List UInt8} {desc rest : List VlsctlCmd}
  {off left : Nat} {refused : Bool} {cid clen blen : UInt16}

/-- From `off` on, with `left` bytes left of the message, every block that is come to has its head
inside the datagram, and the head and what the handler consumes fit in what is left; for a command
not found only the head is passed. This ends when nothing is left, or with a handler that
refuses. -/
inductive Walks (exec : Exec τ) (d : List UInt8) : List VlsctlCmd → Nat → Nat → Bool → Prop where
  | done {desc : List VlsctlCmd} {off : Nat} : Walks exec d desc off 0 false
  | skipped {desc : List VlsctlCmd} {off left : Nat} {refused : Bool} {cid clen : UInt16} :
    4 ≤ left → readU16 d off = .ok cid → readU16 d (off + 2) = .ok clen →
    findCmd desc cid = [] → Walks exec d [] (off + 4) (left - 4) refused →
    Walks exec d desc off left refused
  | taken {desc rest : List VlsctlCmd} {cmd : VlsctlCmd} {off left n : Nat} {refused : Bool}
    {cid clen : UInt16} {calls : List τ} :
    4 + n ≤ left → readU16 d off = .ok cid → readU16 d (off + 2) = .ok clen →
    findCmd desc cid = cmd :: rest → exec cmd (off + 4) clen = .ok ((n : Int), calls) →
    Walks exec d (cmd :: rest) (off + 4 + n) (left - (4 + n)) refused →
    Walks exec d desc off left refused
  | refused {desc rest : List VlsctlCmd} {cmd : VlsctlCmd} {off left : Nat} {ret : Int}
    {cid clen : UInt16} {calls : List τ} :
    4 ≤ left → readU16 d off = .ok cid → readU16 d (off + 2) = .ok clen →
    findCmd desc cid = cmd :: rest → exec cmd (off + 4) clen = .ok (ret, calls) → ret < 0 →
    Walks exec d desc off left true

theorem toNat_sub_head (h : 4 ≤ blen.toNat) : (blen - 2 - 2).toNat = blen.toNat - 4 := by
  have hsub := @toNat_sub_block blen 0 (by omega)
  simpa using hsub

theorem readU16_le (h : readU16 d off = .ok cid) : off + 2 ≤ d.length := by
  by_contra hlt
  rw [readU16_error (by omega)] at h
  cases h

/-- A run that neither faults nor wraps walks over the message. -/
theorem walks_of_run {fuel : Nat} {u : Unpacked τ}
    (h : unpackLoop exec d fuel desc off blen = .ok u) (hwraps : u.wraps = false) :
    Walks exec d desc off blen.toNat (decide (u.ret < 0)) := by
  induction fuel generalizing desc off blen u with
  | zero => cases h
  | succ fuel ih =>
    by_cases hblen : blen = 0
    · subst hblen
      cases h
      exact .done
    · obtain ⟨cid, clen, hcid, hclen, hround⟩ := unpackLoop_cases h hblen
      obtain ⟨hfind, u', hu', rfl⟩ | ⟨cmd, rest, ret, calls, hfind, hexec, hround⟩ := hround
      · obtain ⟨hfour, hrest⟩ := Bool.or_eq_false_iff.mp hwraps
        have hle : 4 ≤ blen.toNat := Nat.not_lt.mp (of_decide_eq_false hfour)
        have hwalk := ih hu' hrest
        rw [toNat_sub_head hle] at hwalk
        exact .skipped hle hcid hclen hfind hwalk
      · obtain ⟨hret, rfl⟩ | ⟨hret, u', hu', rfl⟩ := hround
        · have hle : 4 ≤ blen.toNat := Nat.not_lt.mp (of_decide_eq_false hwraps)
          exact .refused hle hcid hclen hfind hexec hret
        · obtain ⟨hfour, hrest⟩ := Bool.or_eq_false_iff.mp hwraps
          have hle : 4 + ret.toNat ≤ blen.toNat := Nat.not_lt.mp (of_decide_eq_false hfour)
          have hwalk := ih hu' hrest
          rw [toNat_sub_block hle] at hwalk
          rw [← Int.toNat_of_nonneg hret] at hexec
          exact .taken hle hcid hclen hfind hexec hwalk

theorem ne_zero_of_le (h : 4 ≤ blen.toNat) : blen ≠ 0 := by
  intro hzero
  rw [hzero] at h
  exact absurd h (by decide)

theorem run_of_walks (h : Walks exec d desc off left refused) {fuel : Nat}
    (hblen : blen.toNat = left) (hfuel : 0 < fuel) (hroom : d.length < off + fuel) :
    ∃ u, unpackLoop exec d fuel desc off blen = .ok u ∧ u.wraps = false ∧
      decide (u.ret < 0) = refused := by
  obtain ⟨fuel, rfl⟩ := Nat.exists_eq_add_one_of_ne_zero (Nat.ne_of_gt hfuel)
  induction h generalizing blen fuel with
  | done =>
    have hzero : blen = 0 := UInt16.toNat_inj.mp hblen
    subst hzero
    exact ⟨_, unpackLoop_done, rfl, rfl⟩
  | @skipped desc off left refused cid clen hle hcid hclen hfind _ ih =>
    have hlen := readU16_le hclen
    have hsub := @toNat_sub_head blen (by omega)
    obtain ⟨fuel, rfl⟩ := Nat.exists_eq_add_one_of_ne_zero (show fuel ≠ 0 by omega)
    obtain ⟨u, hu, hwraps, hret⟩ := ih (by rw [hsub, hblen]) fuel (by omega) (by omega)
    have hrun := @unpackLoop_skipped τ exec d (fuel + 1) off blen cid clen desc
      (ne_zero_of_le (by omega)) hcid hclen hfind
    rw [hu, ok_bind] at hrun
    exact ⟨_, hrun, Bool.or_eq_false_iff.mpr ⟨decide_eq_false (by omega), hwraps⟩, hret⟩
  | @taken desc rest cmd off left n refused cid clen calls hle hcid hclen hfind hexec _ ih =>
    have hlen := readU16_le hclen
    have hsub := @toNat_sub_block blen n (by omega)
    obtain ⟨fuel, rfl⟩ := Nat.exists_eq_add_one_of_ne_zero (show fuel ≠ 0 by omega)
    obtain ⟨u, hu, hwraps, hret⟩ := ih (by rw [hsub, hblen]) fuel (by omega) (by omega)
    have hrun := @unpackLoop_taken τ exec d (fuel + 1) off blen cid clen desc rest cmd n calls
      (ne_zero_of_le (by omega)) hcid hclen hfind hexec (Int.natCast_nonneg n)
    rw [Int.toNat_natCast, hu, ok_bind] at hrun
    exact ⟨_, hrun, Bool.or_eq_false_iff.mpr ⟨decide_eq_false (by omega), hwraps⟩, hret⟩
  | @refused desc rest cmd off left ret cid clen calls hle hcid hclen hfind hexec hret =>
    exact ⟨_, unpackLoop_refused (ne_zero_of_le (by omega)) hcid hclen hfind hexec hret,
      decide_eq_false (by omega), rfl⟩

/-! ## Messages that add up -/

/-- A message of whole blocks with known commands. -/
def WellFormed (d : List UInt8) : Prop :=
  ∃ (version type : UInt8) (blocks : List CmdBlock),
    (bodyBytes blocks).length < 2 ^ 16 ∧ d = messageBytes version type (bodyBytes blocks)

/-- The datagram is handled without a fault and without wrapping the counter, and rejected unless
it is well formed. -/
def Guarded (exec : Exec τ) (d : List UInt8) : Prop :=
  ∃ u, vlsctlUnpackCmd exec d = .ok u ∧ u.wraps = false ∧ (¬ WellFormed d → u.ret < 0)

theorem vlsctlUnpackCmd_short (h : d.length < 8) : vlsctlUnpackCmd exec d = .error .bounds := by
  rw [vlsctlUnpackCmd]
  rcases Nat.lt_or_ge d.length 4 with hlt | hge
  · rw [readU16_error (by omega), error_bind]
  · rw [readU16_ok (by omega), ok_bind, readU32_error (by omega), error_bind]

theorem vlsctlUnpackCmd_long (h : 8 ≤ d.length) :
    vlsctlUnpackCmd exec d =
      if getU32 (d.drop 4) ≠ VLSCTL_MAGIC then .ok ⟨-1, 8, false, [], []⟩
      else unpackLoop exec d (d.length + 1) lsctlCmds 8 (getU16 (d.drop 2)) := by
  rw [vlsctlUnpackCmd, readU16_ok (by omega), ok_bind, readU32_ok (by omega), ok_bind]

/-- A datagram of any bytes, with any handlers, is handled without a fault and without wrapping the
counter, and refused unless it is well formed, exactly when it has a head, and either its magic is
wrong or the loop walks over its body: to a handler that refuses, or to its end while the datagram
is well formed. -/
theorem guarded_iff :
    Guarded exec d ↔ 8 ≤ d.length ∧ (getU32 (d.drop 4) ≠ VLSCTL_MAGIC ∨
      ∃ refused, Walks exec d lsctlCmds 8 (getU16 (d.drop 2)).toNat refused ∧
        (refused = true ∨ WellFormed d)) := by
  constructor
  · intro ⟨u, hu, hwraps, hreject⟩
    have hlen : 8 ≤ d.length := by
      by_contra hshort
      rw [vlsctlUnpackCmd_short (by omega)] at hu
      cases hu
    refine ⟨hlen, ?_⟩
    by_cases hmagic : getU32 (d.drop 4) ≠ VLSCTL_MAGIC
    · exact Or.inl hmagic
    · rw [vlsctlUnpackCmd_long hlen, if_neg hmagic] at hu
      refine Or.inr ⟨_, walks_of_run hu hwraps, ?_⟩
      by_cases hwell : WellFormed d
      · exact Or.inr hwell
      · exact Or.inl (decide_eq_true (hreject hwell))
  · intro ⟨hlen, hcases⟩
    by_cases hmagic : getU32 (d.drop 4) ≠ VLSCTL_MAGIC
    · exact ⟨_, by rw [vlsctlUnpackCmd_long hlen, if_pos hmagic], rfl,
        fun _ => (by decide : (-1 : Int) < 0)⟩
    · obtain ⟨refused, hwalks, hgood⟩ := hcases.resolve_left hmagic
      obtain ⟨u, hu, hwraps, hret⟩ := run_of_walks hwalks rfl (Nat.zero_lt_succ _)
        (show d.length < 8 + (d.length + 1) by omega)
      refine ⟨u, by rw [vlsctlUnpackCmd_long hlen, if_neg hmagic, hu], hwraps, fun hbad => ?_⟩
      rw [hgood.resolve_right hbad] at hret
      exact of_decide_eq_true hret

/-- A head that announces two bytes which do not follow. -/
def truncatedMsg : List UInt8 := [VLSCTL_VERSION, 0] ++ (putU16 2 ++ putU32 VLSCTL_MAGIC)

/-- One block with an id that is not in the table. -/
def unknownMsg : List UInt8 := messageBytes VLSCTL_VERSION 0 (putU16 0x99 ++ putU16 0)

/-- The first message is read behind its end, the second accepted. -/
theorem truncated_not_guarded :
    ¬ Guarded (execCmd (fun _ => 0) truncatedMsg) truncatedMsg ∧
      vlsctlUnpackCmd (execCmd (fun _ => 0) unknownMsg) unknownMsg =
        .ok ⟨0, 12, false, [], []⟩ := by
  refine ⟨fun ⟨u, hu, _⟩ => ?_, by decide⟩
  have hrun : vlsctlUnpackCmd (execCmd (fun _ => 0) truncatedMsg) truncatedMsg =
      .error .bounds := by decide
  rw [hrun] at hu
  cases hu

end Vdht.Lsctl
