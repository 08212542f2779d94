import Vdht.Lsctl.Daemon

/-!
# Which blocks of a message are dispatched

The cursor of the command table is never set back, so a command that stands before the last one
found is not found again, and after a block that was not found no later one is. For blocks whose
handlers consume what the block holds, the message is handled as written exactly when its commands
come in the order of the table.
-/

namespace Vdht.Lsctl

open Lib

variable {τ : Type} {exec : Exec τ} {d : List UInt8} {fuel tsz : Nat} {blen cid clen : UInt16}
  {desc rest : List VlsctlCmd} {cmd : VlsctlCmd} {ret : Int} {calls : List τ}

/-! ## One round -/

theorem unpackLoop_done : unpackLoop exec d (fuel + 1) desc tsz 0 = .ok ⟨0, tsz, false, [], []⟩ :=
  rfl

theorem unpackLoop_skipped (hblen : blen ≠ 0) (hcid : readU16 d tsz = .ok cid)
    (hclen : readU16 d (tsz + 2) = .ok clen) (hfind : findCmd desc cid = []) :
    unpackLoop exec d (fuel + 1) desc tsz blen =
      unpackLoop exec d fuel [] (tsz + 4) (blen - 2 - 2) >>= fun u =>
        .ok (u.after (blen.toNat < 4) [] []) := by
  rw [unpackLoop, if_neg hblen, hcid, ok_bind, hclen, ok_bind, hfind]

theorem unpackLoop_taken (hblen : blen ≠ 0) (hcid : readU16 d tsz = .ok cid)
    (hclen : readU16 d (tsz + 2) = .ok clen) (hfind : findCmd desc cid = cmd :: rest)
    (hexec : exec cmd (tsz + 4) clen = .ok (ret, calls)) (hret : 0 ≤ ret) :
    unpackLoop exec d (fuel + 1) desc tsz blen =
      unpackLoop exec d fuel (cmd :: rest) (tsz + 4 + ret.toNat)
          (blen - 2 - 2 - .ofNat ret.toNat) >>= fun u =>
        .ok (u.after (blen.toNat < 4 + ret.toNat) [(cmd, tsz + 4, clen)] calls) := by
  rw [unpackLoop, if_neg hblen, hcid, ok_bind, hclen, ok_bind, hfind]
  simp only [hexec, ok_bind, if_neg (Int.not_lt.mpr hret)]

theorem unpackLoop_refused (hblen : blen ≠ 0) (hcid : readU16 d tsz = .ok cid)
    (hclen : readU16 d (tsz + 2) = .ok clen) (hfind : findCmd desc cid = cmd :: rest)
    (hexec : exec cmd (tsz + 4) clen = .ok (ret, calls)) (hret : ret < 0) :
    unpackLoop exec d (fuel + 1) desc tsz blen =
      .ok ⟨-1, tsz + 4, blen.toNat < 4, [(cmd, tsz + 4, clen)], calls⟩ := by
  rw [unpackLoop, if_neg hblen, hcid, ok_bind, hclen, ok_bind, hfind]
  simp only [hexec, ok_bind, if_pos hret]

/-- What one round can do when the run does not fault. -/
theorem unpackLoop_cases {u : Unpacked τ} (h : unpackLoop exec d (fuel + 1) desc tsz blen = .ok u)
    (hblen : blen ≠ 0) :
    ∃ cid clen, readU16 d tsz = .ok cid ∧ readU16 d (tsz + 2) = .ok clen ∧
      ((findCmd desc cid = [] ∧
        ∃ u', unpackLoop exec d fuel [] (tsz + 4) (blen - 2 - 2) = .ok u' ∧
          u = u'.after (blen.toNat < 4) [] []) ∨
      ∃ cmd rest ret calls, findCmd desc cid = cmd :: rest ∧
        exec cmd (tsz + 4) clen = .ok (ret, calls) ∧
        ((ret < 0 ∧ u = ⟨-1, tsz + 4, blen.toNat < 4, [(cmd, tsz + 4, clen)], calls⟩) ∨
        (0 ≤ ret ∧ ∃ u', unpackLoop exec d fuel (cmd :: rest) (tsz + 4 + ret.toNat)
            (blen - 2 - 2 - .ofNat ret.toNat) = .ok u' ∧
          u = u'.after (blen.toNat < 4 + ret.toNat) [(cmd, tsz + 4, clen)] calls))) := by
  have hrun := h
  rw [unpackLoop, if_neg hblen] at h
  obtain ⟨cid, hcid, h⟩ := bind_ok.mp h
  obtain ⟨clen, hclen, h⟩ := bind_ok.mp h
  refine ⟨cid, clen, hcid, hclen, ?_⟩
  cases hfind : findCmd desc cid with
  | nil =>
    rw [unpackLoop_skipped hblen hcid hclen hfind] at hrun
    obtain ⟨u', hu', hu⟩ := bind_ok.mp hrun
    exact Or.inl ⟨rfl, u', hu', (Except.ok.inj hu).symm⟩
  | cons cmd rest =>
    rw [hfind] at h
    obtain ⟨⟨ret, calls⟩, hexec, h⟩ := bind_ok.mp h
    refine Or.inr ⟨cmd, rest, ret, calls, rfl, hexec, ?_⟩
    rcases Int.lt_or_le ret 0 with hret | hret
    · rw [unpackLoop_refused hblen hcid hclen hfind hexec hret] at hrun
      exact Or.inl ⟨hret, (Except.ok.inj hrun).symm⟩
    · rw [unpackLoop_taken hblen hcid hclen hfind hexec hret] at hrun
      obtain ⟨u', hu', hu⟩ := bind_ok.mp hrun
      exact Or.inr ⟨hret, u', hu', (Except.ok.inj hu).symm⟩

/-! ## The cursor -/

/-- The place of a command in the table. -/
def tableIndex (cmd : VlsctlCmd) : Nat := lsctlCmds.idxOf cmd

theorem mem_lsctlCmds (cmd : VlsctlCmd) : cmd ∈ lsctlCmds := by
  cases cmd <;> decide

theorem id_injective {cmd cmd' : VlsctlCmd} (h : cmd.id = cmd'.id) : cmd = cmd' := by
  revert h
  cases cmd <;> cases cmd' <;> decide

theorem findCmd_suffix (desc : List VlsctlCmd) (cid : UInt16) : findCmd desc cid <:+ desc :=
  List.dropWhile_suffix _

theorem findCmd_id (h : findCmd desc cid = cmd :: rest) : cmd.id = cid := by
  have hne : findCmd desc cid ≠ [] := by
    rw [h]
    exact List.cons_ne_nil _ _
  have hhead : decide (((findCmd desc cid).head hne).id ≠ cid) = false :=
    List.head_dropWhile_not _ hne
  simpa [h] using hhead

theorem findCmd_of_mem (h : cmd ∈ desc) : ∃ rest, findCmd desc cmd.id = cmd :: rest := by
  cases hfind : findCmd desc cmd.id with
  | nil =>
    have hnone := List.dropWhile_eq_nil_iff.mp hfind cmd h
    simp at hnone
  | cons c rest => exact ⟨rest, by rw [id_injective (findCmd_id hfind)]⟩

theorem idxOf_append_cons {α : Type} [DecidableEq α] {pre post : List α} {a : α}
    (h : (pre ++ a :: post).Nodup) : (pre ++ a :: post).idxOf a = pre.length := by
  have hnot : a ∉ pre := fun hmem =>
    (List.nodup_append.mp h).2.2 a hmem a List.mem_cons_self rfl
  rw [List.idxOf_append_of_notMem hnot, List.idxOf_cons_self, Nat.add_zero]

/-- What stands behind the cursor has no smaller place. -/
theorem tableIndex_le_of_mem (hdesc : cmd :: rest <:+ lsctlCmds) {c : VlsctlCmd}
    (hc : c ∈ cmd :: rest) : tableIndex cmd ≤ tableIndex c := by
  obtain ⟨pre, hpre⟩ := hdesc
  obtain ⟨mid, post, hmid⟩ := List.append_of_mem hc
  have hnodup : lsctlCmds.Nodup := by decide
  rw [tableIndex, tableIndex, ← hpre, idxOf_append_cons (by rw [hpre]; exact hnodup), hmid,
    ← List.append_assoc, idxOf_append_cons (by rw [List.append_assoc, ← hmid, hpre]; exact hnodup),
    List.length_append]
  exact Nat.le_add_right _ _

theorem mem_of_tableIndex_le (hdesc : cmd :: rest <:+ lsctlCmds) {c : VlsctlCmd}
    (hc : tableIndex cmd ≤ tableIndex c) : c ∈ cmd :: rest := by
  obtain ⟨pre, hpre⟩ := hdesc
  have hnodup : lsctlCmds.Nodup := by decide
  by_contra hnot
  have hmem : c ∈ pre := by
    have hall := mem_lsctlCmds c
    rw [← hpre] at hall
    exact (List.mem_append.mp hall).resolve_right hnot
  have hlt := List.idxOf_lt_length_of_mem hmem
  rw [tableIndex, tableIndex, ← hpre, idxOf_append_cons (by rw [hpre]; exact hnodup),
    List.idxOf_append_of_mem hmem] at hc
  omega

/-- In every run the commands that are dispatched come in the order of the table. -/
theorem dispatched_sorted {u : Unpacked τ} (hdesc : desc <:+ lsctlCmds)
    (h : unpackLoop exec d fuel desc tsz blen = .ok u) :
    (u.dispatched.map fun b => tableIndex b.1).Pairwise (· ≤ ·) ∧
      ∀ b ∈ u.dispatched, b.1 ∈ desc := by
  induction fuel generalizing desc tsz blen u with
  | zero => cases h
  | succ fuel ih =>
    by_cases hblen : blen = 0
    · subst hblen
      cases h
      exact ⟨.nil, fun b hb => absurd hb List.not_mem_nil⟩
    · obtain ⟨cid, clen, hcid, hclen, hround⟩ := unpackLoop_cases h hblen
      obtain ⟨hfind, u', hu', rfl⟩ | ⟨cmd, rest, ret, calls, hfind, hexec, hround⟩ := hround
      · obtain ⟨hsorted, hmem⟩ := ih List.nil_suffix hu'
        exact ⟨hsorted, fun b hb => absurd (hmem b hb) List.not_mem_nil⟩
      · have hsub : cmd :: rest <:+ desc := by
          rw [← hfind]
          exact findCmd_suffix desc cid
        obtain ⟨hret, rfl⟩ | ⟨hret, u', hu', rfl⟩ := hround
        · refine ⟨List.pairwise_singleton _ _, fun b hb => ?_⟩
          rw [List.mem_singleton.mp hb]
          exact hsub.subset List.mem_cons_self
        · obtain ⟨hsorted, hmem⟩ := ih (hsub.trans hdesc) hu'
          refine ⟨List.pairwise_cons.mpr ⟨fun n hn => ?_, hsorted⟩, fun b hb => ?_⟩
          · obtain ⟨b, hb, rfl⟩ := List.mem_map.mp hn
            exact tableIndex_le_of_mem (hsub.trans hdesc) (hmem b hb)
          · obtain rfl | hb := List.mem_cons.mp hb
            · exact hsub.subset List.mem_cons_self
            · exact hsub.subset (hmem b hb)

/-! ## Messages of whole blocks -/

/-- A block of a message: a command and its content. -/
structure CmdBlock where
  cmd : VlsctlCmd
  content : List UInt8
  /-- the length fits its field -/
  fits : content.length < 2 ^ 16

/-- The length of the content, as it stands in its field. -/
def CmdBlock.len (b : CmdBlock) : UInt16 := .ofNat b.content.length

/-- The block in a message: the number of the command, the length of the content, the content. -/
def CmdBlock.bytes (b : CmdBlock) : List UInt8 :=
  putU16 b.cmd.id ++ (putU16 b.len ++ b.content)

/-- The blocks of a message, one behind the other. -/
def bodyBytes (blocks : List CmdBlock) : List UInt8 := blocks.flatMap CmdBlock.bytes

/-- A message with the right magic and the length of its body. -/
def messageBytes (version type : UInt8) (body : List UInt8) : List UInt8 :=
  [version, type] ++ (putU16 (.ofNat body.length) ++ (putU32 VLSCTL_MAGIC ++ body))

/-- What a message of these blocks asks for, with the contents starting behind `off`. -/
def expected : Nat → List CmdBlock → List (VlsctlCmd × Nat × UInt16)
  | _, [] => []
  | off, b :: blocks =>
    (b.cmd, off + 4, b.len) :: expected (off + 4 + b.content.length) blocks

/-- Each handler consumes its block and makes the calls given for it. -/
inductive Consumes (exec : Exec τ) : Nat → List CmdBlock → List τ → Prop where
  | nil {off : Nat} : Consumes exec off [] []
  | cons {off : Nat} {b : CmdBlock} {blocks : List CmdBlock} {calls calls' : List τ} :
    exec b.cmd (off + 4) b.len = .ok (b.content.length, calls) →
    Consumes exec (off + 4 + b.content.length) blocks calls' →
    Consumes exec off (b :: blocks) (calls ++ calls')

@[simp] theorem CmdBlock.length_bytes (b : CmdBlock) : b.bytes.length = 4 + b.content.length := by
  simp only [CmdBlock.bytes, List.length_append, length_putU16]
  omega

theorem bodyBytes_cons (b : CmdBlock) (blocks : List CmdBlock) :
    bodyBytes (b :: blocks) = b.bytes ++ bodyBytes blocks := rfl

theorem toNat_sub_block {n : Nat} (h : 4 + n ≤ blen.toNat) :
    (blen - 2 - 2 - UInt16.ofNat n).toNat = blen.toNat - (4 + n) := by
  have hlt := blen.toNat_lt
  have h2 : (2 : UInt16).toNat = 2 := rfl
  have hofNat : (UInt16.ofNat n).toNat = n := by
    rw [UInt16.toNat_ofNat']
    omega
  simp only [UInt16.toNat_sub, h2, hofNat]
  omega

theorem toNat_len (b : CmdBlock) : b.len.toNat = b.content.length := by
  rw [CmdBlock.len, UInt16.toNat_ofNat']
  exact Nat.mod_eq_of_lt b.fits

/-- Blocks that lie in the object in the order of the table are all dispatched. -/
theorem unpackLoop_blocks {blocks : List CmdBlock} (hdesc : desc <:+ lsctlCmds)
    (hmem : ∀ b ∈ blocks, b.cmd ∈ desc)
    (hsorted : blocks.Pairwise fun b b' => tableIndex b.cmd ≤ tableIndex b'.cmd)
    (hbody : HoldsAt d tsz (bodyBytes blocks)) (hblen : blen.toNat = (bodyBytes blocks).length)
    (hcalls : Consumes exec tsz blocks calls) (hfuel : blocks.length < fuel) :
    unpackLoop exec d fuel desc tsz blen =
      .ok ⟨0, tsz + (bodyBytes blocks).length, false, expected tsz blocks, calls⟩ := by
  induction hcalls generalizing desc blen fuel with
  | nil =>
    obtain ⟨fuel, rfl⟩ := Nat.exists_eq_add_one_of_ne_zero (Nat.ne_of_gt hfuel)
    have hzero : blen = 0 := UInt16.toNat_inj.mp hblen
    rw [hzero, unpackLoop_done]
    rfl
  | @cons off b blocks calls calls' hexec hrest ih =>
    obtain ⟨fuel, rfl⟩ := Nat.exists_eq_add_one_of_ne_zero (Nat.ne_of_gt (Nat.zero_lt_of_lt hfuel))
    rw [bodyBytes_cons] at hbody hblen
    obtain ⟨hblock, hbodies⟩ := holdsAt_append.mp hbody
    obtain ⟨hid, hblock⟩ := holdsAt_append.mp hblock
    obtain ⟨hlen, -⟩ := holdsAt_append.mp hblock
    rw [length_putU16] at hlen
    rw [CmdBlock.length_bytes, ← Nat.add_assoc] at hbodies
    rw [List.length_append, CmdBlock.length_bytes] at hblen
    obtain ⟨rest, hfind⟩ := findCmd_of_mem (hmem b List.mem_cons_self)
    have hsub : b.cmd :: rest <:+ lsctlCmds := by
      rw [← hfind]
      exact (findCmd_suffix desc b.cmd.id).trans hdesc
    obtain ⟨hfirst, hsorted⟩ := List.pairwise_cons.mp hsorted
    have hnz : blen ≠ 0 := by
      intro hzero
      have hlt : blen.toNat = 0 := by
        rw [hzero]
        rfl
      omega
    have hleft := @toNat_sub_block blen b.content.length (by omega)
    rw [unpackLoop_taken hnz (readU16_at hid) (readU16_at hlen) hfind hexec (Int.natCast_nonneg _),
      Int.toNat_natCast,
      ih hsub (fun b' hb' => mem_of_tableIndex_le hsub (hfirst b' hb')) hsorted hbodies
        (by rw [hleft]; omega) (by simpa using hfuel), ok_bind]
    simp only [Unpacked.after, expected, bodyBytes_cons, List.length_append, CmdBlock.length_bytes,
      Bool.or_false, List.singleton_append]
    rw [decide_eq_false (by omega)]
    congr 2
    omega

theorem messageBytes_holds (version type : UInt8) (body : List UInt8) :
    HoldsAt (messageBytes version type body) 2 (putU16 (.ofNat body.length)) ∧
      HoldsAt (messageBytes version type body) 4 (putU32 VLSCTL_MAGIC) ∧
      HoldsAt (messageBytes version type body) 8 body := by
  have hall : HoldsAt (messageBytes version type body) 0 (messageBytes version type body) :=
    ⟨Nat.zero_le _, List.prefix_rfl⟩
  obtain ⟨-, hrest⟩ := holdsAt_append.mp hall
  obtain ⟨hlen, hrest⟩ := holdsAt_append.mp hrest
  obtain ⟨hmagic, hbody⟩ := holdsAt_append.mp hrest
  exact ⟨hlen, hmagic, hbody⟩

theorem length_messageBytes (version type : UInt8) (body : List UInt8) :
    (messageBytes version type body).length = 8 + body.length := by
  simp only [messageBytes, List.length_append, length_putU16, length_putU32, List.length_cons,
    List.length_nil]
  omega

theorem vlsctlUnpackCmd_message (version type : UInt8) (body : List UInt8) :
    vlsctlUnpackCmd exec (messageBytes version type body) =
      unpackLoop exec (messageBytes version type body) (8 + body.length + 1) lsctlCmds 8
        (.ofNat body.length) := by
  obtain ⟨hlen, hmagic, -⟩ := messageBytes_holds version type body
  rw [vlsctlUnpackCmd, readU16_at hlen, ok_bind, readU32_at hmagic, ok_bind,
    if_neg (not_not.mpr rfl), length_messageBytes]

theorem length_blocks_le (blocks : List CmdBlock) : blocks.length ≤ (bodyBytes blocks).length := by
  induction blocks with
  | nil => exact Nat.le_refl 0
  | cons b blocks ih =>
    rw [bodyBytes_cons, List.length_append, CmdBlock.length_bytes, List.length_cons]
    omega

theorem vlsctlUnpackCmd_blocks {version type : UInt8} {blocks : List CmdBlock}
    (hsize : (bodyBytes blocks).length < 2 ^ 16) (hcalls : Consumes exec 8 blocks calls)
    (hsorted : blocks.Pairwise fun b b' => tableIndex b.cmd ≤ tableIndex b'.cmd) :
    vlsctlUnpackCmd exec (messageBytes version type (bodyBytes blocks)) =
      .ok ⟨0, 8 + (bodyBytes blocks).length, false, expected 8 blocks, calls⟩ := by
  have hle := length_blocks_le blocks
  have hblen : (UInt16.ofNat (bodyBytes blocks).length).toNat = (bodyBytes blocks).length := by
    rw [UInt16.toNat_ofNat']
    exact Nat.mod_eq_of_lt hsize
  rw [vlsctlUnpackCmd_message]
  exact unpackLoop_blocks List.suffix_rfl (fun b _ => mem_lsctlCmds b.cmd) hsorted
    (messageBytes_holds version type _).2.2 hblen hcalls (by omega)

theorem expected_cmds (off : Nat) (blocks : List CmdBlock) :
    (expected off blocks).map (fun b => tableIndex b.1) =
      blocks.map fun b => tableIndex b.cmd := by
  induction blocks generalizing off with
  | nil => rfl
  | cons b blocks ih => rw [expected, List.map_cons, ih, List.map_cons]

/-- A message of any blocks that fits a length of 16 bits and whose handlers use up their blocks.
All blocks are dispatched, in the order in which they are written and with nothing left, exactly
when their commands come in the order of the table of commands. -/
theorem dispatches_iff_sorted {version type : UInt8} {blocks : List CmdBlock}
    (hsize : (bodyBytes blocks).length < 2 ^ 16) (hcalls : Consumes exec 8 blocks calls) :
    (∃ u, vlsctlUnpackCmd exec (messageBytes version type (bodyBytes blocks)) = .ok u ∧
        u.ret = 0 ∧ u.dispatched = expected 8 blocks ∧
        u.tsz = (messageBytes version type (bodyBytes blocks)).length) ↔
      blocks.Pairwise fun b b' => tableIndex b.cmd ≤ tableIndex b'.cmd := by
  constructor
  · intro ⟨u, hu, _, hdispatched, _⟩
    rw [vlsctlUnpackCmd_message] at hu
    have hsorted := (dispatched_sorted List.suffix_rfl hu).1
    rw [hdispatched, expected_cmds] at hsorted
    exact List.pairwise_map.mp hsorted
  · intro hsorted
    exact ⟨_, vlsctlUnpackCmd_blocks hsize hcalls hsorted, rfl, rfl,
      (length_messageBytes _ _ _).symm⟩

/-- The command to start the host, which has no content. -/
def hostUpBlock : CmdBlock := ⟨.hostUp, [], by decide⟩

/-- The command to stop the host, which has no content. -/
def hostDownBlock : CmdBlock := ⟨.hostDown, [], by decide⟩

/-- A message with two commands in the order of the table. -/
def upDown : List UInt8 := messageBytes VLSCTL_VERSION 0 (bodyBytes [hostUpBlock, hostDownBlock])

/-- A message with the same two commands, not in the order of the table. -/
def downUp : List UInt8 := messageBytes VLSCTL_VERSION 0 (bodyBytes [hostDownBlock, hostUpBlock])

theorem upDown_dispatched :
    ∃ u, vlsctlUnpackCmd (execCmd (fun _ => 0) upDown) upDown = .ok u ∧ u.ret = 0 ∧
      u.dispatched = expected 8 [hostUpBlock, hostDownBlock] ∧ u.tsz = upDown.length :=
  (dispatches_iff_sorted (by decide) (.cons rfl (.cons rfl .nil))).mpr (by decide)

/-- The same two blocks the other way round: the second is passed over. -/
theorem downUp_not_dispatched :
    Consumes (execCmd (fun _ => 0) downUp) 8 [hostDownBlock, hostUpBlock]
        ([.stopHost] ++ ([.startHost] ++ [])) ∧
      ¬ ∃ u, vlsctlUnpackCmd (execCmd (fun _ => 0) downUp) downUp = .ok u ∧
        u.dispatched = expected 8 [hostDownBlock, hostUpBlock] := by
  refine ⟨.cons rfl (.cons rfl .nil), fun ⟨u, hu, hdispatched⟩ => ?_⟩
  have hrun : vlsctlUnpackCmd (execCmd (fun _ => 0) downUp) downUp =
      .ok ⟨0, 16, false, [(.hostDown, 12, 0)], [.stopHost]⟩ := by decide
  rw [hrun] at hu
  cases hu
  revert hdispatched
  decide

end Vdht.Lsctl
