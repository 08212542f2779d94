import Vdht.Lsctl.Replies

/-!
# Which replies the client takes within bounds

The client looks at no length but the message's: a block of another command is never taken, so its
loop does not end, and the addresses of a block are stored as long as there are any. The replies
that are taken are those of whole blocks with at most `VSRVCINFO_MAX_ADDRS` addresses each.
-/

namespace Vdht.Lsctl

open Lib NodeId

/-! ## Any content is made of addresses -/

theorem exists_replyAddr {o : List UInt8} (h : o.length = 12) : ∃ a, ReplyAddr a o := by
  obtain ⟨x, o, rfl⟩ := List.exists_cons_of_length_pos (show 0 < o.length by omega)
  rw [List.length_cons] at h
  obtain ⟨f, o, rfl⟩ := List.exists_cons_of_length_pos (show 0 < o.length by omega)
  rw [List.length_cons] at h
  obtain ⟨port, hport⟩ := @exists_putU16 (o.take 2) (by rw [List.length_take]; omega)
  obtain ⟨saddr, hsaddr⟩ := @exists_putU32 ((o.drop 2).take 4)
    (by rw [List.length_take, List.length_drop]; omega)
  obtain ⟨type, htype⟩ := @exists_putU32 ((o.drop 2).drop 4)
    (by rw [List.length_drop, List.length_drop]; omega)
  refine ⟨⟨⟨f.toUInt16, port, saddr, Block.zero 8⟩, type⟩, x, f, rfl, rfl, ?_⟩
  simp only [hport, hsaddr, htype, List.take_append_drop, List.singleton_append]

theorem exists_replyAddrs (k : Nat) {bytes : List UInt8} (h : bytes.length = 12 * k) :
    ∃ addrs os, addrs.length = k ∧ List.Forall₂ ReplyAddr addrs os ∧ os.flatten = bytes := by
  induction k generalizing bytes with
  | zero => exact ⟨[], [], rfl, .nil, (List.length_eq_zero_iff.mp h).symm⟩
  | succ k ih =>
    obtain ⟨a, ha⟩ := @exists_replyAddr (bytes.take 12) (by rw [List.length_take]; omega)
    obtain ⟨addrs, os, hlen, hos, hflat⟩ := @ih (bytes.drop 12) (by rw [List.length_drop]; omega)
    refine ⟨a :: addrs, bytes.take 12 :: os, by rw [List.length_cons, hlen], .cons ha hos, ?_⟩
    rw [List.flatten_cons, hflat, List.take_append_drop]

theorem exists_replyContent {k : Nat} {out : List UInt8}
    (h : out.length = VSRVCHASH_LEN + 4 + 12 * k) :
    ∃ hash proto addrs, addrs.length = k ∧ ReplyContent hash proto addrs out := by
  have hhash : (out.take VSRVCHASH_LEN).length = VTOKEN_LEN := by
    rw [List.length_take, VSRVCHASH_LEN]
    rw [VSRVCHASH_LEN] at h
    omega
  obtain ⟨proto, hproto⟩ := @exists_putI32 ((out.drop VSRVCHASH_LEN).take 4)
    (by rw [List.length_take, List.length_drop]; omega)
  obtain ⟨addrs, os, hlen, hos, hflat⟩ :=
    @exists_replyAddrs k ((out.drop VSRVCHASH_LEN).drop 4)
      (by rw [List.length_drop, List.length_drop]; omega)
  refine ⟨⟨out.take VSRVCHASH_LEN, hhash⟩, proto, addrs, hlen, os, ?_, hos⟩
  rw [hproto, hflat, List.take_append_drop, List.take_append_drop]

/-! ## More rounds change nothing -/

section Fuel

variable {c : Vlsctlc} {d : List UInt8} {bsz csz cmdLen fuel : Nat}

theorem unpackContent_succ {r : Vlsctlc × Nat}
    (h : unpackContent d fuel c csz cmdLen = .ok r) :
    unpackContent d (fuel + 1) c csz cmdLen = .ok r := by
  induction fuel generalizing c csz cmdLen with
  | zero => cases h
  | succ fuel ih =>
    rw [unpackContent] at h ⊢
    split
    · rename_i hmore
      rw [if_pos hmore] at h
      obtain ⟨⟨c', ret⟩, hfirst, hrest⟩ := bind_ok.mp h
      rw [hfirst, ok_bind]
      exact ih hrest
    · rename_i hmore
      rwa [if_neg hmore] at h

theorem unpackReply_succ {r : Vlsctlc × Int} (h : unpackReply d bsz fuel c csz = .ok r) :
    unpackReply d bsz (fuel + 1) c csz = .ok r := by
  induction fuel generalizing c csz with
  | zero => cases h
  | succ fuel ih =>
    rw [unpackReply] at h ⊢
    split
    · rename_i hmore
      rw [if_pos hmore] at h
      obtain ⟨cmdId, hid, h⟩ := bind_ok.mp h
      obtain ⟨clen, hclen, h⟩ := bind_ok.mp h
      obtain ⟨⟨c', csz'⟩, hcontent, hrest⟩ := bind_ok.mp h
      rw [hid, ok_bind, hclen, ok_bind, unpackContent_succ hcontent, ok_bind]
      exact ih hrest
    · rename_i hmore
      rwa [if_neg hmore] at h

theorem unpackReply_add {r : Vlsctlc × Int} (h : unpackReply d bsz fuel c csz = .ok r) (n : Nat) :
    unpackReply d bsz (fuel + n) c csz = .ok r := by
  induction n with
  | zero => exact h
  | succ n ih => exact unpackReply_succ ih

/-- Content of a command that has no reply is never taken. -/
theorem unpackContent_stuck (hfind : c.boundCmd ≠ VlsctlCmd.findService.id)
    (hprobe : c.boundCmd ≠ VlsctlCmd.probeService.id) (hlen : 0 < cmdLen) :
    unpackContent d fuel c csz cmdLen = .error .fuel := by
  have hfirst : unpackFirst c d (8 + csz) cmdLen unpackCmdDesc = .ok (c, 0) := by
    rw [unpackCmdDesc, unpackFirst, unpackCmdFindServiceRsp,
      unpackServiceRsp_other (by omega) hfind, ok_bind]
    simp only [Nat.lt_irrefl, gt_iff_lt, if_false]
    rw [unpackFirst, unpackCmdProbeServiceRsp, unpackServiceRsp_other (by omega) hprobe, ok_bind]
    rfl
  induction fuel with
  | zero => rfl
  | succ fuel ih =>
    rw [unpackContent, if_pos hlen, hfirst, ok_bind]
    exact ih

/-- The loop itself rejects nothing. -/
theorem unpackReply_ret {c' : Vlsctlc} {ret : Int}
    (h : unpackReply d bsz fuel c csz = .ok (c', ret)) : ret = 0 := by
  induction fuel generalizing c csz with
  | zero => cases h
  | succ fuel ih =>
    rw [unpackReply] at h
    split at h
    · obtain ⟨cmdId, hid, h⟩ := bind_ok.mp h
      obtain ⟨clen, hclen, h⟩ := bind_ok.mp h
      obtain ⟨⟨c', csz'⟩, hcontent, hrest⟩ := bind_ok.mp h
      exact ih hrest
    · cases h
      rfl

end Fuel

/-! ## Whole blocks -/

/-- The block of a reply with `k` addresses. -/
def CmdBlock.Replies (b : CmdBlock) (k : Nat) : Prop :=
  b.cmd.Answered ∧ b.content.length = VSRVCHASH_LEN + 4 + 12 * k

section Blocks

variable {c : Vlsctlc} {d : List UInt8} {bsz csz fuel : Nat} {blocks : List CmdBlock}

theorem unpackReply_blocks (hblocks : ∀ b ∈ blocks, ∃ k ≤ VSRVCINFO_MAX_ADDRS, b.Replies k)
    (hd : HoldsAt d (8 + csz) (bodyBytes blocks)) (hbsz : bsz = csz + (bodyBytes blocks).length) :
    ∃ c', unpackReply d bsz (blocks.length + 2) c csz = .ok (c', 0) := by
  induction blocks generalizing c csz with
  | nil =>
    have hend : bsz = csz := by simpa [bodyBytes] using hbsz
    exact ⟨c, by rw [unpackReply, if_neg (by omega)]⟩
  | cons b blocks ih =>
    obtain ⟨k, hk, hcmd, hlen⟩ := hblocks b List.mem_cons_self
    obtain ⟨hash, proto, addrs, haddrs, hcontent⟩ := exists_replyContent hlen
    rw [bodyBytes_cons] at hd hbsz
    rw [List.length_append, CmdBlock.length_bytes] at hbsz
    obtain ⟨hfirst, hrest⟩ := holdsAt_append.mp hd
    rw [CmdBlock.length_bytes, Nat.add_assoc] at hrest
    obtain ⟨s, hs, -⟩ := @AddrSlots.fill_ok _ c.rspArgs.addrs 0 addrs (by omega)
    rw [List.length_cons, show blocks.length + 1 + 2 = blocks.length + 3 by omega,
      unpackReply_block hcmd hcontent hfirst (by omega), hs, ok_bind]
    exact ih (fun b hb => hblocks b (List.mem_cons_of_mem _ hb)) hrest (by omega)

theorem le_of_unpackReply {c' : Vlsctlc} {ret : Int} (hblocks : ∀ b ∈ blocks, ∃ k, b.Replies k)
    (hd : HoldsAt d (8 + csz) (bodyBytes blocks)) (hbsz : bsz = csz + (bodyBytes blocks).length)
    (h : unpackReply d bsz fuel c csz = .ok (c', ret)) :
    ∀ b ∈ blocks, ∃ k ≤ VSRVCINFO_MAX_ADDRS, b.Replies k := by
  induction blocks generalizing c csz fuel with
  | nil => exact fun b hb => absurd hb List.not_mem_nil
  | cons b blocks ih =>
    obtain ⟨k, hcmd, hlen⟩ := hblocks b List.mem_cons_self
    obtain ⟨hash, proto, addrs, haddrs, hcontent⟩ := exists_replyContent hlen
    rw [bodyBytes_cons] at hd hbsz
    rw [List.length_append, CmdBlock.length_bytes] at hbsz
    obtain ⟨hfirst, hrest⟩ := holdsAt_append.mp hd
    rw [CmdBlock.length_bytes, Nat.add_assoc] at hrest
    have hmore := unpackReply_add h 3
    rw [unpackReply_block hcmd hcontent hfirst (by omega)] at hmore
    obtain ⟨s, hs, hmore⟩ := bind_ok.mp hmore
    have hk : k ≤ VSRVCINFO_MAX_ADDRS := by
      by_contra hlarge
      rw [AddrSlots.fill_error (by omega) (Nat.zero_le _)] at hs
      cases hs
    have hothers := ih (fun b hb => hblocks b (List.mem_cons_of_mem _ hb)) hrest (by omega) hmore
    exact List.forall_mem_cons.mpr ⟨⟨k, hk, hcmd, hlen⟩, hothers⟩

end Blocks

/-- A reply of whole blocks, whose numbers of addresses are as `ok` says. -/
def ReplyOf (ok : Nat → Prop) (d : List UInt8) : Prop :=
  ∃ (version type : UInt8) (blocks : List CmdBlock),
    (bodyBytes blocks).length < 2 ^ 16 ∧ d = messageBytes version type (bodyBytes blocks) ∧
      ∀ b ∈ blocks, ∃ k, ok k ∧ b.Replies k

/-- A reply of whole blocks, with any numbers of addresses. -/
def WellFormedReply : List UInt8 → Prop := ReplyOf fun _ => True

/-- The buffer is unpacked to the end without a fault, and rejected unless it is well formed. -/
def Taken (c : Vlsctlc) (d : List UInt8) : Prop :=
  ∃ fuel c' ret, vlsctlcUnpackCmd fuel c d = .ok (c', ret) ∧ (¬ WellFormedReply d → ret < 0)

section Taken

variable {c : Vlsctlc} {d : List UInt8} {fuel : Nat}

theorem vlsctlcUnpackCmd_short (h : d.length < 8) :
    ∃ e, vlsctlcUnpackCmd fuel c d = .error e := by
  rw [vlsctlcUnpackCmd]
  by_cases hzero : d.length = 0
  · exact ⟨_, if_pos hzero⟩
  · rw [if_neg hzero]
    cases readU8 d 1 with
    | error e => exact ⟨e, rfl⟩
    | ok type =>
      rw [ok_bind]
      rcases Nat.lt_or_ge d.length 4 with hlt | hge
      · exact ⟨_, by rw [readU16_error (by omega), error_bind]⟩
      · exact ⟨_, by rw [readU16_ok (by omega), ok_bind, readU32_error (by omega), error_bind]⟩

theorem vlsctlcUnpackCmd_long (h : 8 ≤ d.length) :
    ∃ type : UInt16, vlsctlcUnpackCmd fuel c d =
      if getU32 (d.drop 4) ≠ VLSCTL_MAGIC then .ok ({ c with type := type }, -1)
      else unpackReply d (getU16 (d.drop 2)).toNat fuel { c with type := type } 0 := by
  obtain ⟨type, htype⟩ : ∃ type, readU8 d 1 = .ok type := by
    rw [readU8, readBytes_ok (by omega)]
    exact ⟨_, rfl⟩
  refine ⟨type.toUInt16, ?_⟩
  rw [vlsctlcUnpackCmd, if_neg (by omega), htype, ok_bind]
  simp only
  rw [readU16_ok (by omega), ok_bind, readU32_ok (by omega), ok_bind]

end Taken

/-- A block of a command that has no reply, with one byte of content. -/
def strayReply : List UInt8 :=
  messageBytes VLSCTL_VERSION 2 (bodyBytes [⟨.hostUp, [0], by decide⟩])

end Vdht.Lsctl
