import Vdht.Lsctl.Client
import Vdht.Lsctl.Dispatch

/-!
# Replies from the daemon to the client

Both sides write the content of a reply as the hash, the protocol and twelve bytes for each
address. Reading such a content is storing its addresses one behind the other, which `fill` does
or refuses; a reply of one block is handed out as it was packed.
-/

namespace Vdht.Lsctl

open Lib NodeId

/-- The first byte is not looked at, and the family has one byte. -/
def ReplyAddr (a : VsockaddrIn) (out : List UInt8) : Prop :=
  ∃ (x f : UInt8), a.addr.sin_family = f.toUInt16 ∧ a.addr.sin_zero = Block.zero 8 ∧
    out = [x] ++ ([f] ++ (putU16 a.addr.sin_port ++ (putU32 a.addr.sin_addr ++ putU32 a.type)))

/-- What a reply has in its block: hash, protocol and the addresses, one behind the other. -/
def ReplyContent (hash : Token) (proto : Int32) (addrs : List VsockaddrIn) (out : List UInt8) :
    Prop :=
  ∃ os, out = hash.data ++ (putI32 proto ++ os.flatten) ∧ List.Forall₂ ReplyAddr addrs os

theorem ReplyAddr.length {a : VsockaddrIn} {out : List UInt8} (h : ReplyAddr a out) :
    out.length = 12 := by
  obtain ⟨x, f, -, -, rfl⟩ := h
  simp only [List.length_append, List.length_singleton, length_putU16, length_putU32]

theorem ReplyContent.length {hash : Token} {proto : Int32} {addrs : List VsockaddrIn}
    {out : List UInt8} (h : ReplyContent hash proto addrs out) :
    out.length = VSRVCHASH_LEN + 4 + 12 * addrs.length := by
  obtain ⟨os, rfl, hos⟩ := h
  have hflat := length_flatten_shapes hos fun a _ o ho => ho.length
  rw [List.length_append, List.length_append, hash.size, length_putI32, hflat, VSRVCHASH_LEN,
    Nat.add_assoc]

section Reading

variable {c : Vlsctlc} {d : List UInt8} {off len csz bsz fuel : Nat} {hash : Token} {proto : Int32}
  {addrs : List VsockaddrIn} {cmd : VlsctlCmd}

theorem unpackVaddr_reply {a : VsockaddrIn} {out : List UInt8} (hout : ReplyAddr a out)
    (hd : HoldsAt d off out) (hlen : 0 < len) : auxVlsctlcUnpackVaddr d off len = .ok a := by
  obtain ⟨⟨family, port, saddr, zero⟩, type⟩ := a
  obtain ⟨x, f, hf, hzero, rfl⟩ := hout
  obtain ⟨-, hd⟩ := holdsAt_append.mp hd
  rw [List.length_singleton] at hd
  obtain ⟨hfamily, hd⟩ := holdsAt_append.mp hd
  rw [List.length_singleton, Nat.add_assoc] at hd
  obtain ⟨hport, hd⟩ := holdsAt_append.mp hd
  rw [length_putU16, Nat.add_assoc] at hd
  obtain ⟨haddr, htype⟩ := holdsAt_append.mp hd
  rw [length_putU32, Nat.add_assoc] at htype
  rw [auxVlsctlcUnpackVaddr, if_neg (by omega), readU8_at hfamily, ok_bind, readU16_at hport,
    ok_bind, readU32_at haddr, ok_bind, readU32_at htype, ok_bind]
  simp only at hf hzero
  rw [hf, hzero]

/-- Reading packed addresses is storing them. -/
theorem unpackVaddrs_eq {os : List (List UInt8)} (hos : List.Forall₂ ReplyAddr addrs os)
    {tsz i : Nat} {s : AddrSlots VsockaddrIn} (hd : HoldsAt d (off + tsz) os.flatten)
    (hlen : len = tsz + os.flatten.length) (hfuel : addrs.length < fuel) :
    unpackVaddrs d off len fuel tsz i s =
      (s.fill i addrs).map fun s => (len, i + addrs.length, s) := by
  induction hos generalizing fuel tsz i s with
  | nil =>
    obtain ⟨fuel, rfl⟩ := Nat.exists_eq_add_one_of_ne_zero (Nat.ne_of_gt hfuel)
    have hend : len = tsz := by simpa using hlen
    rw [unpackVaddrs, if_neg (by omega), hend]
    rfl
  | @cons a o addrs os ho _ ih =>
    obtain ⟨fuel, rfl⟩ := Nat.exists_eq_add_one_of_ne_zero (Nat.ne_of_gt (Nat.zero_lt_of_lt hfuel))
    rw [List.flatten_cons] at hd hlen
    rw [List.length_append, ho.length] at hlen
    obtain ⟨hfirst, hrest⟩ := holdsAt_append.mp hd
    rw [ho.length, Nat.add_assoc] at hrest
    rw [unpackVaddrs, if_pos (by omega), unpackVaddr_reply ho hfirst (by omega), ok_bind,
      AddrSlots.fill]
    cases s.set i a with
    | error e => rfl
    | ok s =>
      rw [ok_bind, ok_bind, ih hrest (by omega) (by simpa using hfuel), List.length_cons,
        Nat.add_assoc, Nat.add_comm 1]

theorem unpackServiceRsp_eq {out : List UInt8} (hbound : c.boundCmd = cmd.id)
    (hout : ReplyContent hash proto addrs out) (hd : HoldsAt d off out) :
    unpackServiceRsp cmd c d off out.length = (c.rspArgs.addrs.fill 0 addrs).map fun s =>
      ({ c with rspArgs := ⟨addrs.length, hash, proto, s⟩ }, out.length) := by
  have hlen := hout.length
  obtain ⟨os, rfl, hos⟩ := hout
  have hflat := length_flatten_shapes hos fun a _ o ho => ho.length
  obtain ⟨hhash, hd⟩ := holdsAt_append.mp hd
  rw [hash.size, ← VSRVCHASH_LEN] at hd
  obtain ⟨hproto, hd⟩ := holdsAt_append.mp hd
  rw [length_putI32, Nat.add_assoc] at hd
  rw [unpackServiceRsp, if_neg (by omega), if_neg (not_not.mpr hbound), readHash_at hhash, ok_bind,
    readI32_at hproto, ok_bind, unpackVaddrs_eq hos hd (by omega) (by omega), Nat.zero_add]
  cases c.rspArgs.addrs.fill 0 addrs with
  | error e => rfl
  | ok s => rfl

theorem unpackServiceRsp_other (hlen : len ≠ 0) (hbound : c.boundCmd ≠ cmd.id) :
    unpackServiceRsp cmd c d off len = .ok (c, 0) := by
  rw [unpackServiceRsp, if_neg hlen, if_pos hbound]

/-- Whether a command has a reply. -/
def VlsctlCmd.Answered (cmd : VlsctlCmd) : Prop := cmd = .findService ∨ cmd = .probeService

theorem unpackFirst_eq {out : List UInt8} (hcmd : cmd.Answered) (hbound : c.boundCmd = cmd.id)
    (hout : ReplyContent hash proto addrs out) (hd : HoldsAt d off out) :
    unpackFirst c d off out.length unpackCmdDesc = (c.rspArgs.addrs.fill 0 addrs).map fun s =>
      ({ c with rspArgs := ⟨addrs.length, hash, proto, s⟩ }, out.length) := by
  have hlen := hout.length
  have hpos : out.length > 0 := by omega
  have heq := unpackServiceRsp_eq hbound hout hd
  obtain rfl | rfl := hcmd
  · rw [unpackCmdDesc, unpackFirst, unpackCmdFindServiceRsp, heq]
    cases c.rspArgs.addrs.fill 0 addrs with
    | error e => rfl
    | ok s => exact if_pos hpos
  · have hother : unpackServiceRsp .findService c d off out.length = .ok (c, 0) :=
      unpackServiceRsp_other (by omega) (by rw [hbound]; decide)
    rw [unpackCmdDesc, unpackFirst, unpackCmdFindServiceRsp, hother, ok_bind]
    simp only [Nat.lt_irrefl, gt_iff_lt, if_false]
    rw [unpackFirst, unpackCmdProbeServiceRsp, heq]
    cases c.rspArgs.addrs.fill 0 addrs with
    | error e => rfl
    | ok s => exact if_pos hpos

/-- One round of the outer loop over a whole block. -/
theorem unpackReply_block {b : CmdBlock} (hcmd : b.cmd.Answered)
    (hout : ReplyContent hash proto addrs b.content) (hd : HoldsAt d (8 + csz) b.bytes)
    (hmore : csz < bsz) :
    unpackReply d bsz (fuel + 3) c csz = c.rspArgs.addrs.fill 0 addrs >>= fun s =>
      unpackReply d bsz (fuel + 2)
        { c with boundCmd := b.cmd.id, rspArgs := ⟨addrs.length, hash, proto, s⟩ }
        (csz + (4 + b.content.length)) := by
  have hlen := hout.length
  obtain ⟨hid, hd⟩ := holdsAt_append.mp hd
  obtain ⟨hclen, hd⟩ := holdsAt_append.mp hd
  rw [length_putU16] at hclen hd
  rw [length_putU16, show 8 + csz + 2 + 2 = 8 + (csz + 4) by omega] at hd
  have hfirst := @unpackFirst_eq { c with boundCmd := b.cmd.id } _ _ _ _ _ b.cmd _ hcmd rfl hout hd
  rw [unpackReply, if_pos (by omega), readU16_at hid, ok_bind, readU16_at hclen, ok_bind, toNat_len,
    unpackContent, if_pos (by omega), hfirst]
  cases c.rspArgs.addrs.fill 0 addrs with
  | error e => rfl
  | ok s =>
    simp only [Except.map, ok_bind, Nat.sub_self]
    rw [unpackContent, if_neg (Nat.lt_irrefl 0), ok_bind, Nat.add_assoc]

end Reading

/-! ## What the daemon packs -/

section Packing

variable {cmd : VlsctlCmd} {args : ServiceRspArgs} {hash : Token} {proto : Int32}
  {addrs : List VsockaddrIn}

/-- The callbacks store the addresses one behind the other. -/
theorem iterateAddrs_eq :
    iterateAddrs args addrs = (args.addrs.fill args.index addrs).map fun s =>
      { args with addrs := s, index := args.index + addrs.length } := by
  induction addrs generalizing args with
  | nil => rfl
  | cons a addrs ih =>
    rw [iterateAddrs, auxVlsctlIterateAddrCb, AddrSlots.fill]
    cases args.addrs.set args.index a with
    | error e => rfl
    | ok s =>
      simp only [ok_bind]
      rw [ih, List.length_cons, Nat.add_assoc, Nat.add_comm 1]

/-- An address as it comes out of a reply. -/
def replied (a : VsockaddrIn) : VsockaddrIn := ⟨received a.addr, a.type⟩

theorem packRspVaddr_packs (a : VsockaddrIn) :
    Packs (auxVlsctlPackVaddr a) 12 fun out =>
      a.addr.sin_family < 256 → ReplyAddr (replied a) out := by
  have hseq := ((packs_put [0]).seq ((packs_put [a.addr.sin_family.toUInt8]).seq
    ((packs_put (putU16 a.addr.sin_port)).seq ((packs_put (putU32 a.addr.sin_addr)).seq
      (packs_put (putU32 a.type)))))).assertRoom
  apply hseq.imp
  intro out _ hout hfamily
  obtain ⟨_, _, rfl, rfl, _, _, rfl, rfl, _, _, rfl, rfl, _, _, rfl, rfl, rfl⟩ := hout
  refine ⟨0, a.addr.sin_family.toUInt8, ?_, rfl, rfl⟩
  apply UInt16.toNat_inj.mp
  have hlt : a.addr.sin_family.toNat < 256 := UInt16.lt_iff_toNat_lt.mp hfamily
  show a.addr.sin_family.toNat = a.addr.sin_family.toUInt8.toUInt16.toNat
  rw [UInt8.toNat_toUInt16, UInt16.toNat_toUInt8]
  omega

theorem forall₂_replied {os : List (List UInt8)}
    (h : List.Forall₂ (fun (a : VsockaddrIn) out =>
      a.addr.sin_family < 256 → ReplyAddr (replied a) out) addrs os)
    (hfamily : ∀ a ∈ addrs, a.addr.sin_family < 256) :
    List.Forall₂ ReplyAddr (addrs.map replied) os := by
  induction h with
  | nil => exact .nil
  | @cons a o addrs os ho _ ih =>
    exact .cons (ho (hfamily a List.mem_cons_self))
      (ih fun a ha => hfamily a (List.mem_cons_of_mem _ ha))

theorem packServiceRsp_packs (htake : args.addrs.slots.take addrs.length = addrs)
    (htotal : args.total = addrs.length) (hfamily : ∀ a ∈ addrs, a.addr.sin_family < 256) :
    Packs (packServiceRsp cmd args) (4 + (20 + (4 + 12 * addrs.length))) fun out =>
      ∃ o, out = putU16 cmd.id ++ (putU16 (.ofNat (20 + (4 + 12 * addrs.length))) ++ o) ∧
        o.length = 20 + (4 + 12 * addrs.length) ∧
        ReplyContent args.hash args.proto (addrs.map replied) o := by
  have hslots := @packSlots_packs _ _ _ _ packRspVaddr_packs args.addrs 0 addrs htake
  have hcontent := (packs_put args.hash.data).seq ((packs_put (putI32 args.proto)).seq hslots)
  rw [args.hash.size, length_putI32, ← htotal] at hcontent
  rw [← htotal]
  apply ((@packBlock_packs _ _ _ cmd.id hcontent).assertRoom).imp
  intro out _ hout
  obtain ⟨_, rfl, hlen, _, _, rfl, rfl, _, _, rfl, rfl, os, hos, rfl⟩ := hout
  exact ⟨_, rfl, hlen, os, rfl, forall₂_replied hos hfamily⟩

/-- What the daemon packs of an answered query. -/
theorem vlsctlPackCmd_ok (hcmd : cmd.Answered) (hmax : addrs.length ≤ VSRVCINFO_MAX_ADDRS)
    (hfamily : ∀ a ∈ addrs, a.addr.sin_family < 256) {buf : List UInt8}
    (hbuf : buf.length = BUF_SZ) :
    ∃ rsp, answer cmd hash proto addrs = .ok rsp ∧ ∃ b : CmdBlock, b.cmd = cmd ∧
      vlsctlPackCmd rsp buf =
        .ok (some (messageBytes VLSCTL_VERSION vlsctlRspSucc.toUInt8 b.bytes)) ∧
      ReplyContent hash proto (addrs.map replied) b.content := by
  have hsz : BUF_SZ = 1024 := rfl
  have htwelve : VSRVCINFO_MAX_ADDRS = 12 := rfl
  obtain ⟨s, hs, htake⟩ := @AddrSlots.fill_ok _ (.replicate zeroAddr) 0 addrs (by omega)
  rw [Nat.zero_add, List.take_zero, List.nil_append] at htake
  let args : ServiceRspArgs := ⟨addrs.length, hash, proto, addrs.length, s⟩
  have hanswer : answer cmd hash proto addrs = .ok ⟨cmd, args⟩ := by
    simp only [answer, iterateAddrs_eq, rspArgsInit, auxVlsctlNumberAddrCb, hs, Except.map,
      ok_bind, Nat.zero_add, args]
  refine ⟨_, hanswer, ?_⟩
  have hpacks : Packs (packServiceRsp cmd args) _ _ := packServiceRsp_packs htake rfl hfamily
  obtain ⟨b', out, hb', hemits, -, o, rfl, holen, o', rfl, hlen, hcontent⟩ :=
    (@packMessage_packs _ _ _ vlsctlRspSucc.toUInt8 hpacks).assertRoom ⟨[], buf⟩
      (by simp only; omega)
  have hfits : o'.length < 2 ^ 16 := by omega
  have hbytes : (⟨cmd, o', hfits⟩ : CmdBlock).bytes =
      putU16 cmd.id ++ (putU16 (.ofNat (20 + (4 + 12 * addrs.length))) ++ o') := by
    rw [CmdBlock.bytes, CmdBlock.len, hlen]
  refine ⟨⟨cmd, o', hfits⟩, rfl, ?_, hcontent⟩
  have hmsg : b'.done = messageBytes VLSCTL_VERSION vlsctlRspSucc.toUInt8
      (⟨cmd, o', hfits⟩ : CmdBlock).bytes := by
    rw [hemits.done, hbytes, messageBytes, holen, List.nil_append]
  obtain rfl | rfl := hcmd
  · rw [vlsctlPackCmd]
    simp only [packFindServiceRsp] at hb' ⊢
    rw [hb', ok_bind, hmsg]
  · rw [vlsctlPackCmd]
    simp only [packProbeServiceRsp] at hb' ⊢
    rw [hb', ok_bind, hmsg]

end Packing

theorem vlsctlcUnpackCmd_message {fuel : Nat} {c : Vlsctlc} {version type : UInt8}
    {body : List UInt8} (hsize : body.length < 2 ^ 16) :
    vlsctlcUnpackCmd fuel c (messageBytes version type body) =
      unpackReply (messageBytes version type body) body.length fuel
        { c with type := type.toUInt16 } 0 := by
  obtain ⟨hlen, hmagic, -⟩ := messageBytes_holds version type body
  have htype : HoldsAt (messageBytes version type body) 1 [type] :=
    ⟨by rw [length_messageBytes]; omega, _, rfl⟩
  have hbsz : (UInt16.ofNat body.length).toNat = body.length := by
    rw [UInt16.toNat_ofNat']
    exact Nat.mod_eq_of_lt hsize
  have hread : readU8 (messageBytes version type body) 1 = .ok type := readU8_at htype
  rw [vlsctlcUnpackCmd, if_neg (by rw [length_messageBytes]; omega), hread, ok_bind]
  simp only
  rw [readU16_at hlen, ok_bind, readU32_at hmagic, ok_bind,
    if_neg (fun h : VLSCTL_MAGIC ≠ VLSCTL_MAGIC => h rfl), hbsz]

/-- A reply of one block. -/
theorem vlsctlcUnpackCmd_block {c : Vlsctlc} {version type : UInt8} {b : CmdBlock} {hash : Token}
    {proto : Int32} {addrs : List VsockaddrIn} (hcmd : b.cmd.Answered)
    (hcontent : ReplyContent hash proto addrs b.content) (hsize : b.bytes.length < 2 ^ 16) :
    vlsctlcUnpackCmd 3 c (messageBytes version type b.bytes) =
      (c.rspArgs.addrs.fill 0 addrs).map fun s =>
        ({ c with
          type := type.toUInt16
          boundCmd := b.cmd.id
          rspArgs := ⟨addrs.length, hash, proto, s⟩ }, 0) := by
  have hbody := (messageBytes_holds version type b.bytes).2.2
  have hlen := b.length_bytes
  rw [vlsctlcUnpackCmd_message hsize,
    @unpackReply_block _ _ 0 _ 0 _ _ _ b hcmd hcontent hbody (by omega)]
  cases c.rspArgs.addrs.fill 0 addrs with
  | error e => rfl
  | ok s =>
    rw [ok_bind, unpackReply, if_neg (by omega)]
    rfl

/-- A reply of one block is handed out as it was packed. -/
theorem reply_read {b : CmdBlock} {hash : Token} {proto : Int32} {addrs : List VsockaddrIn}
    (hcmd : b.cmd.Answered) (hmax : addrs.length ≤ VSRVCINFO_MAX_ADDRS)
    (hcontent : ReplyContent hash proto addrs b.content) (c : Vlsctlc) :
    ∃ c', vlsctlcUnpackCmd 3 c
        (messageBytes VLSCTL_VERSION vlsctlRspSucc.toUInt8 b.bytes) = .ok (c', 0) ∧
      unbindCmd c' b.cmd = .ok (some (hash, addrs, proto)) := by
  have hlen := hcontent.length
  rw [VSRVCHASH_LEN, VTOKEN_LEN] at hlen
  have htwelve : VSRVCINFO_MAX_ADDRS = 12 := rfl
  obtain ⟨s, hs, htake⟩ := @AddrSlots.fill_ok _ c.rspArgs.addrs 0 addrs (by omega)
  rw [Nat.zero_add, List.take_zero, List.nil_append] at htake
  have hunpack := @vlsctlcUnpackCmd_block c VLSCTL_VERSION vlsctlRspSucc.toUInt8 b _ _ _ hcmd
    hcontent (by rw [CmdBlock.length_bytes]; omega)
  rw [hs] at hunpack
  refine ⟨_, hunpack, ?_⟩
  have hgather : s.gather 0 addrs.length = .ok addrs := by
    rw [AddrSlots.gather_ok (by omega), List.drop_zero, htake]
  have hsucc : vlsctlRspSucc.toUInt8.toUInt16 ≠ vlsctlRspErr := by decide
  simp only [unbindCmd, ne_eq, not_true_eq_false, if_false, if_neg hsucc, hgather, ok_bind]

/-- A reply of either kind with up to twelve addresses, whose families fit a byte, is packed by the
daemon into a buffer of `BUF_SZ` bytes and taken in any state of the client, which then hands out
the hash, the protocol and the addresses that the daemon was given. -/
theorem reply_roundTrip {cmd : VlsctlCmd} (hcmd : cmd.Answered) (hash : Token) (proto : Int32)
    {addrs : List VsockaddrIn} (hmax : addrs.length ≤ VSRVCINFO_MAX_ADDRS)
    (hfamily : ∀ a ∈ addrs, a.addr.sin_family < 256) {buf : List UInt8}
    (hbuf : buf.length = BUF_SZ) (c : Vlsctlc) :
    ∃ rsp m fuel c', answer cmd hash proto addrs = .ok rsp ∧ vlsctlPackCmd rsp buf = .ok (some m) ∧
      vlsctlcUnpackCmd fuel c m = .ok (c', 0) ∧
      unbindCmd c' cmd = .ok (some (hash, addrs.map replied, proto)) := by
  obtain ⟨rsp, hanswer, b, rfl, hpack, hcontent⟩ :=
    @vlsctlPackCmd_ok _ hash proto _ hcmd hmax hfamily buf hbuf
  obtain ⟨c', hunpack, hunbind⟩ := reply_read hcmd (by rwa [List.length_map]) hcontent c
  exact ⟨rsp, _, 3, c', hanswer, hpack, hunpack, hunbind⟩

/-- Three addresses of one host, of different types. -/
def sampleAddrs : List VsockaddrIn :=
  [(80, 1), (443, 3), (8080, 2)].map fun a => ⟨⟨AF_INET, a.1, 0x0100007f, Block.zero 8⟩, a.2⟩

theorem sampleAddrs_roundTrip :
    ∃ rsp m fuel c', answer .probeService (Block.zero VTOKEN_LEN) 6 sampleAddrs = .ok rsp ∧
      vlsctlPackCmd rsp (List.replicate BUF_SZ 0) = .ok (some m) ∧
      vlsctlcUnpackCmd fuel vlsctlcInit m = .ok (c', 0) ∧
      unbindCmd c' .probeService =
        .ok (some (Block.zero VTOKEN_LEN, sampleAddrs.map replied, 6)) :=
  @reply_roundTrip .probeService (Or.inr rfl) (Block.zero VTOKEN_LEN) 6 sampleAddrs (by decide)
    (by decide) (List.replicate BUF_SZ 0) List.length_replicate vlsctlcInit

end Vdht.Lsctl
