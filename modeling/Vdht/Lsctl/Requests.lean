import Vdht.Lsctl.Client
import Vdht.Lsctl.Dispatch

/-!
# Requests from the client to the daemon

A request is bound, packed and unpacked again. `Shape` is the content of a block as both sides
agree on it; the family of an address is not sent, and the daemon fills in `AF_INET`.
-/

namespace Vdht.Lsctl

open Lib NodeId

/-- What a user of the client library asks for. -/
inductive Request where
  | hostUp
  | hostDown
  | hostExit
  | hostDump
  | cfgDump
  | joinNode (addr : SockaddrIn)
  | bogusQuery (queryId : Int32) (addr : SockaddrIn)
  | postService (hash : Token) (addrs : List VsockaddrIn) (proto : Int32)
  | unpostService (hash : Token) (addrs : List SockaddrIn)
  | findService (hash : Token)
  | probeService (hash : Token)

namespace Request

/-- The command of the request. -/
def cmd : Request → VlsctlCmd
  | .hostUp => .hostUp
  | .hostDown => .hostDown
  | .hostExit => .hostExit
  | .hostDump => .hostDump
  | .cfgDump => .cfgDump
  | .joinNode _ => .joinNode
  | .bogusQuery _ _ => .bogusQuery
  | .postService _ _ _ => .postService
  | .unpostService _ _ => .unpostService
  | .findService _ => .findService
  | .probeService _ => .probeService

/-- `lsctlc_bind_ops` -/
def bind (c : Vlsctlc) : Request → Res (Vlsctlc × Int)
  | .hostUp => .ok (bindCmdHostUp c)
  | .hostDown => .ok (bindCmdHostDown c)
  | .hostExit => .ok (bindCmdHostExit c)
  | .hostDump => .ok (bindCmdHostDump c)
  | .cfgDump => .ok (bindCmdCfgDump c)
  | .joinNode addr => .ok (bindCmdJoinNode c addr)
  | .bogusQuery queryId addr => .ok (bindCmdBogusQuery c queryId addr)
  | .postService hash addrs proto => bindCmdPostService c hash addrs proto
  | .unpostService hash addrs => bindCmdUnpostService c hash addrs
  | .findService hash => .ok (bindCmdFindService c hash)
  | .probeService hash => .ok (bindCmdProbeService c hash)

/-- IPv4 addresses, and as many of them as the client takes. -/
def Bindable : Request → Prop
  | .joinNode addr => addr.sin_family = AF_INET
  | .bogusQuery _ addr => addr.sin_family = AF_INET
  | .postService _ addrs _ =>
    1 ≤ addrs.length ∧ addrs.length ≤ VSRVCINFO_MAX_ADDRS ∧
      ∀ a ∈ addrs, a.addr.sin_family = AF_INET
  | .unpostService _ addrs =>
    addrs.length ≤ VSRVCINFO_MAX_ADDRS ∧ ∀ a ∈ addrs, a.sin_family = AF_INET
  | _ => True

end Request

/-- What the daemon is asked to do. -/
def Request.calls : Request → List AppCall
  | .hostUp => [.startHost]
  | .hostDown => [.stopHost]
  | .hostExit => [.makeHostExit]
  | .hostDump => [.dumpHostInfos]
  | .cfgDump => [.dumpCfg]
  | .joinNode addr => [.joinWellknownNode (received addr)]
  | .bogusQuery queryId addr => [.bogusQuery queryId (received addr)]
  | .postService hash addrs proto =>
    addrs.map fun a => .postServiceSegment hash (received a.addr) a.type proto
  | .unpostService hash [] => [.unpostService hash]
  | .unpostService hash addrs => addrs.map fun a => .unpostServiceSegment hash (received a)
  | .findService hash => [.findService hash]
  | .probeService hash => [.probeService hash]

/-! ## The content of a block -/

/-- An address as it is packed: two bytes with no meaning, the port and the host. -/
def AddrShape (a : SockaddrIn) (out : List UInt8) : Prop :=
  ∃ skipped, skipped.length = 2 ∧ out = skipped ++ (putU16 a.sin_port ++ putU32 a.sin_addr)

/-- An address with its type as it is packed: two bytes with no meaning, the port, the host and the
type. -/
def VaddrShape (a : VsockaddrIn) (out : List UInt8) : Prop :=
  ∃ skipped, skipped.length = 2 ∧
    out = skipped ++ (putU16 a.addr.sin_port ++ (putU32 a.addr.sin_addr ++ putU32 a.type))

/-- What the content of the block of a request looks like. -/
def Request.Shape : Request → List UInt8 → Prop
  | .joinNode addr, out => AddrShape addr out
  | .bogusQuery queryId addr, out => ∃ o, out = putI32 queryId ++ o ∧ AddrShape addr o
  | .postService hash addrs proto, out =>
    ∃ os, out = hash.data ++ (putI32 proto ++ os.flatten) ∧ List.Forall₂ VaddrShape addrs os
  | .unpostService hash addrs, out =>
    ∃ os, out = hash.data ++ os.flatten ∧ List.Forall₂ AddrShape addrs os
  | .findService hash, out => out = hash.data
  | .probeService hash, out => out = hash.data
  | _, out => out = []

/-! ## What the client packs -/

theorem packAddr_packs (a : SockaddrIn) : Packs (auxVlsctlcPackAddr a) 8 (AddrShape a) := by
  have hseq := ((packs_pass 2).seq ((packs_put (putU16 a.sin_port)).seq
    (packs_put (putU32 a.sin_addr)))).assertRoom
  exact hseq.imp fun out hlen hout => by
    obtain ⟨o, _, rfl, -, p, q, rfl, rfl, rfl⟩ := hout
    simp only [List.length_append, length_putU16, length_putU32] at hlen
    exact ⟨o, by omega, rfl⟩

theorem packVaddr_packs (a : VsockaddrIn) : Packs (auxVlsctlcPackVaddr a) 12 (VaddrShape a) := by
  have hseq := ((packs_pass 2).seq ((packs_put (putU16 a.addr.sin_port)).seq
    ((packs_put (putU32 a.addr.sin_addr)).seq (packs_put (putU32 a.type))))).assertRoom
  exact hseq.imp fun out hlen hout => by
    obtain ⟨o, _, rfl, -, p, _, rfl, rfl, q, r, rfl, rfl, rfl⟩ := hout
    simp only [List.length_append, length_putU16, length_putU32] at hlen
    exact ⟨o, by omega, rfl⟩

section Client

variable {c : Vlsctlc} {cmd : VlsctlCmd} {content : OutBuf → Res OutBuf} {n : Nat}
  {shape : List UInt8 → Prop} {b : OutBuf}

theorem packBound_packs (hbound : c.boundCmd = cmd.id) (hcontent : Packs content n shape) :
    Packs (packBound c cmd content) (4 + n) fun out =>
      ∃ o, out = putU16 cmd.id ++ (putU16 (.ofNat n) ++ o) ∧ o.length = n ∧ shape o := by
  have hblock := (@packBlock_packs content n shape cmd.id hcontent).assertRoom
  intro b hroom
  obtain ⟨b', out, hb', h⟩ := hblock b hroom
  refine ⟨b', out, ?_, h⟩
  rw [packBound, if_neg (not_not.mpr hbound), hbound]
  exact hb'

theorem packCmdOf_unbound (hbound : c.boundCmd ≠ cmd.id) (hroom : 0 < b.rest.length) :
    packCmdOf c cmd b = .ok b := by
  have hskip : ∀ content, packBound c cmd content b = .ok b := by
    intro content
    rw [packBound, if_pos hbound, assertRoom, if_neg (by omega)]
  cases cmd <;> exact hskip _

theorem packCmdDesc_unbound {desc : List VlsctlCmd} (hbound : ∀ cmd ∈ desc, c.boundCmd ≠ cmd.id)
    (hroom : 0 < b.rest.length) : packCmdDesc c desc b = .ok b := by
  induction desc with
  | nil => rfl
  | cons cmd desc ih =>
    rw [packCmdDesc, packCmdOf_unbound (hbound cmd List.mem_cons_self) hroom, ok_bind]
    exact ih fun cmd hcmd => hbound cmd (List.mem_cons_of_mem _ hcmd)

theorem packCmdDesc_append {pre post : List VlsctlCmd} :
    packCmdDesc c (pre ++ post) b = packCmdDesc c pre b >>= packCmdDesc c post := by
  induction pre generalizing b with
  | nil => rfl
  | cons cmd pre ih =>
    rw [List.cons_append, packCmdDesc, packCmdDesc]
    cases packCmdOf c cmd b with
    | error e => rfl
    | ok b => exact ih

/-- The table packs the bound command and nothing else. -/
theorem packCmdDesc_packs (hbound : c.boundCmd = cmd.id) (hpack : Packs (packCmdOf c cmd) n shape) :
    Packs (packCmdDesc c lsctlCmds) n shape := by
  obtain ⟨pre, post, hsplit⟩ := List.append_of_mem (mem_lsctlCmds cmd)
  have hnodup : (pre ++ cmd :: post).Nodup := by
    rw [← hsplit]
    decide
  obtain ⟨-, hcons, hdisjoint⟩ := List.nodup_append.mp hnodup
  have hpre : ∀ cmd' ∈ pre, c.boundCmd ≠ cmd'.id := fun cmd' hmem heq =>
    hdisjoint cmd' hmem cmd List.mem_cons_self (id_injective (heq.symm.trans hbound))
  have hpost : ∀ cmd' ∈ post, c.boundCmd ≠ cmd'.id := fun cmd' hmem heq =>
    (List.nodup_cons.mp hcons).1 (id_injective (hbound.symm.trans heq) ▸ hmem)
  intro b hroom
  obtain ⟨b', out, hb', hemits, hlen, hshape⟩ := hpack b hroom
  have hrest := hemits.room
  refine ⟨b', out, ?_, hemits, hlen, hshape⟩
  rw [hsplit, packCmdDesc_append, packCmdDesc_unbound hpre (by omega), ok_bind, packCmdDesc, hb',
    ok_bind, packCmdDesc_unbound hpost (by omega)]

/-- The message of a bound command. -/
theorem vlsctlcPackCmd_ok (hbound : c.boundCmd = cmd.id)
    (hpack : Packs (packCmdOf c cmd) n shape) {buf : List UInt8} (hbuf : 8 + n < buf.length) :
    ∃ o, vlsctlcPackCmd c buf = .ok (messageBytes VLSCTL_VERSION c.type.toUInt8 o) ∧
      o.length = n ∧ shape o := by
  have hmessage := (@packMessage_packs _ n shape c.type.toUInt8
    (packCmdDesc_packs hbound hpack)).assertRoom
  obtain ⟨b', out, hb', hemits, -, o, rfl, hlen, hshape⟩ := hmessage ⟨[], buf⟩ hbuf
  refine ⟨o, ?_, hlen, hshape⟩
  rw [vlsctlcPackCmd]
  simp only at hb' ⊢
  rw [hb', ok_bind, hemits.done, List.nil_append, messageBytes, hlen]

theorem bindCmd_ok (hc : c.boundCmd = 0) (type : UInt16) (args : VlsctlcArgs) :
    bindCmd c cmd type args = ({ c with boundCmd := cmd.id, type := type, args := args }, 0) := by
  rw [bindCmd, if_neg (by rw [hc]; decide)]

theorem bindCmdPostService_ok (hc : c.boundCmd = 0) {hash : Token} {addrs : List VsockaddrIn}
    {proto : Int32} (hpos : 1 ≤ addrs.length) (hmax : addrs.length ≤ VSRVCINFO_MAX_ADDRS) :
    ∃ slots, slots.slots.take addrs.length = addrs ∧
      bindCmdPostService c hash addrs proto = .ok ({ c with
        boundCmd := VlsctlCmd.postService.id
        type := vlsctlCmdType
        args := { c.args with postService := ⟨hash, proto, addrs.length, slots⟩ } }, 0) := by
  obtain ⟨slots, hslots, htake⟩ := @AddrSlots.fill_ok _ c.args.postService.addrs 0 addrs (by omega)
  rw [Nat.zero_add, List.take_zero, List.nil_append] at htake
  refine ⟨slots, htake, ?_⟩
  rw [bindCmdPostService, if_neg (by omega), if_neg (by rw [hc]; decide), hslots, ok_bind,
    bindCmd_ok hc]

theorem bindCmdUnpostService_ok (hc : c.boundCmd = 0) {hash : Token} {addrs : List SockaddrIn}
    (hmax : addrs.length ≤ VSRVCINFO_MAX_ADDRS) :
    ∃ slots, slots.slots.take addrs.length = addrs ∧
      bindCmdUnpostService c hash addrs = .ok ({ c with
        boundCmd := VlsctlCmd.unpostService.id
        type := vlsctlCmdType
        args := { c.args with unpostService := ⟨hash, addrs.length, slots⟩ } }, 0) := by
  obtain ⟨slots, hslots, htake⟩ :=
    @AddrSlots.fill_ok _ c.args.unpostService.addrs 0 addrs (by omega)
  rw [Nat.zero_add, List.take_zero, List.nil_append] at htake
  refine ⟨slots, htake, ?_⟩
  rw [bindCmdUnpostService, if_neg (by rw [hc]; decide), hslots, ok_bind, bindCmd_ok hc]

/-- The block of a bound command. -/
def Request.Block (r : Request) (n : Nat) (out : List UInt8) : Prop :=
  ∃ o, out = putU16 r.cmd.id ++ (putU16 (.ofNat n) ++ o) ∧ o.length = n ∧ r.Shape o

/-- Most bytes the content of a request takes: a service with all its addresses. -/
def maxContent : Nat := VSRVCHASH_LEN + 4 + 12 * VSRVCINFO_MAX_ADDRS

/-- Every request can be bound, and is then what the table packs. -/
theorem bind_packs {r : Request} (hr : r.Bindable) (hc : c.boundCmd = 0) :
    ∃ c' n, r.bind c = .ok (c', 0) ∧ c'.boundCmd = r.cmd.id ∧ n ≤ maxContent ∧
      Packs (packCmdOf c' r.cmd) (4 + n) (r.Block n) := by
  have hle : ∀ n, n ≤ 24 → n ≤ maxContent := fun n hn => Nat.le_trans hn (by decide)
  cases r with
  | hostUp =>
    exact ⟨_, 0, congrArg Except.ok (bindCmd_ok hc _ _), rfl, hle 0 (by omega),
      packBound_packs rfl packs_nil⟩
  | hostDown =>
    exact ⟨_, 0, congrArg Except.ok (bindCmd_ok hc _ _), rfl, hle 0 (by omega),
      packBound_packs rfl packs_nil⟩
  | hostExit =>
    exact ⟨_, 0, congrArg Except.ok (bindCmd_ok hc _ _), rfl, hle 0 (by omega),
      packBound_packs rfl packs_nil⟩
  | hostDump =>
    exact ⟨_, 0, congrArg Except.ok (bindCmd_ok hc _ _), rfl, hle 0 (by omega),
      packBound_packs rfl packs_nil⟩
  | cfgDump =>
    exact ⟨_, 0, congrArg Except.ok (bindCmd_ok hc _ _), rfl, hle 0 (by omega),
      packBound_packs rfl packs_nil⟩
  | joinNode addr =>
    exact ⟨_, 8, congrArg Except.ok (bindCmd_ok hc _ _), rfl, hle 8 (by omega),
      packBound_packs rfl (packAddr_packs addr)⟩
  | bogusQuery queryId addr =>
    refine ⟨_, 12, congrArg Except.ok (bindCmd_ok hc _ _), rfl, hle 12 (by omega), ?_⟩
    have hcontent := (packs_put (putI32 queryId)).seq (packAddr_packs addr)
    rw [length_putI32] at hcontent
    refine packBound_packs rfl (hcontent.imp fun out _ hout => ?_)
    obtain ⟨_, o, rfl, rfl, hshape⟩ := hout
    exact ⟨o, rfl, hshape⟩
  | postService hash addrs proto =>
    obtain ⟨hpos, hmax, -⟩ := hr
    obtain ⟨slots, htake, hbind⟩ := @bindCmdPostService_ok c hc hash addrs proto hpos hmax
    refine ⟨_, 20 + (4 + 12 * addrs.length), hbind, rfl, ?_, ?_⟩
    · simp only [maxContent, VSRVCHASH_LEN, VTOKEN_LEN, VSRVCINFO_MAX_ADDRS] at hmax ⊢
      omega
    · have hslots := @packSlots_packs _ _ _ _ packVaddr_packs slots 0 addrs htake
      have hcontent := (packs_put hash.data).seq ((packs_put (putI32 proto)).seq hslots)
      rw [hash.size, length_putI32] at hcontent
      refine packBound_packs rfl (hcontent.imp fun out _ hout => ?_)
      obtain ⟨_, _, rfl, rfl, _, _, rfl, rfl, os, hos, rfl⟩ := hout
      exact ⟨os, rfl, hos⟩
  | unpostService hash addrs =>
    obtain ⟨hmax, -⟩ := hr
    obtain ⟨slots, htake, hbind⟩ := @bindCmdUnpostService_ok c hc hash addrs hmax
    refine ⟨_, 20 + 8 * addrs.length, hbind, rfl, ?_, ?_⟩
    · simp only [maxContent, VSRVCHASH_LEN, VTOKEN_LEN, VSRVCINFO_MAX_ADDRS] at hmax ⊢
      omega
    · have hslots := @packSlots_packs _ _ _ _ packAddr_packs slots 0 addrs htake
      have hcontent := (packs_put hash.data).seq hslots
      rw [hash.size] at hcontent
      refine packBound_packs rfl (hcontent.imp fun out _ hout => ?_)
      obtain ⟨_, _, rfl, rfl, os, hos, rfl⟩ := hout
      exact ⟨os, rfl, hos⟩
  | findService hash =>
    refine ⟨_, 20, congrArg Except.ok (bindCmd_ok hc _ _), rfl, hle 20 (by omega), ?_⟩
    have hcontent := packs_put hash.data
    rw [hash.size] at hcontent
    exact packBound_packs rfl hcontent
  | probeService hash =>
    refine ⟨_, 20, congrArg Except.ok (bindCmd_ok hc _ _), rfl, hle 20 (by omega), ?_⟩
    have hcontent := packs_put hash.data
    rw [hash.size] at hcontent
    exact packBound_packs rfl hcontent

end Client

/-! ## What the daemon reads -/

section Daemon

variable {app : App} {d : List UInt8} {off len : Nat}

theorem convert2_received {a : SockaddrIn} (ha : a.sin_family = AF_INET) :
    vsockaddrConvert2 (ntohl a.sin_addr) (ntohs a.sin_port) = received a := by
  rw [vsockaddrConvert2, htons_ntohs, htonl_ntohl, received, ← ha]

theorem unpackAddr_ok {a : SockaddrIn} {out : List UInt8} (ha : a.sin_family = AF_INET)
    (hout : AddrShape a out) (hd : HoldsAt d off out) (hlen : 0 < len) :
    auxLsctlUnpackAddr d off len = .ok (received a) := by
  obtain ⟨skipped, hskipped, rfl⟩ := hout
  obtain ⟨-, hd⟩ := holdsAt_append.mp hd
  rw [hskipped] at hd
  obtain ⟨hport, haddr⟩ := holdsAt_append.mp hd
  rw [length_putU16, Nat.add_assoc] at haddr
  rw [auxLsctlUnpackAddr, if_neg (by omega), readU16_at hport, ok_bind, readU32_at haddr, ok_bind,
    convert2_received ha]

theorem unpackVaddr_ok {a : VsockaddrIn} {out : List UInt8} (ha : a.addr.sin_family = AF_INET)
    (hout : VaddrShape a out) (hd : HoldsAt d off out) (hlen : 0 < len) :
    auxLsctlUnpackVaddr d off len = .ok ⟨received a.addr, a.type⟩ := by
  obtain ⟨skipped, hskipped, rfl⟩ := hout
  obtain ⟨-, hd⟩ := holdsAt_append.mp hd
  rw [hskipped] at hd
  obtain ⟨hport, hd⟩ := holdsAt_append.mp hd
  rw [length_putU16, Nat.add_assoc] at hd
  obtain ⟨haddr, htype⟩ := holdsAt_append.mp hd
  rw [length_putU32, Nat.add_assoc] at htype
  rw [auxLsctlUnpackVaddr, if_neg (by omega), readU16_at hport, ok_bind, readU32_at haddr, ok_bind,
    readU32_at htype, ok_bind, convert2_received ha]

/-- The loop over packed addresses makes one call for each. -/
theorem eachAddr_ok {α β : Type} {unpack : Nat → Nat → Res β} {call : β → AppCall} {step : Nat}
    {shapeOf : α → List UInt8 → Prop} {seen : α → β} {addrs : List α} {os : List (List UInt8)}
    (hshape : List.Forall₂ shapeOf addrs os) (hstep : 0 < step)
    (hsize : ∀ a ∈ addrs, ∀ o, shapeOf a o → o.length = step)
    (hunpack : ∀ a ∈ addrs, ∀ o off len, shapeOf a o → HoldsAt d off o → 0 < len →
      unpack off len = .ok (seen a))
    (happ : ∀ a ∈ addrs, 0 ≤ app (call (seen a))) {fuel tsz : Nat}
    (hd : HoldsAt d (off + tsz) os.flatten) (hlen : len = tsz + os.flatten.length)
    (hfuel : addrs.length < fuel) :
    eachAddr app unpack call step off len fuel tsz =
      .ok (len, true, addrs.map fun a => call (seen a)) := by
  induction hshape generalizing fuel tsz with
  | nil =>
    obtain ⟨fuel, rfl⟩ := Nat.exists_eq_add_one_of_ne_zero (Nat.ne_of_gt hfuel)
    rw [eachAddr, if_neg (by simp at hlen; omega)]
    simp at hlen
    rw [hlen]
    rfl
  | @cons a o addrs os ho _ ih =>
    obtain ⟨fuel, rfl⟩ := Nat.exists_eq_add_one_of_ne_zero (Nat.ne_of_gt (Nat.zero_lt_of_lt hfuel))
    have hosize := hsize a List.mem_cons_self o ho
    rw [List.flatten_cons] at hd hlen
    rw [List.length_append, hosize] at hlen
    obtain ⟨hfirst, hrest⟩ := holdsAt_append.mp hd
    rw [hosize, Nat.add_assoc] at hrest
    have hcall := hunpack a List.mem_cons_self o (off + tsz) (len - tsz) ho hfirst (by omega)
    have happ₀ := happ a List.mem_cons_self
    rw [eachAddr, if_pos (by omega), hcall, ok_bind, if_neg (Int.not_lt.mpr happ₀),
      ih (fun a ha => hsize a (List.mem_cons_of_mem _ ha))
        (fun a ha => hunpack a (List.mem_cons_of_mem _ ha))
        (fun a ha => happ a (List.mem_cons_of_mem _ ha)) hrest (by omega) (by simpa using hfuel)]
    rfl

theorem AddrShape.length {a : SockaddrIn} {out : List UInt8} (h : AddrShape a out) :
    out.length = 8 := by
  obtain ⟨skipped, hskipped, rfl⟩ := h
  simp only [List.length_append, hskipped, length_putU16, length_putU32]

theorem VaddrShape.length {a : VsockaddrIn} {out : List UInt8} (h : VaddrShape a out) :
    out.length = 12 := by
  obtain ⟨skipped, hskipped, rfl⟩ := h
  simp only [List.length_append, hskipped, length_putU16, length_putU32]

theorem callApp_ok {call : AppCall} (h : 0 ≤ app call) (tsz : Nat) :
    callApp app tsz call = ((tsz : Int), [call]) := by
  rw [callApp, if_neg (Int.not_lt.mpr h)]

theorem execCmdPostService_ok {hash : Token} {addrs : List VsockaddrIn} {proto : Int32}
    {os : List (List UInt8)} (hfamily : ∀ a ∈ addrs, a.addr.sin_family = AF_INET)
    (hos : List.Forall₂ VaddrShape addrs os)
    (hd : HoldsAt d off (hash.data ++ (putI32 proto ++ os.flatten)))
    (hlen : len = VSRVCHASH_LEN + 4 + os.flatten.length)
    (happ : ∀ call ∈ (Request.postService hash addrs proto).calls, 0 ≤ app call) :
    execCmdPostService app d off len =
      .ok ((len : Int), (Request.postService hash addrs proto).calls) := by
  have hflat := length_flatten_shapes hos fun a _ o ho => ho.length
  obtain ⟨hhash, hd⟩ := holdsAt_append.mp hd
  rw [hash.size, ← VSRVCHASH_LEN] at hd
  obtain ⟨hproto, hd⟩ := holdsAt_append.mp hd
  rw [length_putI32, Nat.add_assoc] at hd
  have hloop := @eachAddr_ok app d off len _ _ (auxLsctlUnpackVaddr d)
    (fun a => .postServiceSegment hash a.addr a.type proto) 12 VaddrShape
    (fun a => ⟨received a.addr, a.type⟩) addrs os hos (by omega) (fun a _ o ho => ho.length)
    (fun a ha o off len ho hd hlen => unpackVaddr_ok (hfamily a ha) ho hd hlen)
    (fun a ha => happ _ (List.mem_map_of_mem ha)) (len + 1) (VSRVCHASH_LEN + 4) hd hlen
    (by omega)
  have hback : proto.toUInt32.toInt32 = proto := Int32.toInt32_toUInt32 proto
  rw [execCmdPostService, if_neg (by omega), readHash_at hhash, ok_bind, readU32_at hproto,
    ok_bind, hback, hloop]
  rfl

theorem execCmdUnpostService_ok {hash : Token} {addrs : List SockaddrIn}
    {os : List (List UInt8)} (hfamily : ∀ a ∈ addrs, a.sin_family = AF_INET)
    (hos : List.Forall₂ AddrShape addrs os) (hd : HoldsAt d off (hash.data ++ os.flatten))
    (hlen : len = VSRVCHASH_LEN + os.flatten.length)
    (happ : ∀ call ∈ (Request.unpostService hash addrs).calls, 0 ≤ app call) :
    execCmdUnpostService app d off len =
      .ok ((len : Int), (Request.unpostService hash addrs).calls) := by
  have hpos : 0 < VSRVCHASH_LEN := by decide
  have hflat := length_flatten_shapes hos fun a _ o ho => ho.length
  obtain ⟨hhash, hd⟩ := holdsAt_append.mp hd
  rw [hash.size, ← VSRVCHASH_LEN] at hd
  have hloop := fun happ' => @eachAddr_ok app d off len _ _ (auxLsctlUnpackAddr d)
    (fun a => .unpostServiceSegment hash a) 8 AddrShape received addrs os hos (by omega)
    (fun a _ o ho => ho.length)
    (fun a ha o off len ho hd hlen => unpackAddr_ok (hfamily a ha) ho hd hlen)
    happ' (len + 1) VSRVCHASH_LEN hd hlen (by omega)
  rw [execCmdUnpostService, if_neg (by omega), readHash_at hhash, ok_bind]
  cases addrs with
  | nil =>
    rw [hloop fun a ha => absurd ha List.not_mem_nil]
    have hle : len ≤ VSRVCHASH_LEN := by
      rw [hlen, hflat]
      exact Nat.le_refl _
    simp only [ok_bind, Bool.true_eq_false, if_false, if_pos hle]
    rw [callApp_ok (happ _ List.mem_cons_self)]
    rfl
  | cons a addrs =>
    rw [hloop fun a ha => happ _ (List.mem_map_of_mem ha)]
    rw [List.length_cons] at hflat
    simp only [ok_bind, Bool.true_eq_false, if_false, if_neg (show ¬ len ≤ VSRVCHASH_LEN by omega)]
    rfl

/-- A handler takes the content of its request whole and asks for what the request says. -/
theorem execCmd_ok {r : Request} {o : List UInt8} (hr : r.Bindable) (hshape : r.Shape o)
    (hd : HoldsAt d off o) (hsmall : o.length < 2 ^ 16) (happ : ∀ call ∈ r.calls, 0 ≤ app call) :
    execCmd app d r.cmd off (.ofNat o.length) = .ok ((o.length : Int), r.calls) := by
  have hclen : (UInt16.ofNat o.length).toNat = o.length := by
    rw [UInt16.toNat_ofNat']
    exact Nat.mod_eq_of_lt hsmall
  cases r with
  | hostUp =>
    subst hshape
    exact congrArg Except.ok (callApp_ok (happ _ List.mem_cons_self) 0)
  | hostDown =>
    subst hshape
    exact congrArg Except.ok (callApp_ok (happ _ List.mem_cons_self) 0)
  | hostExit =>
    subst hshape
    rfl
  | hostDump =>
    subst hshape
    rfl
  | cfgDump =>
    subst hshape
    rfl
  | joinNode addr =>
    have hlen := AddrShape.length hshape
    simp only [Request.cmd, execCmd, execCmdJoinNode, hclen]
    rw [unpackAddr_ok hr hshape hd (by omega), ok_bind, callApp_ok (happ _ List.mem_cons_self), hlen]
    rfl
  | bogusQuery queryId addr =>
    obtain ⟨o, rfl, hshape⟩ := hshape
    have hlen := AddrShape.length hshape
    obtain ⟨hqId, hd⟩ := holdsAt_append.mp hd
    rw [length_putI32] at hd
    simp only [Request.cmd, execCmd, execCmdBogusQuery, hclen]
    rw [List.length_append, length_putI32, hlen, if_neg (by omega), readI32_at hqId, ok_bind,
      unpackAddr_ok hr hshape hd (by omega), ok_bind, callApp_ok (happ _ List.mem_cons_self)]
    rfl
  | postService hash addrs proto =>
    obtain ⟨os, rfl, hos⟩ := hshape
    simp only [Request.cmd, execCmd, hclen]
    refine execCmdPostService_ok hr.2.2 hos hd ?_ happ
    rw [List.length_append, List.length_append, hash.size, length_putI32, VSRVCHASH_LEN,
      Nat.add_assoc]
  | unpostService hash addrs =>
    obtain ⟨os, rfl, hos⟩ := hshape
    simp only [Request.cmd, execCmd, hclen]
    refine execCmdUnpostService_ok hr.2 hos hd ?_ happ
    rw [List.length_append, hash.size, VSRVCHASH_LEN]
  | findService hash =>
    subst hshape
    simp only [Request.cmd, execCmd, execCmdFindService, hclen]
    rw [hash.size, if_neg (by decide), readHash_at hd, ok_bind,
      callApp_ok (happ _ List.mem_cons_self)]
    rfl
  | probeService hash =>
    subst hshape
    simp only [Request.cmd, execCmd, execCmdProbeService, hclen]
    rw [hash.size, if_neg (by decide), readHash_at hd, ok_bind,
      callApp_ok (happ _ List.mem_cons_self)]
    rfl

end Daemon

/-- What the client packs of a bound request makes the daemon do what it asks for. -/
theorem packed_read {r : Request} (hr : r.Bindable) {c' : Vlsctlc} {n : Nat}
    (hbound : c'.boundCmd = r.cmd.id) (hn : n ≤ maxContent)
    (hpack : Packs (packCmdOf c' r.cmd) (4 + n) (r.Block n)) {buf : List UInt8}
    (hbuf : buf.length = BUF_SZ) {app : App} (happ : ∀ call ∈ r.calls, 0 ≤ app call) :
    ∃ m clen, vlsctlcPackCmd c' buf = .ok m ∧
      vlsctlUnpackCmd (execCmd app m) m =
        .ok ⟨0, m.length, false, [(r.cmd, 12, clen)], r.calls⟩ ∧
      m.length = 12 + clen.toNat := by
  have hmax : maxContent = 168 := rfl
  have hsz : BUF_SZ = 1024 := rfl
  obtain ⟨_, hm, hlen, o, rfl, holen, hshape⟩ := vlsctlcPackCmd_ok hbound hpack
    (show 8 + (4 + n) < buf.length by omega)
  let b : CmdBlock := ⟨r.cmd, o, by omega⟩
  have hbody : bodyBytes [b] = putU16 r.cmd.id ++ (putU16 (.ofNat n) ++ o) := by
    rw [bodyBytes_cons]
    simp only [b, CmdBlock.bytes, CmdBlock.len, holen, bodyBytes, List.flatMap_nil, List.append_nil]
  refine ⟨_, b.len, hm, ?_, ?_⟩
  · rw [← hbody]
    have hholds := (messageBytes_holds VLSCTL_VERSION c'.type.toUInt8 (bodyBytes [b])).2.2
    have hcontent : HoldsAt (messageBytes VLSCTL_VERSION c'.type.toUInt8 (bodyBytes [b])) 12 o := by
      rw [hbody] at hholds ⊢
      obtain ⟨-, hholds⟩ := holdsAt_append.mp hholds
      exact (holdsAt_append.mp hholds).2
    have hexec := execCmd_ok hr hshape hcontent b.fits happ
    have hrun := @vlsctlUnpackCmd_blocks _ _ _ VLSCTL_VERSION c'.type.toUInt8 [b]
      (by rw [hbody, hlen]; omega) (.cons hexec .nil) (List.pairwise_singleton _ _)
    rw [hrun, length_messageBytes, List.append_nil]
    rfl
  · rw [length_messageBytes, hlen, toNat_len]
    show 8 + (4 + n) = 12 + o.length
    omega

/-- A request that can be bound is bound in a fresh client, packed into a buffer of `BUF_SZ` bytes,
and unpacked by the daemon into exactly the calls it stands for, when the application takes each of
them. The handlers use up the whole message. -/
theorem request_roundTrip {r : Request} (hr : r.Bindable) {c : Vlsctlc} (hc : c.boundCmd = 0)
    {buf : List UInt8} (hbuf : buf.length = BUF_SZ) {app : App}
    (happ : ∀ call ∈ r.calls, 0 ≤ app call) :
    ∃ c' m clen, r.bind c = .ok (c', 0) ∧ vlsctlcPackCmd c' buf = .ok m ∧
      vlsctlUnpackCmd (execCmd app m) m =
        .ok ⟨0, m.length, false, [(r.cmd, 12, clen)], r.calls⟩ ∧
      m.length = 12 + clen.toNat := by
  obtain ⟨c', n, hbind, hbound, hn, hpack⟩ := bind_packs hr hc
  obtain ⟨m, clen, hm, hread, hlen⟩ := packed_read hr hbound hn hpack hbuf happ
  exact ⟨c', m, clen, hbind, hm, hread, hlen⟩

/-- A port of the local host. -/
def sampleAddr (port : UInt16) : SockaddrIn := ⟨AF_INET, port, 0x0100007f, Block.zero 8⟩

/-- Three addresses of one host are posted, of different types. -/
def samplePost : Request :=
  .postService (Block.zero VTOKEN_LEN)
    [⟨sampleAddr 80, 1⟩, ⟨sampleAddr 443, 3⟩, ⟨sampleAddr 8080, 2⟩] 6

theorem samplePost_roundTrip :
    ∃ c' m clen, samplePost.bind vlsctlcInit = .ok (c', 0) ∧
      vlsctlcPackCmd c' (List.replicate BUF_SZ 0) = .ok m ∧
      vlsctlUnpackCmd (execCmd (fun _ => 0) m) m =
        .ok ⟨0, m.length, false, [(.postService, 12, clen)],
          [.postServiceSegment (Block.zero VTOKEN_LEN) (sampleAddr 80) 1 6,
            .postServiceSegment (Block.zero VTOKEN_LEN) (sampleAddr 443) 3 6,
            .postServiceSegment (Block.zero VTOKEN_LEN) (sampleAddr 8080) 2 6]⟩ ∧
      m.length = 12 + clen.toNat :=
  request_roundTrip (r := samplePost)
    ⟨by decide, by decide, by decide⟩ rfl
    List.length_replicate fun _ _ => by decide

end Vdht.Lsctl
