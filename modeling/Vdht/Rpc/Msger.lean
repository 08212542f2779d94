import Vdht.NodeId.Sockaddr

/-!
# The receive path

`_vrpc_rcv`, `_vmsger_dsptch` and the unpack callback of the host. The receive buffer is cleared
before each datagram is copied to its front. `_vmsger_dsptch` hands its local `vmsg_usr` to the
callback without initialising it, so what the local holds before is an argument here.
-/

namespace Vdht.Rpc

open Lib NodeId

/-- `VMSG_DHT`: the number of the messages that go to the route. -/
def VMSG_DHT : Int32 := 0x01

/-- `DHT_MAGIC`: the word with which every datagram starts that another node has packed. -/
def DHT_MAGIC : UInt32 := 0x58681506

/-- The size of `rcvm`. -/
def RCV_BUF_SZ : Nat := 8 * BUF_SZ

/-- `vmsg_sys`; addresses are those of UDP. -/
structure VmsgSys where
  addr : SockaddrIn
  spec : SockaddrIn
  len : Nat
  data : Block RCV_BUF_SZ

/-- `vmsg_usr`; a pointer that points to nothing of the message is `none`, `data` is an offset in
the receive buffer. -/
structure VmsgUsr where
  addr : Option SockaddrIn
  spec : Option SockaddrIn
  msgId : Int32
  len : Int
  data : Option Nat
deriving DecidableEq

/-- What the socket delivers: at most as much as the buffer holds. -/
structure Datagram where
  addr : SockaddrIn
  spec : SockaddrIn
  bytes : List UInt8
  fits : bytes.length ≤ RCV_BUF_SZ

/-- `vmsg_sys_refresh` and what `rcvfrom` makes of the message. -/
def receive (dgram : Datagram) : VmsgSys where
  addr := dgram.addr
  spec := dgram.spec
  len := dgram.bytes.length
  data := (Block.zero RCV_BUF_SZ).overwrite dgram.bytes

/-- `vmsg_usr_init`, with its assertions: the number of the message is not negative and the length
is positive. -/
def vmsgUsrInit (msgId : Int32) (addr spec : SockaddrIn) (len : Int) (data : Nat) : Res VmsgUsr :=
  if msgId < 0 then .error .assertion
  else if len ≤ 0 then .error .assertion
  else .ok ⟨some addr, some spec, msgId, len, some data⟩

/-- A message of another magic is left alone, and so is `um`. -/
def auxVhostUnpackMsgCb (sm : VmsgSys) (um : VmsgUsr) : Res (VmsgUsr × Int) :=
  let magic := getU32 sm.data.data
  let msgId := getI32 (sm.data.data.drop 4)
  if magic = DHT_MAGIC then do
    let um ← vmsgUsrInit msgId sm.addr sm.spec (sm.len - 8) 8
    .ok (um, 0)
  else .ok (um, 0)

/-- The callbacks by their ids, in the order they were added. -/
abbrev VmsgCbs := List Int32

/-- A callback is added once. -/
def vmsgerAddCb (cbs : VmsgCbs) (id : Int32) : VmsgCbs := if id ∈ cbs then cbs else cbs ++ [id]

/-- What each callback is called with. -/
abbrev CbCalls := List (Int32 × VmsgUsr)

/-- `_vmsger_dsptch`: a datagram is unpacked and every callback that is registered for its number
gets it. A datagram that does not unpack reaches none. -/
def vmsgerDsptch (cbs : VmsgCbs) (msg : VmsgSys) (usrMsg : VmsgUsr) : Res (Int × CbCalls) := do
  let (usrMsg, ret) ← auxVhostUnpackMsgCb msg usrMsg
  if ret < 0 then .ok (-1, [])
  else .ok (0, (cbs.filter (· = usrMsg.msgId)).map fun id => (id, usrMsg))

/-- A failure of the socket is `none`. -/
def vrpcRcv (cbs : VmsgCbs) (usrMsg : VmsgUsr) : Option Datagram → Res (Int × CbCalls)
  | none => .ok (-1, [])
  | some dgram => do
    let (ret, calls) ← vmsgerDsptch cbs (receive dgram) usrMsg
    .ok (if ret < 0 then -1 else 0, calls)

/-- The callbacks of the host: `vroute_init` adds the one for `VMSG_DHT`. -/
def hostCbs : VmsgCbs := vmsgerAddCb [] VMSG_DHT

/-! ## What a datagram is -/

/-- The bytes a callback gets, with the length it is told. -/
def VmsgUsr.payload (um : VmsgUsr) (data : Block RCV_BUF_SZ) : Option (List UInt8 × Int) :=
  um.data.map fun off => ((data.data.drop off).take um.len.toNat, um.len)

namespace Datagram

variable (dgram : Datagram)

/-- The datagram starts with the magic word. -/
def StartsDht : Prop := putU32 DHT_MAGIC <+: dgram.bytes

/-- The number of the message, in the four bytes behind the magic word. -/
def msgId : Int32 := getI32 (dgram.bytes.drop 4)

/-- A DHT message with something behind its header. -/
def IsDht : Prop := dgram.StartsDht ∧ dgram.msgId = VMSG_DHT ∧ 8 < dgram.bytes.length

instance : Decidable dgram.StartsDht := inferInstanceAs (Decidable (_ <+: _))

instance : Decidable dgram.IsDht := inferInstanceAs (Decidable (_ ∧ _))

end Datagram

/-- The DHT handler runs once with the payload of a DHT message, and nothing runs otherwise; no
assertion fails. -/
def Handled (usrMsg : VmsgUsr) (dgram : Datagram) : Prop :=
  ∃ ret calls, vrpcRcv hostCbs usrMsg (some dgram) = .ok (ret, calls) ∧
    calls.map (fun call => (call.1, call.2.payload (receive dgram).data)) =
      if dgram.IsDht then
        [(VMSG_DHT, some (dgram.bytes.drop 8, (dgram.bytes.length : Int) - 8))]
      else []

/-! ## The header of a received message -/

section Header

variable {dgram : Datagram}

theorem receive_data :
    ∃ rest, (receive dgram).data.data = dgram.bytes ++ rest ∧ ∀ b ∈ rest, b = 0 := by
  refine ⟨_, Block.overwrite_data _ dgram.fits, fun b hb => ?_⟩
  exact List.eq_of_mem_replicate (List.mem_of_mem_drop hb)

theorem putU32_getU32 {s : List UInt8} (h : 4 ≤ s.length) : putU32 (getU32 s) = s.take 4 := by
  obtain ⟨x, hx⟩ := @exists_putU32 (s.take 4) (List.length_take_of_le h)
  have hget : getU32 (putU32 x ++ s.drop 4) = x := getU32_put x _
  rw [hx, List.take_append_drop] at hget
  rw [hget, hx]

/-- The padding of a short datagram is no magic. -/
theorem magic_iff : getU32 (receive dgram).data.data = DHT_MAGIC ↔ dgram.StartsDht := by
  obtain ⟨rest, hrest, hzero⟩ := @receive_data dgram
  have hlen : (receive dgram).data.data.length = RCV_BUF_SZ := (receive dgram).data.size
  constructor
  · intro hmagic
    have hput := @putU32_getU32 (receive dgram).data.data (by rw [hlen]; decide)
    rw [hmagic] at hput
    have hprefix : putU32 DHT_MAGIC <+: dgram.bytes ++ rest := by
      rw [hput, hrest]
      exact List.take_prefix _ _
    rcases Nat.lt_or_ge dgram.bytes.length 4 with hshort | hlong
    · have hlast : (dgram.bytes ++ rest)[3]? = some 0x58 := by
        obtain ⟨tail, htail⟩ := hprefix
        rw [← htail]
        rfl
      rw [List.getElem?_append_right (by omega)] at hlast
      exact absurd (hzero _ (List.mem_of_getElem? hlast)) (by decide)
    · exact List.prefix_of_prefix_length_le hprefix (List.prefix_append _ _)
        (by rw [length_putU32]; exact hlong)
  · intro ⟨tail, htail⟩
    rw [hrest, ← htail, List.append_assoc, getU32_put]

theorem msgId_eq (h : 8 < dgram.bytes.length) :
    getI32 ((receive dgram).data.data.drop 4) = dgram.msgId := by
  obtain ⟨rest, hrest, -⟩ := @receive_data dgram
  rw [hrest, List.drop_append_of_le_length (by omega), Datagram.msgId, getI32, getI32, getU32,
    getU32, List.take_append_of_le_length (by rw [List.length_drop]; omega)]

theorem payload_eq (h : 8 < dgram.bytes.length) :
    ((receive dgram).data.data.drop 8).take (dgram.bytes.length - 8) = dgram.bytes.drop 8 := by
  obtain ⟨rest, hrest, -⟩ := @receive_data dgram
  rw [hrest, List.drop_append_of_le_length (by omega)]
  exact List.take_left' (by rw [List.length_drop])

end Header

/-! ## When the handler runs as it should -/

section Handling

variable {usrMsg : VmsgUsr} {dgram : Datagram}

theorem vmsgerDsptch_ok {msg : VmsgSys} {cbs : VmsgCbs} {um : VmsgUsr}
    (h : auxVhostUnpackMsgCb msg usrMsg = .ok (um, 0)) :
    vmsgerDsptch cbs msg usrMsg =
      .ok (0, (cbs.filter (· = um.msgId)).map fun id => (id, um)) := by
  rw [vmsgerDsptch, h]
  rfl

theorem hostCbs_filter (um : VmsgUsr) :
    ((hostCbs.filter (· = um.msgId)).map fun id => (id, um)) =
      if um.msgId = VMSG_DHT then [(VMSG_DHT, um)] else [] := by
  have hcbs : hostCbs = [VMSG_DHT] := rfl
  by_cases hid : um.msgId = VMSG_DHT
  · simp [hcbs, hid]
  · simp [hcbs, hid, Ne.symm hid]

theorem vrpcRcv_ok {um : VmsgUsr}
    (h : auxVhostUnpackMsgCb (receive dgram) usrMsg = .ok (um, 0)) :
    vrpcRcv hostCbs usrMsg (some dgram) =
      .ok (0, if um.msgId = VMSG_DHT then [(VMSG_DHT, um)] else []) := by
  rw [vrpcRcv, vmsgerDsptch_ok h, ok_bind, hostCbs_filter]
  rfl

/-- A datagram without the magic leaves it to the local which callback runs. -/
theorem vrpcRcv_other (h : ¬ dgram.StartsDht) :
    vrpcRcv hostCbs usrMsg (some dgram) =
      .ok (0, if usrMsg.msgId = VMSG_DHT then [(VMSG_DHT, usrMsg)] else []) :=
  vrpcRcv_ok (if_neg fun hmagic => h (magic_iff.mp hmagic))

/-- The `vmsg_usr` of a datagram with the magic. -/
def dhtMsg (dgram : Datagram) : VmsgUsr :=
  ⟨some dgram.addr, some dgram.spec, dgram.msgId, (dgram.bytes.length : Int) - 8, some 8⟩

theorem vrpcRcv_dht (h : dgram.StartsDht) (hlen : 8 < dgram.bytes.length)
    (hid : 0 ≤ dgram.msgId) :
    vrpcRcv hostCbs usrMsg (some dgram) =
      .ok (0, if dgram.msgId = VMSG_DHT then [(VMSG_DHT, dhtMsg dgram)] else []) := by
  have hinit : vmsgUsrInit dgram.msgId dgram.addr dgram.spec ((dgram.bytes.length : Int) - 8) 8 =
      .ok (dhtMsg dgram) := by
    rw [vmsgUsrInit, if_neg (Int32.not_lt.mpr hid), if_neg (by omega)]
    rfl
  have hunpack : auxVhostUnpackMsgCb (receive dgram) usrMsg = .ok (dhtMsg dgram, 0) := by
    rw [auxVhostUnpackMsgCb]
    simp only [magic_iff.mpr h, if_true, msgId_eq hlen]
    exact congrArg (fun x => x >>= fun um => .ok (um, (0 : Int))) hinit
  exact vrpcRcv_ok hunpack

/-- A header without a payload, or a negative id, stops the daemon. -/
theorem vrpcRcv_assertion (h : dgram.StartsDht)
    (hbad : ¬ (8 < dgram.bytes.length ∧ 0 ≤ dgram.msgId)) :
    vrpcRcv hostCbs usrMsg (some dgram) = .error .assertion := by
  have hinit : ∀ id, (8 < dgram.bytes.length → id = dgram.msgId) →
      vmsgUsrInit id dgram.addr dgram.spec ((dgram.bytes.length : Int) - 8) 8 =
        .error .assertion := by
    intro id hid
    rw [vmsgUsrInit]
    split
    · rfl
    · rename_i hnonneg
      apply if_pos
      by_contra hpos
      have hlen : 8 < dgram.bytes.length := by omega
      rw [hid hlen] at hnonneg
      exact hbad ⟨hlen, Int32.not_lt.mp hnonneg⟩
  have hunpack : auxVhostUnpackMsgCb (receive dgram) usrMsg = .error .assertion := by
    rw [auxVhostUnpackMsgCb]
    simp only [magic_iff.mpr h, if_true]
    exact congrArg (fun x => x >>= fun um => .ok (um, (0 : Int))) (hinit _ msgId_eq)
  rw [vrpcRcv, vmsgerDsptch, hunpack]
  rfl

/-- For any datagram and whatever the local `usr_msg` held before: the handler runs as it should
exactly when a datagram with the magic has a payload and no negative id, and one without the magic
finds no `VMSG_DHT` left in the local, as nothing is written to it then. -/
theorem handled_iff :
    Handled usrMsg dgram ↔
      (dgram.StartsDht → 8 < dgram.bytes.length ∧ 0 ≤ dgram.msgId) ∧
        (¬ dgram.StartsDht → usrMsg.msgId ≠ VMSG_DHT) := by
  constructor
  · intro ⟨ret, calls, hrun, hcalls⟩
    refine ⟨fun h => ?_, fun h hstale => ?_⟩
    · by_contra hbad
      rw [vrpcRcv_assertion h hbad] at hrun
      cases hrun
    · rw [vrpcRcv_other h, if_pos hstale] at hrun
      rw [if_neg fun hdht => h hdht.1] at hcalls
      cases hrun
      cases hcalls
  · intro ⟨hmagic, hother⟩
    by_cases h : dgram.StartsDht
    · obtain ⟨hlen, hid⟩ := hmagic h
      refine ⟨_, _, vrpcRcv_dht h hlen hid, ?_⟩
      by_cases hdht : dgram.msgId = VMSG_DHT
      · rw [if_pos hdht, if_pos ⟨h, hdht, hlen⟩, List.map_singleton]
        have hnat : ((dgram.bytes.length : Int) - 8).toNat = dgram.bytes.length - 8 := by omega
        simp only [VmsgUsr.payload, dhtMsg, Option.map_some, hnat, payload_eq hlen]
      · rw [if_neg hdht, if_neg fun hall => hdht hall.2.1]
        rfl
    · refine ⟨_, _, vrpcRcv_other h, ?_⟩
      rw [if_neg (hother h), if_neg fun hdht => h hdht.1]
      rfl

/-- The header of a DHT message and nothing behind it. -/
def headerOnly : Datagram where
  addr := ⟨2, 0, 0, Block.zero 8⟩
  spec := ⟨2, 0, 0, Block.zero 8⟩
  bytes := putU32 DHT_MAGIC ++ putI32 VMSG_DHT
  fits := by decide

/-- A datagram without bytes, for the input at which the locals keep what was there before. -/
def emptyDatagram : Datagram where
  addr := ⟨2, 0, 0, Block.zero 8⟩
  spec := ⟨2, 0, 0, Block.zero 8⟩
  bytes := []
  fits := by decide

/-- What the dispatch of a DHT message leaves on the stack. -/
def staleUsr : VmsgUsr := ⟨none, none, VMSG_DHT, 100, none⟩

/-- The header stops the daemon; the empty datagram runs the handler on what the local holds. -/
theorem headerOnly_not_handled :
    ¬ Handled staleUsr headerOnly ∧ ¬ Handled staleUsr emptyDatagram := by
  refine ⟨fun ⟨ret, calls, hrun, _⟩ => ?_, fun ⟨ret, calls, hrun, hcalls⟩ => ?_⟩
  · rw [vrpcRcv_assertion (by decide) (by decide)] at hrun
    cases hrun
  · rw [vrpcRcv_other (by decide), if_pos (show staleUsr.msgId = VMSG_DHT from rfl)] at hrun
    rw [if_neg (by decide)] at hcalls
    cases hrun
    cases hcalls

end Handling

end Vdht.Rpc
