import Vdht.Lsctl.Pack

/-!
# The control socket of the daemon

`vlsctl.c`. A handler reads its arguments out of the message and calls the application; what the
application answers is a parameter. The loop over the blocks of a message is written over the
handlers, which say how many bytes they consumed and which calls they made. It keeps the cursor of
the command table across blocks. `wraps` records whether the counter of remaining bytes went below
zero.
-/

namespace Vdht.Lsctl

open Lib NodeId

/-- The calls that a command of the control socket can lead to, with their arguments. -/
inductive AppCall where
  | startHost
  | stopHost
  | makeHostExit
  | dumpHostInfos
  | dumpCfg
  | joinWellknownNode (addr : SockaddrIn)
  | bogusQuery (qId : Int32) (addr : SockaddrIn)
  | postServiceSegment (hash : Token) (addr : SockaddrIn) (type : UInt32) (proto : Int32)
  | unpostServiceSegment (hash : Token) (addr : SockaddrIn)
  | unpostService (hash : Token)
  | findService (hash : Token)
  | probeService (hash : Token)
deriving DecidableEq

/-- What `vdhtapp` returns. For a query that is answered at once this includes packing and queueing
the reply. -/
abbrev App := AppCall → Int

/-- A return value with the calls made before. -/
abbrev Handled := Int × List AppCall

/-! ## Handlers -/

/-- The common end of the handlers: one call, whose failure is the handler's. -/
def callApp (app : App) (tsz : Nat) (call : AppCall) : Handled :=
  (if app call < 0 then -1 else tsz, [call])

/-- `_vlsctl_exec_cmd_host_up` -/
def execCmdHostUp (app : App) : Handled := callApp app 0 .startHost

/-- `_vlsctl_exec_cmd_host_down` -/
def execCmdHostDown (app : App) : Handled := callApp app 0 .stopHost

/-- The result of the call is ignored here and in the next two. -/
def execCmdHostExit : Handled := (0, [.makeHostExit])

/-- `_vlsctl_exec_cmd_host_dump`, which does not look at a return value. -/
def execCmdHostDump : Handled := (0, [.dumpHostInfos])

/-- `_vlsctl_exec_cmd_cfg_dump`, which does not look at a return value. -/
def execCmdCfgDump : Handled := (0, [.dumpCfg])

/-- The address in the 8 bytes at `off`; the family is skipped. -/
def auxLsctlUnpackAddr (d : List UInt8) (off len : Nat) : Res SockaddrIn :=
  if len = 0 then .error .assertion
  else do
    let port ← readU16 d (off + 2)
    let saddr ← readU32 d (off + 4)
    .ok (vsockaddrConvert2 (ntohl saddr) (ntohs port))

/-- `_aux_lsctl_unpack_vaddr`: port, address and type behind two bytes that are not read. -/
def auxLsctlUnpackVaddr (d : List UInt8) (off len : Nat) : Res VsockaddrIn :=
  if len = 0 then .error .assertion
  else do
    let port ← readU16 d (off + 2)
    let saddr ← readU32 d (off + 4)
    let type ← readU32 d (off + 8)
    .ok ⟨vsockaddrConvert2 (ntohl saddr) (ntohs port), type⟩

/-- `_vlsctl_exec_cmd_join_node`: the address is read and joined. -/
def execCmdJoinNode (app : App) (d : List UInt8) (off len : Nat) : Res Handled := do
  let addr ← auxLsctlUnpackAddr d off len
  .ok (callApp app 8 (.joinWellknownNode addr))

/-- `_vlsctl_exec_cmd_bogus_query`: the kind of the query is read, then the address it goes to. -/
def execCmdBogusQuery (app : App) (d : List UInt8) (off len : Nat) : Res Handled :=
  if len = 0 then .error .assertion
  else do
    let qId ← readI32 d off
    let addr ← auxLsctlUnpackAddr d (off + 4) (len - 4)
    .ok (callApp app 12 (.bogusQuery qId addr))

/-- The loop over the addresses of a service, which takes `step` bytes at a time: how far it got
and whether all calls succeeded. -/
def eachAddr {α : Type} (app : App) (unpack : Nat → Nat → Res α) (call : α → AppCall)
    (step off len : Nat) : Nat → Nat → Res (Nat × Bool × List AppCall)
  | 0, _ => .error .fuel
  | fuel + 1, tsz =>
    if len - tsz > 0 then do
      let addr ← unpack (off + tsz) (len - tsz)
      if app (call addr) < 0 then .ok (tsz, false, [call addr])
      else do
        let (tsz, done, calls) ← eachAddr app unpack call step off len fuel (tsz + step)
        .ok (tsz, done, call addr :: calls)
    else .ok (tsz, true, [])

/-- `_vlsctl_exec_cmd_post_service`: hash and protocol are read, and each address is posted when it
has been read, until a post fails. -/
def execCmdPostService (app : App) (d : List UInt8) (off len : Nat) : Res Handled :=
  if len = 0 then .error .assertion
  else do
    let hash ← readHash d off
    let proto ← readU32 d (off + VSRVCHASH_LEN)
    let (tsz, done, calls) ← eachAddr app (auxLsctlUnpackVaddr d)
      (fun a => .postServiceSegment hash a.addr a.type proto.toInt32) 12 off len (len + 1)
      (VSRVCHASH_LEN + 4)
    .ok (if done then tsz else -1, calls)

/-- Without an address the whole service is unposted. -/
def execCmdUnpostService (app : App) (d : List UInt8) (off len : Nat) : Res Handled :=
  if len = 0 then .error .assertion
  else do
    let hash ← readHash d off
    let (tsz, done, calls) ← eachAddr app (auxLsctlUnpackAddr d)
      (fun a => .unpostServiceSegment hash a) 8 off len (len + 1) VSRVCHASH_LEN
    if done = false then .ok (-1, calls)
    else if tsz ≤ VSRVCHASH_LEN then .ok (callApp app tsz (.unpostService hash))
    else .ok (tsz, calls)

/-- `_vlsctl_exec_cmd_find_service` as far as the call of the application. -/
def execCmdFindService (app : App) (d : List UInt8) (off len : Nat) : Res Handled :=
  if len = 0 then .error .assertion
  else do
    let hash ← readHash d off
    .ok (callApp app VSRVCHASH_LEN (.findService hash))

/-- `_vlsctl_exec_cmd_probe_service` as far as the call of the application. -/
def execCmdProbeService (app : App) (d : List UInt8) (off len : Nat) : Res Handled :=
  if len = 0 then .error .assertion
  else do
    let hash ← readHash d off
    .ok (callApp app VSRVCHASH_LEN (.probeService hash))

/-- The handler of a command in `lsctl_cmds`, on the content at `off`. -/
def execCmd (app : App) (d : List UInt8) (cmd : VlsctlCmd) (off : Nat) (clen : UInt16) :
    Res Handled :=
  match cmd with
  | .hostUp => .ok (execCmdHostUp app)
  | .hostDown => .ok (execCmdHostDown app)
  | .hostExit => .ok execCmdHostExit
  | .hostDump => .ok execCmdHostDump
  | .cfgDump => .ok execCmdCfgDump
  | .joinNode => execCmdJoinNode app d off clen.toNat
  | .bogusQuery => execCmdBogusQuery app d off clen.toNat
  | .postService => execCmdPostService app d off clen.toNat
  | .unpostService => execCmdUnpostService app d off clen.toNat
  | .findService => execCmdFindService app d off clen.toNat
  | .probeService => execCmdProbeService app d off clen.toNat

/-! ## The message -/

section Unpack

variable {τ : Type}

/-- A handler of each command: its return value and what it did. -/
abbrev Exec (τ : Type) := VlsctlCmd → Nat → UInt16 → Res (Int × List τ)

/-- What unpacking a message has come to: the return value, the number of bytes, and what the
handlers were given and did. -/
structure Unpacked (τ : Type) where
  ret : Int
  tsz : Nat
  /-- the counter of remaining bytes went below zero -/
  wraps : Bool
  /-- the handled blocks: command, offset of the content, its length -/
  dispatched : List (VlsctlCmd × Nat × UInt16)
  calls : List τ
deriving DecidableEq

/-- A block handled, or skipped, in front of the rest of the run. -/
def Unpacked.after (u : Unpacked τ) (wraps : Bool) (block : List (VlsctlCmd × Nat × UInt16))
    (calls : List τ) : Unpacked τ :=
  { u with
    wraps := wraps || u.wraps
    dispatched := block ++ u.dispatched
    calls := calls ++ u.calls }

/-- The inner loop leaves the cursor `desc` on the command it finds, else at the end. -/
def findCmd (desc : List VlsctlCmd) (cid : UInt16) : List VlsctlCmd :=
  desc.dropWhile fun cmd => cmd.id ≠ cid

/-- The loop over the blocks of a message and the table of the commands; the table is gone through
once, whatever the order of the blocks. The fuel stands for its turns. -/
def unpackLoop (exec : Exec τ) (d : List UInt8) :
    Nat → List VlsctlCmd → Nat → UInt16 → Res (Unpacked τ)
  | 0, _, _, _ => .error .fuel
  | fuel + 1, desc, tsz, blen =>
    if blen = 0 then .ok ⟨0, tsz, false, [], []⟩
    else do
      let cid ← readU16 d tsz
      let clen ← readU16 d (tsz + 2)
      match findCmd desc cid with
      | [] =>
        let u ← unpackLoop exec d fuel [] (tsz + 4) (blen - 2 - 2)
        .ok (u.after (blen.toNat < 4) [] [])
      | cmd :: desc =>
        let (ret, calls) ← exec cmd (tsz + 4) clen
        if ret < 0 then
          .ok ⟨-1, tsz + 4, blen.toNat < 4, [(cmd, tsz + 4, clen)], calls⟩
        else
          let u ← unpackLoop exec d fuel (cmd :: desc) (tsz + 4 + ret.toNat)
            (blen - 2 - 2 - .ofNat ret.toNat)
          .ok (u.after (blen.toNat < 4 + ret.toNat) [(cmd, tsz + 4, clen)] calls)

/-- `_vlsctl_unpack_cmd`; every round reads four bytes more, so the bound is not reached. The last
assertion is what ends the loop. -/
def vlsctlUnpackCmd (exec : Exec τ) (d : List UInt8) : Res (Unpacked τ) := do
  let blen ← readU16 d 2
  let magic ← readU32 d 4
  if magic ≠ VLSCTL_MAGIC then .ok ⟨-1, 8, false, [], []⟩
  else unpackLoop exec d (d.length + 1) lsctlCmds 8 blen

end Unpack

/-! ## Replies -/

/-- `find_service_rsp_args` and `probe_service_rsp_args` -/
structure ServiceRspArgs where
  total : Nat
  hash : Token
  proto : Int32
  index : Nat
  addrs : AddrSlots VsockaddrIn

/-- The answer to a query: its command and what the callbacks have collected for it. -/
structure VlsctlRspArgs where
  cmd : VlsctlCmd
  args : ServiceRspArgs

/-- The arguments as a handler prepares them. -/
def rspArgsInit (cmd : VlsctlCmd) (hash : Token) : VlsctlRspArgs where
  cmd := cmd
  args := ⟨0, hash, 0, 0, .replicate zeroAddr⟩

/-- `_aux_vlsctl_number_addr_cb1` and `_aux_vlsctl_number_addr_cb2`: the number of addresses and the
protocol are noted. -/
def auxVlsctlNumberAddrCb (args : ServiceRspArgs) (naddrs : Nat) (proto : Int32) :
    ServiceRspArgs :=
  { args with total := naddrs, proto := proto }

/-- `_aux_vlsctl_iterate_addr_cb1` and `_aux_vlsctl_iterate_addr_cb2`: the address is put into the
next place, of which there are twelve. -/
def auxVlsctlIterateAddrCb (args : ServiceRspArgs) (addr : SockaddrIn) (type : UInt32) :
    Res ServiceRspArgs := do
  let addrs ← args.addrs.set args.index ⟨addr, type⟩
  .ok { args with addrs := addrs, index := args.index + 1 }

/-- The callbacks for the addresses of a service. -/
def iterateAddrs (args : ServiceRspArgs) : List VsockaddrIn → Res ServiceRspArgs
  | [] => .ok args
  | a :: addrs => do
    let args ← auxVlsctlIterateAddrCb args a.addr a.type
    iterateAddrs args addrs

/-- What the callbacks leave of a query answered with these addresses. -/
def answer (cmd : VlsctlCmd) (hash : Token) (proto : Int32) (addrs : List VsockaddrIn) :
    Res VlsctlRspArgs := do
  let rsp := rspArgsInit cmd hash
  let args ← iterateAddrs (auxVlsctlNumberAddrCb rsp.args addrs.length proto) addrs
  .ok { rsp with args := args }

/-- Only the low byte of the family is sent. -/
def auxVlsctlPackVaddr (addr : VsockaddrIn) (b : OutBuf) : Res OutBuf :=
  assertRoom b do
    let b ← put [0] b
    let b ← put [addr.addr.sin_family.toUInt8] b
    let b ← put (putU16 addr.addr.sin_port) b
    let b ← put (putU32 addr.addr.sin_addr) b
    put (putU32 addr.type) b

/-- The common part of the two pack functions. -/
def packServiceRsp (cmd : VlsctlCmd) (args : ServiceRspArgs) (b : OutBuf) : Res OutBuf :=
  assertRoom b (packBlock cmd.id (fun b => do
    let b ← put args.hash.data b
    let b ← put (putI32 args.proto) b
    packSlots auxVlsctlPackVaddr args.addrs 0 args.total b) b)

/-- `_vlsctl_pack_find_service_rsp` -/
def packFindServiceRsp : ServiceRspArgs → OutBuf → Res OutBuf := packServiceRsp .findService

/-- `_vlsctl_pack_probe_service_rsp` -/
def packProbeServiceRsp : ServiceRspArgs → OutBuf → Res OutBuf := packServiceRsp .probeService

/-- `_vlsctl_pack_cmd` into the buffer `buf`: the bytes it has packed, `none` for `-1`. -/
def vlsctlPackCmd (rsp : VlsctlRspArgs) (buf : List UInt8) : Res (Option (List UInt8)) :=
  let b : OutBuf := ⟨[], buf⟩
  match rsp.cmd with
  | .findService => do
    let b ← assertRoom b (packMessage vlsctlRspSucc.toUInt8 (packFindServiceRsp rsp.args) b)
    .ok (some b.done)
  | .probeService => do
    let b ← assertRoom b (packMessage vlsctlRspSucc.toUInt8 (packProbeServiceRsp rsp.args) b)
    .ok (some b.done)
  | _ => .ok none

end Vdht.Lsctl
