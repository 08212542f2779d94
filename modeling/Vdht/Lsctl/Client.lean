import Vdht.Lsctl.Pack

/-!
# The control client

`vlsctlc.c`: a command is bound with its arguments, packed into a message, and a reply is
unpacked and handed out by the matching unbind operation. `rsp_args` is one record because its two
members have the same fields. The members of `args` are kept apart; each is read only by the pack
function of the command whose bind operation fills it.
-/

namespace Vdht.Lsctl

open Lib NodeId

/-- The arguments of `bogus_query`: the kind of the query and where it is to go. -/
structure BogusQueryArgs where
  queryId : Int32
  addr : SockaddrIn

/-- The arguments of `post_service`, with room for twelve addresses, of which the first `naddrs` are
given. -/
structure PostServiceArgs where
  hash : Token
  proto : Int32
  naddrs : Nat
  addrs : AddrSlots VsockaddrIn

/-- The arguments of `unpost_service`; no address is given when the whole service is meant. -/
structure UnpostServiceArgs where
  hash : Token
  naddrs : Nat
  addrs : AddrSlots SockaddrIn

/-- The arguments of all commands, of which those of the bound command are read. -/
structure VlsctlcArgs where
  joinNode : SockaddrIn
  bogusQuery : BogusQueryArgs
  postService : PostServiceArgs
  unpostService : UnpostServiceArgs
  findService : Token
  probeService : Token

/-- What the answer to a query has brought, with room for twelve addresses. -/
structure VlsctlcRspArgs where
  num : Nat
  hash : Token
  proto : Int32
  addrs : AddrSlots VsockaddrIn

/-- `struct vlsctlc`: the type of the message, the command that is bound, if any, its arguments, and
what an answer has brought. -/
structure Vlsctlc where
  type : UInt16
  boundCmd : UInt16
  args : VlsctlcArgs
  rspArgs : VlsctlcRspArgs

/-- `vlsctlc_init` -/
def vlsctlcInit : Vlsctlc where
  type := vlsctlRaw
  boundCmd := 0
  args :=
    { joinNode := zeroAddr.addr
      bogusQuery := ⟨0, zeroAddr.addr⟩
      postService := ⟨Block.zero VTOKEN_LEN, 0, 0, .replicate zeroAddr⟩
      unpostService := ⟨Block.zero VTOKEN_LEN, 0, .replicate zeroAddr.addr⟩
      findService := Block.zero VTOKEN_LEN
      probeService := Block.zero VTOKEN_LEN }
  rspArgs := ⟨0, Block.zero VTOKEN_LEN, 0, .replicate zeroAddr⟩

/-! ## Binding a command -/

/-- The common part of the bind operations; only one command can be bound. -/
def bindCmd (c : Vlsctlc) (cmd : VlsctlCmd) (type : UInt16) (args : VlsctlcArgs) :
    Vlsctlc × Int :=
  if c.boundCmd > 0 then (c, -1)
  else ({ c with boundCmd := cmd.id, type := type, args := args }, 0)

/-- `_vlsctlc_bind_cmd_host_up` -/
def bindCmdHostUp (c : Vlsctlc) : Vlsctlc × Int := bindCmd c .hostUp vlsctlCmdType c.args

/-- `_vlsctlc_bind_cmd_host_down` -/
def bindCmdHostDown (c : Vlsctlc) : Vlsctlc × Int := bindCmd c .hostDown vlsctlCmdType c.args

/-- `_vlsctlc_bind_cmd_host_exit` -/
def bindCmdHostExit (c : Vlsctlc) : Vlsctlc × Int := bindCmd c .hostExit vlsctlCmdType c.args

/-- `_vlsctlc_bind_cmd_host_dump` -/
def bindCmdHostDump (c : Vlsctlc) : Vlsctlc × Int := bindCmd c .hostDump vlsctlCmdType c.args

/-- `_vlsctlc_bind_cmd_cfg_dump` -/
def bindCmdCfgDump (c : Vlsctlc) : Vlsctlc × Int := bindCmd c .cfgDump vlsctlCmdType c.args

/-- `_vlsctlc_bind_cmd_join_node`, with the address to join. -/
def bindCmdJoinNode (c : Vlsctlc) (addr : SockaddrIn) : Vlsctlc × Int :=
  bindCmd c .joinNode vlsctlCmdType { c.args with joinNode := addr }

/-- `_vlsctlc_bind_cmd_bogus_query`, with the kind of the query and the address it goes to. -/
def bindCmdBogusQuery (c : Vlsctlc) (queryId : Int32) (addr : SockaddrIn) : Vlsctlc × Int :=
  bindCmd c .bogusQuery vlsctlCmdType { c.args with bogusQuery := ⟨queryId, addr⟩ }

/-- The assertion reads `!num > 0`. -/
def bindCmdPostService (c : Vlsctlc) (hash : Token) (addrs : List VsockaddrIn) (proto : Int32) :
    Res (Vlsctlc × Int) :=
  if addrs.length = 0 then .error .assertion
  else if c.boundCmd > 0 then .ok (c, -1)
  else do
    let slots ← c.args.postService.addrs.fill 0 addrs
    .ok (bindCmd c .postService vlsctlCmdType
      { c.args with postService := ⟨hash, proto, addrs.length, slots⟩ })

/-- `_vlsctlc_bind_cmd_unpost_service`: the addresses are copied into the twelve places, which a
longer list would leave; a client with a bound command refuses. -/
def bindCmdUnpostService (c : Vlsctlc) (hash : Token) (addrs : List SockaddrIn) :
    Res (Vlsctlc × Int) :=
  if c.boundCmd > 0 then .ok (c, -1)
  else do
    let slots ← c.args.unpostService.addrs.fill 0 addrs
    .ok (bindCmd c .unpostService vlsctlCmdType
      { c.args with unpostService := ⟨hash, addrs.length, slots⟩ })

/-- `_vlsctlc_bind_cmd_find_service`: a query, to which an answer comes. -/
def bindCmdFindService (c : Vlsctlc) (hash : Token) : Vlsctlc × Int :=
  bindCmd c .findService vlsctlReqType { c.args with findService := hash }

/-- `_vlsctlc_bind_cmd_probe_service`: a query, to which an answer comes. -/
def bindCmdProbeService (c : Vlsctlc) (hash : Token) : Vlsctlc × Int :=
  bindCmd c .probeService vlsctlReqType { c.args with probeService := hash }

/-! ## Packing the bound command -/

/-- The two bytes of the family are skipped. -/
def auxVlsctlcPackAddr (addr : SockaddrIn) (b : OutBuf) : Res OutBuf :=
  assertRoom b do
    let b ← pass 2 b
    let b ← put (putU16 addr.sin_port) b
    put (putU32 addr.sin_addr) b

/-- `_aux_vlsctlc_pack_vaddr`: port, address and type behind two bytes that are left as they are. -/
def auxVlsctlcPackVaddr (addr : VsockaddrIn) (b : OutBuf) : Res OutBuf :=
  assertRoom b do
    let b ← pass 2 b
    let b ← put (putU16 addr.addr.sin_port) b
    let b ← put (putU32 addr.addr.sin_addr) b
    put (putU32 addr.type) b

/-- The common part of the pack functions: nothing is packed unless `cmd` is bound. -/
def packBound (c : Vlsctlc) (cmd : VlsctlCmd) (content : OutBuf → Res OutBuf) (b : OutBuf) :
    Res OutBuf :=
  assertRoom b (if c.boundCmd ≠ cmd.id then .ok b else packBlock c.boundCmd content b)

/-- `_vlsctlc_pack_cmd_host_up` -/
def packCmdHostUp (c : Vlsctlc) : OutBuf → Res OutBuf := packBound c .hostUp .ok

/-- `_vlsctlc_pack_cmd_host_down` -/
def packCmdHostDown (c : Vlsctlc) : OutBuf → Res OutBuf := packBound c .hostDown .ok

/-- `_vlsctlc_pack_cmd_host_exit` -/
def packCmdHostExit (c : Vlsctlc) : OutBuf → Res OutBuf := packBound c .hostExit .ok

/-- `_vlsctlc_pack_cmd_host_dump` -/
def packCmdHostDump (c : Vlsctlc) : OutBuf → Res OutBuf := packBound c .hostDump .ok

/-- `_vlsctlc_pack_cmd_cfg_dump` -/
def packCmdCfgDump (c : Vlsctlc) : OutBuf → Res OutBuf := packBound c .cfgDump .ok

/-- `_vlsctlc_pack_cmd_join_node`: the address. -/
def packCmdJoinNode (c : Vlsctlc) : OutBuf → Res OutBuf :=
  packBound c .joinNode (auxVlsctlcPackAddr c.args.joinNode)

/-- `_vlsctlc_pack_cmd_bogus_query`: the kind of the query and the address. -/
def packCmdBogusQuery (c : Vlsctlc) : OutBuf → Res OutBuf :=
  packBound c .bogusQuery fun b => do
    let b ← put (putI32 c.args.bogusQuery.queryId) b
    auxVlsctlcPackAddr c.args.bogusQuery.addr b

/-- `_vlsctlc_pack_cmd_post_service`: hash, protocol and the addresses with their types. -/
def packCmdPostService (c : Vlsctlc) : OutBuf → Res OutBuf :=
  let args := c.args.postService
  packBound c .postService fun b => do
    let b ← put args.hash.data b
    let b ← put (putI32 args.proto) b
    packSlots auxVlsctlcPackVaddr args.addrs 0 args.naddrs b

/-- `_vlsctlc_pack_cmd_unpost_service`: the hash and the addresses, if any. -/
def packCmdUnpostService (c : Vlsctlc) : OutBuf → Res OutBuf :=
  let args := c.args.unpostService
  packBound c .unpostService fun b => do
    let b ← put args.hash.data b
    packSlots auxVlsctlcPackAddr args.addrs 0 args.naddrs b

/-- `_vlsctlc_pack_cmd_find_service`: the hash. -/
def packCmdFindService (c : Vlsctlc) : OutBuf → Res OutBuf :=
  packBound c .findService (put c.args.findService.data)

/-- `_vlsctlc_pack_cmd_probe_service`: the hash. -/
def packCmdProbeService (c : Vlsctlc) : OutBuf → Res OutBuf :=
  packBound c .probeService (put c.args.probeService.data)

/-- The function of a command in `lsctlc_pack_cmd_desc`. -/
def packCmdOf (c : Vlsctlc) : VlsctlCmd → OutBuf → Res OutBuf
  | .hostUp => packCmdHostUp c
  | .hostDown => packCmdHostDown c
  | .hostExit => packCmdHostExit c
  | .hostDump => packCmdHostDump c
  | .cfgDump => packCmdCfgDump c
  | .joinNode => packCmdJoinNode c
  | .bogusQuery => packCmdBogusQuery c
  | .postService => packCmdPostService c
  | .unpostService => packCmdUnpostService c
  | .findService => packCmdFindService c
  | .probeService => packCmdProbeService c

/-- The loop over the table of the commands, each of which packs itself if it is bound. -/
def packCmdDesc (c : Vlsctlc) : List VlsctlCmd → OutBuf → Res OutBuf
  | [], b => .ok b
  | cmd :: desc, b => do
    let b ← packCmdOf c cmd b
    packCmdDesc c desc b

/-- `_vlsctlc_pack_cmd` into the buffer `buf`; the bytes it has packed. -/
def vlsctlcPackCmd (c : Vlsctlc) (buf : List UInt8) : Res (List UInt8) :=
  let b : OutBuf := ⟨[], buf⟩
  do
    let b ← assertRoom b (packMessage c.type.toUInt8 (packCmdDesc c lsctlCmds) b)
    .ok b.done

/-! ## Unpacking a reply -/

/-- `_aux_vlsctlc_unpack_vaddr`: the family is the second byte, then come port, address and type. -/
def auxVlsctlcUnpackVaddr (d : List UInt8) (off len : Nat) : Res VsockaddrIn :=
  if len = 0 then .error .assertion
  else do
    let family ← readU8 d (off + 1)
    let port ← readU16 d (off + 2)
    let saddr ← readU32 d (off + 4)
    let type ← readU32 d (off + 8)
    .ok ⟨⟨family.toUInt16, port, saddr, Block.zero 8⟩, type⟩

/-- The loop over the addresses of a reply, each stored behind the last. -/
def unpackVaddrs (d : List UInt8) (off len : Nat) :
    Nat → Nat → Nat → AddrSlots VsockaddrIn → Res (Nat × Nat × AddrSlots VsockaddrIn)
  | 0, _, _, _ => .error .fuel
  | fuel + 1, tsz, i, addrs =>
    if len - tsz > 0 then do
      let addr ← auxVlsctlcUnpackVaddr d (off + tsz) (len - tsz)
      let addrs ← addrs.set i addr
      unpackVaddrs d off len fuel (tsz + 12) (i + 1) addrs
    else .ok (tsz, i, addrs)

/-- The common part of the two unpack functions, which leave a block of another command alone. -/
def unpackServiceRsp (cmd : VlsctlCmd) (c : Vlsctlc) (d : List UInt8) (off len : Nat) :
    Res (Vlsctlc × Nat) :=
  if len = 0 then .error .assertion
  else if c.boundCmd ≠ cmd.id then .ok (c, 0)
  else do
    let hash ← readHash d off
    let proto ← readI32 d (off + VSRVCHASH_LEN)
    let (tsz, num, addrs) ←
      unpackVaddrs d off len (len + 1) (VSRVCHASH_LEN + 4) 0 c.rspArgs.addrs
    .ok ({ c with rspArgs := ⟨num, hash, proto, addrs⟩ }, tsz)

/-- `_vlsctlc_unpack_cmd_find_service_rsp` -/
def unpackCmdFindServiceRsp : Vlsctlc → List UInt8 → Nat → Nat → Res (Vlsctlc × Nat) :=
  unpackServiceRsp .findService

/-- `_vlsctlc_unpack_cmd_probe_service_rsp` -/
def unpackCmdProbeServiceRsp : Vlsctlc → List UInt8 → Nat → Nat → Res (Vlsctlc × Nat) :=
  unpackServiceRsp .probeService

/-- `lsctlc_unpack_cmd_desc` -/
def unpackCmdDesc : List (Vlsctlc → List UInt8 → Nat → Nat → Res (Vlsctlc × Nat)) :=
  [unpackCmdFindServiceRsp, unpackCmdProbeServiceRsp]

/-- The first function of the table that takes something. -/
def unpackFirst (c : Vlsctlc) (d : List UInt8) (off len : Nat) :
    List (Vlsctlc → List UInt8 → Nat → Nat → Res (Vlsctlc × Nat)) → Res (Vlsctlc × Nat)
  | [] => .ok (c, 0)
  | cmd :: desc => do
    let (c, ret) ← cmd c d off len
    if ret > 0 then .ok (c, ret) else unpackFirst c d off len desc

/-- The inner loop: until the content of the block is taken. -/
def unpackContent (d : List UInt8) : Nat → Vlsctlc → Nat → Nat → Res (Vlsctlc × Nat)
  | 0, _, _, _ => .error .fuel
  | fuel + 1, c, csz, cmdLen =>
    if cmdLen > 0 then do
      let (c, ret) ← unpackFirst c d (8 + csz) cmdLen unpackCmdDesc
      unpackContent d fuel c (csz + ret) (cmdLen - ret)
    else .ok (c, csz)

/-- The outer loop; `tsz` is always eight ahead of `csz`. -/
def unpackReply (d : List UInt8) (bsz : Nat) : Nat → Vlsctlc → Nat → Res (Vlsctlc × Int)
  | 0, _, _ => .error .fuel
  | fuel + 1, c, csz =>
    if bsz - csz > 0 then do
      let cmdId ← readU16 d (8 + csz)
      let cmdLen ← readU16 d (8 + csz + 2)
      let (c, csz) ← unpackContent d fuel { c with boundCmd := cmdId } (csz + 4) cmdLen.toNat
      unpackReply d bsz fuel c csz
    else .ok (c, 0)

/-- `_vlsctlc_unpack_cmd`, whose loops run for at most `fuel` rounds. The assertion reads
`!len > 0`. -/
def vlsctlcUnpackCmd (fuel : Nat) (c : Vlsctlc) (d : List UInt8) : Res (Vlsctlc × Int) :=
  if d.length = 0 then .error .assertion
  else do
    let type ← readU8 d 1
    let c := { c with type := type.toUInt16 }
    let bsz ← readU16 d 2
    let magic ← readU32 d 4
    if magic ≠ VLSCTL_MAGIC then .ok (c, -1) else unpackReply d bsz.toNat fuel c 0

/-! ## Handing out a reply -/

/-- The common part of the unbind operations: the hash, the addresses and the protocol, `none` for
`-1`. -/
def unbindCmd (c : Vlsctlc) (cmd : VlsctlCmd) : Res (Option (Token × List VsockaddrIn × Int32)) :=
  if c.boundCmd ≠ cmd.id then .ok none
  else if c.type = vlsctlRspErr then .ok none
  else do
    let addrs ← c.rspArgs.addrs.gather 0 c.rspArgs.num
    .ok (some (c.rspArgs.hash, addrs, c.rspArgs.proto))

/-- `_vlsctlc_unbind_cmd_find_service` -/
def unbindCmdFindService (c : Vlsctlc) : Res (Option (Token × List VsockaddrIn × Int32)) :=
  unbindCmd c .findService

/-- `_vlsctlc_unbind_cmd_probe_service` -/
def unbindCmdProbeService (c : Vlsctlc) : Res (Option (Token × List VsockaddrIn × Int32)) :=
  unbindCmd c .probeService

end Vdht.Lsctl
