import Vdht.Core.Decode
import Vdht.Dht.Encode

/-!
# DHT messages, read

`dht_dec_ops` of `vdht.c`. A decoder looks its arguments up in the tree and copies their bytes
over the objects its caller passes; what those hold before the call is an argument here. A
string longer than the object, or a node of another type, leaves the object as it was, and the
decoder goes on. A missing entry is a NULL pointer, which fails an assertion.
-/

namespace Vdht.Dht

open Vdht.Core Lib NodeId

/-- `be_unpack_buf`, its result ignored. -/
def unpack {n : Nat} (node : Option BeNode) (buf : Block n) : Res (Block n) :=
  match node with
  | none => .error .assertion
  | some node => .ok ((beUnpackBuf node buf).getD buf)

/-- `be_find_node` in a part of the message that was looked up before; a part that is not there
fails its assertion. -/
def findNodeIn (dict : Option BeNode) (key : String) : Res (Option BeNode) :=
  match dict with
  | none => .error .assertion
  | some dict => .ok (beFindNode dict (cstr key))

/-- `node->val.s`, which is a string only in a string node. -/
def valS : Option BeNode → Res (List UInt8)
  | some (.str s) => .ok s.bytes
  | _ => .error .null

/-- The loop over a table of descriptions; `none` for `VDHT_UNKNOWN`. -/
def getIdByDesc (table : List (DhtId × String)) (desc : List UInt8) : Option DhtId :=
  (table.find? fun e => cText (cstr e.2) = cText desc).map (·.1)

/-- `vdht_get_queryId`: the kind of a query by its name. -/
def vdhtGetQueryId (desc : List UInt8) : Option DhtId := getIdByDesc dhtIdQueryDesc desc

/-- `vdht_get_rspId`: the kind of a response by the name of its query. -/
def vdhtGetRspId (desc : List UInt8) : Option DhtId := getIdByDesc dhtIdRspDesc desc

/-- `none` for a negative result and for `VDHT_UNKNOWN`, which `dec_begin` treats alike. -/
def auxUnpackDhtId (dict : BeNode) : Res (Option DhtId) :=
  match dict with
  | .dict _ => do
    let y ← valS (beFindNode dict (cstr "y"))
    if cText y = cstr "q" then
      let name ← valS (beFindNode dict (cstr "q"))
      .ok (vdhtGetQueryId name)
    else if cText y = cstr "r" then
      let name ← valS (beFindNode dict (cstr "r"))
      .ok (vdhtGetRspId name)
    else .ok none
  | _ => .ok none

/-- The kind of message and the tree, `none` for `-1`. -/
def decBegin (buf : List UInt8) (len : Int) : Res (Option (DhtId × BeNode)) :=
  if len = 0 then .error .assertion
  else
    match beDecode buf len with
    | .error e => .error e
    | .ok none => .ok none
    | .ok (some (dict, _)) =>
      match auxUnpackDhtId dict with
      | .error e => .error e
      | .ok none => .ok none
      | .ok (some id) => .ok (some (id, dict))

/-! ## Arguments -/

/-- The nonce and the source id, which most decoders read. -/
def decSrc (ctxt : BeNode) (nonce : Vnonce) (srcId : Token) : Res (Vnonce × Token) := do
  let nonce ← unpack (beFindNode ctxt (cstr "t")) nonce
  let node ← findNodeIn (beFindNode ctxt (cstr "a")) "id"
  let srcId ← unpack node srcId
  .ok (nonce, srcId)

/-- Nonce, source id and the argument under `key`. -/
def decSrcArg {n : Nat} (key : String) (ctxt : BeNode) (nonce : Vnonce) (srcId : Token)
    (buf : Block n) : Res (Vnonce × Token × Block n) := do
  let (nonce, srcId) ← decSrc ctxt nonce srcId
  let node ← findNodeIn (beFindNode ctxt (cstr "a")) key
  let buf ← unpack node buf
  .ok (nonce, srcId, buf)

/-- `_vdht_dec_ping`: the nonce and the id of the sender. What is not in the message leaves the
variable of the caller as it was, here as in the other decoders. -/
def decPing (ctxt : BeNode) (nonce : Vnonce) (srcId : Token) : Res (Vnonce × Token) :=
  decSrc ctxt nonce srcId

/-- The source id is not read. -/
def decPingRsp (ctxt : BeNode) (nonce : Vnonce) (result : Block RELAX_SIZE) :
    Res (Vnonce × Block RELAX_SIZE) := do
  let nonce ← unpack (beFindNode ctxt (cstr "t")) nonce
  let node ← findNodeIn (beFindNode ctxt (cstr "a")) "node"
  let result ← unpack node result
  .ok (nonce, result)

/-- `_vdht_dec_find_node`: the sender and the id that is looked for. -/
def decFindNode (ctxt : BeNode) (nonce : Vnonce) (srcId targetId : Token) :
    Res (Vnonce × Token × Token) :=
  decSrcArg "target" ctxt nonce srcId targetId

/-- `_vdht_dec_find_node_rsp`: the sender and the record of the node, which is copied into the block
of the caller. -/
def decFindNodeRsp (ctxt : BeNode) (nonce : Vnonce) (srcId : Token) (result : Block RELAX_SIZE) :
    Res (Vnonce × Token × Block RELAX_SIZE) :=
  decSrcArg "node" ctxt nonce srcId result

/-- `_vdht_dec_find_closest_nodes`: the sender and the id whose neighbours are asked for. -/
def decFindClosestNodes (ctxt : BeNode) (nonce : Vnonce) (srcId targetId : Token) :
    Res (Vnonce × Token × Token) :=
  decSrcArg "target" ctxt nonce srcId targetId

/-- The record of `vnodeInfo_relax_alloc` and `DECL_VNODE_RELAX`. -/
def nodeRelaxBlock : Block RELAX_SIZE :=
  ⟨vnodeInfoBytes vnodeInfoRelax, by
    rw [vnodeInfoBytes, length_recordBytes (length_vnodeInfoHead _)]
    rfl⟩

/-- The record of `DECL_VSRVC_RELAX`. -/
def srvcRelaxBlock : Block RELAX_SIZE :=
  ⟨vsrvcInfoBytes vsrvcInfoRelax, by
    rw [vsrvcInfoBytes, length_recordBytes (length_vsrvcInfoHead _)]
    rfl⟩

/-- The loop over the items of the list; each item goes into a record of its own. -/
def unpackNodes (l : List BeNode) : List (Block RELAX_SIZE) :=
  l.map fun node => (beUnpackBuf node nodeRelaxBlock).getD nodeRelaxBlock

/-- `tmp->val.l`, which is a list only in a list node. -/
def valL : Option BeNode → Res (List BeNode)
  | some (.list l) => .ok l
  | _ => .error .null

/-- `_vdht_dec_find_closest_nodes_rsp`: the records of the list are added behind those the caller
has already. -/
def decFindClosestNodesRsp (ctxt : BeNode) (nonce : Vnonce) (srcId : Token)
    (closest : List (Block RELAX_SIZE)) : Res (Vnonce × Token × List (Block RELAX_SIZE)) := do
  let (nonce, srcId) ← decSrc ctxt nonce srcId
  let node ← findNodeIn (beFindNode ctxt (cstr "a")) "nodes"
  let nodes ← valL node
  .ok (nonce, srcId, closest ++ unpackNodes nodes)

/-- `_vdht_dec_reflex`: the nonce and the id of the sender. -/
def decReflex (ctxt : BeNode) (nonce : Vnonce) (srcId : Token) : Res (Vnonce × Token) :=
  decSrc ctxt nonce srcId

/-- `_vdht_dec_reflex_rsp`: the sender and the 20 bytes of the address that it saw. -/
def decReflexRsp (ctxt : BeNode) (nonce : Vnonce) (srcId : Token) (reflexiveAddr : Block 20) :
    Res (Vnonce × Token × Block 20) :=
  decSrcArg "m" ctxt nonce srcId reflexiveAddr

/-- `_vdht_dec_probe`: the sender and the id that is to be reached. -/
def decProbe (ctxt : BeNode) (nonce : Vnonce) (srcId destId : Token) :
    Res (Vnonce × Token × Token) :=
  decSrcArg "target" ctxt nonce srcId destId

/-- `_vdht_dec_probe_rsp`: the nonce and the id of the sender. -/
def decProbeRsp (ctxt : BeNode) (nonce : Vnonce) (srcId : Token) : Res (Vnonce × Token) :=
  decSrc ctxt nonce srcId

/-- `_vdht_dec_post_service`: the sender and the record of the service, which is copied into the
block of the caller. -/
def decPostService (ctxt : BeNode) (nonce : Vnonce) (srcId : Token) (srvci : Block RELAX_SIZE) :
    Res (Vnonce × Token × Block RELAX_SIZE) :=
  decSrcArg "service" ctxt nonce srcId srvci

/-- `_vdht_dec_find_service`: the sender and the hash of the service. -/
def decFindService (ctxt : BeNode) (nonce : Vnonce) (srcId srvcHash : Token) :
    Res (Vnonce × Token × Token) :=
  decSrcArg "target" ctxt nonce srcId srvcHash

/-- `_vdht_dec_find_service_rsp`: the sender and the record of the service that was found. -/
def decFindServiceRsp (ctxt : BeNode) (nonce : Vnonce) (srcId : Token)
    (result : Block RELAX_SIZE) : Res (Vnonce × Token × Block RELAX_SIZE) :=
  decSrcArg "service" ctxt nonce srcId result

end Vdht.Dht
