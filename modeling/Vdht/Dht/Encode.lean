import Vdht.Core.Encode
import Vdht.NodeId.Image

/-!
# DHT messages, written

`dht_enc_ops` of `vdht.c`. Every message is a dictionary with the nonce `t`, the kind of message
`y`, the name under `q` or `r` and the arguments under `a`; the encoders differ in the name and
in the arguments. A record is put into the tree as the first bytes of its struct.
-/

namespace Vdht.Dht

open Vdht.Core Lib NodeId

/-- The kinds of messages, without the marks for an unknown kind. -/
inductive DhtId where
  | ping
  | pingRsp
  | findNode
  | findNodeRsp
  | findClosestNodes
  | findClosestNodesRsp
  | reflex
  | reflexRsp
  | probe
  | probeRsp
  | postService
  | findService
  | findServiceRsp
deriving DecidableEq, Repr

/-- The names of the queries, in the order of the table. -/
def dhtIdQueryDesc : List (DhtId × String) :=
  [(.ping, "ping"), (.findNode, "find_node"), (.findClosestNodes, "find_closest_nodes"),
    (.reflex, "reflex"), (.probe, "probe"), (.postService, "post_service"),
    (.findService, "find_service")]

/-- The names of the responses, which are those of their queries; `post_service` has none. -/
def dhtIdRspDesc : List (DhtId × String) :=
  [(.pingRsp, "ping"), (.findNodeRsp, "find_node"),
    (.findClosestNodesRsp, "find_closest_nodes"), (.reflexRsp, "reflex"), (.probeRsp, "probe"),
    (.findServiceRsp, "find_service")]

/-- `vdht_buf_len`: the room for a message in a buffer of `vdht_buf_alloc`, behind the two words in
front of it. -/
def vdhtBufLen : Int := 4 * BUF_SZ - 4 - 4

/-- `be_add_keypair` for each key in turn; the values are built on the way. -/
def addKeypairs (dict : BeNode) : List (String × Res BeNode) → Res BeNode
  | [] => .ok dict
  | (key, node) :: rest =>
    match node with
    | .error e => .error e
    | .ok node =>
      match beAddKeypair dict (cstr key) node with
      | .error e => .error e
      | .ok dict => addKeypairs dict rest

/-- What the encoders have in common; `y` is `"q"` or `"r"` and also the key of the name. -/
def encDht (nonce : Vnonce) (y name : String) (args : List (String × Res BeNode)) (sz : Int) :
    Res (Option (List UInt8)) :=
  match addKeypairs beCreateDict
    [("t", beCreateBuf nonce.data), ("y", beCreateStr (cstr y)), (y, beCreateStr (cstr name)),
      ("a", addKeypairs beCreateDict args)] with
  | .error e => .error e
  | .ok dict => beEncode dict sz

/-- `be_create_buf(record, size)` for a struct with the given bytes. -/
def beCreateRecord (bytes : List UInt8) (size : Int) : Res BeNode :=
  if size ≤ 0 then .error .assertion
  else if bytes.length < size then .error .bounds
  else beCreateBuf (bytes.take size.toNat)

/-- The value under `node`: the bytes of the record, as many as it says it has. -/
def nodeRecord (n : VnodeInfo) : Res BeNode := beCreateRecord (vnodeInfoBytes n) (vnodeInfoSize n)

/-- The value under `service`: the bytes of the record, as many as it says it has. -/
def srvcRecord (s : VsrvcInfo) : Res BeNode := beCreateRecord (vsrvcInfoBytes s) (vsrvcInfoSize s)

/-- The loop that fills the list of nodes. -/
def addRecords (list : BeNode) : List VnodeInfo → Res BeNode
  | [] => .ok list
  | n :: ns =>
    match nodeRecord n with
    | .error e => .error e
    | .ok node =>
      match beAddList list node with
      | .error e => .error e
      | .ok list => addRecords list ns

/-- `_vdht_enc_ping`; `none` is the return of `-1`, here as in the other encoders. -/
def encPing (nonce : Vnonce) (srcId : Token) (sz : Int) : Res (Option (List UInt8)) :=
  encDht nonce "q" "ping" [("id", beCreateBuf srcId.data)] sz

/-- `_vdht_enc_ping_rsp`, with the record of the answering node. -/
def encPingRsp (nonce : Vnonce) (srcId : Token) (result : VnodeInfo) (sz : Int) :
    Res (Option (List UInt8)) :=
  encDht nonce "r" "ping" [("id", beCreateBuf srcId.data), ("node", nodeRecord result)] sz

/-- `_vdht_enc_find_node`, with the id that is looked for. -/
def encFindNode (nonce : Vnonce) (srcId targetId : Token) (sz : Int) : Res (Option (List UInt8)) :=
  encDht nonce "q" "find_node"
    [("id", beCreateBuf srcId.data), ("target", beCreateBuf targetId.data)] sz

/-- `_vdht_enc_find_node_rsp`, with the record that was found. -/
def encFindNodeRsp (nonce : Vnonce) (srcId : Token) (result : VnodeInfo) (sz : Int) :
    Res (Option (List UInt8)) :=
  encDht nonce "r" "find_node" [("id", beCreateBuf srcId.data), ("node", nodeRecord result)] sz

/-- `_vdht_enc_find_closest_nodes`, with the id whose neighbours are asked for. -/
def encFindClosestNodes (nonce : Vnonce) (srcId targetId : Token) (sz : Int) :
    Res (Option (List UInt8)) :=
  encDht nonce "q" "find_closest_nodes"
    [("id", beCreateBuf srcId.data), ("target", beCreateBuf targetId.data)] sz

/-- `_vdht_enc_find_closest_nodes_rsp`, with a list of records. -/
def encFindClosestNodesRsp (nonce : Vnonce) (srcId : Token) (closest : List VnodeInfo) (sz : Int) :
    Res (Option (List UInt8)) :=
  encDht nonce "r" "find_closest_nodes"
    [("id", beCreateBuf srcId.data), ("nodes", addRecords beCreateList closest)] sz

/-- `_vdht_enc_reflex` -/
def encReflex (nonce : Vnonce) (srcId : Token) (sz : Int) : Res (Option (List UInt8)) :=
  encDht nonce "q" "reflex" [("id", beCreateBuf srcId.data)] sz

/-- `_vdht_enc_reflex_rsp`, with the address that the query came from under the key `m`. -/
def encReflexRsp (nonce : Vnonce) (srcId : Token) (reflexiveAddr : VsockaddrIn) (sz : Int) :
    Res (Option (List UInt8)) :=
  encDht nonce "r" "reflex"
    [("id", beCreateBuf srcId.data), ("m", beCreateBuf (vsockaddrBytes reflexiveAddr))] sz

/-- `_vdht_enc_probe`, with the id that is to be reached. -/
def encProbe (nonce : Vnonce) (srcId destId : Token) (sz : Int) : Res (Option (List UInt8)) :=
  encDht nonce "q" "probe"
    [("id", beCreateBuf srcId.data), ("target", beCreateBuf destId.data)] sz

/-- `_vdht_enc_probe_rsp` -/
def encProbeRsp (nonce : Vnonce) (srcId : Token) (sz : Int) : Res (Option (List UInt8)) :=
  encDht nonce "r" "probe" [("id", beCreateBuf srcId.data)] sz

/-- `_vdht_enc_post_service`, with the record of the service. -/
def encPostService (nonce : Vnonce) (srcId : Token) (srvci : VsrvcInfo) (sz : Int) :
    Res (Option (List UInt8)) :=
  encDht nonce "q" "post_service"
    [("id", beCreateBuf srcId.data), ("service", srvcRecord srvci)] sz

/-- `_vdht_enc_find_service`, with the hash of the service. -/
def encFindService (nonce : Vnonce) (srcId srvcHash : Token) (sz : Int) :
    Res (Option (List UInt8)) :=
  encDht nonce "q" "find_service"
    [("id", beCreateBuf srcId.data), ("target", beCreateBuf srvcHash.data)] sz

/-- `_vdht_enc_find_service_rsp`, with the record that was found. -/
def encFindServiceRsp (nonce : Vnonce) (srcId : Token) (result : VsrvcInfo) (sz : Int) :
    Res (Option (List UInt8)) :=
  encDht nonce "r" "find_service"
    [("id", beCreateBuf srcId.data), ("service", srvcRecord result)] sz

end Vdht.Dht
