import Vdht.Dht.Message

/-!
# Messages are read back

For each of the thirteen kinds: the encoder fits the message into the buffer, `dec_begin`
recognises its kind, and the decoder of that kind gives the arguments back. A record comes back
with its header and its used addresses; the room behind them is the receiver's.
-/

namespace Vdht.Dht

open Vdht.Core Lib NodeId

/-- What a message says: its kind and the arguments that its encoder is given. -/
inductive DhtMsg where
  | ping (nonce : Vnonce) (srcId : Token)
  | pingRsp (nonce : Vnonce) (srcId : Token) (result : VnodeInfo)
  | findNode (nonce : Vnonce) (srcId targetId : Token)
  | findNodeRsp (nonce : Vnonce) (srcId : Token) (result : VnodeInfo)
  | findClosestNodes (nonce : Vnonce) (srcId targetId : Token)
  | findClosestNodesRsp (nonce : Vnonce) (srcId : Token) (closest : List VnodeInfo)
  | reflex (nonce : Vnonce) (srcId : Token)
  | reflexRsp (nonce : Vnonce) (srcId : Token) (reflexiveAddr : VsockaddrIn)
  | probe (nonce : Vnonce) (srcId destId : Token)
  | probeRsp (nonce : Vnonce) (srcId : Token)
  | postService (nonce : Vnonce) (srcId : Token) (srvci : VsrvcInfo)
  | findService (nonce : Vnonce) (srcId srvcHash : Token)
  | findServiceRsp (nonce : Vnonce) (srcId : Token) (result : VsrvcInfo)

namespace DhtMsg

/-- `dht_enc_ops`, with the buffer the senders use. -/
def encode : DhtMsg → Res (Option (List UInt8))
  | ping nonce srcId => encPing nonce srcId vdhtBufLen
  | pingRsp nonce srcId result => encPingRsp nonce srcId result vdhtBufLen
  | findNode nonce srcId targetId => encFindNode nonce srcId targetId vdhtBufLen
  | findNodeRsp nonce srcId result => encFindNodeRsp nonce srcId result vdhtBufLen
  | findClosestNodes nonce srcId targetId => encFindClosestNodes nonce srcId targetId vdhtBufLen
  | findClosestNodesRsp nonce srcId closest =>
    encFindClosestNodesRsp nonce srcId closest vdhtBufLen
  | reflex nonce srcId => encReflex nonce srcId vdhtBufLen
  | reflexRsp nonce srcId reflexiveAddr => encReflexRsp nonce srcId reflexiveAddr vdhtBufLen
  | probe nonce srcId destId => encProbe nonce srcId destId vdhtBufLen
  | probeRsp nonce srcId => encProbeRsp nonce srcId vdhtBufLen
  | postService nonce srcId srvci => encPostService nonce srcId srvci vdhtBufLen
  | findService nonce srcId srvcHash => encFindService nonce srcId srvcHash vdhtBufLen
  | findServiceRsp nonce srcId result => encFindServiceRsp nonce srcId result vdhtBufLen

def id : DhtMsg → DhtId
  | ping .. => .ping
  | pingRsp .. => .pingRsp
  | findNode .. => .findNode
  | findNodeRsp .. => .findNodeRsp
  | findClosestNodes .. => .findClosestNodes
  | findClosestNodesRsp .. => .findClosestNodesRsp
  | reflex .. => .reflex
  | reflexRsp .. => .reflexRsp
  | probe .. => .probe
  | probeRsp .. => .probeRsp
  | postService .. => .postService
  | findService .. => .findService
  | findServiceRsp .. => .findServiceRsp

/-- The records of the message can be sent, and at most eight nodes are. -/
def Valid : DhtMsg → Prop
  | pingRsp _ _ result => result.Sendable
  | findNodeRsp _ _ result => result.Sendable
  | findClosestNodesRsp _ _ closest =>
    1 ≤ closest.length ∧ closest.length ≤ 8 ∧ ∀ n ∈ closest, n.Sendable
  | postService _ _ srvci => srvci.Sendable
  | findServiceRsp _ _ result => result.Sendable
  | _ => True

/-- The decoder of this kind gives the arguments back, whatever its caller's objects held. -/
def ReadFrom (ctxt : BeNode) : DhtMsg → Prop
  | ping nonce srcId => ∀ n s, decPing ctxt n s = .ok (nonce, srcId)
  | pingRsp nonce _ result =>
    ∀ n r, ∃ r', decPingRsp ctxt n r = .ok (nonce, r') ∧
      SameNode (vnodeInfoOfBytes r'.data) result
  | findNode nonce srcId targetId =>
    ∀ n s t, decFindNode ctxt n s t = .ok (nonce, srcId, targetId)
  | findNodeRsp nonce srcId result =>
    ∀ n s r, ∃ r', decFindNodeRsp ctxt n s r = .ok (nonce, srcId, r') ∧
      SameNode (vnodeInfoOfBytes r'.data) result
  | findClosestNodes nonce srcId targetId =>
    ∀ n s t, decFindClosestNodes ctxt n s t = .ok (nonce, srcId, targetId)
  | findClosestNodesRsp nonce srcId closest =>
    ∀ n s, ∃ rs, decFindClosestNodesRsp ctxt n s [] = .ok (nonce, srcId, rs) ∧
      List.Forall₂ (fun r c => SameNode (vnodeInfoOfBytes r.data) c) rs closest
  | reflex nonce srcId => ∀ n s, decReflex ctxt n s = .ok (nonce, srcId)
  | reflexRsp nonce srcId reflexiveAddr =>
    ∀ n s a, ∃ a', decReflexRsp ctxt n s a = .ok (nonce, srcId, a') ∧
      vsockaddrOfBytes a'.data = reflexiveAddr
  | probe nonce srcId destId => ∀ n s t, decProbe ctxt n s t = .ok (nonce, srcId, destId)
  | probeRsp nonce srcId => ∀ n s, decProbeRsp ctxt n s = .ok (nonce, srcId)
  | postService nonce srcId srvci =>
    ∀ n s r, ∃ r', decPostService ctxt n s r = .ok (nonce, srcId, r') ∧
      SameSrvc (vsrvcInfoOfBytes r'.data) srvci
  | findService nonce srcId srvcHash =>
    ∀ n s t, decFindService ctxt n s t = .ok (nonce, srcId, srvcHash)
  | findServiceRsp nonce srcId result =>
    ∀ n s r, ∃ r', decFindServiceRsp ctxt n s r = .ok (nonce, srcId, r') ∧
      SameSrvc (vsrvcInfoOfBytes r'.data) result

end DhtMsg

/-- What is promised about a message that was written as `written`. -/
def Delivers (written : Res (Option (List UInt8))) (id : DhtId) (read : BeNode → Prop) : Prop :=
  ∃ out ctxt, written = .ok (some out) ∧ 0 < out.length ∧ (out.length : Int) ≤ vdhtBufLen ∧
    decBegin out out.length = .ok (some (id, ctxt)) ∧ read ctxt

/-! ## Arguments -/

theorem blockNode_short {n : Nat} (b : Block n) (h : n < 2 ^ 31) : b.data.length < 2 ^ 31 := by
  rw [b.size]
  exact h

/-- The argument that every message has. -/
def idEntry (srcId : Token) : String × BeNode :=
  ("id", bufNode srcId.data (blockNode_short srcId (by decide)))

theorem token_created (t : Token) :
    beCreateBuf t.data = .ok (bufNode t.data (blockNode_short t (by decide))) :=
  beCreateBuf_ok (by rw [t.size]; decide) _

theorem entryLength_buf {key : String} {s : List UInt8} {h : s.length < 2 ^ 31}
    (hs : s.length < 1000) (hk : keyLength key ≤ 9) :
    entryLength (key, bufNode s h) ≤ s.length + 13 := by
  have hlen := length_serialize_buf h hs
  simp only [entryLength]
  omega

theorem shortKey_of_le {key : String} (h : keyLength key ≤ 9) :
    (cText (cstr key)).length < 2 ^ 31 := by
  unfold keyLength at h
  omega

theorem arguments_id (srcId : Token) : Arguments [idEntry srcId] where
  keys := by
    intro e he
    rw [List.mem_singleton.mp he]
    exact shortKey_of_le (by decide : keyLength "id" ≤ 9)
  free := by
    intro e he
    rw [List.mem_singleton.mp he]
    exact KeysNulFree.str _
  room := by
    have hid := @entryLength_buf "id" srcId.data (blockNode_short srcId (by decide))
      (by rw [srcId.size]; decide) (by decide)
    have hsize : srcId.data.length = 20 := srcId.size
    simp only [idEntry, List.map_cons, List.map_nil, List.sum_cons, List.sum_nil]
    omega

theorem arguments_two (srcId : Token) {key : String} {node : BeNode} (hk : keyLength key ≤ 9)
    (hf : KeysNulFree node) (hlen : (serialize node).length ≤ 3900) :
    Arguments [idEntry srcId, (key, node)] where
  keys := by
    intro e he
    rcases List.mem_cons.mp he with rfl | he
    · exact (arguments_id srcId).keys _ List.mem_cons_self
    · rw [List.mem_singleton.mp he]
      exact shortKey_of_le hk
  free := by
    intro e he
    rcases List.mem_cons.mp he with rfl | he
    · exact KeysNulFree.str _
    · rw [List.mem_singleton.mp he]
      exact hf
  room := by
    have hid := @entryLength_buf "id" srcId.data (blockNode_short srcId (by decide))
      (by rw [srcId.size]; decide) (by decide)
    have hsize : srcId.data.length = 20 := srcId.size
    simp only [idEntry, List.map_cons, List.map_nil, List.sum_cons, List.sum_nil]
    simp only [entryLength] at hid ⊢
    omega

/-! ## One argument and two -/

variable {nonce : Vnonce} {srcId : Token} {y name : String} {id : DhtId}

/-- The name of a message and its place in the tables. -/
structure Named (y name : String) (id : DhtId) : Prop where
  kind : y = "q" ∨ y = "r"
  text : cText (cstr name) = cstr name
  short : (cstr name).length ≤ 18
  found : getIdByDesc (descTable y) (cstr name) = some id

theorem named_query (id : DhtId) (name : String) (h : (id, name) ∈ dhtIdQueryDesc) :
    Named "q" name id := by
  simp only [dhtIdQueryDesc, List.mem_cons, Prod.mk.injEq, List.not_mem_nil, or_false] at h
  rcases h with ⟨rfl, rfl⟩ | ⟨rfl, rfl⟩ | ⟨rfl, rfl⟩ | ⟨rfl, rfl⟩ | ⟨rfl, rfl⟩ | ⟨rfl, rfl⟩ |
    ⟨rfl, rfl⟩ <;> exact ⟨Or.inl rfl, by decide, by decide, by decide⟩

theorem named_rsp (id : DhtId) (name : String) (h : (id, name) ∈ dhtIdRspDesc) :
    Named "r" name id := by
  simp only [dhtIdRspDesc, List.mem_cons, Prod.mk.injEq, List.not_mem_nil, or_false] at h
  rcases h with ⟨rfl, rfl⟩ | ⟨rfl, rfl⟩ | ⟨rfl, rfl⟩ | ⟨rfl, rfl⟩ | ⟨rfl, rfl⟩ | ⟨rfl, rfl⟩ <;>
    exact ⟨Or.inr rfl, by decide, by decide, by decide⟩

theorem delivers_id {read : BeNode → Prop} (hn : Named y name id)
    (hread : ∀ ctxt, Opened ctxt nonce [idEntry srcId] → read ctxt) :
    Delivers (encDht nonce y name [("id", beCreateBuf srcId.data)] vdhtBufLen) id read := by
  obtain ⟨out, ctxt, henc, hpos, hle, hdec, hopen⟩ :=
    @encDht_ok nonce y name _ id hn.kind hn.text hn.short (arguments_id srcId) hn.found
  refine ⟨out, ctxt, ?_, hpos, hle, hdec, hread ctxt hopen⟩
  rw [token_created]
  exact henc

theorem delivers_two {read : BeNode → Prop} {key : String} {arg : Res BeNode} {node : BeNode}
    (hn : Named y name id) (harg : arg = .ok node) (hk : keyLength key ≤ 9)
    (hf : KeysNulFree node) (hlen : (serialize node).length ≤ 3900)
    (hread : ∀ ctxt, Opened ctxt nonce [idEntry srcId, (key, node)] → read ctxt) :
    Delivers (encDht nonce y name [("id", beCreateBuf srcId.data), (key, arg)] vdhtBufLen) id
      read := by
  obtain ⟨out, ctxt, henc, hpos, hle, hdec, hopen⟩ :=
    @encDht_ok nonce y name _ id hn.kind hn.text hn.short (arguments_two srcId hk hf hlen) hn.found
  refine ⟨out, ctxt, ?_, hpos, hle, hdec, hread ctxt hopen⟩
  rw [token_created, harg]
  exact henc

/-- The kinds that carry the source id only. -/
theorem delivers_src (hn : Named y name id) :
    Delivers (encDht nonce y name [("id", beCreateBuf srcId.data)] vdhtBufLen) id
      fun ctxt => ∀ n s, decSrc ctxt n s = .ok (nonce, srcId) :=
  delivers_id hn fun _ hopen n s => hopen.decSrc_ok (lookup_self _ _ _) n s

/-- The kinds that carry a second id. -/
theorem delivers_target (hn : Named y name id) (target : Token) :
    Delivers
      (encDht nonce y name [("id", beCreateBuf srcId.data), ("target", beCreateBuf target.data)]
        vdhtBufLen) id
      fun ctxt => ∀ n s t, decSrcArg "target" ctxt n s t = .ok (nonce, srcId, target) := by
  have hsize : target.data.length = 20 := target.size
  apply delivers_two hn (token_created target) (by decide) (KeysNulFree.str _)
  · have := length_serialize_buf (blockNode_short target (by decide)) (by omega)
    omega
  · intro ctxt hopen n s t
    apply hopen.decSrcArg_ok (lookup_self _ _ _)
    rw [idEntry, lookup_ne (by decide), lookup_self]
    exact unpack_block

theorem decSrcArg_bytes {size : Nat} {key : String} {bytes : List UInt8}
    {h : bytes.length < 2 ^ 31} {ctxt : BeNode}
    (hopen : Opened ctxt nonce [idEntry srcId, (key, bufNode bytes h)])
    (hkey : cText (cstr key) ≠ cText (cstr "id")) (hlen : bytes.length ≤ size) (n : Vnonce)
    (s : Token) (r : Block size) :
    ∃ r', decSrcArg key ctxt n s r = .ok (nonce, srcId, r') ∧ ∃ rest, r'.data = bytes ++ rest := by
  obtain ⟨r', hr, hdata⟩ := @unpack_bytes size bytes r h hlen
  refine ⟨r', hopen.decSrcArg_ok (lookup_self _ _ _) ?_ n s, hdata⟩
  rw [idEntry, lookup_ne hkey, lookup_self]
  exact hr

/-- The kinds that carry the bytes of a struct under `key`. -/
theorem delivers_bytes {size : Nat} (key : String) {bytes : List UInt8} {arg : Res BeNode}
    {h : bytes.length < 2 ^ 31} (P : List UInt8 → Prop) (hn : Named y name id)
    (harg : arg = .ok (bufNode bytes h)) (hk : keyLength key ≤ 9)
    (hkey : cText (cstr key) ≠ cText (cstr "id")) (hlen : bytes.length ≤ size) (hsize : size < 1000)
    (hP : ∀ rest, P (bytes ++ rest)) :
    Delivers (encDht nonce y name [("id", beCreateBuf srcId.data), (key, arg)] vdhtBufLen) id
      fun ctxt => ∀ n s (r : Block size), ∃ r',
        decSrcArg key ctxt n s r = .ok (nonce, srcId, r') ∧ P r'.data := by
  apply delivers_two hn harg hk (KeysNulFree.str _)
  · have := length_serialize_buf h (by omega)
    omega
  · intro ctxt hopen n s r
    obtain ⟨r', hr, rest, hdata⟩ := decSrcArg_bytes hopen hkey hlen n s r
    exact ⟨r', hr, hdata ▸ hP rest⟩

/-! ## Records -/

theorem nodeRecord_ok {n : VnodeInfo} (hn : n.Sendable) :
    ∃ h : (vnodeInfoFront n).length < 2 ^ 31, nodeRecord n = .ok (bufNode (vnodeInfoFront n) h) :=
  beCreateRecord_ok hn (length_vnodeInfoHead n)

theorem srvcRecord_ok {s : VsrvcInfo} (hs : s.Sendable) :
    ∃ h : (vsrvcInfoFront s).length < 2 ^ 31, srvcRecord s = .ok (bufNode (vsrvcInfoFront s) h) :=
  beCreateRecord_ok hs (length_vsrvcInfoHead s)

theorem length_front_le {head : List UInt8} {b : AddrBlock} (hb : b.Sendable)
    (hh : head.length = HEAD_SIZE) : (frontBytes head b).length ≤ RELAX_SIZE := by
  have hlen := hb.length_front hh
  have hmax := hb.naddrs_le
  have hmaxval : MAX_ADDRS = 12 := rfl
  rw [RELAX_SIZE]
  omega

theorem delivers_node (hn : Named y name id) {result : VnodeInfo} (hr : result.Sendable) :
    Delivers
      (encDht nonce y name [("id", beCreateBuf srcId.data), ("node", nodeRecord result)]
        vdhtBufLen) id
      fun ctxt => ∀ n s (r : Block RELAX_SIZE), ∃ r',
        decSrcArg "node" ctxt n s r = .ok (nonce, srcId, r') ∧
          SameNode (vnodeInfoOfBytes r'.data) result := by
  obtain ⟨h, hrec⟩ := nodeRecord_ok hr
  exact delivers_bytes "node" (fun s => SameNode (vnodeInfoOfBytes s) result) hn hrec (by decide)
    (by decide) (length_front_le hr (length_vnodeInfoHead _)) (by decide)
    (vnodeInfoOfBytes_front hr)

theorem delivers_service (hn : Named y name id) {srvci : VsrvcInfo} (hs : srvci.Sendable) :
    Delivers
      (encDht nonce y name [("id", beCreateBuf srcId.data), ("service", srvcRecord srvci)]
        vdhtBufLen) id
      fun ctxt => ∀ n s (r : Block RELAX_SIZE), ∃ r',
        decSrcArg "service" ctxt n s r = .ok (nonce, srcId, r') ∧
          SameSrvc (vsrvcInfoOfBytes r'.data) srvci := by
  obtain ⟨h, hrec⟩ := srvcRecord_ok hs
  exact delivers_bytes "service" (fun s => SameSrvc (vsrvcInfoOfBytes s) srvci) hn hrec (by decide)
    (by decide) (length_front_le hs (length_vsrvcInfoHead _)) (by decide)
    (vsrvcInfoOfBytes_front hs)

/-- The response to a ping, whose decoder passes over the source id. -/
theorem delivers_pingRsp {result : VnodeInfo} (hr : result.Sendable) :
    Delivers (encPingRsp nonce srcId result vdhtBufLen) .pingRsp
      fun ctxt => ∀ n (r : Block RELAX_SIZE), ∃ r', decPingRsp ctxt n r = .ok (nonce, r') ∧
        SameNode (vnodeInfoOfBytes r'.data) result := by
  obtain ⟨h, hrec⟩ := nodeRecord_ok hr
  have hlen : (vnodeInfoFront result).length ≤ RELAX_SIZE :=
    length_front_le hr (length_vnodeInfoHead result)
  refine delivers_two (named_rsp .pingRsp "ping" (by decide)) hrec (by decide)
    (KeysNulFree.str _) ?_ ?_
  · have hbuf := length_serialize_buf h (Nat.lt_of_le_of_lt hlen (by decide))
    exact Nat.le_trans hbuf (Nat.le_trans (Nat.add_le_add_right hlen 4) (by decide))
  · intro ctxt hopen n r
    obtain ⟨r', hunpack, rest, hdata⟩ := @unpack_bytes RELAX_SIZE (vnodeInfoFront result) r h hlen
    refine ⟨r', ?_, hdata ▸ vnodeInfoOfBytes_front hr rest⟩
    rw [decPingRsp, hopen.nonce_ok, ok_bind, hopen.arg_ok, ok_bind, idEntry,
      lookup_ne (by decide), lookup_self, hunpack, ok_bind]

/-! ## The closest nodes -/

/-- The items of the list are the front parts of the records. -/
theorem addRecords_ok {closest : List VnodeInfo} (h : ∀ n ∈ closest, n.Sendable)
    (l : List BeNode) :
    ∃ items, addRecords (.list l) closest = .ok (.list (l ++ items)) ∧
      List.Forall₂ (fun item n => ∃ hs, item = bufNode (vnodeInfoFront n) hs) items closest := by
  induction closest generalizing l with
  | nil => exact ⟨[], by simp [addRecords], List.Forall₂.nil⟩
  | cons n ns ih =>
    obtain ⟨hs, hrec⟩ := nodeRecord_ok (h n List.mem_cons_self)
    obtain ⟨items, hitems, hall⟩ := ih (fun m hm => h m (List.mem_cons_of_mem _ hm))
      (l ++ [bufNode (vnodeInfoFront n) hs])
    refine ⟨bufNode (vnodeInfoFront n) hs :: items, ?_, List.Forall₂.cons ⟨hs, rfl⟩ hall⟩
    rw [addRecords, hrec]
    dsimp only
    rw [beAddList]
    dsimp only
    rw [hitems, List.append_assoc]
    rfl

theorem keysNulFree_items {items : List BeNode} {closest : List VnodeInfo}
    (hall : List.Forall₂ (fun item n => ∃ hs, item = bufNode (vnodeInfoFront n) hs) items closest) :
    ∀ t ∈ items, KeysNulFree t := by
  induction hall with
  | nil => simp
  | cons hitem _ ih =>
    obtain ⟨hs, rfl⟩ := hitem
    intro t ht
    rcases List.mem_cons.mp ht with rfl | ht
    · exact KeysNulFree.str _
    · exact ih t ht

theorem length_serialize_items {items : List BeNode} {closest : List VnodeInfo}
    (h : ∀ n ∈ closest, n.Sendable)
    (hall : List.Forall₂ (fun item n => ∃ hs, item = bufNode (vnodeInfoFront n) hs) items closest) :
    (serializeList items).length ≤ 292 * closest.length + 1 := by
  induction hall with
  | nil => decide
  | @cons item n items ns hitem _ ih =>
    obtain ⟨hs, rfl⟩ := hitem
    have hlen : (vnodeInfoFront n).length ≤ 288 :=
      length_front_le (h n List.mem_cons_self) (length_vnodeInfoHead n)
    have hbuf := length_serialize_buf hs (by omega)
    have hrest := ih fun m hm => h m (List.mem_cons_of_mem _ hm)
    rw [serializeList, List.length_append, List.length_cons]
    omega

theorem unpackNodes_ok {items : List BeNode} {closest : List VnodeInfo}
    (h : ∀ n ∈ closest, n.Sendable)
    (hall : List.Forall₂ (fun item n => ∃ hs, item = bufNode (vnodeInfoFront n) hs) items closest) :
    List.Forall₂ (fun (r : Block RELAX_SIZE) c => SameNode (vnodeInfoOfBytes r.data) c)
      (unpackNodes items) closest := by
  induction hall with
  | nil => exact List.Forall₂.nil
  | @cons item n items ns hitem _ ih =>
    obtain ⟨hs, rfl⟩ := hitem
    have hn := h n List.mem_cons_self
    obtain ⟨r, hr, rest, hdata⟩ := @unpack_bytes RELAX_SIZE (vnodeInfoFront n) nodeRelaxBlock hs
      (length_front_le hn (length_vnodeInfoHead n))
    refine List.Forall₂.cons ?_ (ih fun m hm => h m (List.mem_cons_of_mem _ hm))
    rw [unpack] at hr
    injection hr with hr
    dsimp only
    rw [hr, hdata]
    exact vnodeInfoOfBytes_front hn rest

theorem delivers_closest {closest : List VnodeInfo} (hlen : closest.length ≤ 8)
    (h : ∀ n ∈ closest, n.Sendable) :
    Delivers (encFindClosestNodesRsp nonce srcId closest vdhtBufLen) .findClosestNodesRsp
      fun ctxt => ∀ n s, ∃ rs, decFindClosestNodesRsp ctxt n s [] = .ok (nonce, srcId, rs) ∧
        List.Forall₂ (fun r c => SameNode (vnodeInfoOfBytes r.data) c) rs closest := by
  obtain ⟨items, hitems, hall⟩ := addRecords_ok h []
  rw [List.nil_append] at hitems
  have hfree := keysNulFree_items hall
  refine delivers_two (named_rsp .findClosestNodesRsp "find_closest_nodes" (by decide)) hitems
    (by decide) (KeysNulFree.list hfree) ?_ ?_
  · have hsum := length_serialize_items h hall
    have hopen : (cstr "l").length = 1 := rfl
    rw [serialize, List.length_append]
    omega
  · intro ctxt hopen n s
    refine ⟨unpackNodes items, ?_, unpackNodes_ok h hall⟩
    rw [decFindClosestNodesRsp, hopen.decSrc_ok (lookup_self _ _ _), ok_bind]
    dsimp only
    rw [hopen.arg_ok, ok_bind, idEntry, lookup_ne (by decide), lookup_self, valL, ok_bind]
    rfl

/-! ## All kinds -/

/-- Every message of each of the thirteen kinds, whose records can be sent and which carries one to
eight nodes where it carries several, is encoded, fits the buffer, is recognised as what it is, and
its decoder reads back all that was put into it. -/
theorem dhtMsg_delivers (m : DhtMsg) (hm : m.Valid) :
    ∃ out ctxt, m.encode = .ok (some out) ∧ 0 < out.length ∧ (out.length : Int) ≤ vdhtBufLen ∧
      decBegin out out.length = .ok (some (m.id, ctxt)) ∧ m.ReadFrom ctxt := by
  show Delivers m.encode m.id fun ctxt => m.ReadFrom ctxt
  cases m with
  | ping nonce srcId => exact delivers_src (named_query .ping "ping" (by decide))
  | pingRsp nonce srcId result => exact delivers_pingRsp hm
  | findNode nonce srcId targetId =>
    exact delivers_target (named_query .findNode "find_node" (by decide)) targetId
  | findNodeRsp nonce srcId result =>
    exact delivers_node (named_rsp .findNodeRsp "find_node" (by decide)) hm
  | findClosestNodes nonce srcId targetId =>
    exact delivers_target (named_query .findClosestNodes "find_closest_nodes" (by decide)) targetId
  | findClosestNodesRsp nonce srcId closest => exact delivers_closest hm.2.1 hm.2.2
  | reflex nonce srcId => exact delivers_src (named_query .reflex "reflex" (by decide))
  | reflexRsp nonce srcId reflexiveAddr =>
    have hlen := length_vsockaddrBytes reflexiveAddr
    exact delivers_bytes "m" (fun s => vsockaddrOfBytes s = reflexiveAddr)
      (named_rsp .reflexRsp "reflex" (by decide)) (beCreateBuf_ok (by omega) (by omega))
      (by decide) (by decide) (by omega) (by decide) (vsockaddrOfBytes_append reflexiveAddr)
  | probe nonce srcId destId =>
    exact delivers_target (named_query .probe "probe" (by decide)) destId
  | probeRsp nonce srcId => exact delivers_src (named_rsp .probeRsp "probe" (by decide))
  | postService nonce srcId srvci =>
    exact delivers_service (named_query .postService "post_service" (by decide)) hm
  | findService nonce srcId srvcHash =>
    exact delivers_target (named_query .findService "find_service" (by decide)) srvcHash
  | findServiceRsp nonce srcId result =>
    exact delivers_service (named_rsp .findServiceRsp "find_service" (by decide)) hm

theorem fullRelax_sendable : { vnodeInfoRelax with naddrs := MAX_ADDRS }.Sendable := by
  constructor <;> simp [vnodeInfoRelax, MAX_ADDRS]

/-- The largest response, with eight records of twelve addresses. -/
theorem dhtMsg_delivers_largest :
    ∃ out ctxt,
      (DhtMsg.findClosestNodesRsp (Block.zero VNONCE_LEN) (Block.zero VTOKEN_LEN)
        (List.replicate 8 { vnodeInfoRelax with naddrs := MAX_ADDRS })).encode = .ok (some out) ∧
      (out.length : Int) ≤ vdhtBufLen ∧
      decBegin out out.length = .ok (some (.findClosestNodesRsp, ctxt)) := by
  obtain ⟨out, ctxt, henc, -, hle, hdec, -⟩ := dhtMsg_delivers
    (DhtMsg.findClosestNodesRsp (Block.zero VNONCE_LEN) (Block.zero VTOKEN_LEN)
      (List.replicate 8 { vnodeInfoRelax with naddrs := MAX_ADDRS }))
    ⟨by simp, by simp, fun n hn => by
      rw [List.eq_of_mem_replicate hn]
      exact fullRelax_sendable⟩
  exact ⟨out, ctxt, henc, hle, hdec⟩

end Vdht.Dht
