import Vdht.Route.Payload

/-!
# What a decoded message holds

`dec_begin` and the decoder for the kind it finds, on any tree that `be_decode` can make. None of
the decoders looks at the result of `be_unpack_buf` and none of them ever fails, so a message is
decoded as it should be exactly when all the fields of its kind are there, with their types and
their lengths, before the decoder looks.
-/

namespace Vdht.Route

open Vdht.Core Dht Lib NodeId

/-- The objects a handler hands to its decoder. -/
structure DecObjects where
  nonce : Vnonce
  srcId : Token
  targetId : Token
  record : Block RELAX_SIZE
  addr : Block 20
  closest : List (Block RELAX_SIZE)

/-- `dht_dec_ops`, by kind. -/
def dhtDecOps (id : DhtId) (ctxt : BeNode) (o : DecObjects) : Res DecObjects :=
  match id with
  | .ping => (decPing ctxt o.nonce o.srcId).map fun r => { o with nonce := r.1, srcId := r.2 }
  | .pingRsp =>
    (decPingRsp ctxt o.nonce o.record).map fun r => { o with nonce := r.1, record := r.2 }
  | .findNode =>
    (decFindNode ctxt o.nonce o.srcId o.targetId).map fun r =>
      { o with nonce := r.1, srcId := r.2.1, targetId := r.2.2 }
  | .findNodeRsp =>
    (decFindNodeRsp ctxt o.nonce o.srcId o.record).map fun r =>
      { o with nonce := r.1, srcId := r.2.1, record := r.2.2 }
  | .findClosestNodes =>
    (decFindClosestNodes ctxt o.nonce o.srcId o.targetId).map fun r =>
      { o with nonce := r.1, srcId := r.2.1, targetId := r.2.2 }
  | .findClosestNodesRsp =>
    (decFindClosestNodesRsp ctxt o.nonce o.srcId o.closest).map fun r =>
      { o with nonce := r.1, srcId := r.2.1, closest := r.2.2 }
  | .reflex => (decReflex ctxt o.nonce o.srcId).map fun r => { o with nonce := r.1, srcId := r.2 }
  | .reflexRsp =>
    (decReflexRsp ctxt o.nonce o.srcId o.addr).map fun r =>
      { o with nonce := r.1, srcId := r.2.1, addr := r.2.2 }
  | .probe =>
    (decProbe ctxt o.nonce o.srcId o.targetId).map fun r =>
      { o with nonce := r.1, srcId := r.2.1, targetId := r.2.2 }
  | .probeRsp =>
    (decProbeRsp ctxt o.nonce o.srcId).map fun r => { o with nonce := r.1, srcId := r.2 }
  | .postService =>
    (decPostService ctxt o.nonce o.srcId o.record).map fun r =>
      { o with nonce := r.1, srcId := r.2.1, record := r.2.2 }
  | .findService =>
    (decFindService ctxt o.nonce o.srcId o.targetId).map fun r =>
      { o with nonce := r.1, srcId := r.2.1, targetId := r.2.2 }
  | .findServiceRsp =>
    (decFindServiceRsp ctxt o.nonce o.srcId o.record).map fun r =>
      { o with nonce := r.1, srcId := r.2.1, record := r.2.2 }

/-! ## Outputs that hold their fields -/

/-- The size of the record that lies at the front of an object, by its own count of addresses. -/
def recordSize (s : List UInt8) : Nat := 48 + 20 * (getI16 (s.drop HEAD_SIZE)).toInt.toNat

/-- The object is a copy of a string of its own size. -/
def CopyOf {n : Nat} (node : Option BeNode) (b : Block n) : Prop :=
  ∃ s : BeStr, node = some (.str s) ∧ b.data = s.bytes

/-- The string lies at the front of the object and the record there does not go beyond it. -/
def RecordOf (node : Option BeNode) (b : Block RELAX_SIZE) : Prop :=
  ∃ s : BeStr, node = some (.str s) ∧ s.bytes <+: b.data ∧ recordSize b.data ≤ s.len

/-- The type of message and its name are strings. -/
def Named (dict : BeNode) : Prop :=
  ∃ y name : BeStr, beFindNode dict (cstr "y") = some (.str y) ∧
    (cText y.bytes = cstr "q" ∧ beFindNode dict (cstr "q") = some (.str name) ∨
      cText y.bytes = cstr "r" ∧ beFindNode dict (cstr "r") = some (.str name))

/-- The source id; the decoder of a ping response leaves it alone. -/
def SrcDelivered (id : DhtId) (dict : BeNode) (o : DecObjects) : Prop :=
  match id with
  | .pingRsp => ∃ s : BeStr, argNode dict "id" = some (.str s)
  | _ => CopyOf (argNode dict "id") o.srcId

/-- What a decoder of a kind of message delivers of the arguments it reads: each object holds what
stands under its key in the dictionary. -/
def ArgDelivered (id : DhtId) (dict : BeNode) (o o' : DecObjects) : Prop :=
  match id with
  | .ping | .reflex | .probeRsp => True
  | .findNode | .findClosestNodes | .probe | .findService =>
    CopyOf (argNode dict "target") o'.targetId
  | .pingRsp | .findNodeRsp => RecordOf (argNode dict "node") o'.record
  | .postService | .findServiceRsp => RecordOf (argNode dict "service") o'.record
  | .reflexRsp => CopyOf (argNode dict "m") o'.addr
  | .findClosestNodesRsp =>
    ∃ l bs, argNode dict "nodes" = some (.list l) ∧ o'.closest = o.closest ++ bs ∧
      List.Forall₂ (fun node b => RecordOf (some node) b) l bs

/-- Every required field is there, and the objects hold them. -/
structure Delivered (id : DhtId) (dict : BeNode) (o o' : DecObjects) : Prop where
  named : Named dict
  nonce : CopyOf (beFindNode dict (cstr "t")) o'.nonce
  src : SrcDelivered id dict o'
  arg : ArgDelivered id dict o o'

/-- The message is refused, or decoded with all its fields. -/
def DecodesWell (buf : List UInt8) (len : Int) (o : DecObjects) : Prop :=
  ∃ r, decBegin buf len = .ok r ∧ ∀ id ctxt, r = some (id, ctxt) →
    ∃ o', dhtDecOps id ctxt o = .ok o' ∧ Delivered id ctxt o o'

/-! ## Messages whose fields are there -/

/-- The string fits the object of a record and ends no earlier than its record. -/
def FitsRecord (s : BeStr) : Prop := recordSize s.bytes ≤ s.len ∧ s.len ≤ RELAX_SIZE

/-- What a field has to be. -/
inductive FieldShape where
  | text
  | bytes (n : Nat)
  | record
  | records

/-- Whether what stands under a key has the shape that the decoder asks for, and fits into the
object it is written to. -/
def FieldShape.Fits : FieldShape → Option BeNode → Prop
  | .text, node => ∃ s : BeStr, node = some (.str s)
  | .bytes n, node => ∃ s : BeStr, node = some (.str s) ∧ s.len = n
  | .record, node => ∃ s : BeStr, node = some (.str s) ∧ FitsRecord s
  | .records, node =>
    ∃ l, node = some (.list l) ∧ ∀ x ∈ l, ∃ s : BeStr, x = .str s ∧ FitsRecord s

/-- The arguments of each kind. -/
def requiredArgs : DhtId → List (String × FieldShape)
  | .ping | .reflex | .probeRsp => [("id", .bytes VTOKEN_LEN)]
  | .findNode | .findClosestNodes | .probe | .findService =>
    [("id", .bytes VTOKEN_LEN), ("target", .bytes VTOKEN_LEN)]
  | .pingRsp => [("id", .text), ("node", .record)]
  | .findNodeRsp => [("id", .bytes VTOKEN_LEN), ("node", .record)]
  | .findClosestNodesRsp => [("id", .bytes VTOKEN_LEN), ("nodes", .records)]
  | .reflexRsp => [("id", .bytes VTOKEN_LEN), ("m", .bytes 20)]
  | .postService | .findServiceRsp => [("id", .bytes VTOKEN_LEN), ("service", .record)]

/-- Whether a dictionary has the nonce and all the arguments that the decoder of a kind of message
asks for, each of its shape. -/
def HasFields (dict : BeNode) (id : DhtId) : Prop :=
  (FieldShape.bytes VNONCE_LEN).Fits (beFindNode dict (cstr "t")) ∧
    ∀ f ∈ requiredArgs id, f.2.Fits (argNode dict f.1)

/-- The name under `key` is a string; when it names a kind, the fields of that kind are there. -/
def NamesFields (dict : BeNode) (key : String) (getId : List UInt8 → Option DhtId) : Prop :=
  ∃ name : BeStr, beFindNode dict (cstr key) = some (.str name) ∧
    ∀ id, getId name.bytes = some id → HasFields dict id

/-- A tree that is no dictionary, or whose `y` is a string that announces neither a query nor a
response, is refused; any other has a name and the fields that belong to it. -/
def Presentable (tree : BeNode) : Prop :=
  (∃ d, tree = .dict d) → ∃ y : BeStr, beFindNode tree (cstr "y") = some (.str y) ∧
    (cText y.bytes = cstr "q" → NamesFields tree "q" vdhtGetQueryId) ∧
    (cText y.bytes = cstr "r" → NamesFields tree "r" vdhtGetRspId)

/-! ## One field -/

/-- A string that is not too long is copied. -/
theorem unpack_prefix {n : Nat} {s : BeStr} {buf r : Block n} (hs : s.len ≤ n)
    (h : unpack (some (.str s)) buf = .ok r) : s.bytes <+: r.data := by
  obtain ⟨rest, hr⟩ := unpack_str hs h
  exact ⟨rest, hr.symm⟩

theorem copyOf_iff {n : Nat} {node : Option BeNode} {buf r : Block n}
    (h : unpack node buf = .ok r) : CopyOf node r ↔ (FieldShape.bytes n).Fits node := by
  constructor
  · rintro ⟨s, hs, hdata⟩
    refine ⟨s, hs, ?_⟩
    rw [BeStr.len, ← hdata]
    exact r.size
  · rintro ⟨s, rfl, hlen⟩
    obtain ⟨rest, hr⟩ := unpack_str (Nat.le_of_eq hlen) h
    have hrest : rest = [] := by
      have hsize := r.size
      rw [hr, List.length_append] at hsize
      have : s.bytes.length = n := hlen
      exact List.length_eq_zero_iff.mp (by omega)
    exact ⟨s, rfl, by rw [hr, hrest, List.append_nil]⟩

/-- The count of addresses lies in the first 46 bytes. -/
theorem recordSize_append {s : List UInt8} (h : 46 ≤ s.length) (rest : List UInt8) :
    recordSize (s ++ rest) = recordSize s := by
  have hhead : HEAD_SIZE = 44 := rfl
  have hdrop : (s ++ rest).drop HEAD_SIZE = s.drop HEAD_SIZE ++ rest :=
    List.drop_append_of_le_length (by omega)
  have htake : (s.drop HEAD_SIZE ++ rest).take 2 = (s.drop HEAD_SIZE).take 2 :=
    List.take_append_of_le_length (by rw [List.length_drop]; omega)
  unfold recordSize getI16 getU16
  rw [hdrop, htake]

theorem recordSize_ge (s : List UInt8) : 48 ≤ recordSize s := Nat.le_add_right _ _

theorem recordOf_iff {node : Option BeNode} {buf r : Block RELAX_SIZE}
    (h : unpack node buf = .ok r) : RecordOf node r ↔ FieldShape.record.Fits node := by
  constructor
  · rintro ⟨s, hs, ⟨rest, hdata⟩, hsize⟩
    have hge := recordSize_ge r.data
    have hlen : s.len ≤ RELAX_SIZE := by
      have hr := r.size
      rw [← hdata, List.length_append] at hr
      rw [BeStr.len]
      omega
    have hlong : 46 ≤ s.bytes.length := by
      rw [BeStr.len] at hsize
      omega
    refine ⟨s, hs, ?_, hlen⟩
    rw [← hdata, recordSize_append hlong] at hsize
    exact hsize
  · rintro ⟨s, rfl, hsize, hlen⟩
    have hge := recordSize_ge s.bytes
    have hlong : 46 ≤ s.bytes.length := by
      rw [BeStr.len] at hsize
      omega
    obtain ⟨rest, hr⟩ := unpack_prefix hlen h
    refine ⟨s, rfl, ⟨rest, hr⟩, ?_⟩
    rw [← hr, recordSize_append hlong]
    exact hsize

/-- The items of a list; each goes into a record of its own. -/
theorem recordsOf_iff {l : List BeNode} :
    List.Forall₂ (fun node b => RecordOf (some node) b) l (unpackNodes l) ↔
      ∀ x ∈ l, ∃ s : BeStr, x = .str s ∧ FitsRecord s := by
  have hitem : ∀ x, RecordOf (some x) ((beUnpackBuf x nodeRelaxBlock).getD nodeRelaxBlock) ↔
      ∃ s : BeStr, x = .str s ∧ FitsRecord s := by
    intro x
    rw [recordOf_iff (unpack_some x nodeRelaxBlock)]
    simp only [FieldShape.Fits, Option.some.injEq]
  unfold unpackNodes
  rw [List.forall₂_map_right_iff, List.forall₂_same]
  exact forall₂_congr fun x _ => hitem x

/-! ## One decoder -/

theorem unpack_argNode {n : Nat} (ctxt : BeNode) (key : String) (buf : Block n) :
    (findNodeIn (beFindNode ctxt (cstr "a")) key >>= fun node => unpack node buf) =
      unpack (argNode ctxt key) buf := by
  unfold argNode findNodeIn
  cases beFindNode ctxt (cstr "a") with
  | none => rfl
  | some a => rfl

theorem decSrc_eq_ok {ctxt : BeNode} {nonce nonce' : Vnonce} {srcId srcId' : Token} :
    decSrc ctxt nonce srcId = .ok (nonce', srcId') ↔
      unpack (beFindNode ctxt (cstr "t")) nonce = .ok nonce' ∧
        unpack (argNode ctxt "id") srcId = .ok srcId' := by
  have hdec : decSrc ctxt nonce srcId =
      (unpack (beFindNode ctxt (cstr "t")) nonce >>= fun nonce =>
        (findNodeIn (beFindNode ctxt (cstr "a")) "id" >>= fun node => unpack node srcId) >>=
          fun srcId => .ok (nonce, srcId)) := by
    unfold decSrc
    simp only [bind_assoc]
  rw [hdec, unpack_argNode]
  simp only [bind_ok, Except.ok.injEq, Prod.mk.injEq]
  constructor
  · rintro ⟨a, ha, b, hb, rfl, rfl⟩
    exact ⟨ha, hb⟩
  · rintro ⟨ha, hb⟩
    exact ⟨_, ha, _, hb, rfl, rfl⟩

theorem decSrcArg_eq_ok {n : Nat} {key : String} {ctxt : BeNode} {nonce nonce' : Vnonce}
    {srcId srcId' : Token} {buf r : Block n} :
    decSrcArg key ctxt nonce srcId buf = .ok (nonce', srcId', r) ↔
      (unpack (beFindNode ctxt (cstr "t")) nonce = .ok nonce' ∧
        unpack (argNode ctxt "id") srcId = .ok srcId') ∧
      unpack (argNode ctxt key) buf = .ok r := by
  have hdec : decSrcArg key ctxt nonce srcId buf =
      (decSrc ctxt nonce srcId >>= fun a =>
        (findNodeIn (beFindNode ctxt (cstr "a")) key >>= fun node => unpack node buf) >>=
          fun r => .ok (a.1, a.2, r)) := by
    unfold decSrcArg
    simp only [bind_assoc]
  rw [hdec, unpack_argNode, ← decSrc_eq_ok]
  simp only [bind_ok, Except.ok.injEq, Prod.mk.injEq]
  constructor
  · rintro ⟨a, ha, b, hb, rfl, rfl, rfl⟩
    exact ⟨ha, hb⟩
  · rintro ⟨ha, hb⟩
    exact ⟨_, ha, _, hb, rfl, rfl, rfl⟩

theorem map_eq_ok {α β : Type} {x : Res α} {f : α → β} {b : β} :
    x.map f = .ok b ↔ ∃ a, x = .ok a ∧ f a = b := by
  cases x with
  | error e => simp [Except.map]
  | ok a => simp [Except.map]

theorem bytes_delivers {n : Nat} (node : Option BeNode) (buf : Block n) :
    (∃ r, unpack node buf = .ok r ∧ CopyOf node r) ↔ (FieldShape.bytes n).Fits node := by
  constructor
  · rintro ⟨r, hr, hcopy⟩
    exact (copyOf_iff hr).mp hcopy
  · rintro ⟨s, rfl, hfits⟩
    exact ⟨_, rfl, (copyOf_iff rfl).mpr ⟨s, rfl, hfits⟩⟩

theorem record_delivers (node : Option BeNode) (buf : Block RELAX_SIZE) :
    (∃ r, unpack node buf = .ok r ∧ RecordOf node r) ↔ FieldShape.record.Fits node := by
  constructor
  · rintro ⟨r, hr, hrecord⟩
    exact (recordOf_iff hr).mp hrecord
  · rintro ⟨s, rfl, hfits⟩
    exact ⟨_, rfl, (recordOf_iff rfl).mpr ⟨s, rfl, hfits⟩⟩

section Decoders

variable (dict : BeNode) (o : DecObjects)

/-- The nonce and the source id are strings of their sizes. -/
def SrcFits : Prop :=
  (FieldShape.bytes VNONCE_LEN).Fits (beFindNode dict (cstr "t")) ∧
    (FieldShape.bytes VTOKEN_LEN).Fits (argNode dict "id")

theorem src_delivers :
    (∃ r, decSrc dict o.nonce o.srcId = .ok r ∧ CopyOf (beFindNode dict (cstr "t")) r.1 ∧
      CopyOf (argNode dict "id") r.2) ↔ SrcFits dict := by
  unfold SrcFits
  rw [← bytes_delivers _ o.nonce, ← bytes_delivers _ o.srcId]
  constructor
  · rintro ⟨⟨nonce, srcId⟩, hdec, hnonce, hsrc⟩
    obtain ⟨ht, hid⟩ := decSrc_eq_ok.mp hdec
    exact ⟨⟨nonce, ht, hnonce⟩, srcId, hid, hsrc⟩
  · rintro ⟨⟨nonce, ht, hnonce⟩, srcId, hid, hsrc⟩
    exact ⟨(nonce, srcId), decSrc_eq_ok.mpr ⟨ht, hid⟩, hnonce, hsrc⟩

theorem arg_delivers {n : Nat} (key : String) (buf : Block n) {P : Block n → Prop} {Q : Prop}
    (hPQ : (∃ r, unpack (argNode dict key) buf = .ok r ∧ P r) ↔ Q) :
    (∃ r, decSrcArg key dict o.nonce o.srcId buf = .ok r ∧
      CopyOf (beFindNode dict (cstr "t")) r.1 ∧ CopyOf (argNode dict "id") r.2.1 ∧ P r.2.2) ↔
    SrcFits dict ∧ Q := by
  rw [← hPQ, ← src_delivers dict o]
  constructor
  · rintro ⟨⟨nonce, srcId, r⟩, hdec, hnonce, hsrc, hP⟩
    obtain ⟨hdecs, harg⟩ := decSrcArg_eq_ok.mp hdec
    exact ⟨⟨(nonce, srcId), decSrc_eq_ok.mpr hdecs, hnonce, hsrc⟩, r, harg, hP⟩
  · rintro ⟨⟨⟨nonce, srcId⟩, hdec, hnonce, hsrc⟩, r, harg, hP⟩
    exact ⟨(nonce, srcId, r), decSrcArg_eq_ok.mpr ⟨decSrc_eq_ok.mp hdec, harg⟩, hnonce, hsrc, hP⟩

/-- The source id of a ping response is only required to be there. -/
theorem pingRsp_delivers :
    (∃ r, decPingRsp dict o.nonce o.record = .ok r ∧ CopyOf (beFindNode dict (cstr "t")) r.1 ∧
      RecordOf (argNode dict "node") r.2) ↔
    (FieldShape.bytes VNONCE_LEN).Fits (beFindNode dict (cstr "t")) ∧
      FieldShape.record.Fits (argNode dict "node") := by
  have hdec : decPingRsp dict o.nonce o.record =
      (unpack (beFindNode dict (cstr "t")) o.nonce >>= fun nonce =>
        (findNodeIn (beFindNode dict (cstr "a")) "node" >>= fun node => unpack node o.record) >>=
          fun r => .ok (nonce, r)) := by
    unfold decPingRsp
    simp only [bind_assoc]
  rw [hdec, unpack_argNode, ← bytes_delivers _ o.nonce, ← record_delivers _ o.record]
  simp only [bind_ok, Except.ok.injEq]
  constructor
  · rintro ⟨⟨nonce, r⟩, ⟨_, ht, _, hnode, hpair⟩, hnonce, hrecord⟩
    obtain ⟨rfl, rfl⟩ := Prod.mk.inj hpair
    exact ⟨⟨_, ht, hnonce⟩, _, hnode, hrecord⟩
  · rintro ⟨⟨nonce, ht, hnonce⟩, r, hnode, hrecord⟩
    exact ⟨(nonce, r), ⟨nonce, ht, r, hnode, rfl⟩, hnonce, hrecord⟩

theorem valL_eq_ok {node : Option BeNode} {l : List BeNode} :
    valL node = .ok l ↔ node = some (.list l) := by
  unfold valL
  split
  · simp
  · rename_i hne
    exact ⟨nofun, fun h => absurd h (hne l)⟩

theorem decFindClosestNodesRsp_eq_ok {ctxt : BeNode} {nonce nonce' : Vnonce}
    {srcId srcId' : Token} {closest bs : List (Block RELAX_SIZE)} :
    decFindClosestNodesRsp ctxt nonce srcId closest = .ok (nonce', srcId', bs) ↔
      decSrc ctxt nonce srcId = .ok (nonce', srcId') ∧
        ∃ l, argNode ctxt "nodes" = some (.list l) ∧ bs = closest ++ unpackNodes l := by
  unfold decFindClosestNodesRsp
  rcases findNodeIn_arg ctxt "nodes" with h | ⟨hnone, e, h⟩
  · simp only [h, ok_bind, bind_ok, valL_eq_ok, Except.ok.injEq, Prod.mk.injEq]
    constructor
    · rintro ⟨⟨_, _⟩, ha, l, hl, rfl, rfl, rfl⟩
      exact ⟨ha, l, hl, rfl⟩
    · rintro ⟨ha, l, hl, rfl⟩
      exact ⟨_, ha, l, hl, rfl, rfl, rfl⟩
  · simp [h, hnone, bind_ok]

theorem closest_delivers :
    (∃ r, decFindClosestNodesRsp dict o.nonce o.srcId o.closest = .ok r ∧
      CopyOf (beFindNode dict (cstr "t")) r.1 ∧ CopyOf (argNode dict "id") r.2.1 ∧
      ∃ l bs, argNode dict "nodes" = some (.list l) ∧ r.2.2 = o.closest ++ bs ∧
        List.Forall₂ (fun node b => RecordOf (some node) b) l bs) ↔
    SrcFits dict ∧ FieldShape.records.Fits (argNode dict "nodes") := by
  rw [← src_delivers dict o]
  constructor
  · rintro ⟨⟨nonce, srcId, _⟩, hdec, hnonce, hsrc, l, bs, hl, hbs, hall⟩
    obtain ⟨hdecs, l', hl', rfl⟩ := decFindClosestNodesRsp_eq_ok.mp hdec
    obtain rfl : l = l' := by simpa using hl.symm.trans hl'
    obtain rfl := List.append_cancel_left hbs
    exact ⟨⟨(nonce, srcId), hdecs, hnonce, hsrc⟩, l, hl, recordsOf_iff.mp hall⟩
  · rintro ⟨⟨⟨nonce, srcId⟩, hdec, hnonce, hsrc⟩, l, hl, hall⟩
    exact ⟨(nonce, srcId, o.closest ++ unpackNodes l),
      decFindClosestNodesRsp_eq_ok.mpr ⟨hdec, l, hl, rfl⟩, hnonce, hsrc, l, unpackNodes l, hl, rfl,
      recordsOf_iff.mpr hall⟩

/-- The decoder for a kind delivers what the message holds exactly when the fields of the kind
are there. -/
theorem decOps_delivers (id : DhtId) (hn : Named dict) :
    (∃ o', dhtDecOps id dict o = .ok o' ∧ Delivered id dict o o') ↔ HasFields dict id := by
  have hdelivered : ∀ o', Delivered id dict o o' ↔
      CopyOf (beFindNode dict (cstr "t")) o'.nonce ∧ SrcDelivered id dict o' ∧
        ArgDelivered id dict o o' :=
    fun o' => ⟨fun h => ⟨h.nonce, h.src, h.arg⟩, fun h => ⟨hn, h.1, h.2.1, h.2.2⟩⟩
  have hmap : ∀ {α : Type} {x : Res α} {f : α → DecObjects} {P : DecObjects → Prop},
      (∃ o', x.map f = .ok o' ∧ P o') ↔ ∃ r, x = .ok r ∧ P (f r) := by
    intro α x f P
    simp only [map_eq_ok]
    exact ⟨fun ⟨_, ⟨r, hr, hf⟩, hP⟩ => ⟨r, hr, hf ▸ hP⟩, fun ⟨r, hr, hP⟩ => ⟨_, ⟨r, hr, rfl⟩, hP⟩⟩
  have harg : ∀ {key : String} {shape : FieldShape},
      SrcFits dict ∧ shape.Fits (argNode dict key) ↔
        (FieldShape.bytes VNONCE_LEN).Fits (beFindNode dict (cstr "t")) ∧
          ∀ f ∈ [("id", FieldShape.bytes VTOKEN_LEN), (key, shape)],
            f.2.Fits (argNode dict f.1) := by
    intro key shape
    simp [SrcFits, and_assoc]
  have hsrc : SrcFits dict ↔
        (FieldShape.bytes VNONCE_LEN).Fits (beFindNode dict (cstr "t")) ∧
          ∀ f ∈ [("id", FieldShape.bytes VTOKEN_LEN)], f.2.Fits (argNode dict f.1) := by
    simp [SrcFits]
  simp only [hdelivered]
  unfold HasFields
  cases id with
  | ping | reflex | probeRsp =>
    refine Iff.trans ?_ hsrc
    rw [← src_delivers dict o]
    apply hmap.trans
    simp only [SrcDelivered, ArgDelivered, and_true]
    rfl
  | findNode | findClosestNodes | probe | findService =>
    refine Iff.trans ?_ harg
    exact hmap.trans (arg_delivers dict o "target" o.targetId (bytes_delivers _ _))
  | findNodeRsp =>
    refine Iff.trans ?_ harg
    exact hmap.trans (arg_delivers dict o "node" o.record (record_delivers _ _))
  | postService | findServiceRsp =>
    refine Iff.trans ?_ harg
    exact hmap.trans (arg_delivers dict o "service" o.record (record_delivers _ _))
  | reflexRsp =>
    refine Iff.trans ?_ harg
    exact hmap.trans (arg_delivers dict o "m" o.addr (bytes_delivers _ _))
  | findClosestNodesRsp =>
    refine Iff.trans ?_ harg
    exact hmap.trans (closest_delivers dict o)
  | pingRsp =>
    apply hmap.trans
    have hpong := pingRsp_delivers dict o
    simp only [SrcDelivered, ArgDelivered, requiredArgs, List.forall_mem_cons,
      List.not_mem_nil, IsEmpty.forall_iff, implies_true, and_true, FieldShape.Fits] at hpong ⊢
    constructor
    · rintro ⟨r, hr, hnonce, hid, hrecord⟩
      obtain ⟨ht, hnode⟩ := hpong.mp ⟨r, hr, hnonce, hrecord⟩
      exact ⟨ht, hid, hnode⟩
    · rintro ⟨ht, hid, hnode⟩
      obtain ⟨r, hr, hnonce, hrecord⟩ := hpong.mpr ⟨ht, hnode⟩
      exact ⟨r, hr, hnonce, hid, hrecord⟩

end Decoders

/-! ## The kind -/

theorem valS_eq_ok {node : Option BeNode} {s : List UInt8} :
    valS node = .ok s ↔ ∃ b : BeStr, node = some (.str b) ∧ b.bytes = s := by
  unfold valS
  split
  · rename_i b
    simp
  · rename_i hne
    exact ⟨nofun, fun ⟨b, hb, _⟩ => absurd hb (hne b)⟩

/-- `dec_begin` succeeds on a tree, refusing it or finding a kind, exactly when the strings it
compares are there. -/
theorem unpackDhtId_ok {d : List (BeStr × BeNode)} {r : Option DhtId} :
    auxUnpackDhtId (.dict d) = .ok r ↔
      ∃ y : BeStr, beFindNode (.dict d) (cstr "y") = some (.str y) ∧
        (if cText y.bytes = cstr "q" then
          ∃ name : BeStr, beFindNode (.dict d) (cstr "q") = some (.str name) ∧
            vdhtGetQueryId name.bytes = r
        else if cText y.bytes = cstr "r" then
          ∃ name : BeStr, beFindNode (.dict d) (cstr "r") = some (.str name) ∧
            vdhtGetRspId name.bytes = r
        else r = none) := by
  unfold auxUnpackDhtId
  dsimp only
  rw [bind_ok]
  simp only [valS_eq_ok]
  constructor
  · rintro ⟨_, ⟨y, hy, rfl⟩, hname⟩
    refine ⟨y, hy, ?_⟩
    split_ifs at hname ⊢ with hq hr
    · simpa only [bind_ok, valS_eq_ok, Except.ok.injEq, exists_exists_and_eq_and] using hname
    · simpa only [bind_ok, valS_eq_ok, Except.ok.injEq, exists_exists_and_eq_and] using hname
    · exact (Except.ok.inj hname).symm
  · rintro ⟨y, hy, hname⟩
    refine ⟨_, ⟨y, hy, rfl⟩, ?_⟩
    split_ifs at hname ⊢ with hq hr
    · obtain ⟨name, hfind, hid⟩ := hname
      exact bind_ok.mpr ⟨_, valS_eq_ok.mpr ⟨name, hfind, rfl⟩, congrArg Except.ok hid⟩
    · obtain ⟨name, hfind, hid⟩ := hname
      exact bind_ok.mpr ⟨_, valS_eq_ok.mpr ⟨name, hfind, rfl⟩, congrArg Except.ok hid⟩
    · rw [hname]

theorem decBegin_tree {buf : List UInt8} {len : Int} {tree : BeNode} {c : Cursor}
    (h : beDecode buf len = .ok (some (tree, c))) {r : Option (DhtId × BeNode)} :
    decBegin buf len = .ok r ↔ ∃ id, auxUnpackDhtId tree = .ok id ∧ r = id.map (·, tree) := by
  have hlen : len ≠ 0 := by
    rintro rfl
    cases h
  unfold decBegin
  rw [if_neg hlen, h]
  dsimp only
  cases auxUnpackDhtId tree with
  | error e => simp
  | ok id =>
    cases id with
    | none => simp [eq_comm]
    | some id => simp [eq_comm]

/-- What a tree delivers, after its kind has been looked up. -/
theorem decodesWell_tree {buf : List UInt8} {len : Int} {tree : BeNode} {c : Cursor}
    (h : beDecode buf len = .ok (some (tree, c))) (o : DecObjects) :
    DecodesWell buf len o ↔ ∃ kind, auxUnpackDhtId tree = .ok kind ∧
      ∀ id, kind = some id → ∃ o', dhtDecOps id tree o = .ok o' ∧ Delivered id tree o o' := by
  unfold DecodesWell
  simp only [decBegin_tree h]
  constructor
  · rintro ⟨r, ⟨kind, hkind, rfl⟩, hall⟩
    refine ⟨kind, hkind, ?_⟩
    rintro id rfl
    exact hall id tree rfl
  · rintro ⟨kind, hkind, hall⟩
    refine ⟨_, ⟨kind, hkind, rfl⟩, ?_⟩
    intro id ctxt hpair
    cases kind with
    | none => cases hpair
    | some id' =>
      obtain ⟨rfl, rfl⟩ := Prod.mk.inj (Option.some.inj hpair)
      exact hall _ rfl

/-- A name that is looked up by one of the two tables. -/
theorem namesFields_iff {dict : BeNode} {key : String} {getId : List UInt8 → Option DhtId}
    (o : DecObjects)
    (hnamed : ∀ name : BeStr, beFindNode dict (cstr key) = some (.str name) → Named dict) :
    NamesFields dict key getId ↔
      ∃ kind, (∃ name : BeStr, beFindNode dict (cstr key) = some (.str name) ∧
        getId name.bytes = kind) ∧
        ∀ id, kind = some id → ∃ o', dhtDecOps id dict o = .ok o' ∧ Delivered id dict o o' := by
  unfold NamesFields
  constructor
  · rintro ⟨name, hfind, hall⟩
    refine ⟨_, ⟨name, hfind, rfl⟩, fun id hid => ?_⟩
    exact (decOps_delivers dict o id (hnamed name hfind)).mpr (hall id hid)
  · rintro ⟨_, ⟨name, hfind, rfl⟩, hall⟩
    refine ⟨name, hfind, fun id hid => ?_⟩
    exact (decOps_delivers dict o id (hnamed name hfind)).mp (hall id hid)

/-- For any objects that the callbacks hand to the decoders. A buffer from which `be_decode` makes a
tree is refused, or decoded with all its fields and nothing left unset, exactly when the tree is
presentable. -/
theorem decodesWell_iff {buf : List UInt8} {len : Int} {tree : BeNode} {c : Cursor}
    (h : beDecode buf len = .ok (some (tree, c))) (o : DecObjects) :
    DecodesWell buf len o ↔ Presentable tree := by
  rw [decodesWell_tree h]
  have hqr : cstr "r" ≠ cstr "q" := by decide
  cases tree with
  | str s =>
    refine ⟨?_, fun _ => ⟨none, rfl, nofun⟩⟩
    rintro - ⟨d, hd⟩
    cases hd
  | int i =>
    refine ⟨?_, fun _ => ⟨none, rfl, nofun⟩⟩
    rintro - ⟨d, hd⟩
    cases hd
  | list l =>
    refine ⟨?_, fun _ => ⟨none, rfl, nofun⟩⟩
    rintro - ⟨d, hd⟩
    cases hd
  | dict d =>
    have hkinds : ∀ y : BeStr, beFindNode (.dict d) (cstr "y") = some (.str y) →
        ((∃ kind, (if cText y.bytes = cstr "q" then
            ∃ name : BeStr, beFindNode (.dict d) (cstr "q") = some (.str name) ∧
              vdhtGetQueryId name.bytes = kind
          else if cText y.bytes = cstr "r" then
            ∃ name : BeStr, beFindNode (.dict d) (cstr "r") = some (.str name) ∧
              vdhtGetRspId name.bytes = kind
          else kind = none) ∧
          ∀ id, kind = some id →
            ∃ o', dhtDecOps id (.dict d) o = .ok o' ∧ Delivered id (.dict d) o o') ↔
        (cText y.bytes = cstr "q" → NamesFields (.dict d) "q" vdhtGetQueryId) ∧
          (cText y.bytes = cstr "r" → NamesFields (.dict d) "r" vdhtGetRspId)) := by
      intro y hy
      by_cases hq : cText y.bytes = cstr "q"
      · have hr : cText y.bytes ≠ cstr "r" := fun hr => hqr (hr.symm.trans hq)
        simp only [hq, hqr.symm, if_true, true_implies, false_implies, and_true]
        exact (namesFields_iff o fun name hn => ⟨y, name, hy, Or.inl ⟨hq, hn⟩⟩).symm
      · by_cases hr : cText y.bytes = cstr "r"
        · simp only [hr, hqr, if_true, if_false, true_implies, false_implies, true_and]
          exact (namesFields_iff o fun name hn => ⟨y, name, hy, Or.inr ⟨hr, hn⟩⟩).symm
        · simp only [hq, hr, if_false, false_implies, and_self, iff_true]
          exact ⟨none, rfl, nofun⟩
    unfold Presentable
    simp only [unpackDhtId_ok]
    constructor
    · rintro ⟨kind, ⟨y, hy, hname⟩, hall⟩ -
      exact ⟨y, hy, (hkinds y hy).mp ⟨kind, hname, hall⟩⟩
    · intro hpres
      obtain ⟨y, hy, hnames⟩ := hpres ⟨d, rfl⟩
      obtain ⟨kind, hname, hall⟩ := (hkinds y hy).mpr hnames
      exact ⟨kind, ⟨y, hy, hname⟩, hall⟩

/-- The string of a Lean text, where its length fits into an `int`. -/
def strOf (s : String) (h : (cstr s).length < 2 ^ 31) : BeStr := ⟨cstr s, h⟩

/-- The tree of a ping query. -/
def aPingTree : BeNode :=
  .dict
    [(strOf "t" (by decide), .str (strOf "aaaa" (by decide))),
      (strOf "y" (by decide), .str (strOf "q" (by decide))),
      (strOf "q" (by decide), .str (strOf "ping" (by decide))),
      (strOf "a" (by decide), .dict
        [(strOf "id" (by decide), .str (strOf "aaaaaaaaaaaaaaaaaaaa" (by decide)))])]

theorem presentable_aPing : Presentable aPingTree := by
  have hfields : HasFields aPingTree .ping := by
    refine ⟨⟨strOf "aaaa" (by decide), rfl, rfl⟩, ?_⟩
    intro f hf
    obtain rfl := List.mem_singleton.mp hf
    exact ⟨strOf "aaaaaaaaaaaaaaaaaaaa" (by decide), rfl, rfl⟩
  rintro -
  refine ⟨strOf "q" (by decide), rfl, ?_, ?_⟩
  · rintro -
    refine ⟨strOf "ping" (by decide), rfl, ?_⟩
    intro id hid
    obtain rfl : DhtId.ping = id := Option.some.inj hid
    exact hfields
  · intro hr
    exact absurd hr (by decide)

theorem keysNulFree_aPing : KeysNulFree aPingTree := by
  apply KeysNulFree.dict (by decide)
  simp only [List.forall_mem_cons]
  refine ⟨KeysNulFree.str _, KeysNulFree.str _, KeysNulFree.str _, ?_, nofun⟩
  apply KeysNulFree.dict (by decide)
  simp only [List.forall_mem_cons]
  exact ⟨KeysNulFree.str _, nofun⟩

theorem decodesWell_iff_ping :
    DecodesWell (serialize aPingTree) (serialize aPingTree).length
      ⟨Block.zero 4, Block.zero 20, Block.zero 20, Block.zero RELAX_SIZE, Block.zero 20, []⟩ :=
  (decodesWell_iff (beDecode_serialize keysNulFree_aPing) _).mpr presentable_aPing

/-- An empty dictionary has no `y`. -/
theorem decodesWell_empty :
    beDecode (cstr "de") 2 = .ok (some (.dict [], ⟨[], 0⟩)) ∧
      ∀ o, ¬ DecodesWell (cstr "de") 2 o := by
  refine ⟨rfl, ?_⟩
  rintro o ⟨r, hr, -⟩
  cases hr

end Vdht.Route
