import Vdht.Core.Overrun
import Vdht.Dht.RoundTrip

/-!
# What every message carries

Whatever the records in it are: a message that was encoded opens as the kind it was encoded as,
with its nonce and its arguments, and bytes behind it in the buffer make no difference. It is not
longer than the buffer it was encoded in.
-/

namespace Vdht.Dht

open Vdht.Core Lib NodeId

/-- The message is recognised and opened, wherever it stands at the front of a buffer. -/
structure OpensAs (out : List UInt8) (id : DhtId) (ctxt : BeNode) : Prop where
  pos : 0 < out.length
  opened : ∀ rest, decBegin (out ++ rest) out.length = .ok (some (id, ctxt))

section Decoding

variable {t : BeNode}

/-- A tree is read back from the front of a buffer. -/
theorem beDecode_padded (h : KeysNulFree t) (rest : List UInt8) :
    beDecode (serialize t ++ rest) (serialize t).length = .ok (some (t, ⟨rest, 0⟩)) := by
  have hread := readsBack h (decodeFuel (serialize t ++ rest)) rest (serialize t).length
    (by rw [decodeFuel, List.length_append]; omega) (Int.le_refl _)
  rw [Int.sub_self] at hread
  exact hread

theorem opensAs_serialize {id : DhtId} (h : KeysNulFree t)
    (hid : auxUnpackDhtId t = .ok (some id)) : OpensAs (serialize t) id t where
  pos := serialize_length_pos t
  opened := by
    intro rest
    have hpos := serialize_length_pos t
    rw [decBegin, if_neg (by omega), beDecode_padded h]
    dsimp only
    rw [hid]

theorem beEncode_length {len : Int} {out : List UInt8} (h : beEncode t len = .ok (some out)) :
    (out.length : Int) ≤ len := by
  have hlen : 0 < len := by
    by_contra hneg
    unfold beEncode at h
    rw [if_pos (Int.not_lt.mp hneg)] at h
    cases h
  have hout := beEncode_outcome t len hlen
  by_cases hcut : Cut t len
  · obtain ⟨e, he⟩ := hout.cut hcut
    rw [h] at he
    cases he
  · rcases hout.ends hcut with hnone | ⟨hsome, hfits⟩
    · rw [h] at hnone
      cases hnone
    · rw [h] at hsome
      cases hsome
      rcases hfits with hfits | ⟨hfits, -⟩ <;> omega

end Decoding

/-! ## Arguments -/

/-- A dictionary that was built has the entries it was built from. -/
theorem addKeypairs_entries {args : List (String × Res BeNode)} {d : List (BeStr × BeNode)}
    {t : BeNode} (h : addKeypairs (.dict d) args = .ok t) :
    ∃ (entries : List (String × BeNode)) (d' : List (BeStr × BeNode)),
      args = entries.map (fun e => (e.1, .ok e.2)) ∧ t = .dict (d ++ d') ∧ Holds entries d' := by
  induction args generalizing d with
  | nil =>
    cases h
    exact ⟨[], [], rfl, by rw [List.append_nil], List.Forall₂.nil⟩
  | cons a args ih =>
    obtain ⟨key, value⟩ := a
    cases value with
    | error e => cases h
    | ok node =>
      rw [addKeypairs, beAddKeypair] at h
      by_cases hkey : (cText (cstr key)).length < 2 ^ 31
      · rw [dif_pos hkey] at h
        obtain ⟨entries, d', rfl, rfl, hholds⟩ := ih h
        refine ⟨(key, node) :: entries, (⟨cText (cstr key), hkey⟩, node) :: d', rfl, ?_,
          List.Forall₂.cons ⟨rfl, rfl⟩ hholds⟩
        rw [List.append_assoc]
        rfl
      · rw [dif_neg hkey] at h
        cases h

/-- No argument has a key with a NUL below it. -/
def FreeArgs (args : List (String × Res BeNode)) : Prop :=
  ∀ key node, (key, Except.ok node) ∈ args → KeysNulFree node

theorem keysNulFree_strNode {s : List UInt8} {node : BeNode} (h : strNode s = .ok node) :
    KeysNulFree node := by
  unfold strNode at h
  split at h
  · cases h
    exact KeysNulFree.str _
  · cases h

theorem keysNulFree_beCreateBuf {s : List UInt8} {node : BeNode} (h : beCreateBuf s = .ok node) :
    KeysNulFree node := by
  unfold beCreateBuf at h
  split at h
  · cases h
  · exact keysNulFree_strNode h

theorem keysNulFree_record {bytes : List UInt8} {size : Int} {node : BeNode}
    (h : beCreateRecord bytes size = .ok node) : KeysNulFree node := by
  unfold beCreateRecord at h
  split at h
  · cases h
  · split at h
    · cases h
    · exact keysNulFree_beCreateBuf h

theorem keysNulFree_addRecords {closest : List VnodeInfo} {l : List BeNode} {node : BeNode}
    (hl : ∀ t ∈ l, KeysNulFree t) (h : addRecords (.list l) closest = .ok node) :
    KeysNulFree node := by
  induction closest generalizing l with
  | nil =>
    cases h
    exact KeysNulFree.list hl
  | cons n ns ih =>
    rw [addRecords] at h
    cases hrec : nodeRecord n with
    | error e =>
      rw [hrec] at h
      cases h
    | ok record =>
      rw [hrec] at h
      refine ih (l := l ++ [record]) (fun t ht => ?_) h
      rcases List.mem_append.mp ht with ht | ht
      · exact hl t ht
      · rw [List.mem_singleton.mp ht]
        exact keysNulFree_record hrec

theorem freeArgs_nil : FreeArgs [] := fun _ _ h => absurd h List.not_mem_nil

theorem freeArgs_cons {key : String} {value : Res BeNode} {args : List (String × Res BeNode)}
    (hvalue : ∀ node, value = .ok node → KeysNulFree node) (hargs : FreeArgs args) :
    FreeArgs ((key, value) :: args) := by
  intro k node hmem
  rcases List.mem_cons.mp hmem with heq | hmem
  · exact hvalue node (Prod.mk.inj heq).2.symm
  · exact hargs k node hmem

theorem freeArgs_id (srcId : Token) : FreeArgs [("id", beCreateBuf srcId.data)] :=
  freeArgs_cons (fun _ => keysNulFree_beCreateBuf) freeArgs_nil

theorem freeArgs_two {srcId : Token} {key : String} {value : Res BeNode}
    (hvalue : ∀ node, value = .ok node → KeysNulFree node) :
    FreeArgs [("id", beCreateBuf srcId.data), (key, value)] :=
  freeArgs_cons (fun _ => keysNulFree_beCreateBuf) (freeArgs_cons hvalue freeArgs_nil)

/-! ## Messages -/

/-- The nonce that the message carries; a response carries that of its query. -/
def DhtMsg.nonce : DhtMsg → Vnonce
  | ping nonce _ => nonce
  | pingRsp nonce _ _ => nonce
  | findNode nonce _ _ => nonce
  | findNodeRsp nonce _ _ => nonce
  | findClosestNodes nonce _ _ => nonce
  | findClosestNodesRsp nonce _ _ => nonce
  | reflex nonce _ => nonce
  | reflexRsp nonce _ _ => nonce
  | probe nonce _ _ => nonce
  | probeRsp nonce _ => nonce
  | postService nonce _ _ => nonce
  | findService nonce _ _ => nonce
  | findServiceRsp nonce _ _ => nonce

section

variable {nonce : Vnonce} {y name : String} {id : DhtId} {args : List (String × Res BeNode)}
  {sz : Int} {out : List UInt8}

/-- A message opens as what it was encoded as. -/
theorem encDht_opens (hn : Named y name id) (hfree : FreeArgs args)
    (h : encDht nonce y name args sz = .ok (some out)) :
    ∃ ctxt entries, args = entries.map (fun e => (e.1, .ok e.2)) ∧ Opened ctxt nonce entries ∧
      OpensAs out id ctxt ∧ (out.length : Int) ≤ sz := by
  have hyf : cText (cstr y) = cstr y := by rcases hn.kind with rfl | rfl <;> rfl
  have hys : (cstr y).length < 2 ^ 31 := by rcases hn.kind with rfl | rfl <;> decide
  have hns : (cstr name).length < 2 ^ 31 := Nat.lt_of_le_of_lt hn.short (by decide)
  unfold encDht at h
  split at h
  · cases h
  · rename_i t htop
    rw [beCreateStr_ok hyf hys, beCreateStr_ok hn.text hns,
      @beCreateBuf_ok nonce.data (by simp [VNONCE_LEN]) (by simp [VNONCE_LEN])] at htop
    obtain ⟨top, dt, hmap, rfl, hholds⟩ := addKeypairs_entries htop
    rw [List.nil_append] at h
    -- the last of the four entries is the dictionary of the arguments
    obtain ⟨a, ha⟩ : ∃ a, addKeypairs beCreateDict args = .ok a := by
      have hmem : ("a", addKeypairs beCreateDict args) ∈
          top.map fun e => (e.1, (Except.ok e.2 : Res BeNode)) := by
        rw [← hmap]
        simp
      obtain ⟨e, -, he⟩ := List.mem_map.mp hmem
      exact ⟨e.2, (Prod.mk.inj he).2.symm⟩
    obtain ⟨entries, da, rfl, rfl, hargs⟩ := addKeypairs_entries ha
    rw [List.nil_append] at ha
    have htopEq : top = topEntries nonce (cstr y) (cstr name) y hys hns (.dict da) := by
      have hinj : Function.Injective
          fun e : String × BeNode => (e.1, (Except.ok e.2 : Res BeNode)) := by
        intro e e' he
        exact Prod.ext (Prod.mk.inj he).1 (Except.ok.inj (Prod.mk.inj he).2)
      apply List.map_injective_iff.mpr hinj
      rw [← hmap, ha]
      rfl
    obtain ⟨h1, h2, h3, h4⟩ := @topEntries_lookup nonce y (cstr name) hys hns (.dict da) hn.kind
    rw [← htopEq, ← beFindNode_holds hholds] at h1 h2 h3 h4
    have hnul : KeysNulFree (.dict dt) := by
      apply keysNulFree_holds hholds
      intro e he
      rw [htopEq] at he
      simp only [topEntries, List.mem_cons, List.not_mem_nil, or_false] at he
      rcases he with rfl | rfl | rfl | rfl
      · exact KeysNulFree.str _
      · exact KeysNulFree.str _
      · exact KeysNulFree.str _
      · refine keysNulFree_holds hargs fun e he => hfree e.1 e.2 ?_
        exact List.mem_map.mpr ⟨e, he, rfl⟩
    have hid : auxUnpackDhtId (.dict dt) = .ok (some id) := by
      rw [auxUnpackDhtId_of hn.kind h2 h3, hn.found]
    obtain rfl := beEncode_eq_serialize _ _ _ h
    exact ⟨.dict dt, entries, rfl, ⟨h1, da, h4, hargs⟩, opensAs_serialize hnul hid,
      beEncode_length h⟩

/-- What is promised about a message holds of the tree that is opened. -/
theorem Delivers.opened {written : Res (Option (List UInt8))} {read : BeNode → Prop}
    (hd : Delivers written id read) (h : written = .ok (some out)) {ctxt : BeNode}
    (hopen : OpensAs out id ctxt) : read ctxt := by
  obtain ⟨out', ctxt', hout, -, -, hdec, hread⟩ := hd
  obtain rfl : out' = out := Option.some.inj (Except.ok.inj (hout.symm.trans h))
  have hfront := hopen.opened []
  rw [List.append_nil, hdec] at hfront
  cases hfront
  exact hread

/-- The kind and the nonce can be read, and the message fits its buffer. -/
structure Labelled (out : List UInt8) (id : DhtId) (nonce : Vnonce) (ctxt : BeNode) : Prop where
  opens : OpensAs out id ctxt
  nonce_ok : ∀ buf, unpack (beFindNode ctxt (cstr "t")) buf = .ok nonce
  length_le : (out.length : Int) ≤ vdhtBufLen

theorem labelled_encDht (hn : Named y name id) (hfree : FreeArgs args)
    (h : encDht nonce y name args vdhtBufLen = .ok (some out)) :
    ∃ ctxt, Labelled out id nonce ctxt := by
  obtain ⟨ctxt, entries, -, hopened, hopens, hlen⟩ := encDht_opens hn hfree h
  exact ⟨ctxt, hopens, hopened.nonce_ok, hlen⟩

theorem DhtMsg.labelled {m : DhtMsg} (h : m.encode = .ok (some out)) :
    ∃ ctxt, Labelled out m.id m.nonce ctxt := by
  cases m with
  | ping nonce srcId =>
    exact labelled_encDht (named_query .ping "ping" (by decide)) (freeArgs_id srcId) h
  | pingRsp nonce srcId result =>
    exact labelled_encDht (named_rsp .pingRsp "ping" (by decide))
      (freeArgs_two fun _ => keysNulFree_record) h
  | findNode nonce srcId targetId =>
    exact labelled_encDht (named_query .findNode "find_node" (by decide))
      (freeArgs_two fun _ => keysNulFree_beCreateBuf) h
  | findNodeRsp nonce srcId result =>
    exact labelled_encDht (named_rsp .findNodeRsp "find_node" (by decide))
      (freeArgs_two fun _ => keysNulFree_record) h
  | findClosestNodes nonce srcId targetId =>
    exact labelled_encDht (named_query .findClosestNodes "find_closest_nodes" (by decide))
      (freeArgs_two fun _ => keysNulFree_beCreateBuf) h
  | findClosestNodesRsp nonce srcId closest =>
    exact labelled_encDht (named_rsp .findClosestNodesRsp "find_closest_nodes" (by decide))
      (freeArgs_two fun _ => keysNulFree_addRecords fun t ht => absurd ht List.not_mem_nil) h
  | reflex nonce srcId =>
    exact labelled_encDht (named_query .reflex "reflex" (by decide)) (freeArgs_id srcId) h
  | reflexRsp nonce srcId reflexiveAddr =>
    exact labelled_encDht (named_rsp .reflexRsp "reflex" (by decide))
      (freeArgs_two fun _ => keysNulFree_beCreateBuf) h
  | probe nonce srcId destId =>
    exact labelled_encDht (named_query .probe "probe" (by decide))
      (freeArgs_two fun _ => keysNulFree_beCreateBuf) h
  | probeRsp nonce srcId =>
    exact labelled_encDht (named_rsp .probeRsp "probe" (by decide)) (freeArgs_id srcId) h
  | postService nonce srcId srvci =>
    exact labelled_encDht (named_query .postService "post_service" (by decide))
      (freeArgs_two fun _ => keysNulFree_record) h
  | findService nonce srcId srvcHash =>
    exact labelled_encDht (named_query .findService "find_service" (by decide))
      (freeArgs_two fun _ => keysNulFree_beCreateBuf) h
  | findServiceRsp nonce srcId result =>
    exact labelled_encDht (named_rsp .findServiceRsp "find_service" (by decide))
      (freeArgs_two fun _ => keysNulFree_record) h

end

end Vdht.Dht
