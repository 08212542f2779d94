import Vdht.Core.RoundTrip
import Vdht.Dht.Decode

/-!
# The tree of a message

What all encoders and decoders share: the tree an encoder builds, the length of its text, and
what a decoder finds in it.
-/

namespace Vdht.Dht

open Vdht.Core Lib NodeId

/-! ## Dictionaries with literal keys -/

/-- A string node with bytes that may have NULs among them. -/
def bufNode (s : List UInt8) (h : s.length < 2 ^ 31) : BeNode := .str ⟨s, h⟩

/-- The entries of a dictionary, its keys being literals. -/
def Holds (entries : List (String × BeNode)) (d : List (BeStr × BeNode)) : Prop :=
  List.Forall₂ (fun e x => x.1.bytes = cText (cstr e.1) ∧ x.2 = e.2) entries d

/-- The keys are no longer than a length can be, which the literals of the encoder are. -/
def ShortKeys (entries : List (String × BeNode)) : Prop :=
  ∀ e ∈ entries, (cText (cstr e.1)).length < 2 ^ 31

instance (entries : List (String × BeNode)) : Decidable (ShortKeys entries) :=
  inferInstanceAs (Decidable (∀ e ∈ entries, (cText (cstr e.1)).length < 2 ^ 31))

theorem zero_not_mem_cText (s : List UInt8) : 0 ∉ cText s := by
  intro h
  have := List.mem_takeWhile_imp h
  simp at this

theorem cText_cText (s : List UInt8) : cText (cText s) = cText s :=
  cText_of_no_nul (zero_not_mem_cText s)

theorem addKeypairs_ok {entries : List (String × BeNode)} (h : ShortKeys entries)
    (d : List (BeStr × BeNode)) :
    ∃ d', addKeypairs (.dict d) (entries.map fun e => (e.1, .ok e.2)) = .ok (.dict (d ++ d')) ∧
      Holds entries d' := by
  induction entries generalizing d with
  | nil => exact ⟨[], by simp [addKeypairs], List.Forall₂.nil⟩
  | cons e entries ih =>
    have hkey : (cText (cstr e.1)).length < 2 ^ 31 := h e List.mem_cons_self
    obtain ⟨d', hd', hholds⟩ := ih (fun x hx => h x (List.mem_cons_of_mem _ hx))
      (d ++ [(⟨cText (cstr e.1), hkey⟩, e.2)])
    refine ⟨(⟨cText (cstr e.1), hkey⟩, e.2) :: d', ?_, List.Forall₂.cons ⟨rfl, rfl⟩ hholds⟩
    rw [List.map_cons, addKeypairs, beAddKeypair, dif_pos hkey]
    dsimp only
    rw [hd', List.append_assoc]
    rfl

/-- The first value under a key. -/
def lookup (entries : List (String × BeNode)) (key : String) : Option BeNode :=
  (entries.find? fun e => cText (cstr key) = cText (cstr e.1)).map (·.2)

theorem lookup_self (key : String) (node : BeNode) (entries : List (String × BeNode)) :
    lookup ((key, node) :: entries) key = some node := by
  simp [lookup]

theorem lookup_ne {key key' : String} (h : cText (cstr key) ≠ cText (cstr key')) (node : BeNode)
    (entries : List (String × BeNode)) :
    lookup ((key', node) :: entries) key = lookup entries key := by
  simp [lookup, h]

theorem beFindNode_holds {entries : List (String × BeNode)} {d : List (BeStr × BeNode)}
    (h : Holds entries d) (key : String) :
    beFindNode (.dict d) (cstr key) = lookup entries key := by
  unfold beFindNode lookup
  induction h with
  | nil => rfl
  | cons hx _ ih =>
    obtain ⟨hkey, hval⟩ := hx
    dsimp only at ih ⊢
    simp only [List.find?_cons, hkey, cText_cText]
    split
    · simp [hval]
    · exact ih

theorem keysNulFree_holds {entries : List (String × BeNode)} {d : List (BeStr × BeNode)}
    (h : Holds entries d) (hv : ∀ e ∈ entries, KeysNulFree e.2) : KeysNulFree (.dict d) := by
  have hall : ∀ x ∈ d, 0 ∉ x.1.bytes ∧ KeysNulFree x.2 := by
    induction h with
    | nil => simp
    | cons hx _ ih =>
      obtain ⟨hkey, hval⟩ := hx
      intro x hm
      rcases List.mem_cons.mp hm with rfl | hm
      · rw [hkey, hval]
        exact ⟨zero_not_mem_cText _, hv _ List.mem_cons_self⟩
      · exact ih (fun e he => hv e (List.mem_cons_of_mem _ he)) x hm
  exact KeysNulFree.dict (fun x hx => (hall x hx).1) fun x hx => (hall x hx).2

/-- The length of the text of a key. -/
def keyLength (key : String) : Nat :=
  (decimal (cText (cstr key)).length).length + 1 + (cText (cstr key)).length

/-- The length of the text of an entry. -/
def entryLength (e : String × BeNode) : Nat := keyLength e.1 + (serialize e.2).length

theorem length_serialize_holds {entries : List (String × BeNode)} {d : List (BeStr × BeNode)}
    (h : Holds entries d) :
    (serialize (.dict d)).length = (entries.map entryLength).sum + 2 := by
  have hdict : (serializeDict d).length = (entries.map entryLength).sum + 1 := by
    induction h with
    | nil => rfl
    | @cons e x _ _ hx _ ih =>
      obtain ⟨hkey, hval⟩ := hx
      have hsep : (cstr ":").length = 1 := rfl
      have hlen : x.1.len = (cText (cstr e.1)).length := by rw [← hkey, BeStr.len]
      rw [serializeDict, List.length_append, ih, serializePair, List.map_cons, List.sum_cons]
      simp only [List.length_append, hlen, hkey, cText_cText, hsep, hval, entryLength,
        keyLength]
      omega
  rw [serialize, List.length_append, hdict]
  have hopen : (cstr "d").length = 1 := rfl
  omega

theorem decimalNat_length_le {n : Nat} (h : n < 1000) : (decimalNat n).length ≤ 3 := by
  rw [decimalNat, List.length_map]
  exact (Nat.length_toDigits_le_iff (by decide) (by decide)).mpr h

theorem length_serialize_buf {s : List UInt8} (h : s.length < 2 ^ 31) (hs : s.length < 1000) :
    (serialize (bufNode s h)).length ≤ s.length + 4 := by
  have hdigits := decimalNat_length_le hs
  have hsep : (cstr ":").length = 1 := rfl
  have hdec : decimal ((⟨s, h⟩ : BeStr).len : Int) = decimalNat s.length := by
    rw [decimal, if_neg (by omega)]
    rfl
  rw [bufNode, serialize, hdec]
  simp only [List.length_append, hsep]
  omega

/-! ## Building a message -/

theorem beCreateBuf_ok {s : List UInt8} (hpos : 0 < s.length) (h : s.length < 2 ^ 31) :
    beCreateBuf s = .ok (bufNode s h) := by
  rw [beCreateBuf, if_neg (by omega), strNode, dif_pos h]
  rfl

theorem beCreateRecord_ok {head : List UInt8} {b : AddrBlock} (hb : b.Sendable)
    (hh : head.length = HEAD_SIZE) :
    ∃ h : (frontBytes head b).length < 2 ^ 31,
      beCreateRecord (head ++ addrBlockBytes b) (48 + b.naddrs * 20) =
        .ok (bufNode (frontBytes head b) h) := by
  have h0 := hb.naddrs_nonneg
  have hmax := hb.naddrs_le
  have hmaxval : MAX_ADDRS = 12 := rfl
  have hlen := hb.length_front hh
  have hshort : (frontBytes head b).length < 2 ^ 31 := by omega
  refine ⟨hshort, ?_⟩
  have hlong := hb.bytes_long head hh
  rw [beCreateRecord, if_neg (by omega), if_neg (by omega), hb.take_bytes hh,
    beCreateBuf_ok (by omega) hshort]

/-- The tree a decoder gets: the nonce under `t`, the arguments under `a`. -/
structure Opened (ctxt : BeNode) (nonce : Vnonce) (args : List (String × BeNode)) : Prop where
  t : beFindNode ctxt (cstr "t") = some (bufNode nonce.data (by simp [VNONCE_LEN]))
  a : ∃ d, beFindNode ctxt (cstr "a") = some (.dict d) ∧ Holds args d

/-- The name under which a response or a query is looked up. -/
def descTable (y : String) : List (DhtId × String) :=
  if y = "q" then dhtIdQueryDesc else dhtIdRspDesc

theorem auxUnpackDhtId_of {dict : List (BeStr × BeNode)} {y name : String} {hy : _} {hn : _}
    (hq : y = "q" ∨ y = "r") (h1 : beFindNode (.dict dict) (cstr "y") = some (bufNode (cstr y) hy))
    (h2 : beFindNode (.dict dict) (cstr y) = some (bufNode (cstr name) hn)) :
    auxUnpackDhtId (.dict dict) = .ok (getIdByDesc (descTable y) (cstr name)) := by
  rcases hq with rfl | rfl
  · simp only [auxUnpackDhtId, h1, h2, bufNode, valS, ok_bind]
    rw [if_pos (by decide)]
    rfl
  · simp only [auxUnpackDhtId, h1, h2, bufNode, valS, ok_bind]
    rw [if_neg (by decide), if_pos (by decide)]
    rfl

theorem beCreateStr_ok {s : List UInt8} (hs : cText s = s) (h : s.length < 2 ^ 31) :
    beCreateStr s = .ok (bufNode s h) := by
  rw [beCreateStr, hs, strNode, dif_pos h]
  rfl

/-- The entries of a message. -/
def topEntries (nonce : Vnonce) (y name : List UInt8) (key : String) (hy : y.length < 2 ^ 31)
    (hn : name.length < 2 ^ 31) (a : BeNode) : List (String × BeNode) :=
  [("t", bufNode nonce.data (by simp [VNONCE_LEN])), ("y", bufNode y hy), (key, bufNode name hn),
    ("a", a)]

theorem topEntries_lookup {nonce : Vnonce} {y : String} {name : List UInt8} {hy : _} {hn : _}
    {a : BeNode} (hq : y = "q" ∨ y = "r") :
    lookup (topEntries nonce (cstr y) name y hy hn a) "t" =
        some (bufNode nonce.data (by simp [VNONCE_LEN])) ∧
      lookup (topEntries nonce (cstr y) name y hy hn a) "y" = some (bufNode (cstr y) hy) ∧
      lookup (topEntries nonce (cstr y) name y hy hn a) y = some (bufNode name hn) ∧
      lookup (topEntries nonce (cstr y) name y hy hn a) "a" = some a := by
  have hy : cText (cstr y) ≠ cText (cstr "t") ∧ cText (cstr y) ≠ cText (cstr "y") ∧
      cText (cstr "a") ≠ cText (cstr y) := by
    rcases hq with rfl | rfl <;> decide
  unfold topEntries
  refine ⟨lookup_self _ _ _, ?_, ?_, ?_⟩
  · rw [lookup_ne (by decide), lookup_self]
  · rw [lookup_ne hy.1, lookup_ne hy.2.1, lookup_self]
  · rw [lookup_ne (by decide), lookup_ne (by decide), lookup_ne hy.2.2, lookup_self]

/-- The entries in front of the arguments take at most 48 bytes. -/
theorem topEntries_length {nonce : Vnonce} {y : String} {name : List UInt8} {hy : _} {hn : _}
    {a : BeNode} (hq : y = "q" ∨ y = "r") (hname : name.length ≤ 18) :
    ((topEntries nonce (cstr y) name y hy hn a).map entryLength).sum ≤
      48 + (serialize a).length := by
  have hyl : (cstr y).length = 1 := by rcases hq with rfl | rfl <;> rfl
  have hnl : nonce.data.length = 4 := nonce.size
  have ht := @length_serialize_buf nonce.data (by simp [VNONCE_LEN]) (by simp [VNONCE_LEN])
  have hby := length_serialize_buf hy (by omega)
  have hbn := length_serialize_buf hn (by omega)
  have hkey : keyLength y = 3 := by rcases hq with rfl | rfl <;> decide
  have hk : keyLength "t" = 3 ∧ keyLength "y" = 3 ∧ keyLength "a" = 3 := by decide
  simp only [topEntries, List.map_cons, List.map_nil, List.sum_cons, List.sum_nil, entryLength,
    hk, hkey]
  omega

/-- Arguments that can be sent: short keys, no NUL in a key below them, and room for them. -/
structure Arguments (args : List (String × BeNode)) : Prop where
  keys : ShortKeys args
  free : ∀ e ∈ args, KeysNulFree e.2
  room : (args.map entryLength).sum ≤ 4000

/-- A message is written, recognised and opened. -/
theorem encDht_ok {nonce : Vnonce} {y name : String} {args : List (String × BeNode)} {id : DhtId}
    (hq : y = "q" ∨ y = "r") (hname : cText (cstr name) = cstr name)
    (hlen : (cstr name).length ≤ 18) (hargs : Arguments args)
    (hid : getIdByDesc (descTable y) (cstr name) = some id) :
    ∃ out ctxt,
      encDht nonce y name (args.map fun e => (e.1, .ok e.2)) vdhtBufLen = .ok (some out) ∧
      0 < out.length ∧ (out.length : Int) ≤ vdhtBufLen ∧
      decBegin out out.length = .ok (some (id, ctxt)) ∧ Opened ctxt nonce args := by
  have hyf : cText (cstr y) = cstr y := by rcases hq with rfl | rfl <;> rfl
  have hys : (cstr y).length < 2 ^ 31 := by rcases hq with rfl | rfl <;> decide
  have hns : (cstr name).length < 2 ^ 31 := by omega
  have hsize : vdhtBufLen = 4088 := rfl
  obtain ⟨da, hda, hholds⟩ := addKeypairs_ok hargs.keys []
  rw [List.nil_append] at hda
  generalize htop : topEntries nonce (cstr y) (cstr name) y hys hns (.dict da) = top
  have htopShort : ShortKeys top := by
    intro e he
    rw [← htop] at he
    simp only [topEntries, List.mem_cons, List.not_mem_nil, or_false] at he
    have hk : ∀ k ∈ ["t", "y", "a"], (cText (cstr k)).length < 2 ^ 31 := by decide
    rcases he with rfl | rfl | rfl | rfl
    · exact hk "t" (by simp)
    · exact hk "y" (by simp)
    · rw [hyf]
      exact hys
    · exact hk "a" (by simp)
  obtain ⟨dt, hdt, htopHolds⟩ := addKeypairs_ok htopShort []
  rw [List.nil_append] at hdt
  obtain ⟨h1, h2, h3, h4⟩ := @topEntries_lookup nonce y (cstr name) hys hns (.dict da) hq
  rw [htop, ← beFindNode_holds htopHolds] at h1 h2 h3 h4
  have hfree : KeysNulFree (.dict dt) := by
    apply keysNulFree_holds htopHolds
    intro e he
    rw [← htop] at he
    simp only [topEntries, List.mem_cons, List.not_mem_nil, or_false] at he
    rcases he with rfl | rfl | rfl | rfl
    · exact KeysNulFree.str _
    · exact KeysNulFree.str _
    · exact KeysNulFree.str _
    · exact keysNulFree_holds hholds hargs.free
  have hroom : (serialize (.dict dt)).length ≤ 4052 := by
    have hsum := @topEntries_length nonce y (cstr name) hys hns (.dict da) hq hlen
    have hinner := length_serialize_holds hholds
    have houter := length_serialize_holds htopHolds
    have hmax := hargs.room
    rw [htop] at hsum
    omega
  refine ⟨serialize (.dict dt), .dict dt, ?_, serialize_length_pos _, by omega, ?_, ?_⟩
  · have henc := beEncode_of_room (.dict dt) vdhtBufLen (by omega)
    rw [← henc, encDht]
    have hbuild : addKeypairs beCreateDict
        [("t", beCreateBuf nonce.data), ("y", beCreateStr (cstr y)),
          (y, beCreateStr (cstr name)),
          ("a", addKeypairs beCreateDict (args.map fun e => (e.1, .ok e.2)))] =
        .ok (.dict dt) := by
      rw [← hdt, ← htop, @beCreateBuf_ok nonce.data (by simp [VNONCE_LEN])
        (by simp [VNONCE_LEN]), beCreateStr_ok hyf hys, beCreateStr_ok hname hns]
      rw [beCreateDict, hda]
      rfl
    rw [hbuild]
  · have hne : ((serialize (.dict dt)).length : Int) ≠ 0 := by
      have := serialize_length_pos (.dict dt)
      omega
    rw [decBegin, if_neg hne, beDecode_serialize hfree]
    dsimp only
    rw [auxUnpackDhtId_of hq h2 h3, hid]
  · exact ⟨h1, ⟨da, h4, hholds⟩⟩

/-! ## Reading a message -/

theorem unpack_block {n : Nat} {b buf : Block n} {h : b.data.length < 2 ^ 31} :
    unpack (some (bufNode b.data h)) buf = .ok b := by
  have hlen : ¬ (⟨b.data, h⟩ : BeStr).len > n := by
    have hsize := b.size
    simp only [BeStr.len]
    omega
  rw [unpack, bufNode, beUnpackBuf, if_neg hlen, Option.getD_some]
  exact congrArg Except.ok (Block.overwrite_full buf b)

theorem unpack_bytes {n : Nat} {s : List UInt8} {buf : Block n} {h : s.length < 2 ^ 31}
    (hs : s.length ≤ n) :
    ∃ b : Block n, unpack (some (bufNode s h)) buf = .ok b ∧ ∃ rest, b.data = s ++ rest := by
  refine ⟨buf.overwrite s, ?_, buf.data.drop s.length, Block.overwrite_data buf hs⟩
  rw [unpack, bufNode, beUnpackBuf, if_neg (by simp only [BeStr.len]; omega), Option.getD_some]

namespace Opened

variable {ctxt : BeNode} {nonce : Vnonce} {args : List (String × BeNode)}
  (h : Opened ctxt nonce args)
include h

theorem nonce_ok (buf : Vnonce) : unpack (beFindNode ctxt (cstr "t")) buf = .ok nonce := by
  rw [h.t]
  exact unpack_block

theorem arg_ok (key : String) :
    findNodeIn (beFindNode ctxt (cstr "a")) key = .ok (lookup args key) := by
  obtain ⟨d, ha, hholds⟩ := h.a
  rw [ha, findNodeIn, beFindNode_holds hholds]

theorem decSrc_ok {srcId : Token} {hs : _}
    (hid : lookup args "id" = some (bufNode srcId.data hs)) (n : Vnonce) (s : Token) :
    decSrc ctxt n s = .ok (nonce, srcId) := by
  rw [decSrc, h.nonce_ok, h.arg_ok, hid]
  simp only [ok_bind, unpack_block]

theorem decSrcArg_ok {srcId : Token} {hs : _}
    (hid : lookup args "id" = some (bufNode srcId.data hs)) {k : Nat} {key : String}
    {buf buf' : Block k} (harg : unpack (lookup args key) buf = .ok buf') (n : Vnonce)
    (s : Token) : decSrcArg key ctxt n s buf = .ok (nonce, srcId, buf') := by
  rw [decSrcArg, h.decSrc_ok hid, ok_bind]
  dsimp only
  rw [h.arg_ok, ok_bind, harg, ok_bind]

end Opened

end Vdht.Dht
