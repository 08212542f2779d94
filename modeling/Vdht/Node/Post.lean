import Vdht.Node.Registry

/-!
# What a post returns

`_vnode_srvc_post` allocates a service, more room for its addresses and more room for the array of
the services. It reports that the first of these failed, and that the protocol is another one. It
does not look at what `vsrvcInfo_add_addr` and `varray_add_tail` return, so it returns 0 also when
an address or a service was left out; and it counts the service that was left out.
-/

namespace Vdht.Services

open Lib NodeId

/-- Which allocations of a post succeed. -/
structure PostMemory where
  /-- `malloc` for a service -/
  service : Bool
  /-- `realloc` for its addresses -/
  addrs : Bool
  /-- `realloc` in `varray_add_tail` -/
  array : Bool

/-- `vsrvcInfo_add_addr`; `room` is whether `realloc` succeeds. It is called when the capacity is
used up, before the addresses are searched. -/
def vsrvcInfoAddAddrMem (room : Bool) (s : VsrvcInfo) (addr : SockaddrIn) (type : UInt32) :
    Res (VsrvcInfo × Int) :=
  if type < VSOCKADDR_BUTT ∧ s.naddrs < MAX_ADDRS ∧ s.naddrs ≥ s.capc ∧ room = false then
    .ok (s, -1)
  else vsrvcInfoAddAddr s addr type

/-- `_vnode_srvc_post`, with the allocations that may fail. -/
def vnodeSrvcPostMem (mem : PostMemory) (node : VnodeSrvc) (hash : Token) (addr : VsockaddrIn)
    (proto : Int) : Res (VnodeSrvc × Int) :=
  if ¬ (proto > VPROTO_RES0 ∧ proto < VPROTO_RES1) then .error .assertion
  else
    match findSrvc hash node.services with
    | some (i, srvci) =>
      if proto ≠ srvci.proto.toInt then .ok (node, -1)
      else
        match vsrvcInfoAddAddrMem mem.addrs srvci addr.addr addr.type with
        | .error e => .error e
        | .ok (srvci, _) => .ok ({ node with services := node.services.set i srvci }, 0)
    | none =>
      if mem.service = false then .ok (node, -1)
      else
        match vsrvcInfoInit vsrvcInfoAlloc hash node.id (Int16.ofInt node.nice)
            (Int16.ofInt proto) with
        | .error e => .error e
        | .ok srvci =>
          match vsrvcInfoAddAddrMem mem.addrs srvci addr.addr addr.type with
          | .error e => .error e
          | .ok (srvci, _) =>
            .ok ({ node with
              services := if mem.array then node.services ++ [srvci] else node.services
              weight := node.weight + 1 }, 0)

/-- An operation with what the allocations do. Those of the other operations only fail when the
array shrinks, which aborts the program at `vassert(srvci)`. -/
def srvcStepMem (node : VnodeSrvc) : SrvcOp × PostMemory → Res (VnodeSrvc × Int)
  | (.post hash addr proto, mem) => vnodeSrvcPostMem mem node hash addr proto
  | (op, _) => srvcStep node op

/-- An operation with what the allocations do, without its return value. -/
def srvcExecMem (node : VnodeSrvc) (op : SrvcOp × PostMemory) : Res VnodeSrvc :=
  (srvcStepMem node op).map Prod.fst

variable {node : VnodeSrvc} {mem : PostMemory} {hash : Token} {addr : VsockaddrIn} {proto : Int}

theorem vsrvcInfoAddAddrMem_room {room : Bool} {s : VsrvcInfo} {a : SockaddrIn} {type : UInt32}
    (h : s.naddrs < s.capc ∨ room = true) :
    vsrvcInfoAddAddrMem room s a type = vsrvcInfoAddAddr s a type := by
  refine if_neg fun hfail => ?_
  rcases h with hcapc | hroom
  · exact absurd hfail.2.2.1 (Int.not_le.mpr hcapc)
  · rw [hroom] at hfail
    exact absurd hfail.2.2.2 (by decide)

/-- With enough memory this is the post of the registry. -/
theorem vnodeSrvcPostMem_eq (h : mem.service = true ∧ mem.addrs = true ∧ mem.array = true)
    (node : VnodeSrvc) (hash : Token) (addr : VsockaddrIn) (proto : Int) :
    vnodeSrvcPostMem mem node hash addr proto = vnodeSrvcPost node hash addr proto := by
  obtain ⟨hservice, haddrs, harray⟩ := h
  have hadd : vsrvcInfoAddAddrMem mem.addrs = vsrvcInfoAddAddr := by
    funext s a type
    exact vsrvcInfoAddAddrMem_room (Or.inr haddrs)
  rw [vnodeSrvcPostMem, vnodeSrvcPost, hservice, hadd, harray]
  rfl

/-! ## The services under failing allocations -/

/-- What is left of `Sound` when the weight also counts services that were left out. -/
structure VnodeSrvc.Held (node : VnodeSrvc) : Prop where
  hashes : (node.services.map VsrvcInfo.hash).Nodup
  registered : ∀ s ∈ node.services, Registered node.id s

/-- The node with another weight. -/
def VnodeSrvc.weigh (node : VnodeSrvc) (weight : Int) : VnodeSrvc := { node with weight }

theorem VnodeSrvc.Sound.held (h : node.Sound) : node.Held := ⟨h.hashes, h.registered⟩

theorem VnodeSrvc.Held.counted (h : node.Held) : (node.weigh node.services.length).Sound :=
  ⟨rfl, h.hashes, h.registered⟩

theorem VnodeSrvc.Held.of_weigh {w : Int} (h : (node.weigh w).Held) : node.Held :=
  ⟨h.hashes, h.registered⟩

/-- No operation looks at the weight. -/
theorem srvcStep_weigh (node : VnodeSrvc) (w : Int) (op : SrvcOp) :
    (srvcStep (node.weigh w) op).map (fun r => (r.1.weigh 0, r.2)) =
      (srvcStep node op).map fun r => (r.1.weigh 0, r.2) := by
  cases op with
  | post hash addr proto =>
    simp only [srvcStep, vnodeSrvcPost, VnodeSrvc.weigh]
    split
    · rfl
    · cases findSrvc hash node.services with
      | none =>
        dsimp only
        cases vsrvcInfoInit vsrvcInfoAlloc hash node.id (Int16.ofInt node.nice)
            (Int16.ofInt proto) with
        | error e => rfl
        | ok s =>
          dsimp only
          cases vsrvcInfoAddAddr s addr.addr addr.type with
          | error e => rfl
          | ok r => rfl
      | some found =>
        dsimp only
        split
        · rfl
        · cases vsrvcInfoAddAddr found.2 addr.addr addr.type with
          | error e => rfl
          | ok r => rfl
  | unpost hash addr =>
    simp only [srvcStep, vnodeSrvcUnpost, VnodeSrvc.weigh]
    cases findSrvc hash node.services with
    | none => rfl
    | some found =>
      dsimp only
      cases vsrvcInfoDelAddr found.2 addr with
      | error e => rfl
      | ok s =>
        dsimp only
        split
        · rfl
        · rfl
  | unpostExt hash =>
    simp only [srvcStep, vnodeSrvcUnpostExt, VnodeSrvc.weigh]
    cases findSrvc hash node.services with
    | none => rfl
    | some found => rfl
  | renice nice => rfl

theorem srvcStep_held {node' : VnodeSrvc} {op : SrvcOp} {r : Int} (h : node.Held)
    (hstep : srvcStep node op = .ok (node', r)) :
    node'.Held ∧ (op.Valid → 0 ≤ Int16.ofInt node.nice → 0 ≤ Int16.ofInt node'.nice) := by
  have hweigh := srvcStep_weigh node node.services.length op
  rw [hstep] at hweigh
  rcases srvcExec_sound h.counted op with ⟨counted, hexec, hsound, -, hnice⟩ | ⟨hexec, -⟩
  · rw [srvcExec] at hexec
    cases hcounted : srvcStep (node.weigh node.services.length) op with
    | error e =>
      rw [hcounted] at hexec
      cases hexec
    | ok res =>
      rw [hcounted] at hexec hweigh
      cases hexec
      have hsame : res.1.weigh 0 = node'.weigh 0 := congrArg Prod.fst (Except.ok.inj hweigh)
      have hheld : (res.1.weigh 0).Held := ⟨hsound.hashes, hsound.registered⟩
      rw [hsame] at hheld
      have hn : (res.1.weigh 0).nice = (node'.weigh 0).nice := by rw [hsame]
      exact ⟨hheld.of_weigh, fun hvalid hold => hn ▸ hnice hvalid hold⟩
  · rw [srvcExec] at hexec
    cases hcounted : srvcStep (node.weigh node.services.length) op with
    | error e =>
      rw [hcounted] at hweigh
      cases hweigh
    | ok res =>
      rw [hcounted] at hexec
      cases hexec

/-- The address is in the list of the service, with its type. -/
def Stored (s : VsrvcInfo) (addr : VsockaddrIn) : Prop :=
  ∃ a ∈ s.used, vsockaddrEqual a.addr addr.addr = true ∧ a.type = addr.type

theorem stored_iff {s : VsrvcInfo} (h : s.Kept) :
    Stored s addr ↔ s.types addr.addr.key = some addr.type := by
  rw [VsrvcInfo.types, addrTypes, table_eq_some (distinctAddrs_iff.mp h.distinct)]
  simp only [Stored, vsockaddrEqual_iff_key]
  rfl

/-- There is no room in the list of the service, or no memory for it. -/
def Cramped (mem : PostMemory) (s : VsrvcInfo) : Prop :=
  MAX_ADDRS ≤ s.naddrs ∨ s.naddrs ≥ s.capc ∧ mem.addrs = false

theorem addAddrMem_cramped {s : VsrvcInfo} (h : Cramped mem s) (htype : addr.type < VSOCKADDR_BUTT) :
    vsrvcInfoAddAddrMem mem.addrs s addr.addr addr.type = .ok (s, -1) := by
  unfold vsrvcInfoAddAddrMem
  split
  · rfl
  · rename_i hno
    rcases h with hfull | ⟨hcapc, hroom⟩
    · exact vsrvcInfoAddAddr_full hfull addr.addr htype
    · by_cases hlt : s.naddrs < MAX_ADDRS
      · exact absurd ⟨htype, hlt, hcapc, hroom⟩ hno
      · exact vsrvcInfoAddAddr_full (Int.not_lt.mp hlt) addr.addr htype

theorem addAddrMem_stored {s : VsrvcInfo} (h : s.Kept) (hroom : ¬ Cramped mem s)
    (htype : addr.type < VSOCKADDR_BUTT) :
    ∃ b : AddrBlock, vsrvcInfoAddAddrMem mem.addrs s addr.addr addr.type =
        .ok ({ s with toAddrBlock := b }, 0) ∧
      VsrvcInfo.Kept { s with toAddrBlock := b } ∧ 1 ≤ b.naddrs ∧
      Stored { s with toAddrBlock := b } addr := by
  rw [Cramped, not_or, Int.not_le] at hroom
  obtain ⟨b, hadd, hkept, hpos, htypes⟩ := vsrvcInfoAddAddr_room h hroom.1 addr.addr htype
  refine ⟨b, ?_, hkept, hpos, (stored_iff hkept).mpr (by rw [htypes, Function.update_self])⟩
  rw [vsrvcInfoAddAddrMem_room, hadd]
  by_cases hcapc : s.naddrs ≥ s.capc
  · exact Or.inr (by simpa [hcapc] using hroom.2)
  · exact Or.inl (Int.not_le.mp hcapc)

/-! ## One post -/

/-- What a post does to sound services. -/
inductive Posted (mem : PostMemory) (node : VnodeSrvc) (hash : Token) (addr : VsockaddrIn)
    (proto : Int) : VnodeSrvc → Int → Prop where
  | unallocated (hnew : ∀ s ∈ node.services, s.hash ≠ hash) (hmem : mem.service = false) :
      Posted mem node hash addr proto node (-1)
  | dropped (hnew : ∀ s ∈ node.services, s.hash ≠ hash) (hmem : mem.service = true)
      (harray : mem.array = false) :
      Posted mem node hash addr proto (node.weigh (node.weight + 1)) 0
  | appended (s : VsrvcInfo) (hnew : ∀ s ∈ node.services, s.hash ≠ hash)
      (harray : mem.array = true) (hs : Registered node.id s) (hhash : s.hash = hash)
      (hproto : s.proto.toInt = proto) (hstored : Stored s addr) :
      Posted mem node hash addr proto
        { node with services := node.services ++ [s], weight := node.weight + 1 } 0
  | mismatch (s : VsrvcInfo) (hs : s ∈ node.services) (hhash : s.hash = hash)
      (hproto : proto ≠ s.proto.toInt) : Posted mem node hash addr proto node (-1)
  | cramped (s : VsrvcInfo) (hs : s ∈ node.services) (hhash : s.hash = hash)
      (hproto : s.proto.toInt = proto) (hcramped : Cramped mem s) :
      Posted mem node hash addr proto node 0
  | replaced (s t : VsrvcInfo) (m l : List VsrvcInfo) (hsplit : node.services = m ++ s :: l)
      (hhash : s.hash = hash) (hsame : t.hash = s.hash) (hproto : t.proto = s.proto)
      (hroom : ¬ Cramped mem s) (ht : Registered node.id t) (hprotos : s.proto.toInt = proto)
      (hstored : Stored t addr) :
      Posted mem node hash addr proto { node with services := m ++ t :: l } 0

theorem vnodeSrvcPostMem_posted (h : node.Held) (hnice : 0 ≤ Int16.ofInt node.nice)
    (hvalid : SrvcOp.Valid (.post hash addr proto)) :
    ∃ node' r, vnodeSrvcPostMem mem node hash addr proto = .ok (node', r) ∧
      Posted mem node hash addr proto node' r := by
  obtain ⟨hlow, hhigh, htype⟩ := hvalid
  rw [vnodeSrvcPostMem, if_neg (not_not.mpr ⟨hlow, hhigh⟩)]
  cases hfind : findSrvc hash node.services with
  | none =>
    have hnew := findSrvc_none hfind
    dsimp only
    by_cases hmem : mem.service = false
    · exact ⟨node, -1, if_pos hmem, .unallocated hnew hmem⟩
    obtain ⟨s, hinit, hsound, hused, hhash, hhost, hproto⟩ :=
      vsrvcInfoInit_ok hash node.id (Int16.ofInt proto) hnice
    obtain ⟨hkept, hempty⟩ := hsound.kept_empty hused
    have hcapc : s.capc = VSRVCINFO_MIN_ADDRS := by
      rw [vsrvcInfoInit, if_neg (Int16.not_lt.mpr hnice)] at hinit
      exact Except.ok.inj hinit ▸ rfl
    have hroom : ¬ Cramped mem s := by
      rw [Cramped, hempty, hcapc]
      rintro (hfull | ⟨hgrow, -⟩)
      · exact absurd hfull (by decide)
      · exact absurd hgrow (by decide)
    obtain ⟨b, hadd, hkept', hpos, hstored⟩ := addAddrMem_stored hkept hroom htype
    rw [if_neg hmem, hinit]
    dsimp only
    rw [hadd]
    dsimp only
    cases harray : mem.array with
    | false => exact ⟨_, 0, rfl, .dropped hnew (by simpa using hmem) harray⟩
    | true =>
      exact ⟨_, 0, rfl, .appended { s with toAddrBlock := b } hnew harray
        (registered_of_kept hkept' hhost hpos) hhash (hproto ▸ proto_toInt ⟨hlow, hhigh⟩) hstored⟩
  | some found =>
    obtain ⟨i, s⟩ := found
    obtain ⟨m, l, hsplit, rfl, hhash⟩ := findSrvc_split hfind
    have hmem : s ∈ node.services := hsplit ▸ List.mem_append_right _ List.mem_cons_self
    have hs := h.registered s hmem
    dsimp only
    by_cases hproto : proto ≠ s.proto.toInt
    · exact ⟨node, -1, if_pos hproto, .mismatch s hmem hhash hproto⟩
    have hsame := not_not.mp hproto
    rw [if_neg hproto]
    by_cases hcramped : Cramped mem s
    · refine ⟨node, 0, ?_, .cramped s hmem hhash hsame.symm hcramped⟩
      rw [addAddrMem_cramped hcramped htype]
      dsimp only
      rw [hsplit, set_middle, ← hsplit]
    · obtain ⟨b, hadd, hkept, hpos, hstored⟩ := addAddrMem_stored hs.toKept hcramped htype
      refine ⟨_, 0, ?_, .replaced s { s with toAddrBlock := b } m l hsplit hhash rfl rfl hcramped
        (registered_of_kept hkept hs.host hpos) hsame.symm hstored⟩
      rw [hadd]
      dsimp only
      rw [hsplit, set_middle]

theorem Posted.held {node' : VnodeSrvc} {r : Int} (h : node.Held)
    (hpost : Posted mem node hash addr proto node' r) : node'.Held ∧ node'.nice = node.nice := by
  cases hpost with
  | unallocated => exact ⟨h, rfl⟩
  | dropped => exact ⟨⟨h.hashes, h.registered⟩, rfl⟩
  | appended s hnew _ hs hhash _ _ =>
    subst hhash
    exact ⟨⟨(sound_append h.counted hnew hs).1.hashes,
      (sound_append h.counted hnew hs).1.registered⟩, rfl⟩
  | mismatch => exact ⟨h, rfl⟩
  | cramped => exact ⟨h, rfl⟩
  | replaced s t m l hsplit _ hsame _ _ ht _ _ =>
    have hsound := (sound_replace h.counted hsplit hsame ht).1
    exact ⟨⟨hsound.hashes, hsound.registered⟩, rfl⟩

/-- What the return value of a post says: 0 that the address is registered, a negative value that
nothing changed. -/
def Told (node node' : VnodeSrvc) (hash : Token) (addr : VsockaddrIn) (proto r : Int) : Prop :=
  (r = 0 ∧ ∃ s ∈ node'.services, s.hash = hash ∧ s.proto.toInt = proto ∧ Stored s addr) ∨
    (r < 0 ∧ node' = node)

/-- The address has to be stored and there is no room or memory for it; or the service is new and
the array of the services cannot grow. -/
def Lost (mem : PostMemory) (node : VnodeSrvc) (hash : Token) (addr : VsockaddrIn)
    (proto : Int) : Prop :=
  (∃ s ∈ node.services, s.hash = hash ∧ s.proto.toInt = proto ∧ Cramped mem s ∧ ¬ Stored s addr) ∨
    ((∀ s ∈ node.services, s.hash ≠ hash) ∧ mem.service = true ∧ mem.array = false)

theorem VnodeSrvc.Held.eq_of_hash {s t : VsrvcInfo} (h : node.Held) (hs : s ∈ node.services)
    (ht : t ∈ node.services) (hhash : s.hash = t.hash) : s = t :=
  List.inj_on_of_nodup_map h.hashes hs ht hhash

theorem Posted.told_iff {node' : VnodeSrvc} {r : Int} (h : node.Held)
    (hpost : Posted mem node hash addr proto node' r) :
    Told node node' hash addr proto r ↔ ¬ Lost mem node hash addr proto := by
  cases hpost with
  | unallocated hnew hmem =>
    refine iff_of_true (Or.inr ⟨by decide, rfl⟩) ?_
    rintro (⟨s, hs, hhash, -⟩ | ⟨-, hyes, -⟩)
    · exact hnew s hs hhash
    · rw [hmem] at hyes
      cases hyes
  | dropped hnew hmem harray =>
    refine iff_of_false ?_ (not_not.mpr (Or.inr ⟨hnew, hmem, harray⟩))
    rintro (⟨-, s, hs, hhash, -⟩ | ⟨hneg, -⟩)
    · exact hnew s hs hhash
    · exact absurd hneg (by decide)
  | appended s hnew harray hs hhash hproto hstored =>
    have hmem : s ∈ node.services ++ [s] := List.mem_append_right _ List.mem_cons_self
    refine iff_of_true (Or.inl ⟨rfl, s, hmem, hhash, hproto, hstored⟩) ?_
    rintro (⟨t, ht, hsame, -⟩ | ⟨-, -, hno⟩)
    · exact hnew t ht hsame
    · rw [harray] at hno
      cases hno
  | mismatch s hs hhash hproto =>
    refine iff_of_true (Or.inr ⟨by decide, rfl⟩) ?_
    rintro (⟨t, ht, hsame, heq, -⟩ | ⟨hnew, -⟩)
    · rw [h.eq_of_hash ht hs (hsame.trans hhash.symm)] at heq
      exact hproto heq.symm
    · exact hnew s hs hhash
  | cramped s hs hhash hproto hcramped =>
    have hlost : Lost mem node hash addr proto ↔ ¬ Stored s addr := by
      constructor
      · rintro (⟨t, ht, hsame, -, -, hno⟩ | ⟨hnew, -⟩)
        · rwa [h.eq_of_hash ht hs (hsame.trans hhash.symm)] at hno
        · exact absurd hhash (hnew s hs)
      · exact fun hno => Or.inl ⟨s, hs, hhash, hproto, hcramped, hno⟩
    rw [hlost, not_not]
    constructor
    · rintro (⟨-, t, ht, hsame, -, hstored⟩ | ⟨hneg, -⟩)
      · rwa [h.eq_of_hash ht hs (hsame.trans hhash.symm)] at hstored
      · exact absurd hneg (by decide)
    · exact fun hstored => Or.inl ⟨rfl, s, hs, hhash, hproto, hstored⟩
  | replaced s t m l hsplit hhash hsame hproto hroom ht hprotos hstored =>
    have hs : s ∈ node.services := hsplit ▸ List.mem_append_right _ List.mem_cons_self
    refine iff_of_true (Or.inl ⟨rfl, t, List.mem_append_right _ List.mem_cons_self,
      hsame.trans hhash, by rw [hproto, hprotos], hstored⟩) ?_
    rintro (⟨u, hu, hsame', -, hcramped, -⟩ | ⟨hnew, -⟩)
    · rw [h.eq_of_hash hu hs (hsame'.trans hhash.symm)] at hcramped
      exact hroom hcramped
    · exact hnew s hs hhash

/-! ## Runs -/

theorem srvcExecMem_held {node' : VnodeSrvc} {op : SrvcOp × PostMemory}
    (h : node.Held ∧ 0 ≤ Int16.ofInt node.nice) (hvalid : op.1.Valid)
    (hexec : srvcExecMem node op = .ok node') :
    node'.Held ∧ 0 ≤ Int16.ofInt node'.nice := by
  obtain ⟨op, mem⟩ := op
  obtain ⟨⟨next, r⟩, hstep, rfl⟩ := map_ok hexec
  have hother : srvcStep node op = .ok (next, r) → next.Held ∧ 0 ≤ Int16.ofInt next.nice :=
    fun hsame => ⟨(srvcStep_held h.1 hsame).1, (srvcStep_held h.1 hsame).2 hvalid h.2⟩
  cases op with
  | post hash addr proto =>
    obtain ⟨node', r', hpost, hposted⟩ := @vnodeSrvcPostMem_posted _ mem _ _ _ h.1 h.2 hvalid
    have hsame := hpost.symm.trans hstep
    cases hsame
    obtain ⟨hheld, hnice⟩ := hposted.held h.1
    exact ⟨hheld, hnice ▸ h.2⟩
  | unpost hash addr => exact hother hstep
  | unpostExt hash => exact hother hstep
  | renice nice => exact hother hstep

/-- Whatever was posted, unposted and reniced before on a node without services, and whichever
allocations failed: a post returns, and its return value tells what became of the address, unless
the address is lost. -/
theorem post_told_iff {id : Token} {nice : Int} {ops : List (SrvcOp × PostMemory)}
    {node : VnodeSrvc} (hnice : 0 ≤ Int16.ofInt nice) (hops : ∀ op ∈ ops, op.1.Valid)
    (hrun : run srvcExecMem (vnodeSrvcEmpty id nice) ops = .ok node) (mem : PostMemory)
    {hash : Token} {addr : VsockaddrIn} {proto : Int}
    (hvalid : SrvcOp.Valid (.post hash addr proto)) :
    ∃ node' r, vnodeSrvcPostMem mem node hash addr proto = .ok (node', r) ∧
      (Told node node' hash addr proto r ↔ ¬ Lost mem node hash addr proto) := by
  have hheld := run_invariant (I := fun node : VnodeSrvc => node.Held ∧ 0 ≤ Int16.ofInt node.nice)
    (P := fun op => op.1.Valid) (fun _ _ _ hI hop hstep => srvcExecMem_held hI hop hstep)
    ⟨(vnodeSrvcEmpty_sound id nice).held, hnice⟩ hops hrun
  obtain ⟨node', r, hpost, hposted⟩ := @vnodeSrvcPostMem_posted _ mem _ _ _ hheld.1 hheld.2 hvalid
  exact ⟨node', r, hpost, hposted.told_iff hheld.1⟩

theorem post_told_new :
    ∃ node r, vnodeSrvcPostMem ⟨true, true, true⟩ (vnodeSrvcEmpty (Block.zero VTOKEN_LEN) 5)
        (Block.zero VTOKEN_LEN) (hostAddr 80 VSOCKADDR_LOCAL) 1 = .ok (node, r) ∧
      Told (vnodeSrvcEmpty (Block.zero VTOKEN_LEN) 5) node (Block.zero VTOKEN_LEN)
        (hostAddr 80 VSOCKADDR_LOCAL) 1 r := by
  obtain ⟨node, r, hpost, htold⟩ := @post_told_iff (Block.zero VTOKEN_LEN) 5 [] _ (by decide)
    (by simp) rfl ⟨true, true, true⟩ (Block.zero VTOKEN_LEN) (hostAddr 80 VSOCKADDR_LOCAL) 1
    ⟨by decide, by decide, by decide⟩
  refine ⟨node, r, hpost, htold.mpr ?_⟩
  rintro (⟨s, hs, -⟩ | ⟨-, -, harray⟩)
  · cases hs
  · cases harray

/-- A service with twelve addresses. -/
def twelvePosts : List SrvcOp :=
  (List.range 12).map fun i => .post (Block.zero VTOKEN_LEN) (hostAddr i VSOCKADDR_LOCAL) 1

/-- The post of a thirteenth address returns 0, and no service has the address. -/
theorem twelvePosts_post :
    ((run srvcExec (vnodeSrvcEmpty (Block.zero VTOKEN_LEN) 5) twelvePosts).bind fun node =>
      (vnodeSrvcPost node (Block.zero VTOKEN_LEN) (hostAddr 12 VSOCKADDR_LOCAL) 1).map
        fun r => (r.2, r.1.services.any fun s => s.used.any fun a =>
          vsockaddrEqual a.addr (hostAddr 12 VSOCKADDR_LOCAL).addr)) = .ok (0, false) := rfl

theorem thirteenth_not_told :
    ¬ ∀ node, run srvcExec (vnodeSrvcEmpty (Block.zero VTOKEN_LEN) 5) twelvePosts = .ok node →
      ∀ addr : VsockaddrIn, addr.type < VSOCKADDR_BUTT → ∀ node' r,
        vnodeSrvcPostMem ⟨true, true, true⟩ node (Block.zero VTOKEN_LEN) addr 1 = .ok (node', r) →
        Told node node' (Block.zero VTOKEN_LEN) addr 1 r := by
  intro h
  simp only [@vnodeSrvcPostMem_eq ⟨true, true, true⟩ ⟨rfl, rfl, rfl⟩] at h
  have hrun := twelvePosts_post
  cases hnode : run srvcExec (vnodeSrvcEmpty (Block.zero VTOKEN_LEN) 5) twelvePosts with
  | error e =>
    rw [hnode] at hrun
    cases hrun
  | ok node =>
    rw [hnode] at hrun
    obtain ⟨⟨node', r⟩, hpost, hresult⟩ := map_ok hrun
    obtain ⟨hzero, hnone⟩ := Prod.mk.inj hresult
    rcases h node hnode _ (by decide) node' r hpost with ⟨-, s, hs, -, -, a, ha, heq, -⟩ | ⟨hneg, -⟩
    · have hany : (node'.services.any fun s => s.used.any fun a =>
          vsockaddrEqual a.addr (hostAddr 12 VSOCKADDR_LOCAL).addr) = true :=
        List.any_eq_true.mpr ⟨s, hs, List.any_eq_true.mpr ⟨a, ha, heq⟩⟩
      exact Bool.false_ne_true (hnone.symm.trans hany)
    · rw [show r = 0 from hzero] at hneg
      exact absurd hneg (by decide)

end Vdht.Services
