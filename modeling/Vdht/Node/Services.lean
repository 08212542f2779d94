import Vdht.Lib.Run
import Vdht.NodeId.SrvcAddrs

/-!
# The services of the own node

`node->services` of `vnode.c` with the operations that post, unpost and renice. A service is kept
as long as it has an address; `node->nodei->weight` counts the services. Both counters are an
`int` of the source.
-/

namespace Vdht.Services

open Lib NodeId

/-- The part of `struct vnode` that the services use. -/
structure VnodeSrvc where
  /-- `nodei->id` -/
  id : Token
  /-- `nodei->weight` -/
  weight : Int
  nice : Int
  services : List VsrvcInfo

/-- A node without services. -/
def vnodeSrvcEmpty (id : Token) (nice : Int) : VnodeSrvc := ⟨id, 0, nice, []⟩

/-- The protocols are the numbers above this one, -/
def VPROTO_RES0 : Int := 0

/-- and below this one. -/
def VPROTO_RES1 : Int := 3

/-- The loop that looks for a service: its index and its info. -/
def findSrvc (hash : Token) : List VsrvcInfo → Option (Nat × VsrvcInfo)
  | [] => none
  | srvci :: services =>
    if vsrvcHashEqual srvci.hash hash then some (0, srvci)
    else
      match findSrvc hash services with
      | none => none
      | some (i, srvci) => some (i + 1, srvci)

/-- `_vnode_srvc_post`: the address is added to the service of the hash, or a new service is made
for it. A protocol that is none fails an assertion, and one that is not that of the service is
refused; the result of adding the address is not looked at. -/
def vnodeSrvcPost (node : VnodeSrvc) (hash : Token) (addr : VsockaddrIn) (proto : Int) :
    Res (VnodeSrvc × Int) :=
  if ¬ (proto > VPROTO_RES0 ∧ proto < VPROTO_RES1) then .error .assertion
  else
    match findSrvc hash node.services with
    | some (i, srvci) =>
      if proto ≠ srvci.proto.toInt then .ok (node, -1)
      else
        match vsrvcInfoAddAddr srvci addr.addr addr.type with
        | .error e => .error e
        | .ok (srvci, _) => .ok ({ node with services := node.services.set i srvci }, 0)
    | none =>
      match vsrvcInfoInit vsrvcInfoAlloc hash node.id (Int16.ofInt node.nice)
          (Int16.ofInt proto) with
      | .error e => .error e
      | .ok srvci =>
        match vsrvcInfoAddAddr srvci addr.addr addr.type with
        | .error e => .error e
        | .ok (srvci, _) =>
          .ok ({ node with services := node.services ++ [srvci], weight := node.weight + 1 }, 0)

/-- `_vnode_srvc_unpost`: the address is taken from the service of the hash, which is deleted with
its last address. -/
def vnodeSrvcUnpost (node : VnodeSrvc) (hash : Token) (addr : SockaddrIn) :
    Res (VnodeSrvc × Int) :=
  match findSrvc hash node.services with
  | none => .ok (node, 0)
  | some (i, srvci) =>
    match vsrvcInfoDelAddr srvci addr with
    | .error e => .error e
    | .ok srvci =>
      if vsrvcInfoIsEmpty srvci then
        .ok ({ node with services := node.services.eraseIdx i, weight := node.weight - 1 }, 0)
      else .ok ({ node with services := node.services.set i srvci }, 0)

/-- `_vnode_srvc_unpost_ext`: the service of the hash is deleted with all addresses. -/
def vnodeSrvcUnpostExt (node : VnodeSrvc) (hash : Token) : VnodeSrvc × Int :=
  match findSrvc hash node.services with
  | none => (node, 0)
  | some (i, _) =>
    ({ node with services := node.services.eraseIdx i, weight := node.weight - 1 }, 0)

/-- `_vnode_renice`, with what `get_nice` returns. -/
def vnodeRenice (node : VnodeSrvc) (nice : Int) : VnodeSrvc × Int :=
  ({ node with
    nice := nice
    services := node.services.map fun srvci => { srvci with nice := Int16.ofInt nice } }, 0)

/-- The operations on the services of a node; `renice` gives the load that was measured. -/
inductive SrvcOp where
  | post (hash : Token) (addr : VsockaddrIn) (proto : Int)
  | unpost (hash : Token) (addr : SockaddrIn)
  | unpostExt (hash : Token)
  | renice (nice : Int)

/-- An operation and its return value. -/
def srvcStep (node : VnodeSrvc) : SrvcOp → Res (VnodeSrvc × Int)
  | .post hash addr proto => vnodeSrvcPost node hash addr proto
  | .unpost hash addr => vnodeSrvcUnpost node hash addr
  | .unpostExt hash => .ok (vnodeSrvcUnpostExt node hash)
  | .renice nice => .ok (vnodeRenice node nice)

/-- An operation without its return value. -/
def srvcExec (node : VnodeSrvc) (op : SrvcOp) : Res VnodeSrvc := (srvcStep node op).map Prod.fst

/-! ## The invariant -/

/-- What holds of a registered service: `s.Sound` is about its block of addresses. -/
structure Registered (id : Token) (s : VsrvcInfo) : Prop extends s.Kept where
  host : s.hostid = id
  pos : 1 ≤ s.naddrs
  le_max : s.naddrs ≤ MAX_ADDRS
  le_capc : s.naddrs ≤ s.capc
  allocated : s.capc ≤ s.addrs.length

/-- The weight of the node counts its services, no two services have the same hash, and each is a
record of this host in step with its addresses. -/
structure VnodeSrvc.Sound (node : VnodeSrvc) : Prop where
  weight : node.weight = node.services.length
  hashes : (node.services.map VsrvcInfo.hash).Nodup
  registered : ∀ s ∈ node.services, Registered node.id s

/-- An operation that passes the assertions. -/
def SrvcOp.Valid : SrvcOp → Prop
  | .post _ addr proto => proto > VPROTO_RES0 ∧ proto < VPROTO_RES1 ∧ addr.type < VSOCKADDR_BUTT
  | .unpost _ _ => True
  | .unpostExt _ => True
  | .renice nice => 0 ≤ Int16.ofInt nice

theorem registered_of_kept {id : Token} {s : VsrvcInfo} (h : s.Kept) (host : s.hostid = id)
    (hpos : 1 ≤ s.naddrs) : Registered id s := by
  have hslots := h.sound.slots
  exact ⟨h, host, hpos, h.sound.naddrs_le_max, h.sound.naddrs_le, by omega⟩

/-- The search returns the only service with the hash. -/
theorem findSrvc_split {hash : Token} {services : List VsrvcInfo} {i : Nat} {srvci : VsrvcInfo}
    (h : findSrvc hash services = some (i, srvci)) :
    ∃ m l, services = m ++ srvci :: l ∧ i = m.length ∧ srvci.hash = hash := by
  induction services generalizing i with
  | nil => cases h
  | cons s services ih =>
    rw [findSrvc] at h
    split at h
    · rename_i heq
      cases h
      exact ⟨[], services, rfl, rfl, vsrvcHashEqual_iff.mp heq⟩
    · split at h
      · cases h
      · rename_i j t hrest
        cases h
        obtain ⟨m, l, rfl, rfl, hhash⟩ := ih hrest
        exact ⟨s :: m, l, rfl, rfl, hhash⟩

theorem findSrvc_none {hash : Token} {services : List VsrvcInfo}
    (h : findSrvc hash services = none) : ∀ s ∈ services, s.hash ≠ hash := by
  induction services with
  | nil => simp
  | cons s services ih =>
    rw [findSrvc] at h
    split at h
    · cases h
    · rename_i hne
      split at h
      · rename_i hrest
        intro t ht
        rcases List.mem_cons.mp ht with rfl | ht
        · exact mt vsrvcHashEqual_iff.mpr hne
        · exact ih hrest t ht
      · cases h

theorem set_middle {m l : List VsrvcInfo} {s t : VsrvcInfo} :
    (m ++ s :: l).set m.length t = m ++ t :: l := by
  simp

theorem eraseIdx_middle {m l : List VsrvcInfo} {s : VsrvcInfo} :
    (m ++ s :: l).eraseIdx m.length = m ++ l := by
  rw [List.eraseIdx_append_of_length_le (Nat.le_refl _), Nat.sub_self]
  rfl

/-! ## The registry -/

/-- What is known of a service. -/
structure Entry where
  proto : Int
  types : AddrKey → Option UInt32

/-- What a service is in the map. -/
def srvcEntry (s : VsrvcInfo) : Entry := ⟨s.proto.toInt, s.types⟩

/-- The services as a map from hashes. -/
def VnodeSrvc.registry (node : VnodeSrvc) : Token → Option Entry :=
  table VsrvcInfo.hash srvcEntry node.services

theorem VnodeSrvc.Sound.find {node : VnodeSrvc} (h : node.Sound) (hash : Token) :
    (findSrvc hash node.services = none ∧ node.registry hash = none) ∨
      ∃ m s l, node.services = m ++ s :: l ∧ s.hash = hash ∧
        findSrvc hash node.services = some (m.length, s) ∧ Registered node.id s ∧
        node.registry hash = some (srvcEntry s) := by
  cases hfind : findSrvc hash node.services with
  | none => exact Or.inl ⟨rfl, table_eq_none.mpr (findSrvc_none hfind)⟩
  | some found =>
    obtain ⟨i, s⟩ := found
    obtain ⟨m, l, hsplit, rfl, hhash⟩ := findSrvc_split hfind
    have hmem : s ∈ node.services := hsplit ▸ List.mem_append_right _ List.mem_cons_self
    exact Or.inr ⟨m, s, l, hsplit, hhash, rfl, h.registered s hmem,
      (table_eq_some h.hashes).mpr ⟨s, hmem, hhash, rfl⟩⟩

/-- A service changes under its hash. -/
theorem sound_replace {node : VnodeSrvc} (h : node.Sound) {m l : List VsrvcInfo}
    {s t : VsrvcInfo} (hsplit : node.services = m ++ s :: l) (hhash : t.hash = s.hash)
    (ht : Registered node.id t) :
    VnodeSrvc.Sound { node with services := m ++ t :: l } ∧
      VnodeSrvc.registry { node with services := m ++ t :: l } =
        Function.update node.registry s.hash (some (srvcEntry t)) := by
  have hnodup := h.hashes
  rw [hsplit] at hnodup
  refine ⟨⟨?_, ?_, ?_⟩, ?_⟩
  · rw [h.weight, hsplit]
    simp
  · show ((m ++ t :: l).map VsrvcInfo.hash).Nodup
    rw [List.map_append, List.map_cons] at hnodup ⊢
    rwa [hhash]
  · intro u hu
    rcases List.mem_append.mp hu with hu | hu
    · exact h.registered u (hsplit ▸ List.mem_append_left _ hu)
    · rcases List.mem_cons.mp hu with rfl | hu
      · exact ht
      · exact h.registered u (hsplit ▸ List.mem_append_right _ (List.mem_cons_of_mem _ hu))
  · rw [VnodeSrvc.registry, VnodeSrvc.registry, hsplit]
    exact table_replace hnodup hhash

/-- A service goes. -/
theorem sound_remove {node : VnodeSrvc} (h : node.Sound) {m l : List VsrvcInfo}
    {s : VsrvcInfo} (hsplit : node.services = m ++ s :: l) :
    VnodeSrvc.Sound { node with services := m ++ l, weight := node.weight - 1 } ∧
      VnodeSrvc.registry { node with services := m ++ l, weight := node.weight - 1 } =
        Function.update node.registry s.hash none := by
  have hnodup := h.hashes
  rw [hsplit] at hnodup
  have hsub : (m ++ l).Sublist node.services := by
    rw [hsplit]
    exact (List.Sublist.refl m).append (List.sublist_cons_self s l)
  refine ⟨⟨?_, ?_, ?_⟩, ?_⟩
  · show node.weight - 1 = ((m ++ l).length : Int)
    rw [h.weight, hsplit]
    simp only [List.length_append, List.length_cons]
    omega
  · exact h.hashes.sublist (hsub.map VsrvcInfo.hash)
  · intro u hu
    exact h.registered u (hsub.subset hu)
  · rw [VnodeSrvc.registry, VnodeSrvc.registry, hsplit]
    exact table_remove hnodup

/-- A new service comes last. -/
theorem sound_append {node : VnodeSrvc} (h : node.Sound) {s : VsrvcInfo}
    (hnew : ∀ t ∈ node.services, t.hash ≠ s.hash) (hs : Registered node.id s) :
    VnodeSrvc.Sound { node with services := node.services ++ [s], weight := node.weight + 1 } ∧
      VnodeSrvc.registry { node with services := node.services ++ [s], weight := node.weight + 1 } =
        Function.update node.registry s.hash (some (srvcEntry s)) := by
  have hnodup : ((node.services ++ s :: []).map VsrvcInfo.hash).Nodup := by
    rw [(List.perm_append_singleton s node.services).map VsrvcInfo.hash |>.nodup_iff,
      List.map_cons, List.nodup_cons]
    refine ⟨?_, h.hashes⟩
    rintro hmem
    obtain ⟨t, ht, heq⟩ := List.mem_map.mp hmem
    exact hnew t ht heq
  refine ⟨⟨?_, hnodup, ?_⟩, ?_⟩
  · show node.weight + 1 = ((node.services ++ [s]).length : Int)
    rw [h.weight]
    simp
  · intro t ht
    rcases List.mem_append.mp ht with ht | ht
    · exact h.registered t ht
    · rw [List.mem_singleton.mp ht]
      exact hs
  · rw [VnodeSrvc.registry, VnodeSrvc.registry, table_middle hnodup, List.append_nil]

/-! ## What each operation does -/

theorem post_mismatch {node : VnodeSrvc} {hash : Token} {addr : VsockaddrIn} {proto : Int}
    {i : Nat} {s : VsrvcInfo} (hproto : proto > VPROTO_RES0 ∧ proto < VPROTO_RES1)
    (hfind : findSrvc hash node.services = some (i, s)) (hne : proto ≠ s.proto.toInt) :
    vnodeSrvcPost node hash addr proto = .ok (node, -1) := by
  rw [vnodeSrvcPost, if_neg (not_not.mpr hproto), hfind]
  exact if_pos hne

/-- A post for a service that is full changes nothing. -/
theorem post_full {node : VnodeSrvc} {m l : List VsrvcInfo} {s : VsrvcInfo} {addr : VsockaddrIn}
    (hproto : s.proto.toInt > VPROTO_RES0 ∧ s.proto.toInt < VPROTO_RES1)
    (hsplit : node.services = m ++ s :: l)
    (hfind : findSrvc s.hash node.services = some (m.length, s))
    (hfull : MAX_ADDRS ≤ s.naddrs) (htype : addr.type < VSOCKADDR_BUTT) :
    vnodeSrvcPost node s.hash addr s.proto.toInt = .ok (node, 0) := by
  rw [vnodeSrvcPost, if_neg (not_not.mpr hproto), hfind]
  dsimp only
  rw [if_neg (not_not.mpr rfl), vsrvcInfoAddAddr_full hfull addr.addr htype]
  dsimp only
  rw [hsplit, set_middle, ← hsplit]

theorem post_room {node : VnodeSrvc} (h : node.Sound) {m l : List VsrvcInfo} {s : VsrvcInfo}
    {addr : VsockaddrIn} (hproto : s.proto.toInt > VPROTO_RES0 ∧ s.proto.toInt < VPROTO_RES1)
    (hsplit : node.services = m ++ s :: l)
    (hfind : findSrvc s.hash node.services = some (m.length, s)) (hs : Registered node.id s)
    (hroom : s.naddrs < MAX_ADDRS) (htype : addr.type < VSOCKADDR_BUTT) :
    ∃ node', vnodeSrvcPost node s.hash addr s.proto.toInt = .ok (node', 0) ∧ node'.Sound ∧
      node'.id = node.id ∧ node'.nice = node.nice ∧
      node'.registry = Function.update node.registry s.hash
        (some ⟨s.proto.toInt, Function.update s.types addr.addr.key (some addr.type)⟩) := by
  obtain ⟨b, hadd, hkept, hpos, htypes⟩ := vsrvcInfoAddAddr_room hs.toKept hroom addr.addr htype
  obtain ⟨hsound, hreg⟩ := sound_replace (t := { s with toAddrBlock := b }) h hsplit rfl
    (registered_of_kept hkept hs.host hpos)
  refine ⟨_, ?_, hsound, rfl, rfl, ?_⟩
  · rw [vnodeSrvcPost, if_neg (not_not.mpr hproto), hfind]
    dsimp only
    rw [if_neg (not_not.mpr rfl), hadd]
    dsimp only
    rw [hsplit, set_middle]
  · rw [hreg, srvcEntry, htypes]

theorem proto_toInt {proto : Int} (h : proto > VPROTO_RES0 ∧ proto < VPROTO_RES1) :
    (Int16.ofInt proto).toInt = proto := by
  obtain ⟨hlow, hhigh⟩ := h
  rw [VPROTO_RES0] at hlow
  rw [VPROTO_RES1] at hhigh
  obtain rfl | rfl : proto = 1 ∨ proto = 2 := by omega
  · rfl
  · rfl

theorem post_new {node : VnodeSrvc} (h : node.Sound) {hash : Token} {addr : VsockaddrIn}
    {proto : Int} (hproto : proto > VPROTO_RES0 ∧ proto < VPROTO_RES1)
    (hfind : findSrvc hash node.services = none) (hnice : 0 ≤ Int16.ofInt node.nice)
    (htype : addr.type < VSOCKADDR_BUTT) :
    ∃ node', vnodeSrvcPost node hash addr proto = .ok (node', 0) ∧ node'.Sound ∧
      node'.id = node.id ∧ node'.nice = node.nice ∧
      node'.registry = Function.update node.registry hash
        (some ⟨proto, Function.update (fun _ => none) addr.addr.key (some addr.type)⟩) := by
  obtain ⟨s, hinit, hsound, hused, rfl, hhost, hkeptProto⟩ :=
    vsrvcInfoInit_ok hash node.id (Int16.ofInt proto) hnice
  obtain ⟨hempty, hzero⟩ := hsound.kept_empty hused
  have hnone : s.types = fun _ => none := by
    rw [VsrvcInfo.types, hused]
    rfl
  have hroom : s.naddrs < MAX_ADDRS := by
    rw [hzero]
    decide
  obtain ⟨b, hadd, hkept, hpos, htypes⟩ := vsrvcInfoAddAddr_room hempty hroom addr.addr htype
  obtain ⟨hsound', hreg⟩ := sound_append (s := { s with toAddrBlock := b }) h
    (findSrvc_none hfind) (registered_of_kept hkept hhost hpos)
  refine ⟨_, ?_, hsound', rfl, rfl, ?_⟩
  · rw [vnodeSrvcPost, if_neg (not_not.mpr hproto), hfind]
    dsimp only
    rw [hinit]
    dsimp only
    rw [hadd]
  · rw [hreg, srvcEntry, htypes, hnone, hkeptProto, proto_toInt hproto]

/-- An address goes, and with the last one its service. -/
theorem unpost_known {node : VnodeSrvc} (h : node.Sound) {m l : List VsrvcInfo} {s : VsrvcInfo}
    (addr : SockaddrIn) (hsplit : node.services = m ++ s :: l)
    (hfind : findSrvc s.hash node.services = some (m.length, s)) (hs : Registered node.id s) :
    ∃ node', vnodeSrvcUnpost node s.hash addr = .ok (node', 0) ∧ node'.Sound ∧
      node'.id = node.id ∧ node'.nice = node.nice ∧
      ((Function.update s.types addr.key none = (fun _ => none) ∧
          node'.registry = Function.update node.registry s.hash none) ∨
        (Function.update s.types addr.key none ≠ (fun _ => none) ∧
          node'.registry = Function.update node.registry s.hash
            (some ⟨s.proto.toInt, Function.update s.types addr.key none⟩))) := by
  obtain ⟨b, hdel, hkept, htypes⟩ := vsrvcInfoDelAddr_kept hs.toKept addr
  have hzero := hkept.naddrs_eq_zero
  rw [htypes] at hzero
  by_cases hempty : b.naddrs = 0
  · obtain ⟨hsound, hreg⟩ := sound_remove h hsplit
    have hgone : vsrvcInfoIsEmpty { s with toAddrBlock := b } = true := decide_eq_true hempty
    refine ⟨_, ?_, hsound, rfl, rfl, Or.inl ⟨hzero.mp hempty, hreg⟩⟩
    rw [vnodeSrvcUnpost, hfind]
    dsimp only
    rw [hdel]
    dsimp only
    rw [if_pos hgone, hsplit, eraseIdx_middle]
  · have hpos : 1 ≤ b.naddrs := by
      have hnonneg : 0 ≤ b.naddrs := hkept.sound.naddrs_nonneg
      omega
    obtain ⟨hsound, hreg⟩ := sound_replace (t := { s with toAddrBlock := b }) h hsplit rfl
      (registered_of_kept hkept hs.host hpos)
    refine ⟨_, ?_, hsound, rfl, rfl, Or.inr ⟨mt hzero.mpr hempty, ?_⟩⟩
    · rw [vnodeSrvcUnpost, hfind]
      dsimp only
      rw [hdel]
      dsimp only
      rw [if_neg (by simpa [vsrvcInfoIsEmpty] using hempty), hsplit, set_middle]
    · rw [hreg, srvcEntry, htypes]

theorem unpostExt_spec {node : VnodeSrvc} (h : node.Sound) (hash : Token) :
    ∃ node', vnodeSrvcUnpostExt node hash = (node', 0) ∧ node'.Sound ∧ node'.id = node.id ∧
      node'.nice = node.nice ∧ node'.registry = Function.update node.registry hash none := by
  rcases h.find hash with ⟨hfind, hnone⟩ | ⟨m, s, l, hsplit, rfl, hfind, -, -⟩
  · refine ⟨node, ?_, h, rfl, rfl, ?_⟩
    · rw [vnodeSrvcUnpostExt, hfind]
    · rw [← hnone, Function.update_eq_self]
  · obtain ⟨hsound, hreg⟩ := sound_remove h hsplit
    refine ⟨_, ?_, hsound, rfl, rfl, hreg⟩
    rw [vnodeSrvcUnpostExt, hfind]
    dsimp only
    rw [hsplit, eraseIdx_middle]

theorem renice_spec {node : VnodeSrvc} (h : node.Sound) (nice : Int) :
    VnodeSrvc.Sound (vnodeRenice node nice).1 ∧ (vnodeRenice node nice).1.id = node.id ∧
      (vnodeRenice node nice).1.registry = node.registry := by
  have hkey : ∀ s : VsrvcInfo, { s with nice := Int16.ofInt nice }.hash = s.hash := fun _ => rfl
  refine ⟨⟨?_, ?_, ?_⟩, rfl, table_map hkey (fun _ => rfl) node.services⟩
  · simpa [vnodeRenice] using h.weight
  · simpa [vnodeRenice, Function.comp_def] using h.hashes
  · intro s hs
    obtain ⟨t, ht, rfl⟩ := List.mem_map.mp hs
    have ht' := h.registered t ht
    exact registered_of_kept ⟨ht'.sound, ht'.distinct, ht'.types⟩ ht'.host ht'.pos

/-! ## Runs -/

theorem post_sound {node : VnodeSrvc} (h : node.Sound) (hash : Token) (addr : VsockaddrIn)
    (proto : Int) :
    (∃ node' r, vnodeSrvcPost node hash addr proto = .ok (node', r) ∧ node'.Sound ∧
        node'.id = node.id ∧ node'.nice = node.nice) ∨
      vnodeSrvcPost node hash addr proto = .error .assertion ∧
        (SrvcOp.Valid (.post hash addr proto) → ¬ 0 ≤ Int16.ofInt node.nice) := by
  by_cases hproto : proto > VPROTO_RES0 ∧ proto < VPROTO_RES1
  · rcases h.find hash with ⟨hfind, -⟩ | ⟨m, s, l, hsplit, rfl, hfind, hs, -⟩
    · by_cases hnice : 0 ≤ Int16.ofInt node.nice
      · by_cases htype : addr.type < VSOCKADDR_BUTT
        · obtain ⟨node', hpost, hsound, hid, hnice', -⟩ := post_new h hproto hfind hnice htype
          exact Or.inl ⟨node', 0, hpost, hsound, hid, hnice'⟩
        · refine Or.inr ⟨?_, fun hvalid => absurd hvalid.2.2 htype⟩
          obtain ⟨s, hinit, -⟩ := vsrvcInfoInit_ok hash node.id (Int16.ofInt proto) hnice
          rw [vnodeSrvcPost, if_neg (not_not.mpr hproto), hfind]
          dsimp only
          rw [hinit]
          dsimp only
          rw [vsrvcInfoAddAddr_rejected s addr.addr htype]
      · refine Or.inr ⟨?_, fun _ => hnice⟩
        have hinit : vsrvcInfoInit vsrvcInfoAlloc hash node.id (Int16.ofInt node.nice)
            (Int16.ofInt proto) = .error .assertion := if_pos (Int16.not_le.mp hnice)
        rw [vnodeSrvcPost, if_neg (not_not.mpr hproto), hfind]
        dsimp only
        rw [hinit]
    · by_cases hne : proto ≠ s.proto.toInt
      · exact Or.inl ⟨node, -1, post_mismatch hproto hfind hne, h, rfl, rfl⟩
      · obtain rfl := not_not.mp hne
        by_cases htype : addr.type < VSOCKADDR_BUTT
        · by_cases hroom : s.naddrs < MAX_ADDRS
          · obtain ⟨node', hpost, hsound, hid, hnice, -⟩ :=
              post_room h hproto hsplit hfind hs hroom htype
            exact Or.inl ⟨node', 0, hpost, hsound, hid, hnice⟩
          · exact Or.inl ⟨node, 0, post_full hproto hsplit hfind (Int.not_lt.mp hroom) htype, h,
              rfl, rfl⟩
        · refine Or.inr ⟨?_, fun hvalid => absurd hvalid.2.2 htype⟩
          rw [vnodeSrvcPost, if_neg (not_not.mpr hproto), hfind]
          dsimp only
          rw [if_neg hne, vsrvcInfoAddAddr_rejected s addr.addr htype]
  · exact Or.inr ⟨if_pos hproto, fun hvalid => absurd ⟨hvalid.1, hvalid.2.1⟩ hproto⟩

theorem unpost_sound {node : VnodeSrvc} (h : node.Sound) (hash : Token) (addr : SockaddrIn) :
    ∃ node', vnodeSrvcUnpost node hash addr = .ok (node', 0) ∧ node'.Sound ∧
      node'.id = node.id ∧ node'.nice = node.nice := by
  rcases h.find hash with ⟨hfind, -⟩ | ⟨m, s, l, hsplit, rfl, hfind, hs, -⟩
  · refine ⟨node, ?_, h, rfl, rfl⟩
    rw [vnodeSrvcUnpost, hfind]
  · obtain ⟨node', hunpost, hsound, hid, hnice, -⟩ := unpost_known h addr hsplit hfind hs
    exact ⟨node', hunpost, hsound, hid, hnice⟩

/-- An operation keeps the services sound or fails an assertion, which a valid one does not. -/
theorem srvcExec_sound {node : VnodeSrvc} (h : node.Sound) (op : SrvcOp) :
    (∃ node', srvcExec node op = .ok node' ∧ node'.Sound ∧ node'.id = node.id ∧
        (op.Valid → 0 ≤ Int16.ofInt node.nice → 0 ≤ Int16.ofInt node'.nice)) ∨
      srvcExec node op = .error .assertion ∧ (op.Valid → ¬ 0 ≤ Int16.ofInt node.nice) := by
  cases op with
  | post hash addr proto =>
    rcases post_sound h hash addr proto with ⟨node', r, hpost, hsound, hid, hnice⟩ | ⟨hpost, hno⟩
    · refine Or.inl ⟨node', ?_, hsound, hid, fun _ hn => hnice ▸ hn⟩
      rw [srvcExec, srvcStep, hpost]
      rfl
    · refine Or.inr ⟨?_, hno⟩
      rw [srvcExec, srvcStep, hpost]
      rfl
  | unpost hash addr =>
    obtain ⟨node', hunpost, hsound, hid, hnice⟩ := unpost_sound h hash addr
    refine Or.inl ⟨node', ?_, hsound, hid, fun _ hn => hnice ▸ hn⟩
    rw [srvcExec, srvcStep, hunpost]
    rfl
  | unpostExt hash =>
    obtain ⟨node', hunpost, hsound, hid, hnice, -⟩ := unpostExt_spec h hash
    refine Or.inl ⟨node', ?_, hsound, hid, fun _ hn => hnice ▸ hn⟩
    rw [srvcExec, srvcStep, hunpost]
    rfl
  | renice nice =>
    obtain ⟨hsound, hid, -⟩ := renice_spec h nice
    exact Or.inl ⟨_, rfl, hsound, hid, fun hvalid _ => hvalid⟩

theorem vnodeSrvcEmpty_sound (id : Token) (nice : Int) : (vnodeSrvcEmpty id nice).Sound :=
  ⟨rfl, List.nodup_nil, by simp [vnodeSrvcEmpty]⟩

/-- Whatever is posted, unposted and reniced on a node without services, its services stay sound:
the weight counts them, their hashes differ, and each has between one and twelve addresses of its
own in the slots allocated for them. No operation reads or writes a slot that is not there, and
valid operations all succeed. -/
theorem services_sound (id : Token) (nice : Int) (ops : List SrvcOp) :
    (∀ node, run srvcExec (vnodeSrvcEmpty id nice) ops = .ok node →
        node.Sound ∧ node.id = id) ∧
      run srvcExec (vnodeSrvcEmpty id nice) ops ≠ .error .bounds ∧
      ((∀ op ∈ ops, op.Valid) → 0 ≤ Int16.ofInt nice →
        ∃ node, run srvcExec (vnodeSrvcEmpty id nice) ops = .ok node) := by
  have hstart := vnodeSrvcEmpty_sound id nice
  have hrun := run_cases (I := fun node : VnodeSrvc => node.Sound ∧ node.id = id) (F := (· = Fault.assertion))
    (fun node op hI => by
      rcases srvcExec_sound hI.1 op with ⟨node', hexec, hsound, hid, -⟩ | ⟨hexec, -⟩
      · exact Or.inl ⟨node', hexec, hsound, hid.trans hI.2⟩
      · exact Or.inr ⟨_, hexec, rfl⟩) ⟨hstart, rfl⟩ ops
  refine ⟨?_, ?_, ?_⟩
  · intro node hnode
    rcases hrun with ⟨node', hnode', hI⟩ | ⟨e, herror, -⟩
    · rw [hnode] at hnode'
      exact Except.ok.inj hnode' ▸ hI
    · rw [hnode] at herror
      cases herror
  · intro hbounds
    rcases hrun with ⟨node', hnode', -⟩ | ⟨e, herror, rfl⟩
    · rw [hbounds] at hnode'
      cases hnode'
    · rw [hbounds] at herror
      cases herror
  · intro hvalid hnice
    obtain ⟨node, hnode, -⟩ := run_total
      (I := fun node : VnodeSrvc => node.Sound ∧ 0 ≤ Int16.ofInt node.nice) (P := SrvcOp.Valid)
      (fun node op hI hop => by
        rcases srvcExec_sound hI.1 op with ⟨node', hexec, hsound, -, hkeep⟩ | ⟨-, hno⟩
        · exact ⟨node', hexec, hsound, hkeep hop hI.2⟩
        · exact absurd hI.2 (hno hop)) ⟨hstart, hnice⟩ hvalid
    exact ⟨node, hnode⟩

/-- The post of a port for the service of the zero hash. -/
def portPost (port : UInt16) : SrvcOp :=
  .post (Block.zero VTOKEN_LEN) ⟨⟨2, port, 0x0100007f, Block.zero 8⟩, 1⟩ 1

/-- A service gets three addresses, for which its record grows, and loses one again; another service
is posted and deleted. -/
def postedOps : List SrvcOp :=
  [portPost 80, portPost 81, portPost 82, .renice 7,
    .post (Block.ofList VTOKEN_LEN [3]) zeroAddr 1,
    .unpost (Block.zero VTOKEN_LEN) ⟨2, 81, 0x0100007f, Block.zero 8⟩,
    .unpostExt (Block.ofList VTOKEN_LEN [3])]

theorem valid_postedOps : ∀ op ∈ postedOps, op.Valid := by
  have hpost : ∀ port, (portPost port).Valid := fun port =>
    ⟨by decide, by decide, show (1 : UInt32) < VSOCKADDR_BUTT by decide⟩
  simp only [postedOps, List.forall_mem_cons]
  refine ⟨hpost 80, hpost 81, hpost 82, ?_, ⟨by decide, by decide, by decide⟩, trivial, trivial,
    List.forall_mem_nil _⟩
  exact (by decide : 0 ≤ Int16.ofInt 7)

theorem postedOps_left :
    (run srvcExec (vnodeSrvcEmpty (Block.zero VTOKEN_LEN) 5) postedOps).map
      (fun node => node.services.map fun s => (s.hash, s.naddrs, s.capc)) =
        .ok [(Block.zero VTOKEN_LEN, 2, 4)] := by
  decide +kernel

theorem services_sound_posted :
    ∃ node, run srvcExec (vnodeSrvcEmpty (Block.zero VTOKEN_LEN) 5) postedOps = .ok node ∧
      (node.services.map fun s => (s.hash, s.naddrs, s.capc)) = [(Block.zero VTOKEN_LEN, 2, 4)] ∧
      node.Sound := by
  obtain ⟨hsound, -, hok⟩ := services_sound (Block.zero VTOKEN_LEN) 5 postedOps
  obtain ⟨node, hnode⟩ := hok valid_postedOps (by decide)
  have hleft := postedOps_left
  rw [hnode] at hleft
  exact ⟨node, hnode, Except.ok.inj hleft, (hsound node hnode).1⟩

end Vdht.Services
