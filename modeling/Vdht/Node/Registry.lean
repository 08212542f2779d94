import Vdht.Node.Services
import Vdht.Route.TicketRun

/-!
# The services as a map

`_vnode_srvc_find` shows what was posted. The services of a node are for keeping a map from
hashes to a protocol and a map from addresses to types: a post sets a type, an unpost takes an
address out and with the last address the service. A find calls back with what the map says and
leaves the routing space alone. The code keeps up with the map as long as no post gives a new type
to an address of a service that holds twelve of them, because `vsrvcInfo_add_addr` returns before
it looks for the address.
-/

namespace Vdht.Services

open Lib NodeId Route

/-! ## Finding a service -/

/-- What a find returns, the callbacks it makes and whether it asked the routing space. -/
structure Found where
  ret : Int
  calls : List TicketCall
  routed : Bool

/-- `_vnode_srvc_find`, with `find_service` of the routing space. -/
def vnodeSrvcFind (route : Token → Nat → Res (Int × List TicketCall)) (node : VnodeSrvc)
    (hash : Token) (cookie : Nat) : Res Found :=
  match findSrvc hash node.services with
  | some (_, item) =>
    match vsrvcInfoCopy vsrvcInfoRelax item with
    | .error e => .error e
    | .ok (srvci, _) =>
      match showAddrs srvci.toAddrBlock with
      | .error e => .error e
      | .ok addrs =>
        .ok ⟨0, Shown.calls ⟨cookie, hash, srvci.naddrs, srvci.proto.toInt, addrs⟩, false⟩
  | none =>
    match route hash cookie with
    | .error e => .error e
    | .ok (ret, calls) => .ok ⟨if ret < 0 then -1 else 0, calls, true⟩

/-! ## The map -/

/-- The services of a node as a map from hashes to entries. -/
abbrev Registry := Token → Option Entry

open Classical in
/-- What an operation does to the map and what it returns. -/
noncomputable def registryStep (t : Registry) : SrvcOp → Registry × Int
  | .post hash addr proto =>
    match t hash with
    | none =>
      (Function.update t hash
        (some ⟨proto, Function.update (fun _ => none) addr.addr.key (some addr.type)⟩), 0)
    | some e =>
      if proto ≠ e.proto then (t, -1)
      else
        (Function.update t hash
          (some ⟨e.proto, Function.update e.types addr.addr.key (some addr.type)⟩), 0)
  | .unpost hash addr =>
    match t hash with
    | none => (t, 0)
    | some e =>
      if Function.update e.types addr.key none = fun _ => none then
        (Function.update t hash none, 0)
      else
        (Function.update t hash (some ⟨e.proto, Function.update e.types addr.key none⟩), 0)
  | .unpostExt hash => (Function.update t hash none, 0)
  | .renice _ => (t, 0)

/-- No service is posted. -/
def emptyRegistry : Registry := fun _ => none

/-- The addresses of a service. -/
def Entry.addrs (e : Entry) : Set AddrKey := {a | e.types a ≠ none}

/-- No service holds more than twelve addresses. -/
def Registry.Bounded (t : Registry) : Prop :=
  ∀ hash e, t hash = some e → e.addrs.encard ≤ 12

/-- A valid operation that leaves no service with more than twelve addresses. -/
def Admissible (t : Registry) (op : SrvcOp) : Prop :=
  op.Valid ∧ Registry.Bounded (registryStep t op).1

/-- The operation does not give another type to an address of a service with twelve addresses. -/
def Spared (t : Registry) : SrvcOp → Prop
  | .post hash addr proto =>
    ∀ e, t hash = some e → e.proto = proto → e.addrs.encard = 12 → addr.addr.key ∈ e.addrs →
      e.types addr.addr.key = some addr.type
  | _ => True

/-- The list shows each address of the map once, with its type. -/
structure Lists (l : List VsockaddrIn) (types : AddrKey → Option UInt32) : Prop where
  distinct : DistinctAddrs l
  shown : ∀ a type, (∃ x ∈ l, x.addr.key = a ∧ x.type = type) ↔ types a = some type

/-- The node answers as the map says. -/
structure Agrees (node : VnodeSrvc) (t : Registry) : Prop where
  found : ∀ route hash cookie e, t hash = some e →
    ∃ l, Lists l e.types ∧
      vnodeSrvcFind route node hash cookie = .ok ⟨0, report cookie hash l.length e.proto l, false⟩
  unknown : ∀ route hash cookie, t hash = none →
    vnodeSrvcFind route node hash cookie =
      (route hash cookie).map fun r => ⟨if r.1 < 0 then -1 else 0, r.2, true⟩
  refused : ∀ hash addr proto e, t hash = some e → proto > VPROTO_RES0 ∧ proto < VPROTO_RES1 →
    proto ≠ e.proto → vnodeSrvcPost node hash addr proto = .ok (node, -1)

/-! ## A sound node answers as its registry says -/

theorem lists_of_perm {l m : List VsockaddrIn} (h : DistinctAddrs m) (hperm : l.Perm m) :
    Lists l (addrTypes m) := by
  refine ⟨(distinctAddrs_perm hperm).mpr h, ?_⟩
  intro a type
  rw [addrTypes, table_eq_some (distinctAddrs_iff.mp h)]
  simp only [hperm.mem_iff]
  rfl

/-- A find of a registered service reports its addresses. -/
theorem VnodeSrvc.Sound.found {node : VnodeSrvc} (h : node.Sound) {hash : Token} {e : Entry}
    (he : node.registry hash = some e) :
    ∃ (l : List VsockaddrIn) (proto : Int16), Lists l e.types ∧ l.length ≤ 12 ∧
      e.proto = proto.toInt ∧ ∀ route cookie, vnodeSrvcFind route node hash cookie =
        .ok ⟨0, report cookie hash l.length e.proto l, false⟩ := by
  rcases h.find hash with ⟨-, hnone⟩ | ⟨m, s, l, -, rfl, hfind, hs, hsome⟩
  · rw [hnone] at he
    cases he
  · obtain rfl := Option.some.inj (hsome.symm.trans he)
    obtain ⟨d, hcopy, hd, hhash, hproto, hperm⟩ := vsrvcInfoCopy_perm hs.toKept
    have hslots := hd.slots
    have hcapc := hd.naddrs_le
    have hmax := hd.naddrs_le_max
    have hlen := hd.length_used
    rw [MAX_ADDRS] at hmax
    have hstored : d.naddrs ≤ d.addrs.length := by omega
    have hshow : showAddrs d.toAddrBlock = .ok d.used := if_neg (Int.not_lt.mpr hstored)
    refine ⟨d.used, s.proto, lists_of_perm hs.distinct hperm, by omega, rfl, ?_⟩
    intro route cookie
    have hcalls := shown_calls cookie hstored
    rw [hhash, ← hlen, hproto] at hcalls
    rw [vnodeSrvcFind, hfind]
    dsimp only
    rw [hcopy]
    dsimp only
    rw [hshow]
    dsimp only
    rw [hproto, ← hlen, hcalls]
    rfl

theorem agrees_of_sound {node : VnodeSrvc} (h : node.Sound) : Agrees node node.registry := by
  refine ⟨?_, ?_, ?_⟩
  · intro route hash cookie e he
    obtain ⟨l, -, hlists, -, -, hfind⟩ := h.found he
    exact ⟨l, hlists, hfind route cookie⟩
  · intro route hash cookie hnone
    rcases h.find hash with ⟨hfind, -⟩ | ⟨m, s, l, -, -, -, -, hsome⟩
    · rw [vnodeSrvcFind, hfind]
      cases route hash cookie with
      | error e => rfl
      | ok r => rfl
    · rw [hsome] at hnone
      cases hnone
  · intro hash addr proto e he hproto hne
    rcases h.find hash with ⟨-, hnone⟩ | ⟨m, s, l, -, -, hfind, -, hsome⟩
    · rw [hnone] at he
      cases he
    · obtain rfl := Option.some.inj (hsome.symm.trans he)
      exact post_mismatch hproto hfind hne

theorem mem_report {cookie c : Nat} {hash h : Token} {naddrs proto : Int} {l : List VsockaddrIn}
    {x : VsockaddrIn} {last : Bool}
    (hmem : TicketCall.addr c h x last ∈ report cookie hash naddrs proto l) : x ∈ l := by
  rcases List.mem_cons.mp hmem with heq | hmem
  · cases heq
  · rcases List.mem_append.mp hmem with hmem | hmem
    · obtain ⟨y, hy, heq⟩ := List.mem_map.mp hmem
      cases heq
      exact List.mem_of_mem_dropLast hy
    · obtain ⟨y, hy, heq⟩ := List.mem_map.mp hmem
      cases heq
      exact List.mem_of_getLast? (Option.mem_toList.mp hy)

theorem report_mem (cookie : Nat) (hash : Token) (naddrs proto : Int) {l : List VsockaddrIn}
    {x : VsockaddrIn} (hmem : x ∈ l) :
    ∃ last, TicketCall.addr cookie hash x last ∈ report cookie hash naddrs proto l := by
  have hne : l ≠ [] := List.ne_nil_of_mem hmem
  rw [← List.dropLast_append_getLast hne] at hmem
  rcases List.mem_append.mp hmem with hmem | hmem
  · exact ⟨false, List.mem_cons_of_mem _ (List.mem_append_left _ (List.mem_map_of_mem hmem))⟩
  · refine ⟨true, List.mem_cons_of_mem _ (List.mem_append_right _ (List.mem_map_of_mem ?_))⟩
    rw [List.mem_singleton.mp hmem, List.getLast?_eq_getLast_of_ne_nil hne]
    exact List.mem_singleton_self _

/-- What a node answers determines the addresses and types of a service. -/
theorem agrees_types {node : VnodeSrvc} {t t' : Registry} (h : Agrees node t)
    (h' : Agrees node t') {hash : Token} {e e' : Entry} (he : t hash = some e)
    (he' : t' hash = some e') : e.types = e'.types := by
  obtain ⟨l, hlists, hfind⟩ := h.found (fun _ _ => .ok (0, [])) hash 0 e he
  obtain ⟨l', hlists', hfind'⟩ := h'.found (fun _ _ => .ok (0, [])) hash 0 e' he'
  have hsame : report 0 hash l.length e.proto l = report 0 hash l'.length e'.proto l' :=
    congrArg Found.calls (Except.ok.inj (hfind.symm.trans hfind'))
  have hmem : ∀ x, x ∈ l ↔ x ∈ l' := by
    intro x
    constructor
    · intro hx
      obtain ⟨last, hcall⟩ := report_mem 0 hash l.length e.proto hx
      exact mem_report (hsame ▸ hcall)
    · intro hx
      obtain ⟨last, hcall⟩ := report_mem 0 hash l'.length e'.proto hx
      exact mem_report (hsame ▸ hcall)
  funext a
  apply Option.ext
  intro type
  rw [← hlists.shown, ← hlists'.shown]
  simp only [hmem]

/-! ## Steps -/

theorem registryStep_post {t : Registry} {hash : Token} {e : Entry} (h : t hash = some e)
    (addr : VsockaddrIn) :
    registryStep t (.post hash addr e.proto) =
      (Function.update t hash
        (some ⟨e.proto, Function.update e.types addr.addr.key (some addr.type)⟩), 0) := by
  rw [registryStep, h]
  exact if_neg (not_not.mpr rfl)

theorem registryStep_refused {t : Registry} {hash : Token} {e : Entry} {proto : Int}
    (h : t hash = some e) (hne : proto ≠ e.proto) (addr : VsockaddrIn) :
    registryStep t (.post hash addr proto) = (t, -1) := by
  rw [registryStep, h]
  exact if_pos hne

theorem registryStep_last {t : Registry} {hash : Token} {e : Entry} {addr : SockaddrIn}
    (h : t hash = some e) (hlast : Function.update e.types addr.key none = fun _ => none) :
    registryStep t (.unpost hash addr) = (Function.update t hash none, 0) := by
  rw [registryStep, h]
  exact if_pos hlast

theorem registryStep_left {t : Registry} {hash : Token} {e : Entry} {addr : SockaddrIn}
    (h : t hash = some e) (hleft : Function.update e.types addr.key none ≠ fun _ => none) :
    registryStep t (.unpost hash addr) =
      (Function.update t hash (some ⟨e.proto, Function.update e.types addr.key none⟩), 0) := by
  rw [registryStep, h]
  exact if_neg hleft

/-- A service that holds twelve addresses is not given a new type by a post that is spared, nor
another address by one that is admissible. -/
theorem update_full {node : VnodeSrvc} {s : VsrvcInfo} {addr : VsockaddrIn}
    (hs : Registered node.id s) (hfull : MAX_ADDRS ≤ s.naddrs)
    (hreg : node.registry s.hash = some (srvcEntry s))
    (hop : Admissible node.registry (.post s.hash addr s.proto.toInt))
    (hspared : Spared node.registry (.post s.hash addr s.proto.toInt)) :
    Function.update s.types addr.addr.key (some addr.type) = s.types := by
  have hmax := hs.le_max
  have hlen := hs.sound.length_used
  have htwelve : s.used.length = 12 := by
    rw [MAX_ADDRS] at hfull hmax
    omega
  have hcount : (srvcEntry s).addrs.encard = 12 := by
    rw [Entry.addrs, srvcEntry, hs.encard, htwelve]
    rfl
  by_cases hknown : addr.addr.key ∈ (srvcEntry s).addrs
  · have htype : s.types addr.addr.key = some addr.type :=
      hspared _ hreg rfl hcount hknown
    rw [← htype, Function.update_eq_self]
  · have hnew : s.types addr.addr.key = none := not_not.mp hknown
    have hstep : registryStep node.registry (.post s.hash addr s.proto.toInt) = _ :=
      registryStep_post hreg addr
    have hle : {a | Function.update s.types addr.addr.key (some addr.type) a ≠ none}.encard ≤ 12 := by
      refine hop.2 s.hash ⟨s.proto.toInt, Function.update s.types addr.addr.key _⟩ ?_
      rw [hstep]
      exact Function.update_self _ _ _
    have hcount' : {a | s.types a ≠ none}.encard = 12 := hcount
    rw [encard_update_new hnew, hcount'] at hle
    exact absurd hle (by decide)

theorem post_registry {node : VnodeSrvc} (h : node.Sound) (hnice : 0 ≤ Int16.ofInt node.nice)
    {hash : Token} {addr : VsockaddrIn} {proto : Int}
    (hop : Admissible node.registry (.post hash addr proto))
    (hspared : Spared node.registry (.post hash addr proto)) :
    ∃ node', vnodeSrvcPost node hash addr proto =
        .ok (node', (registryStep node.registry (.post hash addr proto)).2) ∧
      node'.Sound ∧ node'.nice = node.nice ∧
      node'.registry = (registryStep node.registry (.post hash addr proto)).1 := by
  obtain ⟨hlow, hhigh, htype⟩ := hop.1
  have hproto : proto > VPROTO_RES0 ∧ proto < VPROTO_RES1 := ⟨hlow, hhigh⟩
  rcases h.find hash with ⟨hfind, hnone⟩ | ⟨m, s, l, hsplit, rfl, hfind, hs, hsome⟩
  · obtain ⟨node', hpost, hsound, -, hnice', hreg⟩ := post_new h hproto hfind hnice htype
    refine ⟨node', ?_, hsound, hnice', ?_⟩
    · rw [hpost, registryStep, hnone]
    · rw [hreg, registryStep, hnone]
  · by_cases hne : proto ≠ s.proto.toInt
    · have hstep := registryStep_refused hsome hne addr
      refine ⟨node, ?_, h, rfl, ?_⟩
      · rw [post_mismatch hproto hfind hne, hstep]
      · rw [hstep]
    · obtain rfl := not_not.mp hne
      have hstep : registryStep node.registry (.post s.hash addr s.proto.toInt) =
          (Function.update node.registry s.hash (some ⟨s.proto.toInt,
            Function.update s.types addr.addr.key (some addr.type)⟩), 0) :=
        registryStep_post hsome addr
      rw [hstep]
      by_cases hroom : s.naddrs < MAX_ADDRS
      · obtain ⟨node', hpost, hsound, -, hnice', hreg⟩ :=
          post_room h hproto hsplit hfind hs hroom htype
        exact ⟨node', hpost, hsound, hnice', hreg⟩
      · have hfull := Int.not_lt.mp hroom
        refine ⟨node, post_full hproto hsplit hfind hfull htype, h, rfl, ?_⟩
        rw [update_full hs hfull hsome hop hspared]
        exact (Function.update_eq_self_iff.mpr hsome.symm).symm

theorem unpost_registry {node : VnodeSrvc} (h : node.Sound) (hash : Token) (addr : SockaddrIn) :
    ∃ node', vnodeSrvcUnpost node hash addr =
        .ok (node', (registryStep node.registry (.unpost hash addr)).2) ∧
      node'.Sound ∧ node'.nice = node.nice ∧
      node'.registry = (registryStep node.registry (.unpost hash addr)).1 := by
  rcases h.find hash with ⟨hfind, hnone⟩ | ⟨m, s, l, hsplit, rfl, hfind, hs, hsome⟩
  · refine ⟨node, ?_, h, rfl, ?_⟩
    · rw [vnodeSrvcUnpost, hfind, registryStep, hnone]
    · rw [registryStep, hnone]
  · obtain ⟨node', hunpost, hsound, -, hnice, hreg⟩ := unpost_known h addr hsplit hfind hs
    rcases hreg with ⟨hlast, hreg⟩ | ⟨hleft, hreg⟩
    · rw [registryStep_last hsome hlast]
      exact ⟨node', hunpost, hsound, hnice, hreg⟩
    · rw [registryStep_left hsome hleft]
      exact ⟨node', hunpost, hsound, hnice, hreg⟩

/-- The services of a node are sound and stand for the map. -/
structure Represents (node : VnodeSrvc) (t : Registry) : Prop where
  sound : node.Sound
  nice : 0 ≤ Int16.ofInt node.nice
  registry : node.registry = t

theorem srvcStep_registry {node : VnodeSrvc} {t : Registry} {op : SrvcOp}
    (h : Represents node t) (hop : Admissible t op) (hspared : Spared t op) :
    ∃ node', srvcStep node op = .ok (node', (registryStep t op).2) ∧
      Represents node' (registryStep t op).1 := by
  obtain ⟨hsound, hnice, rfl⟩ := h
  cases op with
  | post hash addr proto =>
    obtain ⟨node', hpost, hsound', hnice', hreg⟩ := post_registry hsound hnice hop hspared
    exact ⟨node', hpost, hsound', hnice' ▸ hnice, hreg⟩
  | unpost hash addr =>
    obtain ⟨node', hunpost, hsound', hnice', hreg⟩ := unpost_registry hsound hash addr
    exact ⟨node', hunpost, hsound', hnice' ▸ hnice, hreg⟩
  | unpostExt hash =>
    obtain ⟨node', hunpost, hsound', -, hnice', hreg⟩ := unpostExt_spec hsound hash
    refine ⟨node', ?_, hsound', hnice' ▸ hnice, hreg⟩
    rw [srvcStep, hunpost]
    rfl
  | renice nice =>
    obtain ⟨hsound', -, hreg⟩ := renice_spec hsound nice
    exact ⟨_, rfl, hsound', hop.1, hreg⟩

/-- A run within the map's bounds ends in a node that stands for the map. -/
theorem srvcExec_registry {node : VnodeSrvc} {t : Registry} {ops : List SrvcOp}
    (h : Represents node t) (hops : Admits registryStep Admissible t ops)
    (hspared : Admits registryStep Spared t ops) :
    ∃ node', run srvcExec node ops = .ok node' ∧
      Represents node' (specRun registryStep t ops) := by
  induction ops generalizing node t with
  | nil => exact ⟨node, rfl, h⟩
  | cons op ops ih =>
    obtain ⟨m, hm, hrep⟩ := srvcStep_registry h hops.1 hspared.1
    obtain ⟨node', hrun, hrep'⟩ := ih hrep hops.2 hspared.2
    refine ⟨node', run_cons_ok.mpr ⟨m, ?_, hrun⟩, hrep'⟩
    rw [srvcExec, hm]
    rfl

theorem agrees_of_represents {node : VnodeSrvc} {t : Registry} (h : Represents node t) :
    Agrees node t :=
  h.registry ▸ agrees_of_sound h.sound

/-- A post that is not spared changes the map and not the node. -/
theorem not_agrees_of_unspared {node : VnodeSrvc} {t : Registry} {op : SrvcOp}
    (h : Represents node t) (hop : Admissible t op) (hspared : ¬ Spared t op) {node' : VnodeSrvc}
    {r : Int} (hexec : srvcStep node op = .ok (node', r)) :
    ¬ Agrees node' (registryStep t op).1 := by
  have hagree := agrees_of_represents h
  obtain ⟨hsound, -, rfl⟩ := h
  cases op with
  | post hash addr proto =>
    simp only [Spared, not_forall] at hspared
    obtain ⟨e, hentry, rfl, hcount, hknown, hother⟩ := hspared
    rcases hsound.find hash with ⟨-, hnone⟩ | ⟨m, s, l, hsplit, rfl, hfind, hs, hsome⟩
    · rw [hnone] at hentry
      cases hentry
    · obtain rfl := Option.some.inj (hsome.symm.trans hentry)
      have hused : (s.used.length : ℕ∞) = 12 := hs.encard.symm.trans hcount
      have hfull : MAX_ADDRS ≤ s.naddrs := by
        have htwelve : s.used.length = 12 := by exact_mod_cast hused
        have hlen := hs.sound.length_used
        rw [MAX_ADDRS]
        omega
      have hpost : srvcStep node (.post s.hash addr s.proto.toInt) = .ok (node, 0) :=
        post_full ⟨hop.1.1, hop.1.2.1⟩ hsplit hfind hfull hop.1.2.2
      obtain rfl : node = node' := congrArg Prod.fst (Except.ok.inj (hpost.symm.trans hexec))
      intro hagree'
      rw [registryStep_post hsome] at hagree'
      have htypes := agrees_types hagree' hagree (Function.update_self _ _ _) hsome
      exact hother ((congrFun htypes addr.addr.key).symm.trans
        (Function.update_self addr.addr.key _ _))
  | unpost hash addr => exact absurd trivial hspared
  | unpostExt hash => exact absurd trivial hspared
  | renice nice => exact absurd trivial hspared

theorem represents_empty (id : Token) {nice : Int} (h : 0 ≤ Int16.ofInt nice) :
    Represents (vnodeSrvcEmpty id nice) emptyRegistry :=
  ⟨vnodeSrvcEmpty_sound id nice, h, rfl⟩

/-! ## What was unposted is not reported -/

/-- The address is posted for the service. -/
def Registry.Listed (t : Registry) (hash : Token) (a : AddrKey) : Prop :=
  ∃ e, t hash = some e ∧ a ∈ e.addrs

/-- The operation posts the address for the service, with any type. -/
def SrvcOp.Posts (hash : Token) (a : AddrKey) : SrvcOp → Prop
  | .post h addr _ => h = hash ∧ addr.addr.key = a
  | _ => False

/-- The operation unposts the address or its service. -/
def SrvcOp.Drops (hash : Token) (a : AddrKey) : SrvcOp → Prop
  | .unpost h addr => h = hash ∧ addr.key = a
  | .unpostExt h => h = hash
  | _ => False

/-- A find of the service calls back with the address without asking the routing space. -/
def Reports (node : VnodeSrvc) (hash : Token) (a : AddrKey) : Prop :=
  ∃ route cookie f, vnodeSrvcFind route node hash cookie = .ok f ∧ f.routed = false ∧
    ∃ h x last, TicketCall.addr cookie h x last ∈ f.calls ∧ x.addr.key = a

theorem listed_of_reports {node : VnodeSrvc} {t : Registry} (h : Agrees node t) {hash : Token}
    {a : AddrKey} (hreports : Reports node hash a) : t.Listed hash a := by
  obtain ⟨route, cookie, f, hfind, hrouted, h', x, last, hmem, hkey⟩ := hreports
  cases hentry : t hash with
  | none =>
    rw [h.unknown route hash cookie hentry] at hfind
    cases hroute : route hash cookie with
    | error e =>
      rw [hroute] at hfind
      cases hfind
    | ok r =>
      rw [hroute] at hfind
      cases hfind
      cases hrouted
  | some e =>
    obtain ⟨l, hlists, hfound⟩ := h.found route hash cookie e hentry
    rw [hfound] at hfind
    cases hfind
    have htype := (hlists.shown a x.type).mp ⟨x, mem_report hmem, hkey, rfl⟩
    refine ⟨e, hentry, ?_⟩
    show e.types a ≠ none
    rw [htype]
    exact Option.some_ne_none _

theorem listed_update {t : Registry} {h hash : Token} {a : AddrKey} {e : Entry} :
    Registry.Listed (Function.update t h (some e)) hash a ↔
      if h = hash then a ∈ e.addrs else t.Listed hash a := by
  by_cases hh : h = hash
  · subst hh
    rw [if_pos rfl, Registry.Listed, Function.update_self]
    simp
  · rw [if_neg hh, Registry.Listed, Function.update_of_ne (Ne.symm hh)]
    rfl

theorem listed_erase {t : Registry} {h hash : Token} {a : AddrKey} :
    Registry.Listed (Function.update t h none) hash a ↔ h ≠ hash ∧ t.Listed hash a := by
  by_cases hh : h = hash
  · subst hh
    rw [Registry.Listed, Function.update_self]
    simp
  · rw [Registry.Listed, Function.update_of_ne (Ne.symm hh)]
    exact (and_iff_right hh).symm

theorem mem_addrs_update {proto : Int} {types : AddrKey → Option UInt32} {a b : AddrKey}
    {v : Option UInt32} (h : a ∈ Entry.addrs ⟨proto, Function.update types b v⟩) :
    a = b ∧ v ≠ none ∨ a ≠ b ∧ types a ≠ none := by
  have hne : Function.update types b v a ≠ none := h
  by_cases hab : a = b
  · subst hab
    rw [Function.update_self] at hne
    exact Or.inl ⟨rfl, hne⟩
  · rw [Function.update_of_ne hab] at hne
    exact Or.inr ⟨hab, hne⟩

theorem listed_post {t : Registry} {hash hash' : Token} {addr : VsockaddrIn} {proto : Int}
    {a : AddrKey} (h : Registry.Listed (registryStep t (.post hash' addr proto)).1 hash a) :
    SrvcOp.Posts hash a (.post hash' addr proto) ∨ t.Listed hash a := by
  cases hentry : t hash' with
  | none =>
    rw [registryStep, hentry, listed_update] at h
    split at h
    · rename_i heq
      rcases mem_addrs_update h with ⟨ha, -⟩ | ⟨-, hnone⟩
      · exact Or.inl ⟨heq, ha.symm⟩
      · exact absurd rfl hnone
    · exact Or.inr h
  | some e =>
    by_cases hproto : proto = e.proto
    · rw [hproto, registryStep_post hentry, listed_update] at h
      split at h
      · rename_i heq
        rcases mem_addrs_update h with ⟨ha, -⟩ | ⟨-, hold⟩
        · exact Or.inl ⟨heq, ha.symm⟩
        · exact Or.inr ⟨e, heq ▸ hentry, hold⟩
      · exact Or.inr h
    · rw [registryStep_refused hentry hproto] at h
      exact Or.inr h

theorem listed_unpost {t : Registry} {hash hash' : Token} {addr : SockaddrIn} {a : AddrKey}
    (h : Registry.Listed (registryStep t (.unpost hash' addr)).1 hash a) :
    t.Listed hash a ∧ ¬ (hash' = hash ∧ addr.key = a) := by
  cases hentry : t hash' with
  | none =>
    rw [registryStep, hentry] at h
    have hold : t.Listed hash a := h
    refine ⟨hold, ?_⟩
    intro ⟨heq, _⟩
    obtain ⟨e, he, -⟩ := hold
    rw [← heq, hentry] at he
    cases he
  | some e =>
    by_cases hlast : Function.update e.types addr.key none = fun _ => none
    · rw [registryStep_last hentry hlast, listed_erase] at h
      exact ⟨h.2, fun hdrop => h.1 hdrop.1⟩
    · rw [registryStep_left hentry hlast, listed_update] at h
      split at h
      · rename_i heq
        rcases mem_addrs_update h with ⟨-, hnone⟩ | ⟨hne, hold⟩
        · exact absurd rfl hnone
        · exact ⟨⟨e, heq ▸ hentry, hold⟩, fun hdrop => hne hdrop.2.symm⟩
      · rename_i hne
        exact ⟨h, fun hdrop => hne hdrop.1⟩

/-- Only a post lists an address, and what drops it takes it off the list. -/
theorem listed_step {t : Registry} {op : SrvcOp} {hash : Token} {a : AddrKey}
    (h : Registry.Listed (registryStep t op).1 hash a) :
    op.Posts hash a ∨ t.Listed hash a ∧ ¬ op.Drops hash a := by
  cases op with
  | post hash' addr proto => exact (listed_post h).imp_right fun hold => ⟨hold, id⟩
  | unpost hash' addr => exact Or.inr (listed_unpost h)
  | unpostExt hash' =>
    rw [registryStep, listed_erase] at h
    exact Or.inr ⟨h.2, h.1⟩
  | renice nice => exact Or.inr ⟨h, id⟩

theorem not_listed_of_drops {op : SrvcOp} {hash : Token} {a : AddrKey}
    (h : op.Drops hash a) (t : Registry) : ¬ Registry.Listed (registryStep t op).1 hash a := by
  intro hlisted
  rcases listed_step hlisted with hposts | ⟨-, hno⟩
  · cases op with
    | post h' addr proto => exact h
    | unpost h' addr => exact hposts
    | unpostExt h' => exact hposts
    | renice n => exact hposts
  · exact hno h

/-! ## Runs -/

/-- The addresses of a registry stay among the ones posted. -/
theorem within_step {K : Set AddrKey} {t : Registry} {op : SrvcOp}
    (ht : ∀ hash a, t.Listed hash a → a ∈ K) (hop : ∀ hash a, op.Posts hash a → a ∈ K) :
    ∀ hash a, Registry.Listed (registryStep t op).1 hash a → a ∈ K := by
  intro hash a h
  rcases listed_step h with hposts | ⟨hold, -⟩
  · exact hop hash a hposts
  · exact ht hash a hold

theorem within_run {K : Set AddrKey} {ops : List SrvcOp}
    (hops : ∀ op ∈ ops, ∀ hash a, op.Posts hash a → a ∈ K) :
    ∀ hash a, (specRun registryStep emptyRegistry ops).Listed hash a → a ∈ K := by
  refine specRun_invariant (J := fun t : Registry => ∀ hash a, t.Listed hash a → a ∈ K) ?_ ?_ hops
  · intro t op ht hop
    exact within_step ht hop
  · intro hash a h
    obtain ⟨e, he, -⟩ := h
    cases he

/-- When all posts are for twelve addresses no service gets more. -/
theorem admits_within {K : Set AddrKey} (hK : K.encard ≤ 12) {ops : List SrvcOp}
    (hops : ∀ op ∈ ops, op.Valid ∧ ∀ hash a, op.Posts hash a → a ∈ K) :
    Admits registryStep Admissible emptyRegistry ops := by
  refine admits_of_invariant (J := fun t : Registry => ∀ hash a, t.Listed hash a → a ∈ K) ?_ ?_
    hops
  · intro t op ht hop
    have hwithin := within_step ht hop.2
    refine ⟨⟨hop.1, ?_⟩, hwithin⟩
    intro hash e he
    exact (Set.encard_le_encard fun a ha => hwithin hash a ⟨e, he, ha⟩).trans hK
  · intro hash a h
    obtain ⟨e, he, -⟩ := h
    cases he

/-- The address of a host at a port. -/
def hostAddr (port : Nat) (type : UInt32) : VsockaddrIn :=
  ⟨⟨2, UInt16.ofNat port, 0x0100007f, Block.zero 8⟩, type⟩

/-- From a node without services, a run of valid operations in which no service gets more than
twelve addresses follows the map exactly when a full service is given no new types: then finds,
posts and unposts answer as the map does, and what is unposted is reported again only when it is
posted again. -/
theorem find_follows_registry {id : Token} {nice : Int} {ops : List SrvcOp}
    (hnice : 0 ≤ Int16.ofInt nice) (hops : Admits registryStep Admissible emptyRegistry ops) :
    (Follows srvcStep registryStep Agrees (vnodeSrvcEmpty id nice) emptyRegistry ops ↔
        Admits registryStep Spared emptyRegistry ops) ∧
      (Admits registryStep Spared emptyRegistry ops →
        ∀ before op after hash a, ops = before ++ op :: after → op.Drops hash a →
          (∀ o ∈ after, ¬ o.Posts hash a) →
          ∀ node, run srvcExec (vnodeSrvcEmpty id nice) ops = .ok node →
            ¬ Reports node hash a) := by
  have hgood : ∀ node t op, Represents node t → Admissible t op → Spared t op →
      ∃ node', srvcStep node op = .ok (node', (registryStep t op).2) ∧
        Represents node' (registryStep t op).1 := fun _ _ _ => srvcStep_registry
  have hbad : ∀ node t op, Represents node t → Admissible t op → ¬ Spared t op →
      ∀ node' r, srvcStep node op = .ok (node', r) → ¬ Agrees node' (registryStep t op).1 :=
    fun _ _ _ h hop hspared _ _ => not_agrees_of_unspared h hop hspared
  have hiff := follows_iff_admits (fun _ _ => agrees_of_represents) hgood hbad
    (represents_empty id hnice) hops
  refine ⟨hiff, ?_⟩
  intro hspared before op after hash a hsplit hdrop hnone node hnode hreports
  subst hsplit
  obtain ⟨node', hnode', hagree⟩ := run_of_follows (hiff.mpr hspared)
  obtain rfl : node' = node := Except.ok.inj (hnode'.symm.trans hnode)
  have hlisted := listed_of_reports hagree hreports
  rw [specRun, List.foldl_append, List.foldl_cons] at hlisted
  refine specRun_invariant (J := fun t : Registry => ¬ t.Listed hash a) ?_
    (not_listed_of_drops hdrop _) hnone hlisted
  intro t o ht ho h
  rcases listed_step h with hposts | ⟨hold, -⟩
  · exact ho hposts
  · exact ht hold

theorem find_follows_registry_unposted :
    Follows srvcStep registryStep Agrees (vnodeSrvcEmpty (Block.zero VTOKEN_LEN) 5) emptyRegistry
      [.post (Block.zero VTOKEN_LEN) (hostAddr 80 VSOCKADDR_LOCAL) 1,
        .unpostExt (Block.zero VTOKEN_LEN)] := by
  have hK : ({(hostAddr 80 VSOCKADDR_LOCAL).addr.key} : Set AddrKey).encard ≤ 12 := by
    rw [Set.encard_singleton]
    decide
  refine (find_follows_registry (by decide) (admits_within hK fun op hop => ?_)).1.mpr ?_
  · rcases List.mem_pair.mp hop with rfl | rfl
    · refine ⟨⟨by decide, by decide, by decide⟩, ?_⟩
      rintro hash a ⟨-, rfl⟩
      rfl
    · exact ⟨trivial, fun hash a h => h.elim⟩
  · refine ⟨?_, trivial, trivial⟩
    intro e he
    cases he

/-! ## A full service -/

/-- Twelve addresses are posted for one service, then the first of them with another type. -/
def fullRepost : List SrvcOp :=
  (List.range 12).map (fun i => .post (Block.zero VTOKEN_LEN) (hostAddr i VSOCKADDR_LOCAL) 1) ++
    [.post (Block.zero VTOKEN_LEN) (hostAddr 0 VSOCKADDR_RELAY) 1]

/-- The find after these posts shows twelve addresses of the first type. -/
theorem fullRepost_calls :
    ((run srvcExec (vnodeSrvcEmpty (Block.zero VTOKEN_LEN) 5) fullRepost).bind fun node =>
      (vnodeSrvcFind (fun _ _ => .ok (0, [])) node (Block.zero VTOKEN_LEN) 0).map Found.calls) =
      .ok (report 0 (Block.zero VTOKEN_LEN) 12 1
        ((List.range 12).map fun i => hostAddr i VSOCKADDR_LOCAL)) := by
  rfl

/-- A post that is not refused sets the type of its address. -/
theorem registryStep_sets {t : Registry} {hash : Token} {proto : Int}
    (h : ∀ e, t hash = some e → e.proto = proto) (addr : VsockaddrIn) :
    ∃ e, (registryStep t (.post hash addr proto)).1 hash = some e ∧ e.proto = proto ∧
      e.types addr.addr.key = some addr.type := by
  have hset : ∀ types : AddrKey → Option UInt32,
      Function.update types addr.addr.key (some addr.type) addr.addr.key = some addr.type :=
    fun types => Function.update_self _ _ _
  cases hentry : t hash with
  | none =>
    rw [registryStep, hentry]
    exact ⟨_, Function.update_self _ _ _, rfl, hset fun _ => none⟩
  | some e =>
    obtain rfl := h e hentry
    rw [registryStep_post hentry]
    exact ⟨_, Function.update_self _ _ _, rfl, hset e.types⟩

theorem fullRepost_admissible :
    Admits registryStep Admissible emptyRegistry fullRepost := by
  have hK : ((Finset.range 12).image fun i => (hostAddr i VSOCKADDR_LOCAL).addr.key :
      Set AddrKey).encard ≤ 12 := by
    rw [Set.encard_coe_eq_coe_finsetCard]
    exact_mod_cast Finset.card_image_le
  apply admits_within hK
  intro op hop
  rcases List.mem_append.mp hop with hop | hop
  · obtain ⟨i, hi, rfl⟩ := List.mem_map.mp hop
    have hi' : i ∈ Finset.range 12 := Finset.mem_range.mpr (List.mem_range.mp hi)
    refine ⟨⟨by decide, by decide, (by decide : VSOCKADDR_LOCAL < VSOCKADDR_BUTT)⟩, ?_⟩
    intro hash a ⟨_, ha⟩
    exact Finset.mem_coe.mpr (ha ▸ Finset.mem_image_of_mem _ hi')
  · obtain rfl := List.mem_singleton.mp hop
    refine ⟨⟨by decide, by decide, by decide⟩, ?_⟩
    intro hash a ⟨_, ha⟩
    exact Finset.mem_coe.mpr (Finset.mem_image.mpr ⟨0, by decide, ha⟩)

/-- The map holds the last type. -/
theorem fullRepost_entry :
    ∃ e, specRun registryStep emptyRegistry fullRepost (Block.zero VTOKEN_LEN) = some e ∧
      e.types (hostAddr 0 VSOCKADDR_RELAY).addr.key = some VSOCKADDR_RELAY := by
  have hproto : ∀ e, specRun registryStep emptyRegistry ((List.range 12).map fun i =>
      .post (Block.zero VTOKEN_LEN) (hostAddr i VSOCKADDR_LOCAL) 1) (Block.zero VTOKEN_LEN) =
        some e → e.proto = 1 := by
    refine specRun_invariant (J := fun t : Registry =>
        ∀ e, t (Block.zero VTOKEN_LEN) = some e → e.proto = 1)
      (P := fun op => ∃ addr, op = .post (Block.zero VTOKEN_LEN) addr 1) ?_ ?_ ?_
    · intro t op ht ⟨addr, hop⟩ e he
      obtain ⟨e', he', hproto, -⟩ := registryStep_sets ht addr
      rw [hop, he'] at he
      exact Option.some.inj he ▸ hproto
    · intro e he
      cases he
    · intro op hop
      obtain ⟨i, -, rfl⟩ := List.mem_map.mp hop
      exact ⟨_, rfl⟩
  obtain ⟨e, he, -, htype⟩ := registryStep_sets hproto (hostAddr 0 VSOCKADDR_RELAY)
  refine ⟨e, ?_, htype⟩
  rw [fullRepost, specRun, List.foldl_append]
  exact he

theorem fullRepost_not_followed :
    Admits registryStep Admissible emptyRegistry fullRepost ∧
      ¬ Follows srvcStep registryStep Agrees (vnodeSrvcEmpty (Block.zero VTOKEN_LEN) 5)
        emptyRegistry fullRepost := by
  refine ⟨fullRepost_admissible, ?_⟩
  intro hfollows
  obtain ⟨node, hrun, hagree⟩ := run_of_follows hfollows
  obtain ⟨e, he, htype⟩ := fullRepost_entry
  obtain ⟨l, hlists, hfind⟩ := hagree.found (fun _ _ => .ok (0, [])) _ 0 e he
  obtain ⟨x, hx, -, hrelay⟩ := (hlists.shown _ _).mpr htype
  obtain ⟨last, hcall⟩ := report_mem 0 (Block.zero VTOKEN_LEN) l.length e.proto hx
  have hcalls := fullRepost_calls
  rw [show run srvcExec _ fullRepost = .ok node from hrun] at hcalls
  dsimp only [Except.bind] at hcalls
  rw [hfind] at hcalls
  have hsame : report 0 (Block.zero VTOKEN_LEN) l.length e.proto l = _ := Except.ok.inj hcalls
  rw [hsame] at hcall
  obtain ⟨i, -, hx⟩ := List.mem_map.mp (mem_report hcall)
  rw [← hx] at hrelay
  exact absurd hrelay (by decide : VSOCKADDR_LOCAL ≠ VSOCKADDR_RELAY)

end Vdht.Services
