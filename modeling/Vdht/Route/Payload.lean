import Vdht.Route.Accounting
import Vdht.Route.Records

/-!
# What the handlers pass on

Five handlers pass records of a message to a space. A decoder never checks a record, so what
they pass is well formed exactly when the message is dropped before, or all its record strings
are what an encoder makes. While this is so the records of both spaces stay sound and none of
these handlers fails behind its decoder: `vnodeInfo_worst_addr`, the address loops of copy and
merge and the assertion of `vsrvcInfo_add_addr` only meet data in range.
-/

namespace Vdht.Route

open Vdht.Core Dht Lib Node NodeId

/-- The kinds whose handlers pass records to a space. -/
def passesRecords : DhtId → Bool
  | .pingRsp | .findNodeRsp | .findClosestNodesRsp | .postService | .findServiceRsp => true
  | _ => false

/-- The strings of the message from which these records are copied. -/
def recordLeaves (ctxt : BeNode) : DhtId → List (Option BeNode)
  | .pingRsp | .findNodeRsp => [argNode ctxt "node"]
  | .findClosestNodesRsp => (argItems ctxt "nodes").map some
  | .postService | .findServiceRsp => [argNode ctxt "service"]
  | _ => []

/-- The leaf of a message holds the image of a record: that of a service where the message carries
one, else that of a node. -/
def LeafImage (leaf : Option BeNode) : DhtId → Prop
  | .postService | .findServiceRsp => SrvcImage leaf
  | _ => NodeImage leaf

/-- The nonce and the source id are there. -/
def HasSrc (ctxt : BeNode) : Prop :=
  (beFindNode ctxt (cstr "t")).isSome ∧ (argNode ctxt "id").isSome

/-- The message has all entries its decoder looks up. -/
def Complete (ctxt : BeNode) : DhtId → Prop
  | .pingRsp => (beFindNode ctxt (cstr "t")).isSome ∧ (argNode ctxt "node").isSome
  | .findNodeRsp => HasSrc ctxt ∧ (argNode ctxt "node").isSome
  | .findClosestNodesRsp => HasSrc ctxt ∧ ∃ l, argNode ctxt "nodes" = some (.list l)
  | _ => HasSrc ctxt ∧ (argNode ctxt "service").isSome

/-- The message does not get as far as its records: an entry is missing, or it is a response to
no query. -/
def Dropped (s : Vroute) (m : Arrival) (ctxt : BeNode) (id : DhtId) : Prop :=
  ¬ Complete ctxt id ∨ isRsp id = true ∧
    ∃ nonce, messageNonce m ctxt = .ok nonce ∧ nonce ∉ outstanding s.tickets

/-! ## Decoders -/

theorem unpack_some {n : Nat} (node : BeNode) (buf : Block n) :
    unpack (some node) buf = .ok ((beUnpackBuf node buf).getD buf) := rfl

/-- Looking an argument up. -/
theorem findNodeIn_arg (ctxt : BeNode) (key : String) :
    findNodeIn (beFindNode ctxt (cstr "a")) key = .ok (argNode ctxt key) ∨
      argNode ctxt key = none ∧ ∃ e, findNodeIn (beFindNode ctxt (cstr "a")) key = .error e := by
  unfold argNode findNodeIn
  cases beFindNode ctxt (cstr "a") with
  | none => exact Or.inr ⟨rfl, _, rfl⟩
  | some a => exact Or.inl rfl

/-- Looking an argument up and copying it. -/
theorem unpack_arg {size : Nat} (ctxt : BeNode) (key : String) (buf : Block size) :
    (∃ r, (findNodeIn (beFindNode ctxt (cstr "a")) key >>= fun node => unpack node buf) = .ok r ∧
      (argNode ctxt key).isSome ∧ unpack (argNode ctxt key) buf = .ok r) ∨
    (argNode ctxt key = none ∧
      ∃ e, (findNodeIn (beFindNode ctxt (cstr "a")) key >>= fun node => unpack node buf) =
        .error e) := by
  rcases findNodeIn_arg ctxt key with h | ⟨hnone, e, h⟩
  · rw [h, ok_bind]
    cases argNode ctxt key with
    | none => exact Or.inr ⟨rfl, _, rfl⟩
    | some node => exact Or.inl ⟨_, rfl, rfl, rfl⟩
  · rw [h]
    exact Or.inr ⟨hnone, e, rfl⟩

theorem decSrc_cases (ctxt : BeNode) (nonce : Vnonce) (srcId : Token) :
    (HasSrc ctxt ∧ ∃ a, decSrc ctxt nonce srcId = .ok a) ∨
      (¬ HasSrc ctxt ∧ ∃ e, decSrc ctxt nonce srcId = .error e) := by
  have hdec : decSrc ctxt nonce srcId =
      (unpack (beFindNode ctxt (cstr "t")) nonce >>= fun nonce =>
        (findNodeIn (beFindNode ctxt (cstr "a")) "id" >>= fun node => unpack node srcId) >>=
          fun srcId => .ok (nonce, srcId)) := by
    unfold decSrc
    simp only [bind_assoc]
  rw [hdec]
  unfold HasSrc
  cases beFindNode ctxt (cstr "t") with
  | none => exact Or.inr ⟨by simp, _, rfl⟩
  | some t =>
    rw [unpack_some, ok_bind]
    rcases unpack_arg ctxt "id" srcId with ⟨r, hr, hsome, -⟩ | ⟨hnone, e, he⟩
    · rw [hr, ok_bind]
      exact Or.inl ⟨⟨rfl, hsome⟩, _, rfl⟩
    · rw [he]
      exact Or.inr ⟨by simp [hnone], e, rfl⟩

theorem decSrcArg_cases {size : Nat} (key : String) (ctxt : BeNode) (nonce : Vnonce)
    (srcId : Token) (buf : Block size) :
    ((HasSrc ctxt ∧ (argNode ctxt key).isSome) ∧ ∃ nonce' srcId' r,
      decSrcArg key ctxt nonce srcId buf = .ok (nonce', srcId', r) ∧
      unpack (argNode ctxt key) buf = .ok r) ∨
    (¬ (HasSrc ctxt ∧ (argNode ctxt key).isSome) ∧
      ∃ e, decSrcArg key ctxt nonce srcId buf = .error e) := by
  have hdec : decSrcArg key ctxt nonce srcId buf =
      (decSrc ctxt nonce srcId >>= fun a =>
        (findNodeIn (beFindNode ctxt (cstr "a")) key >>= fun node => unpack node buf) >>=
          fun r => .ok (a.1, a.2, r)) := by
    unfold decSrcArg
    simp only [bind_assoc]
  rw [hdec]
  rcases decSrc_cases ctxt nonce srcId with ⟨hsrc, a, ha⟩ | ⟨hsrc, e, he⟩
  · rw [ha, ok_bind]
    rcases unpack_arg ctxt key buf with ⟨r, hr, hsome, hunpack⟩ | ⟨hnone, e, he⟩
    · rw [hr, ok_bind]
      exact Or.inl ⟨⟨hsrc, hsome⟩, _, _, r, rfl, hunpack⟩
    · rw [he]
      exact Or.inr ⟨by simp [hnone], e, rfl⟩
  · rw [he]
    exact Or.inr ⟨fun h => hsrc h.1, e, rfl⟩

theorem decPingRsp_cases (ctxt : BeNode) (nonce : Vnonce) (buf : Block RELAX_SIZE) :
    (Complete ctxt .pingRsp ∧ ∃ nonce' r, decPingRsp ctxt nonce buf = .ok (nonce', r) ∧
      unpack (argNode ctxt "node") buf = .ok r) ∨
    (¬ Complete ctxt .pingRsp ∧ ∃ e, decPingRsp ctxt nonce buf = .error e) := by
  have hdec : decPingRsp ctxt nonce buf =
      (unpack (beFindNode ctxt (cstr "t")) nonce >>= fun nonce =>
        (findNodeIn (beFindNode ctxt (cstr "a")) "node" >>= fun node => unpack node buf) >>=
          fun r => .ok (nonce, r)) := by
    unfold decPingRsp
    simp only [bind_assoc]
  rw [hdec]
  unfold Complete
  cases beFindNode ctxt (cstr "t") with
  | none => exact Or.inr ⟨by simp, _, rfl⟩
  | some t =>
    rw [unpack_some, ok_bind]
    rcases unpack_arg ctxt "node" buf with ⟨r, hr, hsome, hunpack⟩ | ⟨hnone, e, he⟩
    · rw [hr, ok_bind]
      exact Or.inl ⟨⟨rfl, hsome⟩, _, r, rfl, hunpack⟩
    · rw [he]
      exact Or.inr ⟨by simp [hnone], e, rfl⟩

theorem decFindClosestNodesRsp_cases (ctxt : BeNode) (nonce : Vnonce) (srcId : Token) :
    (Complete ctxt .findClosestNodesRsp ∧ ∃ nonce' srcId' l, argItems ctxt "nodes" = l ∧
      decFindClosestNodesRsp ctxt nonce srcId [] = .ok (nonce', srcId', unpackNodes l)) ∨
    (¬ Complete ctxt .findClosestNodesRsp ∧
      ∃ e, decFindClosestNodesRsp ctxt nonce srcId [] = .error e) := by
  unfold decFindClosestNodesRsp Complete
  rcases decSrc_cases ctxt nonce srcId with ⟨hsrc, ⟨nonce', srcId'⟩, ha⟩ | ⟨hsrc, e, he⟩
  · rw [ha, ok_bind]
    dsimp only
    rcases findNodeIn_arg ctxt "nodes" with h | ⟨hnone, e, he⟩
    · rw [h, ok_bind]
      by_cases hlist : ∃ l, argNode ctxt "nodes" = some (.list l)
      · obtain ⟨l, hl⟩ := hlist
        refine Or.inl ⟨⟨hsrc, l, hl⟩, nonce', srcId', l, ?_, ?_⟩
        · rw [argItems, hl]
        · rw [hl, valL, ok_bind, List.nil_append]
      · refine Or.inr ⟨fun h => hlist h.2, .null, ?_⟩
        unfold valL
        split
        · rename_i l hl
          exact absurd ⟨l, hl⟩ hlist
        · rfl
    · rw [he]
      exact Or.inr ⟨by simp [hnone], e, rfl⟩
  · rw [he]
    exact Or.inr ⟨fun h => hsrc h.1, e, rfl⟩

/-! ## Steps that succeed -/

/-- The spaces are sound, and every record that was passed so far is good. -/
structure Vroute.Clean (s : Vroute) : Prop where
  inv : s.Inv
  passed : ∀ e ∈ s.log, GoodEvent e

theorem goodEvent_of_not_passes {e : RouteEvent} (h : passes e = false) : GoodEvent e := by
  cases e with
  | nodePassed leaf nodei => cases h
  | srvcPassed leaf srvci => cases h
  | pushed | accepted | reaped | shown => trivial

theorem Silent.clean {s s' : Vroute} (h : Silent s s') (hs : s.Clean) : s'.Clean := by
  obtain ⟨L, hL, hg⟩ := h.grown
  refine ⟨h.inv hs.inv, ?_⟩
  intro e he
  rw [hg.log] at he
  rcases List.mem_append.mp he with he | he
  · exact hs.passed e he
  · exact goodEvent_of_not_passes (hL e he)

theorem succeeds_of_silent {α : Type} {p : RouteM α} (h : Moves Silent p)
    (hok : ∀ s, ∃ a s', p s = .ok a s') : Succeeds Vroute.Clean p := by
  intro s hs
  obtain ⟨a, s', hp⟩ := hok s
  have hsilent := h s
  rw [hp] at hsilent
  exact ⟨a, s', hp, hsilent.clean hs⟩

theorem succeeds_kick (fromId : Token) (now : Int) : Succeeds Vroute.Clean (kick fromId now) :=
  succeeds_of_silent (silent_kick fromId now) fun _ => ⟨_, _, rfl⟩

theorem succeeds_passNode {leaf : Option BeNode} {nodei : VnodeInfo} (hgood : GoodNode leaf nodei)
    (hwf : nodei.WellFormed) (flag : AddFlag) (now : Int) :
    Succeeds Vroute.Clean (passNode leaf nodei flag now) := by
  intro s hs
  obtain ⟨space, hadd, hinv⟩ := addNode_ok hs.inv.nodes hwf flag now
  unfold passNode emit
  rw [bind_ok_apply (modify_apply _ s)]
  unfold storeNode
  dsimp only
  rw [hadd]
  refine ⟨(), _, rfl, ⟨hinv, hs.inv.services⟩, ?_⟩
  intro e he
  rcases List.mem_append.mp he with he | he
  · exact hs.passed e he
  · rw [List.mem_singleton.mp he]
    exact hgood

theorem succeeds_passNodes {l : List (Option BeNode × VnodeInfo)}
    (h : ∀ x ∈ l, GoodNode x.1 x.2 ∧ x.2.WellFormed) (flag : AddFlag) (now : Int) :
    Succeeds Vroute.Clean (passNodes flag now l) := by
  induction l with
  | nil => exact succeeds_pure _
  | cons x l ih =>
    obtain ⟨hgood, hwf⟩ := h x List.mem_cons_self
    refine succeeds_bind (succeeds_passNode hgood hwf flag now) fun _ => ?_
    exact ih fun y hy => h y (List.mem_cons_of_mem _ hy)

theorem succeeds_passService {leaf : Option BeNode} {srvci : VsrvcInfo}
    (hgood : GoodSrvc leaf srvci) (hwf : srvci.WellFormed) (now : Int) :
    Succeeds Vroute.Clean (passService leaf srvci now) := by
  intro s hs
  obtain ⟨space, hadd, hsound⟩ := addService_ok hs.inv.services hwf now
  unfold passService emit
  rw [bind_ok_apply (modify_apply _ s)]
  unfold storeService
  dsimp only
  rw [hadd]
  refine ⟨(), _, rfl, ⟨hs.inv.nodes, hsound⟩, ?_⟩
  intro e he
  rcases List.mem_append.mp he with he | he
  · exact hs.passed e he
  · rw [List.mem_singleton.mp he]
    exact hgood

section Probing

variable (w : World)

theorem sendMsg_ok (id : DhtId) (conn : VnodeConn) (nonce : Vnonce) (out : Option (List UInt8))
    (s : Vroute) : ∃ pushed s', sendMsg w id conn nonce (.ok out) s = .ok pushed s' := by
  cases out with
  | none => exact ⟨_, _, rfl⟩
  | some out =>
    unfold sendMsg
    dsimp only
    split
    · exact ⟨_, _, rfl⟩
    · exact ⟨_, _, rfl⟩

theorem dhtFindNode_ok (conn : VnodeConn) (targetId : Token) (now : Int) (s : Vroute) :
    ∃ r s', dhtFindNode w conn targetId now s = .ok r s' := by
  obtain ⟨out, ctxt, henc, -⟩ :=
    @delivers_target (w.nonce s.nmsgs) s.myid _ _ _
      (named_query .findNode "find_node" (by decide)) targetId
  replace henc : encFindNode (w.nonce s.nmsgs) s.myid targetId vdhtBufLen = .ok (some out) := henc
  unfold dhtFindNode gated
  rw [bind_ok_apply (get_apply s)]
  split
  · obtain ⟨pushed, s', hsend⟩ := sendMsg_ok w .findNode conn (w.nonce s.nmsgs) (some out) s
    rw [← henc] at hsend
    unfold sendQuery
    rw [bind_ok_apply (get_apply s), bind_ok_apply hsend]
    cases pushed with
    | true => exact ⟨_, _, rfl⟩
    | false => exact ⟨_, _, rfl⟩
  · exact ⟨_, _, rfl⟩

/-- Looking for a node only sends `find_node` queries. -/
theorem mem_probeNode {space : NodeSpace} {targetId : Token} {c : DhtCall}
    (h : c ∈ probeNode space targetId) : ∃ conn, c = .findNode conn targetId := by
  unfold probeNode forPeers at h
  dsimp only at h
  split at h
  · simp at h
  · obtain ⟨p, -, hc⟩ := List.mem_flatMap.mp h
    split at hc
    · exact ⟨p.conn, List.mem_singleton.mp hc⟩
    · simp at hc

theorem dhtCalls_findNode_ok (targetId : Token) (now : Int) {calls : List DhtCall}
    (h : ∀ c ∈ calls, ∃ conn, c = .findNode conn targetId) (s : Vroute) :
    ∃ s', dhtCalls w now calls s = .ok () s' := by
  induction calls generalizing s with
  | nil => exact ⟨s, rfl⟩
  | cons c cs ih =>
    obtain ⟨conn, rfl⟩ := h c List.mem_cons_self
    obtain ⟨r, s₁, hs₁⟩ := dhtFindNode_ok w conn targetId now s
    replace hs₁ : dhtCall w now (.findNode conn targetId) s = .ok r s₁ := hs₁
    unfold dhtCalls
    rw [bind_ok_apply hs₁]
    exact ih (fun c hc => h c (List.mem_cons_of_mem _ hc)) s₁

theorem succeeds_probeNode (space : NodeSpace) (targetId : Token) (now : Int) :
    Succeeds Vroute.Clean (dhtCalls w now (probeNode space targetId)) := by
  apply succeeds_of_silent (silent_dhtCalls w now _)
  intro s
  obtain ⟨s', hs'⟩ := dhtCalls_findNode_ok w targetId now (fun c hc => mem_probeNode hc) s
  exact ⟨(), s', hs'⟩

end Probing

/-- Users of a well-formed service can be shown its addresses. -/
theorem checkTicket_srvc_ok {srvci : VsrvcInfo} (hwf : srvci.WellFormed) (tickets : List Ticket)
    (space : NodeSpace) : ∃ r, checkTicket (.srvc srvci) tickets space = .ok r := by
  have hshow : showAddrs srvci.toAddrBlock = .ok srvci.used := by
    have hstored := hwf.stored
    unfold showAddrs
    rw [if_neg (by omega)]
  induction tickets generalizing space with
  | nil => exact ⟨_, rfl⟩
  | cons t tickets ih =>
    have hpunch : ∃ p, vticketPunch space t.info (.srvc srvci) = .ok p := by
      cases t.info with
      | check nonce => exact ⟨_, rfl⟩
      | conn nonce id conn => exact ⟨_, rfl⟩
      | srvc hash cookie =>
        unfold vticketPunch
        dsimp only
        rw [hshow]
        split
        · exact ⟨_, rfl⟩
        · exact ⟨_, rfl⟩
    obtain ⟨p, hp⟩ := hpunch
    unfold checkTicket
    rw [hp]
    cases p with
    | none =>
      obtain ⟨r, hr⟩ := ih space
      dsimp only
      rw [hr]
      exact ⟨_, rfl⟩
    | some q =>
      obtain ⟨r, hr⟩ := ih q.1
      dsimp only
      rw [hr]
      exact ⟨_, rfl⟩

theorem succeeds_checkTickets_srvc {srvci : VsrvcInfo} (hwf : srvci.WellFormed) :
    Succeeds Vroute.Clean (checkTickets (.srvc srvci)) := by
  apply succeeds_of_silent (silent_checkTickets fun _ => TicketArg.noConfusion)
  intro s
  obtain ⟨r, hr⟩ := checkTicket_srvc_ok hwf s.tickets s.node_space
  unfold checkTickets
  rw [hr]
  exact ⟨_, _, rfl⟩

/-! ## Handlers behind their decoders -/

/-- What a handler does with the records of a message: it succeeds when their strings are
images, and they are when it ends with nothing but good records passed. -/
structure Passing {α : Type} (ctxt : BeNode) (id : DhtId) (p : RouteM α) : Prop where
  succeeds : (∀ leaf ∈ recordLeaves ctxt id, LeafImage leaf id) → Succeeds Vroute.Clean p
  images : ∀ s a s', p s = .ok a s' → (∀ e ∈ s'.log, GoodEvent e) →
    ∀ leaf ∈ recordLeaves ctxt id, LeafImage leaf id

theorem mem_log_of_growing {α : Type} {p : RouteM α} (h : Moves Growing p) {s s' : Vroute} {a : α}
    (hp : p s = .ok a s') {e : RouteEvent} (he : e ∈ s.log) : e ∈ s'.log := by
  obtain ⟨L, hL⟩ := h s
  have hlog := hL.log
  rw [hp] at hlog
  replace hlog : s'.log = s.log ++ L := hlog
  rw [hlog]
  exact List.mem_append_left _ he

section Passing

variable {α β : Type} {ctxt : BeNode} {id : DhtId} {p : RouteM α}

theorem Passing.after {q : RouteM β} (hp : Passing ctxt id p) (hq : Succeeds Vroute.Clean q) :
    Passing ctxt id (q >>= fun _ => p) where
  succeeds := fun h => succeeds_bind hq fun _ => hp.succeeds h
  images := by
    intro s a s' h hgood
    obtain ⟨_, s₁, -, h⟩ := bind_eq_ok.mp h
    exact hp.images s₁ a s' h hgood

theorem Passing.before {q : α → RouteM β} (hp : Passing ctxt id p)
    (hgrow : ∀ a, Moves Growing (q a))
    (hq : (∀ leaf ∈ recordLeaves ctxt id, LeafImage leaf id) → ∀ a, Succeeds Vroute.Clean (q a)) :
    Passing ctxt id (p >>= q) where
  succeeds := fun h => succeeds_bind (hp.succeeds h) (hq h)
  images := by
    intro s b s' h hgood
    obtain ⟨a, s₁, h₁, h⟩ := bind_eq_ok.mp h
    exact hp.images s a s₁ h₁ fun e he => hgood e (mem_log_of_growing (hgrow a) h he)

theorem passNode_mem {leaf : Option BeNode} {nodei : VnodeInfo} {flag : AddFlag} {now : Int}
    {s s' : Vroute} (h : passNode leaf nodei flag now s = .ok () s') :
    RouteEvent.nodePassed leaf nodei ∈ s'.log := by
  unfold passNode emit at h
  rw [bind_ok_apply (modify_apply _ s)] at h
  unfold storeNode at h
  split at h
  · cases h
  · cases h
    simp

theorem passNodes_mem {flag : AddFlag} {now : Int} {l : List (Option BeNode × VnodeInfo)}
    {s s' : Vroute} (h : passNodes flag now l s = .ok () s') :
    ∀ x ∈ l, RouteEvent.nodePassed x.1 x.2 ∈ s'.log := by
  induction l generalizing s with
  | nil => simp
  | cons x l ih =>
    obtain ⟨_, s₁, h₁, h₂⟩ := bind_eq_ok.mp h
    intro y hy
    rcases List.mem_cons.mp hy with rfl | hy
    · exact mem_log_of_growing (growing_passNodes flag now l) h₂ (passNode_mem h₁)
    · exact ih h₂ y hy

theorem passService_mem {leaf : Option BeNode} {srvci : VsrvcInfo} {now : Int} {s s' : Vroute}
    (h : passService leaf srvci now s = .ok () s') :
    RouteEvent.srvcPassed leaf srvci ∈ s'.log := by
  unfold passService emit at h
  rw [bind_ok_apply (modify_apply _ s)] at h
  unfold storeService at h
  split at h
  · cases h
  · cases h
    simp

/-- The handlers that pass one node info. -/
theorem passing_node (hleaves : recordLeaves ctxt id = [argNode ctxt "node"])
    (hkind : ∀ leaf, LeafImage leaf id ↔ NodeImage leaf) {r : Block RELAX_SIZE}
    (h : unpack (argNode ctxt "node") nodeRelaxBlock = .ok r) (flag : AddFlag) (now : Int) :
    Passing ctxt id (passNode (argNode ctxt "node") (vnodeInfoOfBytes r.data) flag now) where
  succeeds := by
    intro himages
    have himage := (hkind _).mp (himages _ (by rw [hleaves]; exact List.mem_singleton_self _))
    have hgood := (goodNode_iff h).mpr himage
    exact succeeds_passNode hgood hgood.wellFormed flag now
  images := by
    intro s a s' hp hgood leaf hleaf
    rw [hleaves] at hleaf
    rw [List.mem_singleton.mp hleaf, hkind]
    exact (goodNode_iff h).mp (hgood _ (passNode_mem hp))

/-- The pairs the handler of the closest nodes works through. -/
theorem mem_zip_unpackNodes {l : List BeNode} {x : Option BeNode × VnodeInfo}
    (hx : x ∈ (l.map some).zip ((unpackNodes l).map fun b => vnodeInfoOfBytes b.data)) :
    ∃ r : Block RELAX_SIZE, unpack x.1 nodeRelaxBlock = .ok r ∧ x.2 = vnodeInfoOfBytes r.data := by
  unfold unpackNodes at hx
  rw [List.map_map, List.zip_map'] at hx
  obtain ⟨node, -, rfl⟩ := List.mem_map.mp hx
  exact ⟨_, unpack_some node nodeRelaxBlock, rfl⟩

theorem passing_nodes (flag : AddFlag) (now : Int) :
    Passing ctxt .findClosestNodesRsp (passNodes flag now
      (((argItems ctxt "nodes").map some).zip
        ((unpackNodes (argItems ctxt "nodes")).map fun b => vnodeInfoOfBytes b.data))) where
  succeeds := by
    intro himages
    apply succeeds_passNodes
    rintro ⟨leaf, nodei⟩ hx
    obtain ⟨r, hr, hrec⟩ := mem_zip_unpackNodes hx
    dsimp only at hr hrec ⊢
    subst hrec
    have hgood := (goodNode_iff hr).mpr (himages leaf (List.of_mem_zip hx).1)
    exact ⟨hgood, hgood.wellFormed⟩
  images := by
    intro s a s' hp hgood leaf hleaf
    have hlen : ((argItems ctxt "nodes").map some).length ≤
        ((unpackNodes (argItems ctxt "nodes")).map fun b => vnodeInfoOfBytes b.data).length := by
      simp [unpackNodes]
    have hfst := List.map_fst_zip hlen
    have hmem : leaf ∈ ((argItems ctxt "nodes").map some) := hleaf
    rw [← hfst] at hmem
    obtain ⟨⟨leaf', nodei⟩, hx, rfl⟩ := List.mem_map.mp hmem
    obtain ⟨r, hr, hrec⟩ := mem_zip_unpackNodes hx
    have hevent := hgood _ (passNodes_mem hp _ hx)
    dsimp only at hr hrec hevent ⊢
    subst hrec
    exact (goodNode_iff hr).mp hevent

/-- The handlers that pass a service info. -/
theorem passing_service (hleaves : recordLeaves ctxt id = [argNode ctxt "service"])
    (hkind : ∀ leaf, LeafImage leaf id ↔ SrvcImage leaf) {r : Block RELAX_SIZE}
    (h : unpack (argNode ctxt "service") srvcRelaxBlock = .ok r) (now : Int) :
    Passing ctxt id (passService (argNode ctxt "service") (vsrvcInfoOfBytes r.data) now) where
  succeeds := by
    intro himages
    have himage := (hkind _).mp (himages _ (by rw [hleaves]; exact List.mem_singleton_self _))
    have hgood := (goodSrvc_iff h).mpr himage
    exact succeeds_passService hgood hgood.wellFormed now
  images := by
    intro s a s' hp hgood leaf hleaf
    rw [hleaves] at hleaf
    rw [List.mem_singleton.mp hleaf, hkind]
    exact (goodSrvc_iff h).mp (hgood _ (passService_mem hp))

end Passing

/-- A handler faults in its decoder when an entry is missing. Else it passes the records of the
message, for a response behind the token check. -/
def Shape (m : Arrival) (ctxt : BeNode) (id : DhtId) (handler : RouteM Int) : Prop :=
  (¬ Complete ctxt id ∧ ∃ e, handler = lift (.error e)) ∨
    (Complete ctxt id ∧ ∃ nonce pass, messageNonce m ctxt = .ok nonce ∧
      handler = (if isRsp id then withToken nonce pass else pass) ∧ Passing ctxt id pass)

section Shapes

variable (w : World) (m : Arrival) (ctxt : BeNode)

theorem shape_cbPingRsp : Shape m ctxt .pingRsp (cbPingRsp m ctxt) := by
  unfold cbPingRsp
  rcases decPingRsp_cases ctxt m.nonce nodeRelaxBlock with ⟨hc, nonce, r, hdec, hr⟩ | ⟨hc, e, he⟩
  · refine Or.inr ⟨hc, nonce, _, decPingRsp_nonce hdec, by rw [hdec]; rfl, ?_⟩
    apply (passing_node rfl (fun _ => Iff.rfl) hr _ _).before
    · exact fun _ => moves_pure _
    · exact fun _ _ => succeeds_pure _
  · exact Or.inl ⟨hc, e, by rw [he]; rfl⟩

theorem shape_cbFindNodeRsp : Shape m ctxt .findNodeRsp (cbFindNodeRsp m ctxt) := by
  unfold cbFindNodeRsp decFindNodeRsp
  rcases decSrcArg_cases "node" ctxt m.nonce m.fromId nodeRelaxBlock with
    ⟨hc, nonce, fromId, r, hdec, hr⟩ | ⟨hc, e, he⟩
  · refine Or.inr ⟨hc, nonce, _, decSrcArg_nonce hdec, by rw [hdec]; rfl, ?_⟩
    refine Passing.after ?_ (succeeds_kick fromId m.now)
    apply (passing_node rfl (fun _ => Iff.rfl) hr _ _).before
    · exact fun _ => moves_pure _
    · exact fun _ _ => succeeds_pure _
  · exact Or.inl ⟨hc, e, by rw [he]; rfl⟩

theorem shape_cbFindClosestNodesRsp :
    Shape m ctxt .findClosestNodesRsp (cbFindClosestNodesRsp m ctxt) := by
  unfold cbFindClosestNodesRsp
  rcases decFindClosestNodesRsp_cases ctxt m.nonce m.fromId with
    ⟨hc, nonce, fromId, l, rfl, hdec⟩ | ⟨hc, e, he⟩
  · refine Or.inr ⟨hc, nonce, _, decFindClosestNodesRsp_nonce hdec, by rw [hdec]; rfl, ?_⟩
    refine Passing.after ?_ (succeeds_kick fromId m.now)
    apply (passing_nodes _ _).before
    · exact fun _ => moves_pure _
    · exact fun _ _ => succeeds_pure _
  · exact Or.inl ⟨hc, e, by rw [he]; rfl⟩

theorem shape_cbPostService : Shape m ctxt .postService (cbPostService m ctxt) := by
  unfold cbPostService decPostService
  rcases decSrcArg_cases "service" ctxt m.nonce m.fromId srvcRelaxBlock with
    ⟨hc, nonce, fromId, r, hdec, hr⟩ | ⟨hc, e, he⟩
  · refine Or.inr ⟨hc, nonce,
      kick fromId m.now >>= fun _ =>
        passService (argNode ctxt "service") (vsrvcInfoOfBytes r.data) m.now >>= fun _ => pure 0,
      decSrcArg_nonce hdec, by rw [hdec]; rfl, ?_⟩
    refine Passing.after ?_ (succeeds_kick fromId m.now)
    apply (passing_service rfl (fun _ => Iff.rfl) hr _).before
    · exact fun _ => moves_pure _
    · exact fun _ _ => succeeds_pure _
  · exact Or.inl ⟨hc, e, by rw [he]; rfl⟩

theorem shape_cbFindServiceRsp : Shape m ctxt .findServiceRsp (cbFindServiceRsp w m ctxt) := by
  unfold cbFindServiceRsp decFindServiceRsp
  rcases decSrcArg_cases "service" ctxt m.nonce m.fromId srvcRelaxBlock with
    ⟨hc, nonce, fromId, r, hdec, hr⟩ | ⟨hc, e, he⟩
  · refine Or.inr ⟨hc, nonce, _, decSrcArg_nonce hdec, by rw [hdec]; rfl, ?_⟩
    refine Passing.after ?_ (succeeds_kick fromId m.now)
    apply (passing_service rfl (fun _ => Iff.rfl) hr _).before
    · intro _
      apply moves_get_bind
      intro s
      refine moves_bind (growing_of_silent (silent_dhtCalls w _ _)) fun _ => ?_
      refine moves_bind (growing_of_silent (silent_checkTickets ?_)) fun _ => moves_pure _
      exact fun _ => TicketArg.noConfusion
    · intro himages _
      have himage : SrvcImage (argNode ctxt "service") := himages _ (List.mem_singleton_self _)
      have hwf := ((goodSrvc_iff hr).mpr himage).wellFormed
      refine succeeds_bind succeeds_get fun s => ?_
      refine succeeds_bind (succeeds_probeNode w _ _ _) fun _ => ?_
      exact succeeds_bind (succeeds_checkTickets_srvc hwf) fun _ => succeeds_pure _
  · exact Or.inl ⟨hc, e, by rw [he]; rfl⟩

theorem shape_of_passesRecords {id : DhtId} (hid : passesRecords id = true) :
    Shape m ctxt id (routeCbOps w m ctxt id) := by
  cases id with
  | pingRsp => exact shape_cbPingRsp m ctxt
  | findNodeRsp => exact shape_cbFindNodeRsp m ctxt
  | findClosestNodesRsp => exact shape_cbFindClosestNodesRsp m ctxt
  | postService => exact shape_cbPostService m ctxt
  | findServiceRsp => exact shape_cbFindServiceRsp w m ctxt
  | ping | findNode | findClosestNodes | reflex | reflexRsp | probe | probeRsp | findService =>
    cases hid

end Shapes

/-! ## Steps -/

section Steps

variable (w : World)

/-- Every record passed up to the end of the operation is good, and a message that has all its
entries does not make one of the five handlers fail. -/
def RecordsClean (s : Vroute) (op : RouteOp) : Prop :=
  (∀ e ∈ (endState (routeOp w op s)).log, GoodEvent e) ∧
    match op with
    | .recv m buf len => ∀ id ctxt, decBegin buf len = .ok (some (id, ctxt)) →
        passesRecords id = true → Complete ctxt id → ∃ r s', routeMsgCb w m buf len s = .ok r s'
    | _ => True

/-- A message for one of the five handlers is dropped before its records are passed, or their
strings are images. -/
def RecordsGuarded (s : Vroute) : RouteOp → Prop
  | .recv m buf len => ∀ id ctxt, decBegin buf len = .ok (some (id, ctxt)) →
      passesRecords id = true →
        Dropped s m ctxt id ∨ ∀ leaf ∈ recordLeaves ctxt id, LeafImage leaf id
  | _ => True

theorem clean_accepted {s : Vroute} (hs : s.Clean) (nonce : Vnonce) (tickets : List Ticket) :
    Vroute.Clean { s with tickets := tickets, log := s.log ++ [.accepted nonce] } := by
  refine ⟨⟨hs.inv.nodes, hs.inv.services⟩, ?_⟩
  intro e he
  rcases List.mem_append.mp he with he | he
  · exact hs.passed e he
  · rw [List.mem_singleton.mp he]
    trivial

/-- A complete message for one of the five handlers: it is a response to no query and changes
nothing, or the handler goes on with its records from a clean state. -/
theorem shape_complete {m : Arrival} {ctxt : BeNode} {id : DhtId} {handler : RouteM Int}
    (hshape : Shape m ctxt id handler) (hc : Complete ctxt id) {s : Vroute} (hs : s.Clean) :
    (Dropped s m ctxt id ∧ handler s = .ok (-1) s) ∨
      (¬ Dropped s m ctxt id ∧ ∃ pass s₁, s₁.Clean ∧ handler s = pass s₁ ∧
        Passing ctxt id pass) := by
  rcases hshape with ⟨hnot, -⟩ | ⟨-, nonce, pass, hnonce, rfl, hpass⟩
  · exact absurd hc hnot
  · have hdropped : Dropped s m ctxt id ↔ isRsp id = true ∧ nonce ∉ outstanding s.tickets := by
      constructor
      · rintro (hnot | ⟨hid, n, hn, hmem⟩)
        · exact absurd hc hnot
        · rw [hnonce] at hn
          cases hn
          exact ⟨hid, hmem⟩
      · rintro ⟨hid, hmem⟩
        exact Or.inr ⟨hid, nonce, hnonce, hmem⟩
    by_cases hid : isRsp id = true
    · rw [if_pos hid]
      rcases withToken_cases nonce pass s with ⟨hmem, h⟩ | ⟨hmem, ts, -, h⟩
      · exact Or.inl ⟨hdropped.mpr ⟨hid, hmem⟩, h⟩
      · refine Or.inr ⟨fun hd => (hdropped.mp hd).2 hmem, pass, _, clean_accepted hs nonce ts, h, ?_⟩
        exact hpass
    · rw [if_neg hid]
      exact Or.inr ⟨fun hd => hid (hdropped.mp hd).1, pass, s, hs, rfl, hpass⟩

theorem routeMsgCb_opened {m : Arrival} {buf : List UInt8} {len : Int} {id : DhtId}
    {ctxt : BeNode} (h : decBegin buf len = .ok (some (id, ctxt))) :
    routeMsgCb w m buf len = routeCbOps w m ctxt id := by
  unfold routeMsgCb
  rw [h]
  rfl

theorem keeps_of_silent {α : Type} {p : RouteM α} (h : Moves Silent p) :
    Moves (Keeps Vroute.Clean) p :=
  h.weaken fun _ _ => Silent.clean

/-- The handlers of responses that bring no record. -/
theorem keeps_withToken {α : Type} {dec : Res α} {body : α → RouteM Int}
    (h : ∀ a, ∃ nonce rest, body a = withToken nonce rest ∧ Moves Silent rest) :
    Moves (Keeps Vroute.Clean) (lift dec >>= body) := by
  apply moves_lift_bind
  intro a _
  obtain ⟨nonce, rest, hbody, hrest⟩ := h a
  rw [hbody]
  intro s hs
  rcases withToken_cases nonce rest s with ⟨-, h⟩ | ⟨-, ts, -, h⟩
  · rw [h]
    exact hs
  · rw [h]
    exact keeps_of_silent hrest _ (clean_accepted hs nonce ts)

theorem keeps_cbReflexRsp (m : Arrival) (ctxt : BeNode) :
    Moves (Keeps Vroute.Clean) (cbReflexRsp m ctxt) := by
  apply keeps_withToken
  rintro ⟨nonce, fromId, addr⟩
  refine ⟨nonce, _, rfl, ?_⟩
  refine moves_bind (silent_kick fromId m.now) fun _ => ?_
  exact moves_bind (silent_reflexNode _ _) fun _ => moves_pure _

theorem keeps_cbProbeRsp (m : Arrival) (ctxt : BeNode) :
    Moves (Keeps Vroute.Clean) (cbProbeRsp m ctxt) := by
  apply keeps_withToken
  rintro ⟨nonce, fromId⟩
  refine ⟨nonce, _, rfl, ?_⟩
  refine moves_bind (silent_kick fromId m.now) fun _ => ?_
  exact moves_bind (silent_checkTickets fun _ => TicketArg.noConfusion) fun _ => moves_pure _

/-- Messages for the other handlers keep everything clean. -/
theorem keeps_other {id : DhtId} (hid : passesRecords id = false) (m : Arrival) (ctxt : BeNode) :
    Moves (Keeps Vroute.Clean) (routeCbOps w m ctxt id) := by
  cases id with
  | reflexRsp => exact keeps_cbReflexRsp m ctxt
  | probeRsp => exact keeps_cbProbeRsp m ctxt
  | ping | findNode | findClosestNodes | reflex | probe | findService =>
    exact keeps_of_silent (silent_query w rfl (by simp) m ctxt)
  | pingRsp | findNodeRsp | findClosestNodesRsp | postService | findServiceRsp => cases hid

/-- Reaping only adds events that pass nothing. -/
theorem clean_reaped {s : Vroute} (hs : s.Clean) (tickets : List Ticket) (calls : List Shown)
    (nonces : List Vnonce) :
    Vroute.Clean { s with
      tickets := tickets
      log := s.log ++ calls.map RouteEvent.shown ++ nonces.map RouteEvent.reaped } := by
  refine ⟨⟨hs.inv.nodes, hs.inv.services⟩, ?_⟩
  intro e he
  rcases List.mem_append.mp he with he | he
  · rcases List.mem_append.mp he with he | he
    · exact hs.passed e he
    · obtain ⟨c, -, rfl⟩ := List.mem_map.mp he
      trivial
  · obtain ⟨n, -, rfl⟩ := List.mem_map.mp he
    trivial

theorem keeps_vrouteTick (rand : Fin NBUCKETS → Nat) (now : Int) :
    Moves (Keeps Vroute.Clean) (vrouteTick w rand now) := by
  refine moves_bind (keeps_of_silent (silent_tickNodes w rand now)) fun _ => ?_
  refine moves_bind ?_ fun _ => moves_pure _
  intro s hs
  exact clean_reaped hs _ _ _

theorem keeps_vrouteClear : Moves (Keeps Vroute.Clean) vrouteClear := by
  intro s hs
  have h := clean_reaped hs [] [] (outstanding s.tickets)
  rw [List.map_nil, List.append_nil] at h
  exact ⟨⟨nodeSpaceClear_inv _, fun i t ht => absurd ht List.not_mem_nil⟩, h.passed⟩

/-- Every operation but the receipt of a message keeps everything clean. -/
theorem keeps_operation {op : RouteOp} (hop : ∀ m buf len, op ≠ .recv m buf len) :
    Moves (Keeps Vroute.Clean) (routeOp w op) := by
  cases op with
  | recv m buf len => exact absurd rfl (hop m buf len)
  | tick rand now => exact keeps_vrouteTick w rand now
  | joinNode freshId addr now => exact keeps_of_silent (silent_vrouteJoinNode freshId addr now)
  | findService hash cookie => exact keeps_of_silent (silent_vrouteFindService hash cookie)
  | probeService hash cookie now =>
    exact keeps_of_silent (silent_vrouteProbeService w hash cookie now)
  | airService srvci now =>
    exact keeps_of_silent (silent_calls w now (fun s => airService s.node_space srvci) 0)
  | reflexAddr addr now =>
    exact keeps_of_silent (silent_calls w now (fun s => reflexAddr s.node_space addr) 0)
  | probeConnectivity laddr now =>
    exact keeps_of_silent (silent_vrouteProbeConnectivity w laddr now)
  | clear => exact moves_bind keeps_vrouteClear fun _ => moves_pure _

/-- What a message for one of the five handlers does: it is dropped and changes nothing, or its
records are passed on. -/
theorem message_cases {s : Vroute} (hs : s.Clean) {m : Arrival} {ctxt : BeNode} {id : DhtId}
    (hid : passesRecords id = true) :
    (Dropped s m ctxt id ∧ endState (routeCbOps w m ctxt id s) = s ∧
      (Complete ctxt id → routeCbOps w m ctxt id s = .ok (-1) s)) ∨
    (¬ Dropped s m ctxt id ∧ Complete ctxt id ∧ ∃ pass s₁, s₁.Clean ∧
      routeCbOps w m ctxt id s = pass s₁ ∧ Passing ctxt id pass) := by
  have hshape := shape_of_passesRecords w m ctxt hid
  by_cases hc : Complete ctxt id
  · rcases shape_complete hshape hc hs with ⟨hd, h⟩ | ⟨hd, pass, s₁, hs₁, h, hpass⟩
    · exact Or.inl ⟨hd, by rw [h]; rfl, fun _ => h⟩
    · exact Or.inr ⟨hd, hc, pass, s₁, hs₁, h, hpass⟩
  · refine Or.inl ⟨Or.inl hc, ?_, fun h => absurd h hc⟩
    rcases hshape with ⟨-, e, he⟩ | ⟨hc', -⟩
    · rw [he]
      rfl
    · exact absurd hc' hc

/-- An operation whose records are guarded ends in a clean state. -/
theorem clean_step {s : Vroute} (hs : s.Clean) {op : RouteOp} (hop : RecordsGuarded s op) :
    (endState (routeOp w op s)).Clean := by
  cases op with
  | recv m buf len =>
    show (endState (routeMsgCb w m buf len s)).Clean
    cases hdec : decBegin buf len with
    | error e =>
      unfold routeMsgCb
      rw [hdec]
      exact hs
    | ok opened =>
      cases opened with
      | none =>
        unfold routeMsgCb
        rw [hdec]
        exact hs
      | some p =>
        obtain ⟨id, ctxt⟩ := p
        rw [routeMsgCb_opened w hdec]
        cases hid : passesRecords id with
        | false => exact keeps_other w hid m ctxt s hs
        | true =>
          rcases message_cases w hs hid with ⟨-, h, -⟩ | ⟨hd, -, pass, s₁, hs₁, h, hpass⟩
          · rw [h]
            exact hs
          · have himages := (hop id ctxt hdec hid).resolve_left hd
            obtain ⟨r, s', hok, hs'⟩ := hpass.succeeds himages s₁ hs₁
            rw [h, hok]
            exact hs'
  | tick | joinNode | findService | probeService | airService | reflexAddr
  | probeConnectivity | clear => exact keeps_operation w (by simp) s hs

theorem clean_iff_guarded {s : Vroute} (hs : s.Clean) (op : RouteOp) :
    RecordsClean w s op ↔ RecordsGuarded s op := by
  constructor
  · rintro ⟨hlog, hok⟩
    cases op with
    | recv m buf len =>
      intro id ctxt hdec hid
      rcases message_cases w hs hid with ⟨hd, -⟩ | ⟨-, hc, pass, s₁, hs₁, h, hpass⟩
      · exact Or.inl hd
      · obtain ⟨r, s', hr⟩ := hok id ctxt hdec hid hc
        replace hlog : ∀ e ∈ (endState (routeMsgCb w m buf len s)).log, GoodEvent e := hlog
        rw [hr] at hlog
        rw [routeMsgCb_opened w hdec, h] at hr
        exact Or.inr (hpass.images s₁ r s' hr hlog)
    | tick | joinNode | findService | probeService | airService | reflexAddr
    | probeConnectivity | clear => trivial
  · intro hop
    refine ⟨(clean_step w hs hop).passed, ?_⟩
    cases op with
    | recv m buf len =>
      intro id ctxt hdec hid hc
      rw [routeMsgCb_opened w hdec]
      rcases message_cases w hs hid with ⟨-, -, h⟩ | ⟨hd, -, pass, s₁, hs₁, h, hpass⟩
      · exact ⟨-1, s, h hc⟩
      · have himages := (hop id ctxt hdec hid).resolve_left hd
        obtain ⟨r, s', hok, -⟩ := hpass.succeeds himages s₁ hs₁
        exact ⟨r, s', by rw [h, hok]⟩
    | tick | joinNode | findService | probeService | airService | reflexAddr
    | probeConnectivity | clear => trivial

/-! ## Runs -/

theorem clean_vrouteInit (myid : Token) (props : UInt32) {nodeSpace : NodeSpace}
    (h : nodeSpace.Inv) (bucketSz : Nat) (node : Vnode) :
    (vrouteInit myid props nodeSpace bucketSz node).Clean :=
  ⟨⟨h, fun _ _ ht => absurd ht List.not_mem_nil⟩, fun _ he => absurd he List.not_mem_nil⟩

/-- For a run from the start, of any operations and under any world. Every record that is handed on
is good, and none of the five handlers of records fails on a message that has all its entries, if
and only if in every such message that is not dropped before its records are passed their strings
are images, as an encoder makes them. -/
theorem records_clean_iff (zaddr : SockaddrIn) (bucketSz : Nat) (maxNextTmo : Int)
    (myid myver : Token) (props : UInt32) (node : Vnode) (ops : List RouteOp) :
    Along (routeExec w) (RecordsClean w)
        (vrouteInit myid props (nodeSpaceInit zaddr bucketSz maxNextTmo myid myver) bucketSz node)
        ops ↔
      Along (routeExec w) RecordsGuarded
        (vrouteInit myid props (nodeSpaceInit zaddr bucketSz maxNextTmo myid myver) bucketSz node)
        ops := by
  apply along_iff (I := Vroute.Clean)
  · exact fun s op hs => clean_iff_guarded w hs op
  · intro s op s' hs hop hstep
    have hclean := clean_step w hs hop
    unfold routeExec at hstep
    split at hstep
    · rename_i r t ht
      rw [ht] at hclean
      cases hstep
      exact hclean
    · cases hstep
  · exact clean_vrouteInit myid props (inv_init zaddr bucketSz maxNextTmo myid myver) bucketSz node

end Steps

/-! ## An announcement without a record -/

/-- A `post_service` message with an empty string under `service`. -/
def emptyAnnouncement : List UInt8 :=
  cstr "d1:t4:aaaa1:y1:q1:q12:post_service1:ad2:id20:aaaaaaaaaaaaaaaaaaaa7:service0:ee"

/-- The number of addresses of a record that a callback handed on, where the event is one. -/
def passedNaddrs : RouteEvent → Option Int
  | .nodePassed _ nodei => some nodei.naddrs
  | .srvcPassed _ srvci => some srvci.naddrs
  | _ => none

/-- Its handler adds a service without an address. -/
theorem records_clean_empty : ¬ RecordsClean countingWorld aRoute
    (.recv (anArrival 1) emptyAnnouncement emptyAnnouncement.length) := by
  rintro ⟨hlog, -⟩
  have hpassed : (endState (routeOp countingWorld (.recv (anArrival 1) emptyAnnouncement
      emptyAnnouncement.length) aRoute)).log.filterMap passedNaddrs = [0] := by decide +kernel
  have hmem : (0 : Int) ∈ [0] := List.mem_singleton_self 0
  rw [← hpassed] at hmem
  obtain ⟨e, he, hnaddrs⟩ := List.mem_filterMap.mp hmem
  have hgood := hlog e he
  cases e with
  | nodePassed leaf nodei =>
    injection hnaddrs with hnaddrs
    have hpos := GoodNode.pos hgood
    omega
  | srvcPassed leaf srvci =>
    injection hnaddrs with hnaddrs
    have hpos := GoodSrvc.pos hgood
    omega
  | pushed | accepted | reaped | shown => cases hnaddrs

end Vdht.Route
