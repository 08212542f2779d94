import Vdht.Route.Known
import Vdht.Route.Route

/-!
# What a message or a call may change

Most of the code neither accepts a response nor reaps a ticket. `Grown` says what such code may
do to the tickets, the log and the known versions; it is closed under sequencing, so it is
enough to look at the primitive steps of the handlers. The handlers of queries moreover pass no
record to the node space.
-/

namespace Vdht.Route

open Vdht.Core Dht Lib Node NodeId

/-- The queries that add a check ticket. -/
def expectsRsp : DhtId → Bool
  | .ping | .findNode | .findClosestNodes | .reflex | .probe | .findService => true
  | _ => false

/-- The kinds of message that answer a query, whose callbacks look for the ticket of the nonce
before they do anything. -/
def isRsp : DhtId → Bool
  | .pingRsp | .findNodeRsp | .findClosestNodesRsp | .reflexRsp | .probeRsp
  | .findServiceRsp => true
  | _ => false

/-- The nonce of a query that was sent and waits for a response. -/
def issued : RouteEvent → Option Vnonce
  | .pushed id _ nonce _ => if expectsRsp id then some nonce else none
  | _ => none

/-- The nonce of a response that found its ticket, where the event is one. -/
def accepted : RouteEvent → Option Vnonce
  | .accepted nonce => some nonce
  | _ => none

/-- The nonce of a check ticket that is gone. -/
def used : RouteEvent → Option Vnonce
  | .accepted nonce => some nonce
  | .reaped nonce => some nonce
  | _ => none

/-- The record of a node that a callback handed on to the space, where the event is one. -/
def passedNode : RouteEvent → Option VnodeInfo
  | .nodePassed _ nodei => some nodei
  | _ => none

/-- A record from the network goes to one of the spaces. -/
def passes : RouteEvent → Bool
  | .nodePassed _ _ | .srvcPassed _ _ => true
  | _ => false

/-- The invariants of the two spaces. -/
structure Vroute.Inv (s : Vroute) : Prop where
  nodes : s.node_space.Inv
  services : s.srvc_space.Sound

/-! ## Growth -/

/-- From `s` to `s'` the events `L` happened, no check ticket was used up, and the node space
learned no version but those of the records that were passed to it. -/
structure Grown (L : List RouteEvent) (s s' : Vroute) : Prop where
  log : s'.log = s.log ++ L
  unused : ∀ e ∈ L, used e = none
  outstanding : outstanding s'.tickets = outstanding s.tickets ++ L.filterMap issued
  learned : ∀ id ver, s'.node_space.Knows id ver →
    s.node_space.Knows id ver ∨ ∃ nodei ∈ L.filterMap passedNode, Taught nodei id ver

theorem Grown.refl (s : Vroute) : Grown [] s s :=
  ⟨by simp, by simp, by simp, fun _ _ h => Or.inl h⟩

theorem Grown.trans {L M : List RouteEvent} {s₁ s₂ s₃ : Vroute} (h : Grown L s₁ s₂)
    (h' : Grown M s₂ s₃) : Grown (L ++ M) s₁ s₃ where
  log := by rw [h'.log, h.log, List.append_assoc]
  unused := by
    intro e he
    rcases List.mem_append.mp he with he | he
    · exact h.unused e he
    · exact h'.unused e he
  outstanding := by
    rw [h'.outstanding, h.outstanding, List.filterMap_append, List.append_assoc]
  learned := by
    intro id ver hk
    rw [List.filterMap_append]
    rcases h'.learned id ver hk with hk | ⟨nodei, hn, ht⟩
    · rcases h.learned id ver hk with hk | ⟨nodei, hn, ht⟩
      · exact Or.inl hk
      · exact Or.inr ⟨nodei, List.mem_append_left _ hn, ht⟩
    · exact Or.inr ⟨nodei, List.mem_append_right _ hn, ht⟩

/-- The log of the route has only grown, and the messages of the new events are those that were
counted. -/
def Growing (s s' : Vroute) : Prop := ∃ L, Grown L s s'

/-- Growth in which no record is passed to the node space. -/
def Quiet (s s' : Vroute) : Prop := ∃ L, L.filterMap passedNode = [] ∧ Grown L s s'

/-- Growth in which no record is passed to any space and the spaces stay sound. -/
structure Silent (s s' : Vroute) : Prop where
  grown : ∃ L, (∀ e ∈ L, passes e = false) ∧ Grown L s s'
  inv : s.Inv → s'.Inv

instance : IsPreorder Vroute Growing where
  refl s := ⟨[], .refl s⟩
  trans := by
    rintro _ _ _ ⟨L, h⟩ ⟨M, h'⟩
    exact ⟨L ++ M, h.trans h'⟩

instance : IsPreorder Vroute Quiet where
  refl s := ⟨[], rfl, .refl s⟩
  trans := by
    rintro _ _ _ ⟨L, hL, h⟩ ⟨M, hM, h'⟩
    exact ⟨L ++ M, by rw [List.filterMap_append, hL, hM]; rfl, h.trans h'⟩

instance : IsPreorder Vroute Silent where
  refl s := ⟨⟨[], by simp, .refl s⟩, id⟩
  trans := by
    rintro _ _ _ ⟨⟨L, hL, h⟩, hinv⟩ ⟨⟨M, hM, h'⟩, hinv'⟩
    refine ⟨⟨L ++ M, ?_, h.trans h'⟩, hinv' ∘ hinv⟩
    intro e he
    rcases List.mem_append.mp he with he | he
    · exact hL e he
    · exact hM e he

theorem passedNode_eq_none {e : RouteEvent} (h : passes e = false) : passedNode e = none := by
  cases e with
  | nodePassed leaf nodei => cases h
  | pushed | accepted | reaped | srvcPassed | shown => rfl

theorem Silent.quiet {s s' : Vroute} (h : Silent s s') : Quiet s s' := by
  obtain ⟨L, hL, hg⟩ := h.grown
  exact ⟨L, List.filterMap_eq_nil_iff.mpr fun e he => passedNode_eq_none (hL e he), hg⟩

theorem Quiet.growing {s s' : Vroute} (h : Quiet s s') : Growing s s' := by
  obtain ⟨L, -, h⟩ := h
  exact ⟨L, h⟩

/-- A message that teaches nothing leaves the known versions as they are. -/
theorem Quiet.knows {s s' : Vroute} (h : Quiet s s') {id ver : Token}
    (hk : s'.node_space.Knows id ver) : s.node_space.Knows id ver := by
  obtain ⟨L, hL, h⟩ := h
  rcases h.learned id ver hk with hk | ⟨nodei, hn, -⟩
  · exact hk
  · rw [hL] at hn
    simp at hn

theorem quiet_of_silent {α : Type} {p : RouteM α} (h : Moves Silent p) : Moves Quiet p :=
  h.weaken fun _ _ => Silent.quiet

theorem growing_of_silent {α : Type} {p : RouteM α} (h : Moves Silent p) : Moves Growing p :=
  h.weaken fun _ _ h => h.quiet.growing

/-- A change of the node space that is not recorded. -/
theorem silent_of_space {s : Vroute} {space : NodeSpace}
    (hk : ∀ id ver, space.Knows id ver → s.node_space.Knows id ver)
    (hinv : s.node_space.Inv → space.Inv) : Silent s { s with node_space := space } :=
  ⟨⟨[], by simp, by simp, by simp, by simp, fun id ver h => Or.inl (hk id ver h)⟩,
    fun h => ⟨hinv h.nodes, h.services⟩⟩

/-- A change outside the log, the tickets and the spaces. -/
theorem silent_of_rest {s s' : Vroute} (hlog : s'.log = s.log)
    (htickets : outstanding s'.tickets = outstanding s.tickets)
    (hnodes : s'.node_space = s.node_space) (hsrvcs : s'.srvc_space = s.srvc_space) :
    Silent s s' := by
  refine ⟨⟨[], by simp, by simp [hlog], by simp, by simp [htickets], ?_⟩, ?_⟩
  · intro id ver h
    exact Or.inl (hnodes ▸ h)
  · intro h
    exact ⟨hnodes ▸ h.nodes, hsrvcs ▸ h.services⟩

/-- Events that concern no ticket and no space. -/
theorem silent_emit {events : List RouteEvent}
    (h : ∀ e ∈ events, issued e = none ∧ used e = none ∧ passes e = false) :
    Moves Silent (emit events) := by
  intro s
  have hissued : events.filterMap issued = [] :=
    List.filterMap_eq_nil_iff.mpr fun e he => (h e he).1
  refine ⟨⟨events, fun e he => (h e he).2.2, rfl, fun e he => (h e he).2.1, ?_,
    fun id ver h => Or.inl h⟩, fun h => ⟨h.nodes, h.services⟩⟩
  simp [hissued, emit, endState]

/-! ## Sending -/

section Sending

variable (w : World)

/-- A message is not encoded, not pushed, or pushed. -/
theorem sendMsg_cases (id : DhtId) (conn : VnodeConn) (nonce : Vnonce)
    (msg : Res (Option (List UInt8))) (s : Vroute) :
    (∃ e, sendMsg w id conn nonce msg s = .error e s) ∨
      sendMsg w id conn nonce msg s = .ok false { s with nmsgs := s.nmsgs + 1 } ∨
      ∃ out, sendMsg w id conn nonce msg s =
        .ok true { s with
          nmsgs := s.nmsgs + 1
          log := s.log ++ [.pushed id conn nonce out] } := by
  cases msg with
  | error e => exact Or.inl ⟨e, rfl⟩
  | ok msg =>
    cases msg with
    | none => exact Or.inr (Or.inl rfl)
    | some out =>
      unfold sendMsg
      dsimp only
      split
      · exact Or.inr (Or.inr ⟨out, rfl⟩)
      · exact Or.inr (Or.inl rfl)

theorem silent_sendQuery (id : DhtId) (conn : VnodeConn)
    (enc : Vnonce → Token → Int → Res (Option (List UInt8))) (tickets : Vnonce → List TicketInfo)
    (now : Int) (ht : ∀ nonce, outstanding ((tickets nonce).map (⟨now, ·⟩)) =
      if expectsRsp id then [nonce] else []) :
    Moves Silent (sendQuery w id conn enc tickets now) := by
  intro s
  unfold sendQuery
  rw [bind_ok_apply (get_apply s)]
  rcases sendMsg_cases w id conn (w.nonce s.nmsgs) (enc (w.nonce s.nmsgs) s.myid vdhtBufLen) s
    with ⟨e, h⟩ | h | ⟨out, h⟩
  · rw [bind_error_apply h]
    exact refl s
  · rw [bind_ok_apply h]
    exact silent_of_rest rfl rfl rfl rfl
  · rw [bind_ok_apply h]
    refine ⟨⟨[.pushed id conn (w.nonce s.nmsgs) out], by simp [passes], rfl, by simp [used], ?_,
      fun _ _ h => Or.inl h⟩, fun h => ⟨h.nodes, h.services⟩⟩
    show outstanding (s.tickets ++ _) = _
    rw [outstanding_append, ht]
    cases hid : expectsRsp id <;> simp [issued, hid]

theorem silent_sendRsp (id : DhtId) (conn : VnodeConn) (nonce : Vnonce)
    (enc : Vnonce → Token → Int → Res (Option (List UInt8))) (hid : expectsRsp id = false) :
    Moves Silent (sendRsp w id conn nonce enc) := by
  intro s
  unfold sendRsp
  rw [bind_ok_apply (get_apply s)]
  rcases sendMsg_cases w id conn nonce (enc nonce s.myid vdhtBufLen) s with ⟨e, h⟩ | h | ⟨out, h⟩
  · rw [bind_error_apply h]
    exact refl s
  · rw [bind_ok_apply h]
    exact silent_of_rest rfl rfl rfl rfl
  · rw [bind_ok_apply h]
    exact ⟨⟨[.pushed id conn nonce out], by simp [passes], rfl, by simp [used],
      by simp [endState, issued, hid], fun _ _ h => Or.inl h⟩, fun h => ⟨h.nodes, h.services⟩⟩

theorem silent_gated (id : DhtId) {m : RouteM Int} (hm : Moves Silent m) :
    Moves Silent (gated id m) := by
  apply moves_get_bind
  intro s
  split
  · exact hm
  · exact moves_pure _

theorem silent_dhtCall (now : Int) (c : DhtCall) : Moves Silent (dhtCall w now c) := by
  cases c with
  | ping conn =>
    refine silent_gated _ (silent_sendQuery w _ _ _ _ _ ?_)
    exact fun nonce => rfl
  | findNode conn target =>
    refine silent_gated _ (silent_sendQuery w _ _ _ _ _ ?_)
    exact fun nonce => rfl
  | findClosestNodes conn target =>
    refine silent_gated _ (silent_sendQuery w _ _ _ _ _ ?_)
    exact fun nonce => rfl
  | reflex conn =>
    unfold dhtCall dhtReflex
    refine silent_sendQuery w _ _ _ _ _ ?_
    exact fun nonce => rfl
  | probe conn target =>
    unfold dhtCall dhtProbe
    refine silent_sendQuery w _ _ _ _ _ ?_
    exact fun nonce => rfl
  | postService conn srvci =>
    refine silent_gated _ (silent_sendQuery w _ _ _ _ _ ?_)
    exact fun nonce => rfl
  | findService conn hash =>
    refine silent_gated _ (silent_sendQuery w _ _ _ _ _ ?_)
    exact fun nonce => rfl

theorem silent_dhtCalls (now : Int) (calls : List DhtCall) :
    Moves Silent (dhtCalls w now calls) := by
  induction calls with
  | nil => exact moves_pure _
  | cons c cs ih => exact moves_bind (silent_dhtCall w now c) fun _ => ih

end Sending

/-! ## Primitive steps of the handlers -/

theorem silent_kick (fromId : Token) (now : Int) : Moves Silent (kick fromId now) := by
  intro s
  exact silent_of_space (fun _ _ h => kickNode_knows h) fun h => kickNode_inv h fromId now

/-- A fake record has one address and no known version. -/
theorem fakeNode_ok (id : Token) (addr : SockaddrIn) :
    ∃ nodei, fakeNode id addr = .ok nodei ∧ nodei.ver = vnodeVerUnknown ∧ nodei.WellFormed := by
  have hsound : vnodeInfoRelax.Sound := ⟨fitting_relax, by decide, by decide⟩
  obtain ⟨b, r, hadd, -, hb, hused, -, -⟩ := @addAddr_ok nodeRule vnodeInfoRelax.toAddrBlock hsound
    (by decide) addr VSOCKADDR_UNKNOWN rfl
  have hlen := hb.length_used
  have hone : b.used.length = 1 := by
    rw [hused]
    rfl
  have hstored := hb.naddrs_le_max
  have hslots := hb.slots
  have hle := hb.naddrs_le
  refine ⟨⟨b, id, vnodeVerUnknown, 0⟩, ?_, rfl, ?_, hstored, ?_⟩
  · have hinit : vnodeInfoAddAddr ⟨vnodeInfoRelax.toAddrBlock, id, vnodeVerUnknown, 0⟩ addr
        VSOCKADDR_UNKNOWN = .ok (⟨b, id, vnodeVerUnknown, 0⟩, r) := by
      rw [vnodeInfoAddAddr, hadd]
    have hrelax : vnodeInfoRelaxInit vnodeInfoRelax id vnodeVerUnknown 0 =
        .ok ⟨vnodeInfoRelax.toAddrBlock, id, vnodeVerUnknown, 0⟩ := rfl
    rw [fakeNode, hrelax]
    dsimp only
    rw [hinit]
  · show 1 ≤ b.naddrs
    omega
  · show b.naddrs ≤ b.addrs.length
    omega

/-- Storing a fake record. -/
theorem silent_storeFake {id : Token} {addr : SockaddrIn} {nodei : VnodeInfo}
    (hfake : fakeNode id addr = .ok nodei) (flag : AddFlag) (now : Int) :
    Moves Silent (storeNode nodei flag now) := by
  obtain ⟨nodei', hok, hver, hwf⟩ := fakeNode_ok id addr
  rw [hfake] at hok
  cases hok
  intro s
  unfold storeNode
  split
  · exact refl s
  · rename_i space hadd
    refine silent_of_space ?_ ?_
    · intro id ver hk
      rcases addNode_knows hadd hk with hk' | ⟨-, ht⟩
      · exact hk'
      · exact absurd (ht.symm.trans hver) hk.1
    · intro h
      obtain ⟨space', hok, hinv⟩ := addNode_ok h hwf flag now
      rw [hadd] at hok
      cases hok
      exact hinv

theorem silent_welcome (known : Bool) (freshId : Token) (addr : SockaddrIn) (now : Int) :
    Moves Silent (welcome known freshId addr now) := by
  unfold welcome
  split
  · exact moves_pure _
  · exact moves_lift_bind fun nodei h => silent_storeFake h .byOther now

theorem quiet_passService (leaf : Option BeNode) (srvci : VsrvcInfo) (now : Int) :
    Moves Quiet (passService leaf srvci now) := by
  intro s
  unfold passService emit
  rw [bind_ok_apply (modify_apply _ s)]
  unfold storeService
  split
  · exact ⟨[.srvcPassed leaf srvci], rfl, rfl, by simp [used], by simp [endState, issued],
      fun _ _ h => Or.inl h⟩
  · exact ⟨[.srvcPassed leaf srvci], rfl, rfl, by simp [used], by simp [endState, issued],
      fun _ _ h => Or.inl h⟩

theorem silent_reflexNode (laddr : SockaddrIn) (eaddr : VsockaddrIn) :
    Moves Silent (reflexNode laddr eaddr) := by
  intro s
  unfold reflexNode
  split
  · exact refl s
  · exact silent_of_rest rfl rfl rfl rfl

theorem silent_shown (calls : List Shown) : Moves Silent (emit (calls.map RouteEvent.shown)) := by
  apply silent_emit
  intro e he
  obtain ⟨c, -, rfl⟩ := List.mem_map.mp he
  exact ⟨rfl, rfl, rfl⟩

theorem vticketPunch_inv {space s : NodeSpace} (hinv : space.Inv) {info : TicketInfo}
    {arg : TicketArg} {shown : List Shown}
    (h : vticketPunch space info arg = .ok (some (s, shown))) : s.Inv := by
  unfold vticketPunch at h
  split at h
  · split at h
    · cases h
      exact hinv
    · cases h
  · split at h
    · split at h
      · cases h
      · cases h
        exact hinv
    · cases h
  · split at h
    · cases h
      exact adjustConnectivity_inv hinv _ _
    · cases h
  · cases h

theorem checkTicket_inv {arg : TicketArg} {tickets : List Ticket} {space : NodeSpace}
    (hinv : space.Inv) {r : Checked} (h : checkTicket arg tickets space = .ok r) :
    r.space.Inv := by
  induction tickets generalizing space r with
  | nil =>
    cases h
    exact hinv
  | cons t tickets ih =>
    unfold checkTicket at h
    split at h
    · cases h
    · split at h
      · cases h
      · rename_i r' hr
        cases h
        exact @ih space hinv r' hr
    · rename_i space' shown hpunch
      have hinv' := vticketPunch_inv hinv hpunch
      split at h
      · cases h
        exact hinv'
      · split at h
        · cases h
        · rename_i r' hr
          cases h
          exact @ih space' hinv' r' hr

/-- The nested checks for tickets of the other types. -/
theorem silent_checkTickets {arg : TicketArg} (harg : ∀ nonce, arg ≠ .check nonce) :
    Moves Silent (checkTickets arg) := by
  intro s
  unfold checkTickets
  split
  · exact refl s
  · rename_i r hr
    have hspace : Silent s { s with tickets := r.tickets, node_space := r.space } :=
      ⟨⟨[], by simp, by simp, by simp, by simpa using checkTicket_other harg hr,
        fun id ver hk => Or.inl (checkTicket_knows hr hk)⟩,
        fun h => ⟨checkTicket_inv h.nodes hr, h.services⟩⟩
    exact IsTrans.trans _ _ _ hspace (silent_shown r.shown _)

theorem growing_passNode (leaf : Option BeNode) (nodei : VnodeInfo) (flag : AddFlag) (now : Int) :
    Moves Growing (passNode leaf nodei flag now) := by
  intro s
  unfold passNode emit
  rw [bind_ok_apply (modify_apply _ s)]
  unfold storeNode
  split
  · exact ⟨[.nodePassed leaf nodei], rfl, by simp [used], by simp [endState, issued],
      fun _ _ h => Or.inl h⟩
  · rename_i space hadd
    refine ⟨[.nodePassed leaf nodei], rfl, by simp [used], by simp [endState, issued], ?_⟩
    intro id ver hk
    rcases addNode_knows hadd hk with hk' | ht
    · exact Or.inl hk'
    · exact Or.inr ⟨nodei, by simp [passedNode], ht⟩

theorem growing_passNodes (flag : AddFlag) (now : Int) (l : List (Option BeNode × VnodeInfo)) :
    Moves Growing (passNodes flag now l) := by
  induction l with
  | nil => exact moves_pure _
  | cons a l ih => exact moves_bind (growing_passNode _ _ _ _) fun _ => ih

/-! ## Handlers of queries and announcements -/

section Queries

variable (w : World)

theorem silent_cbPing (m : Arrival) (ctxt : BeNode) : Moves Silent (cbPing w m ctxt) := by
  apply moves_lift_bind
  rintro ⟨nonce, fromId⟩ -
  refine moves_bind (silent_kick _ _) fun known => ?_
  refine moves_bind (silent_welcome _ _ _ _) fun _ => ?_
  apply moves_get_bind
  intro s
  exact silent_gated _ (silent_sendRsp w _ _ _ _ rfl)

theorem silent_cbFindNode (m : Arrival) (ctxt : BeNode) : Moves Silent (cbFindNode w m ctxt) := by
  apply moves_lift_bind
  rintro ⟨nonce, fromId, targetId⟩ -
  refine moves_bind (silent_kick _ _) fun _ => ?_
  apply moves_get_bind
  intro s
  apply moves_lift_bind
  intro found _
  cases found with
  | none => exact moves_pure _
  | some nodei => exact silent_gated _ (silent_sendRsp w _ _ _ _ rfl)

theorem silent_cbFindClosestNodes (m : Arrival) (ctxt : BeNode) :
    Moves Silent (cbFindClosestNodes w m ctxt) := by
  apply moves_lift_bind
  rintro ⟨nonce, fromId, targetId⟩ -
  refine moves_bind (silent_kick _ _) fun _ => ?_
  apply moves_get_bind
  intro s
  apply moves_lift_bind
  intro closest _
  cases closest with
  | nil => exact moves_pure _
  | cons n ns => exact silent_gated _ (silent_sendRsp w _ _ _ _ rfl)

theorem silent_cbReflex (m : Arrival) (ctxt : BeNode) : Moves Silent (cbReflex w m ctxt) := by
  apply moves_lift_bind
  rintro ⟨nonce, fromId⟩ -
  refine moves_bind (silent_kick _ _) fun _ => ?_
  exact silent_sendRsp w _ _ _ _ rfl

theorem silent_cbProbe (m : Arrival) (ctxt : BeNode) : Moves Silent (cbProbe w m ctxt) := by
  apply moves_lift_bind
  rintro ⟨nonce, fromId, targetId⟩ -
  apply moves_get_bind
  intro s
  split
  · refine moves_bind (silent_kick _ _) fun _ => ?_
    exact silent_sendRsp w _ _ _ _ rfl
  · exact moves_pure _

theorem quiet_cbPostService (m : Arrival) (ctxt : BeNode) :
    Moves Quiet (cbPostService m ctxt) := by
  apply moves_lift_bind
  rintro ⟨nonce, fromId, srvci⟩ -
  refine moves_bind (quiet_of_silent (silent_kick _ _)) fun _ => ?_
  refine moves_bind (quiet_passService _ _ _) fun _ => ?_
  exact moves_pure _

theorem silent_cbFindService (m : Arrival) (ctxt : BeNode) :
    Moves Silent (cbFindService w m ctxt) := by
  apply moves_lift_bind
  rintro ⟨nonce, fromId, hash⟩ -
  refine moves_bind (silent_kick _ _) fun _ => ?_
  apply moves_get_bind
  intro s
  apply moves_lift_bind
  rintro ⟨srvci, found⟩ -
  dsimp only
  split
  · exact silent_gated _ (silent_sendRsp w _ _ _ _ rfl)
  · exact moves_pure _

theorem silent_query {id : DhtId} (hid : isRsp id = false) (hpost : id ≠ .postService)
    (m : Arrival) (ctxt : BeNode) : Moves Silent (routeCbOps w m ctxt id) := by
  cases id with
  | ping => exact silent_cbPing w m ctxt
  | findNode => exact silent_cbFindNode w m ctxt
  | findClosestNodes => exact silent_cbFindClosestNodes w m ctxt
  | reflex => exact silent_cbReflex w m ctxt
  | probe => exact silent_cbProbe w m ctxt
  | postService => exact absurd rfl hpost
  | findService => exact silent_cbFindService w m ctxt
  | pingRsp | findNodeRsp | findClosestNodesRsp | reflexRsp | probeRsp | findServiceRsp =>
    cases hid

theorem quiet_query {id : DhtId} (hid : isRsp id = false) (m : Arrival) (ctxt : BeNode) :
    Moves Quiet (routeCbOps w m ctxt id) := by
  by_cases hpost : id = .postService
  · subst hpost
    exact quiet_cbPostService m ctxt
  · exact quiet_of_silent (silent_query w hid hpost m ctxt)

end Queries

/-! ## Operations of the user and the timer -/

section Operations

variable (w : World)

/-- An operation of the node space that teaches nothing, and its calls. -/
theorem silent_onNodeSpace (now : Int) {f : NodeSpace → Res (NodeSpace × List DhtCall)}
    (hk : ∀ space space' calls, f space = .ok (space', calls) →
      ∀ id ver, space'.Knows id ver → space.Knows id ver)
    (hinv : ∀ space space' calls, f space = .ok (space', calls) → space.Inv → space'.Inv) :
    Moves Silent (onNodeSpace w now f) := by
  intro s
  unfold onNodeSpace
  rw [bind_ok_apply (get_apply s)]
  cases h : f s.node_space with
  | error e => exact refl s
  | ok p =>
    obtain ⟨space, calls⟩ := p
    rw [bind_ok_apply (lift_ok _ s)]
    dsimp only
    rw [bind_ok_apply (modify_apply _ s)]
    refine IsTrans.trans _ _ _ ?_ (silent_dhtCalls w now calls _)
    exact silent_of_space (fun id ver hk' => hk _ _ _ h id ver hk') (hinv _ _ _ h)

theorem silent_calls (now : Int) (f : Vroute → List DhtCall) (r : Int) :
    Moves Silent (do
      let s ← get
      dhtCalls w now (f s)
      return r) := by
  apply moves_get_bind
  intro s
  exact moves_bind (silent_dhtCalls w now _) fun _ => moves_pure _

theorem silent_vrouteFindService (hash : Token) (cookie : Nat) :
    Moves Silent (vrouteFindService hash cookie) := by
  apply moves_get_bind
  intro s
  apply moves_lift_bind
  rintro ⟨srvci, found⟩ -
  dsimp only
  split
  · apply moves_lift_bind
    intro addrs _
    exact moves_bind (silent_shown [_]) fun _ => moves_pure _
  · exact moves_bind (silent_shown [_]) fun _ => moves_pure _

theorem silent_addSrvcTicket (now : Int) (hash : Token) (cookie : Nat) :
    Moves Silent (addTickets now [.srvc hash cookie]) := by
  intro s
  refine silent_of_rest rfl ?_ rfl rfl
  show outstanding (s.tickets ++ _) = _
  rw [outstanding_append]
  exact List.append_nil _

theorem silent_vrouteProbeService (hash : Token) (cookie : Nat) (now : Int) :
    Moves Silent (vrouteProbeService w hash cookie now) := by
  apply moves_get_bind
  intro s
  refine moves_bind (silent_dhtCalls w now _) fun _ => ?_
  exact moves_bind (silent_addSrvcTicket now hash cookie) fun _ => moves_pure _

theorem silent_vrouteJoinNode (freshId : Token) (addr : SockaddrIn) (now : Int) :
    Moves Silent (vrouteJoinNode freshId addr now) := by
  refine moves_lift_bind fun nodei h => ?_
  exact moves_bind (silent_storeFake h .byOther now) fun _ => moves_pure _

theorem silent_vrouteProbeConnectivity (laddr : VsockaddrIn) (now : Int) :
    Moves Silent (vrouteProbeConnectivity w laddr now) := by
  refine moves_bind (silent_onNodeSpace w now ?_ ?_) fun _ => moves_pure _
  · intro space space' calls h id ver hk
    exact probeConnectivity_knows h hk
  · intro space space' calls h hinv
    obtain ⟨s, calls', hok, hinv'⟩ := probeConnectivity_ok hinv laddr
    rw [h] at hok
    cases hok
    exact hinv'

/-- The tick of the node space. -/
theorem silent_tickNodes (rand : Fin NBUCKETS → Nat) (now : Int) :
    Moves Silent (onNodeSpace w now fun space => nodeSpaceTick space rand now) := by
  apply silent_onNodeSpace
  · intro space space' calls h id ver hk
    exact nodeSpaceTick_knows h hk
  · intro space space' calls h hinv
    obtain ⟨s, calls', hok, hinv'⟩ := nodeSpaceTick_ok hinv rand now
    rw [h] at hok
    cases hok
    exact hinv'

end Operations

end Vdht.Route
