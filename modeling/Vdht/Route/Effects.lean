import Mathlib.Logic.Relation
import Vdht.Dht.Labels
import Vdht.Route.Capabilities
import Vdht.Route.Payload
import Vdht.Route.Peers

/-!
# What an operation does

An operation of the route is a sequence of effects. An effect is a change of the state with all
that the code has made sure of when it comes to it: which message was received, what was read from
it, what was found in the two spaces. What every effect keeps, every operation keeps, so that an
invariant of the route needs no look into the handlers.
-/

namespace Vdht.Route

open Vdht.Core Dht Lib Node NodeId

/-! ## Queries -/

namespace DhtCall

/-- The kind of the message that a call sends. -/
def id : DhtCall → DhtId
  | ping _ => .ping
  | findNode _ _ => .findNode
  | findClosestNodes _ _ => .findClosestNodes
  | reflex _ => .reflex
  | probe _ _ => .probe
  | postService _ _ => .postService
  | findService _ _ => .findService

/-- The connection on which a call sends its message. -/
def conn : DhtCall → VnodeConn
  | ping conn => conn
  | findNode conn _ => conn
  | findClosestNodes conn _ => conn
  | reflex conn => conn
  | probe conn _ => conn
  | postService conn _ => conn
  | findService conn _ => conn

/-- The message that a call encodes with the nonce it was given and the id of the node. -/
def message (nonce : Vnonce) (myid : Token) : DhtCall → DhtMsg
  | ping _ => .ping nonce myid
  | findNode _ target => .findNode nonce myid target
  | findClosestNodes _ target => .findClosestNodes nonce myid target
  | reflex _ => .reflex nonce myid
  | probe _ target => .probe nonce myid target
  | postService _ srvci => .postService nonce myid srvci
  | findService _ hash => .findService nonce myid hash

/-- The tickets that a call leaves behind once its message is pushed: one for the nonce, for a probe
also one for the connection, and none where no response comes back. -/
def tickets (nonce : Vnonce) : DhtCall → List TicketInfo
  | probe conn target => checkToken nonce ++ [.conn nonce target conn]
  | postService _ _ => []
  | _ => checkToken nonce

@[simp] theorem message_id (c : DhtCall) (nonce : Vnonce) (myid : Token) :
    (c.message nonce myid).id = c.id := by
  cases c <;> rfl

@[simp] theorem message_nonce (c : DhtCall) (nonce : Vnonce) (myid : Token) :
    (c.message nonce myid).nonce = nonce := by
  cases c <;> rfl

end DhtCall

/-! ## Messages -/

/-- The operation is to handle this message. -/
def Heard (op : RouteOp) (m : Arrival) (id : DhtId) (ctxt : BeNode) : Prop :=
  ∃ buf len, op = .recv m buf len ∧ decBegin buf len = .ok (some (id, ctxt))

/-- What a handler answers to a message of a kind. -/
inductive Replies (s : Vroute) (m : Arrival) (nonce : Vnonce) : DhtId → DhtMsg → Prop where
  | ping : Replies s m nonce .ping (.pingRsp nonce s.myid s.node.nodei)
  | findNode {target : Token} {nodei : VnodeInfo}
      (h : findNode s.node_space target vnodeInfoRelax = .ok (some nodei)) :
      Replies s m nonce .findNode (.findNodeRsp nonce s.myid nodei)
  | findClosestNodes {target : Token} {closest : List VnodeInfo}
      (h : findClosestNodes s.node_space target MAX_CAPC = .ok closest) :
      Replies s m nonce .findClosestNodes (.findClosestNodesRsp nonce s.myid closest)
  | reflex (type : UInt32) :
      Replies s m nonce .reflex (.reflexRsp nonce s.myid ⟨m.conn.raddr, type⟩)
  | probe : Replies s m nonce .probe (.probeRsp nonce s.myid)
  | findService {hash : Token} {srvci : VsrvcInfo}
      (h : getService s.srvc_space hash vsrvcInfoRelax = .ok (srvci, true)) :
      Replies s m nonce .findService (.findServiceRsp nonce s.myid srvci)

/-- The node records a message holds. -/
inductive ReadsNode (m : Arrival) (ctxt : BeNode) : DhtId → VnodeInfo → Prop where
  | pingRsp {nonce : Vnonce} {b : Block RELAX_SIZE}
      (h : decPingRsp ctxt m.nonce nodeRelaxBlock = .ok (nonce, b)) :
      ReadsNode m ctxt .pingRsp (vnodeInfoOfBytes b.data)
  | findNodeRsp {nonce : Vnonce} {fromId : Token} {b : Block RELAX_SIZE}
      (h : decFindNodeRsp ctxt m.nonce m.fromId nodeRelaxBlock = .ok (nonce, fromId, b)) :
      ReadsNode m ctxt .findNodeRsp (vnodeInfoOfBytes b.data)
  | findClosestNodesRsp {nonce : Vnonce} {fromId : Token} {bs : List (Block RELAX_SIZE)}
      {b : Block RELAX_SIZE}
      (h : decFindClosestNodesRsp ctxt m.nonce m.fromId [] = .ok (nonce, fromId, bs))
      (hb : b ∈ bs) : ReadsNode m ctxt .findClosestNodesRsp (vnodeInfoOfBytes b.data)

/-- The service record a message holds. -/
inductive ReadsSrvc (m : Arrival) (ctxt : BeNode) : DhtId → VsrvcInfo → Prop where
  | postService {nonce : Vnonce} {fromId : Token} {b : Block RELAX_SIZE}
      (h : decPostService ctxt m.nonce m.fromId srvcRelaxBlock = .ok (nonce, fromId, b)) :
      ReadsSrvc m ctxt .postService (vsrvcInfoOfBytes b.data)
  | findServiceRsp {nonce : Vnonce} {fromId : Token} {b : Block RELAX_SIZE}
      (h : decFindServiceRsp ctxt m.nonce m.fromId srvcRelaxBlock = .ok (nonce, fromId, b)) :
      ReadsSrvc m ctxt .findServiceRsp (vsrvcInfoOfBytes b.data)

/-- The address of a node that is stored under a made up id. -/
inductive Meets : RouteOp → SockaddrIn → Prop where
  | ping {op : RouteOp} {m : Arrival} {ctxt : BeNode} (h : Heard op m .ping ctxt) :
      Meets op m.conn.raddr
  | join (freshId : Token) (addr : SockaddrIn) (now : Int) : Meets (.joinNode freshId addr now) addr

/-- Where a node that is added comes from: a message, whose record was noted in the log before, or
an address. -/
def Comes (op : RouteOp) (s : Vroute) (nodei : VnodeInfo) : Prop :=
  (∃ leaf, .nodePassed leaf nodei ∈ s.log) ∨
    ∃ id addr, Meets op addr ∧ fakeNode id addr = .ok nodei

/-! ## Effects -/

/-- One change of the state in the course of the operation `op`. -/
inductive Effect (w : World) (op : RouteOp) : Vroute → Vroute → Prop where
  /-- A message is not encoded or not pushed. -/
  | lost (s : Vroute) : Effect w op s { s with nmsgs := s.nmsgs + 1 }
  | asked {s : Vroute} {c : DhtCall} {out : List UInt8} (now : Int)
      (hpost : ∀ conn srvci, c = .postService conn srvci → ∃ t, op = .airService srvci t)
      (henc : (c.message (w.nonce s.nmsgs) s.myid).encode = .ok (some out)) :
      Effect w op s
        { s with
          nmsgs := s.nmsgs + 1
          log := s.log ++ [.pushed c.id c.conn (w.nonce s.nmsgs) out]
          tickets := s.tickets ++ (c.tickets (w.nonce s.nmsgs)).map (⟨now, ·⟩) }
  | answered {s : Vroute} {m : Arrival} {id : DhtId} {ctxt : BeNode} {msg : DhtMsg}
      {out : List UInt8} (hheard : Heard op m id ctxt)
      (hnonce : messageNonce m ctxt = .ok msg.nonce) (hreply : Replies s m msg.nonce id msg)
      (henc : msg.encode = .ok (some out)) :
      Effect w op s
        { s with
          nmsgs := s.nmsgs + 1
          log := s.log ++ [.pushed msg.id m.conn msg.nonce out] }
  | accepted {s : Vroute} {m : Arrival} {id : DhtId} {ctxt : BeNode} {nonce : Vnonce}
      {tickets : List Ticket} (hheard : Heard op m id ctxt) (hid : isRsp id = true)
      (hnonce : messageNonce m ctxt = .ok nonce) (hmem : nonce ∈ outstanding s.tickets)
      (hout : outstanding tickets = (outstanding s.tickets).erase nonce) :
      Effect w op s { s with tickets := tickets, log := s.log ++ [.accepted nonce] }
  | nodeRead {m : Arrival} {id : DhtId} {ctxt : BeNode} {nodei : VnodeInfo} (s : Vroute)
      (leaf : Option BeNode) (hheard : Heard op m id ctxt) (hread : ReadsNode m ctxt id nodei) :
      Effect w op s { s with log := s.log ++ [.nodePassed leaf nodei] }
  | srvcRead {m : Arrival} {id : DhtId} {ctxt : BeNode} {srvci : VsrvcInfo} (s : Vroute)
      (leaf : Option BeNode) (hheard : Heard op m id ctxt) (hread : ReadsSrvc m ctxt id srvci) :
      Effect w op s { s with log := s.log ++ [.srvcPassed leaf srvci] }
  /-- An operation of the node space. -/
  | nodes {s : Vroute} {spaceOp : Int × SpaceOp} {space : NodeSpace}
      (hadd : ∀ nodei flag, spaceOp.2 = .addNode nodei flag → Comes op s nodei)
      (h : spaceExec s.node_space spaceOp = .ok space) :
      Effect w op s { s with node_space := space }
  | srvcStored {s : Vroute} {leaf : Option BeNode} {srvci : VsrvcInfo} {now : Int}
      {space : SrvcSpace} (hread : .srvcPassed leaf srvci ∈ s.log)
      (h : addService s.srvc_space srvci now = .ok space) :
      Effect w op s { s with srvc_space := space }
  | reflexed {s : Vroute} {m : Arrival} {ctxt : BeNode} {nonce : Vnonce} {fromId : Token}
      {b : Block 20} {node : Vnode} (hheard : Heard op m .reflexRsp ctxt)
      (hdec : decReflexRsp ctxt m.nonce m.fromId m.addr = .ok (nonce, fromId, b))
      (h : vnodeReflexAddr s.node m.conn.laddr (vsockaddrOfBytes b.data) = .ok node) :
      Effect w op s { s with node := node }
  /-- Tickets of the two kinds that are no check tickets are used up; a service that users are
  called with was noted before. -/
  | punched {s : Vroute} {arg : TicketArg} {r : Checked} {adjust : List (Int × SpaceOp)}
      (hcheck : ∀ nonce, arg ≠ .check nonce)
      (hsrvc : ∀ srvci, arg = .srvc srvci → ∃ leaf, .srvcPassed leaf srvci ∈ s.log)
      (hadjust : ∀ o ∈ adjust, ∃ id conn, o.2 = .adjustConnectivity id conn)
      (hspace : run spaceExec s.node_space adjust = .ok r.space)
      (h : checkTicket arg s.tickets s.node_space = .ok r) :
      Effect w op s
        { s with
          tickets := r.tickets
          node_space := r.space
          log := s.log ++ r.shown.map RouteEvent.shown }
  | waits (s : Vroute) (hash : Token) (cookie : Nat) (now : Int) :
      Effect w op s { s with tickets := s.tickets ++ [⟨now, .srvc hash cookie⟩] }
  | told {s : Vroute} {hash : Token} {srvci : VsrvcInfo} {found : Bool} {addrs : List VsockaddrIn}
      (cookie : Nat) (h : getService s.srvc_space hash vsrvcInfoRelax = .ok (srvci, found))
      (hfound : found = true → showAddrs srvci.toAddrBlock = .ok addrs) :
      Effect w op s
        { s with
          log := s.log ++ [.shown
            (if found then ⟨cookie, srvci.hash, srvci.naddrs, srvci.proto.toInt, addrs⟩
              else ⟨cookie, hash, 0, VPROTO_UNKNOWN, []⟩)] }
  | reaped (s : Vroute) (now : Int) :
      Effect w op s
        { s with
          tickets := (timedReap s.overdue_tmo now s.tickets).1
          log := s.log ++ (timedReap s.overdue_tmo now s.tickets).2.map RouteEvent.shown ++
            (outstanding (s.tickets.filter (isOverdue s.overdue_tmo now))).map RouteEvent.reaped }
  | cleared (s : Vroute) :
      Effect w op s
        { s with
          node_space := nodeSpaceClear s.node_space
          srvc_space := srvcSpaceClear s.srvc_space
          tickets := []
          log := s.log ++ (outstanding s.tickets).map RouteEvent.reaped }

/-- A sequence of effects. -/
def Effects (w : World) (op : RouteOp) : Vroute → Vroute → Prop :=
  Relation.ReflTransGen (Effect w op)

instance (w : World) (op : RouteOp) : IsPreorder Vroute (Effects w op) where
  refl _ := Relation.ReflTransGen.refl
  trans _ _ _ := Relation.ReflTransGen.trans

/-- A program that has effects only. -/
abbrev Acts {α : Type} (w : World) (op : RouteOp) (p : RouteM α) : Prop := Moves (Effects w op) p

theorem Effect.acts {w : World} {op : RouteOp} {s s' : Vroute} (h : Effect w op s s') :
    Effects w op s s' := Relation.ReflTransGen.single h

/-- The rule for invariants. -/
theorem Effects.invariant {w : World} {op : RouteOp} {I : Vroute → Prop}
    (hstep : ∀ s s', I s → Effect w op s s' → I s') {s s' : Vroute} (h : Effects w op s s')
    (hs : I s) : I s' := by
  induction h with
  | refl => exact hs
  | tail _ hlast ih => exact hstep _ _ ih hlast

/-- What a user may be called with: no address, or the addresses of a service that was noted or is
stored. -/
inductive Shows (s : Vroute) : Shown → Prop where
  | nothing (cookie : Nat) (hash : Token) : Shows s ⟨cookie, hash, 0, VPROTO_UNKNOWN, []⟩
  | passed {leaf : Option BeNode} {srvci : VsrvcInfo} {addrs : List VsockaddrIn} (cookie : Nat)
      (hread : .srvcPassed leaf srvci ∈ s.log) (h : showAddrs srvci.toAddrBlock = .ok addrs) :
      Shows s ⟨cookie, srvci.hash, srvci.naddrs, srvci.proto.toInt, addrs⟩
  | stored {hash : Token} {srvci : VsrvcInfo} {addrs : List VsockaddrIn} (cookie : Nat)
      (hget : getService s.srvc_space hash vsrvcInfoRelax = .ok (srvci, true))
      (h : showAddrs srvci.toAddrBlock = .ok addrs) :
      Shows s ⟨cookie, srvci.hash, srvci.naddrs, srvci.proto.toInt, addrs⟩

theorem checkTicket_shown {arg : TicketArg} {tickets : List Ticket} {space : NodeSpace} {r : Checked}
    (h : checkTicket arg tickets space = .ok r) :
    ∀ call ∈ r.shown, ∃ srvci cookie addrs, arg = .srvc srvci ∧
      showAddrs srvci.toAddrBlock = .ok addrs ∧
      call = ⟨cookie, srvci.hash, srvci.naddrs, srvci.proto.toInt, addrs⟩ := by
  have hpunch : ∀ {info : TicketInfo} {space space' : NodeSpace} {shown : List Shown},
      vticketPunch space info arg = .ok (some (space', shown)) → ∀ call ∈ shown,
        ∃ srvci cookie addrs, arg = .srvc srvci ∧ showAddrs srvci.toAddrBlock = .ok addrs ∧
          call = ⟨cookie, srvci.hash, srvci.naddrs, srvci.proto.toInt, addrs⟩ := by
    intro info space space' shown h call hcall
    unfold vticketPunch at h
    split at h
    · split at h
      · cases h
        cases hcall
      · cases h
    · split at h
      · split at h
        · cases h
        · rename_i addrs haddrs
          cases h
          exact ⟨_, _, addrs, rfl, haddrs, List.mem_singleton.mp hcall⟩
      · cases h
    · split at h
      · cases h
        cases hcall
      · cases h
    · cases h
  induction tickets generalizing space r with
  | nil =>
    cases h
    exact fun call hcall => absurd hcall List.not_mem_nil
  | cons t tickets ih =>
    unfold checkTicket at h
    split at h
    · cases h
    · split at h
      · cases h
      · rename_i r' hr
        cases h
        exact @ih space r' hr
    · rename_i space' shown hp
      split at h
      · cases h
        exact hpunch hp
      · split at h
        · cases h
        · rename_i r' hr
          cases h
          intro call hcall
          rcases List.mem_append.mp hcall with hcall | hcall
          · exact hpunch hp call hcall
          · exact @ih space' r' hr call hcall

/-- Users that waited in vain are called without an address. -/
theorem timedReap_shown {overdueTmo now : Int} {tickets : List Ticket} {call : Shown}
    (h : call ∈ (timedReap overdueTmo now tickets).2) :
    ∃ cookie hash, call = ⟨cookie, hash, 0, VPROTO_UNKNOWN, []⟩ := by
  obtain ⟨t, -, hcall⟩ := List.mem_flatMap.mp h
  unfold vticketTimedoutPunch at hcall
  split at hcall
  · exact ⟨_, _, List.mem_singleton.mp hcall⟩
  · cases hcall

/-- What an effect adds to the log. -/
inductive Utters (w : World) (op : RouteOp) (s : Vroute) : RouteEvent → Prop where
  | asked {c : DhtCall} {out : List UInt8}
      (hpost : ∀ conn srvci, c = .postService conn srvci → ∃ t, op = .airService srvci t)
      (henc : (c.message (w.nonce s.nmsgs) s.myid).encode = .ok (some out)) :
      Utters w op s (.pushed c.id c.conn (w.nonce s.nmsgs) out)
  | answered {m : Arrival} {id : DhtId} {ctxt : BeNode} {msg : DhtMsg} {out : List UInt8}
      (hheard : Heard op m id ctxt) (hnonce : messageNonce m ctxt = .ok msg.nonce)
      (hreply : Replies s m msg.nonce id msg) (henc : msg.encode = .ok (some out)) :
      Utters w op s (.pushed msg.id m.conn msg.nonce out)
  | accepted {m : Arrival} {id : DhtId} {ctxt : BeNode} {nonce : Vnonce}
      (hheard : Heard op m id ctxt) (hid : isRsp id = true)
      (hnonce : messageNonce m ctxt = .ok nonce) : Utters w op s (.accepted nonce)
  | nodeRead {m : Arrival} {id : DhtId} {ctxt : BeNode} {nodei : VnodeInfo} (leaf : Option BeNode)
      (hheard : Heard op m id ctxt) (hread : ReadsNode m ctxt id nodei) :
      Utters w op s (.nodePassed leaf nodei)
  | srvcRead {m : Arrival} {id : DhtId} {ctxt : BeNode} {srvci : VsrvcInfo} (leaf : Option BeNode)
      (hheard : Heard op m id ctxt) (hread : ReadsSrvc m ctxt id srvci) :
      Utters w op s (.srvcPassed leaf srvci)
  | shown {call : Shown} (h : Shows s call) : Utters w op s (.shown call)
  | reaped (nonce : Vnonce) : Utters w op s (.reaped nonce)

theorem Effect.log {w : World} {op : RouteOp} {s s' : Vroute} (h : Effect w op s s') :
    ∃ L, s'.log = s.log ++ L ∧ ∀ e ∈ L, Utters w op s e := by
  have hnone : ∀ {t : Vroute}, t.log = s.log → ∃ L, t.log = s.log ++ L ∧ ∀ e ∈ L, Utters w op s e :=
    fun ht => ⟨[], by rw [ht, List.append_nil], fun e he => absurd he List.not_mem_nil⟩
  have hone : ∀ {e : RouteEvent}, Utters w op s e →
      ∃ L, s.log ++ [e] = s.log ++ L ∧ ∀ e ∈ L, Utters w op s e :=
    fun hu => ⟨[_], rfl, fun e he => List.mem_singleton.mp he ▸ hu⟩
  have hshown : ∀ calls : List Shown, (∀ call ∈ calls, Shows s call) →
      ∀ e ∈ calls.map RouteEvent.shown, Utters w op s e := by
    intro calls hcalls e he
    obtain ⟨call, hcall, rfl⟩ := List.mem_map.mp he
    exact .shown (hcalls call hcall)
  have hreaped : ∀ nonces : List Vnonce, ∀ e ∈ nonces.map RouteEvent.reaped, Utters w op s e := by
    intro nonces e he
    obtain ⟨nonce, -, rfl⟩ := List.mem_map.mp he
    exact .reaped nonce
  cases h with
  | lost | nodes | srvcStored | reflexed | waits => exact hnone rfl
  | asked now hpost henc => exact hone (.asked hpost henc)
  | answered hheard hnonce hreply henc => exact hone (.answered hheard hnonce hreply henc)
  | accepted hheard hid hnonce => exact hone (.accepted hheard hid hnonce)
  | nodeRead s leaf hheard hread => exact hone (.nodeRead leaf hheard hread)
  | srvcRead s leaf hheard hread => exact hone (.srvcRead leaf hheard hread)
  | punched hcheck hsrvc hadjust hspace h =>
    refine ⟨_, rfl, hshown _ fun call hcall => ?_⟩
    obtain ⟨srvci, cookie, addrs, harg, haddrs, rfl⟩ := checkTicket_shown h call hcall
    obtain ⟨leaf, hread⟩ := hsrvc srvci harg
    exact .passed cookie hread haddrs
  | @told _ hash srvci found addrs cookie h hfound =>
    cases found with
    | false => exact hone (.shown (.nothing cookie hash))
    | true => exact hone (.shown (.stored cookie h (hfound rfl)))
  | reaped now =>
    refine ⟨_, List.append_assoc _ _ _, fun e he => ?_⟩
    rcases List.mem_append.mp he with he | he
    · refine hshown _ (fun call hcall => ?_) e he
      obtain ⟨cookie, hash, rfl⟩ := timedReap_shown hcall
      exact .nothing cookie hash
    · exact hreaped _ e he
  | cleared => exact ⟨_, rfl, hreaped _⟩

/-- The log only grows. -/
theorem Effects.log {w : World} {op : RouteOp} {s s' : Vroute} (h : Effects w op s s') :
    s.log <+: s'.log := by
  induction h with
  | refl => exact List.prefix_refl _
  | tail _ hlast ih =>
    obtain ⟨L, hL, -⟩ := hlast.log
    exact ih.trans (hL ▸ List.prefix_append _ _)

/-! ## Sending -/

section Sending

variable {w : World} {op : RouteOp}

/-- A message that is pushed is one that was encoded. -/
theorem sendMsg_pushes (w : World) (id : DhtId) (conn : VnodeConn) (nonce : Vnonce)
    (msg : Res (Option (List UInt8))) (s : Vroute) :
    (∃ e, sendMsg w id conn nonce msg s = .error e s) ∨
      sendMsg w id conn nonce msg s = .ok false { s with nmsgs := s.nmsgs + 1 } ∨
      ∃ out, msg = .ok (some out) ∧ sendMsg w id conn nonce msg s =
        .ok true { s with
          nmsgs := s.nmsgs + 1
          log := s.log ++ [.pushed id conn nonce out] } := by
  cases msg with
  | error e => exact Or.inl ⟨e, rfl⟩
  | ok msg =>
    cases msg with
    | none => exact Or.inr (Or.inl rfl)
    | some out =>
      unfold sendMsg
      dsimp only
      split
      · exact Or.inr (Or.inr ⟨out, rfl, rfl⟩)
      · exact Or.inr (Or.inl rfl)

theorem acts_sendQuery {c : DhtCall} {enc : Vnonce → Token → Int → Res (Option (List UInt8))}
    (henc : ∀ nonce myid, enc nonce myid vdhtBufLen = (c.message nonce myid).encode)
    (hpost : ∀ conn srvci, c = .postService conn srvci → ∃ t, op = .airService srvci t)
    (now : Int) : Acts w op (sendQuery w c.id c.conn enc c.tickets now) := by
  intro s
  unfold sendQuery
  rw [bind_ok_apply (get_apply s)]
  dsimp only
  rw [henc]
  rcases sendMsg_pushes w c.id c.conn (w.nonce s.nmsgs)
      (c.message (w.nonce s.nmsgs) s.myid).encode s with ⟨e, h⟩ | h | ⟨out, hout, h⟩
  · rw [bind_error_apply h]
    exact refl s
  · rw [bind_ok_apply h]
    exact (Effect.lost s).acts
  · rw [bind_ok_apply h]
    exact (Effect.asked now hpost hout).acts

theorem acts_sendRsp {m : Arrival} {id : DhtId} {ctxt : BeNode} {nonce : Vnonce} {rspId : DhtId}
    {enc : Vnonce → Token → Int → Res (Option (List UInt8))} (hheard : Heard op m id ctxt)
    (hnonce : messageNonce m ctxt = .ok nonce) {s : Vroute}
    (hreply : ∃ msg, Replies s m nonce id msg ∧ msg.id = rspId ∧ msg.nonce = nonce ∧
      enc nonce s.myid vdhtBufLen = msg.encode) :
    Effects w op s (endState (sendRsp w rspId m.conn nonce enc s)) := by
  obtain ⟨msg, hreply, rfl, rfl, henc⟩ := hreply
  unfold sendRsp
  rw [bind_ok_apply (get_apply s), henc]
  rcases sendMsg_pushes w msg.id m.conn msg.nonce msg.encode s with ⟨e, h⟩ | h | ⟨out, hout, h⟩
  · rw [bind_error_apply h]
    exact refl s
  · rw [bind_ok_apply h]
    exact (Effect.lost s).acts
  · rw [bind_ok_apply h]
    exact (Effect.answered hheard hnonce hreply hout).acts

theorem acts_gated (id : DhtId) {p : RouteM Int} (h : Acts w op p) : Acts w op (gated id p) := by
  apply moves_get_bind
  intro s
  split
  · exact h
  · exact moves_pure _

theorem effects_gated (id : DhtId) {p : RouteM Int} {s : Vroute}
    (h : Effects w op s (endState (p s))) : Effects w op s (endState (gated id p s)) := by
  unfold gated
  rw [bind_ok_apply (get_apply s)]
  split
  · exact h
  · exact refl s

theorem acts_dhtCall {c : DhtCall}
    (hpost : ∀ conn srvci, c = .postService conn srvci → ∃ t, op = .airService srvci t)
    (now : Int) : Acts w op (dhtCall w now c) := by
  cases c with
  | ping conn => exact acts_gated _ (acts_sendQuery (fun _ _ => rfl) hpost now)
  | findNode conn target => exact acts_gated _ (acts_sendQuery (fun _ _ => rfl) hpost now)
  | findClosestNodes conn target => exact acts_gated _ (acts_sendQuery (fun _ _ => rfl) hpost now)
  | reflex conn => exact acts_sendQuery (c := .reflex conn) (fun _ _ => rfl) hpost now
  | probe conn target =>
    exact @acts_sendQuery w op (.probe conn target) (fun nonce myid => encProbe nonce myid target)
      (fun _ _ => rfl) hpost now
  | postService conn srvci => exact acts_gated _ (acts_sendQuery (fun _ _ => rfl) hpost now)
  | findService conn hash => exact acts_gated _ (acts_sendQuery (fun _ _ => rfl) hpost now)

theorem acts_dhtCalls {calls : List DhtCall}
    (hpost : ∀ conn srvci, .postService conn srvci ∈ calls → ∃ t, op = .airService srvci t)
    (now : Int) : Acts w op (dhtCalls w now calls) := by
  induction calls with
  | nil => exact moves_pure _
  | cons c cs ih =>
    refine moves_bind (acts_dhtCall ?_ now) fun _ => ?_
    · rintro conn srvci rfl
      exact hpost conn srvci List.mem_cons_self
    · exact ih fun conn srvci hc => hpost conn srvci (List.mem_cons_of_mem _ hc)

/-- Calls of other kinds need no reason. -/
theorem acts_dhtCalls_of {calls : List DhtCall} (h : ∀ c ∈ calls, c.id ≠ .postService)
    (now : Int) : Acts w op (dhtCalls w now calls) :=
  acts_dhtCalls (fun conn srvci hc => absurd rfl (h (.postService conn srvci) hc)) now

end Sending

/-! ## Handlers -/

section Handlers

variable {w : World} {op : RouteOp} {m : Arrival} {id : DhtId} {ctxt : BeNode}

theorem acts_kick (fromId : Token) (now : Int) : Acts w op (kick fromId now) := by
  intro s
  have hmove : Effect w op s { s with node_space := (kickNode s.node_space fromId now).1 } :=
    .nodes (fun _ _ => SpaceOp.noConfusion) (rfl : spaceExec _ (now, .kickNode fromId) = _)
  exact hmove.acts

theorem effects_storeNode {nodei : VnodeInfo} {s : Vroute} (hcomes : Comes op s nodei)
    (flag : AddFlag) (now : Int) : Effects w op s (endState (storeNode nodei flag now s)) := by
  unfold storeNode
  split
  · exact refl s
  · rename_i space hadd
    have hmove : Effect w op s { s with node_space := space } := by
      refine .nodes ?_ (show spaceExec s.node_space (now, .addNode nodei flag) = .ok space from hadd)
      intro nodei' flag' heq
      cases heq
      exact hcomes
    exact hmove.acts

theorem acts_welcome (hping : Heard op m .ping ctxt) (known : Bool) (freshId : Token) (now : Int) :
    Acts w op (welcome known freshId m.conn.raddr now) := by
  unfold welcome
  split
  · exact moves_pure _
  · apply moves_lift_bind
    intro nodei hfake s
    exact effects_storeNode (Or.inr ⟨freshId, _, .ping hping, hfake⟩) .byOther now

theorem acts_passNode (hheard : Heard op m id ctxt) {nodei : VnodeInfo}
    (hread : ReadsNode m ctxt id nodei) (leaf : Option BeNode) (flag : AddFlag) (now : Int) :
    Acts w op (passNode leaf nodei flag now) := by
  intro s
  unfold passNode emit
  rw [bind_ok_apply (modify_apply _ s)]
  have hnoted := Effect.nodeRead (w := w) s leaf hheard hread
  exact Relation.ReflTransGen.head hnoted
    (effects_storeNode (Or.inl ⟨leaf, List.mem_append_right _ List.mem_cons_self⟩) flag now)

theorem acts_passNodes (hheard : Heard op m id ctxt) {l : List (Option BeNode × VnodeInfo)}
    (hread : ∀ x ∈ l, ReadsNode m ctxt id x.2) (flag : AddFlag) (now : Int) :
    Acts w op (passNodes flag now l) := by
  induction l with
  | nil => exact moves_pure _
  | cons x l ih =>
    refine moves_bind (acts_passNode hheard (hread x List.mem_cons_self) _ _ _) fun _ => ?_
    exact ih fun y hy => hread y (List.mem_cons_of_mem _ hy)

/-- A service that was read is noted and stored. -/
theorem acts_passService (hheard : Heard op m id ctxt) {srvci : VsrvcInfo}
    (hread : ReadsSrvc m ctxt id srvci) (leaf : Option BeNode) (now : Int) :
    Acts w op (passService leaf srvci now) := by
  intro s
  unfold passService emit
  rw [bind_ok_apply (modify_apply _ s)]
  refine Relation.ReflTransGen.head (Effect.srvcRead (w := w) s leaf hheard hread) ?_
  unfold storeService
  split
  · exact refl _
  · rename_i space hadd
    exact (Effect.srvcStored (List.mem_append_right _ List.mem_cons_self) hadd).acts

theorem acts_withToken (hheard : Heard op m id ctxt) (hid : isRsp id = true) {nonce : Vnonce}
    (hnonce : messageNonce m ctxt = .ok nonce) {rest : RouteM Int} (hrest : Acts w op rest) :
    Acts w op (withToken nonce rest) := by
  intro s
  rcases withToken_cases nonce rest s with ⟨-, h⟩ | ⟨hmem, tickets, hout, h⟩
  · rw [h]
    exact refl s
  · rw [h]
    exact Relation.ReflTransGen.head (Effect.accepted hheard hid hnonce hmem hout) (hrest _)

/-- Tickets that hold a connection adjust the node space one after the other. -/
theorem checkTicket_space {arg : TicketArg} {tickets : List Ticket} {space : NodeSpace}
    {r : Checked} (h : checkTicket arg tickets space = .ok r) :
    ∃ adjust : List (Int × SpaceOp), run spaceExec space adjust = .ok r.space ∧
      ∀ o ∈ adjust, ∃ id conn, o.2 = .adjustConnectivity id conn := by
  have hpunch : ∀ {info : TicketInfo} {space space' : NodeSpace} {shown : List Shown},
      vticketPunch space info arg = .ok (some (space', shown)) →
        ∃ adjust : List (Int × SpaceOp), run spaceExec space adjust = .ok space' ∧
          ∀ o ∈ adjust, ∃ id conn, o.2 = .adjustConnectivity id conn := by
    intro info space space' shown h
    unfold vticketPunch at h
    split at h
    · split at h
      · cases h
        exact ⟨[], rfl, fun o ho => absurd ho List.not_mem_nil⟩
      · cases h
    · split at h
      · split at h
        · cases h
        · cases h
          exact ⟨[], rfl, fun o ho => absurd ho List.not_mem_nil⟩
      · cases h
    · rename_i own target conn nonce _
      split at h
      · cases h
        refine ⟨[(0, .adjustConnectivity target conn)], rfl, fun o ho => ?_⟩
        rw [List.mem_singleton.mp ho]
        exact ⟨target, conn, rfl⟩
      · cases h
    · cases h
  induction tickets generalizing space r with
  | nil =>
    cases h
    exact ⟨[], rfl, fun o ho => absurd ho List.not_mem_nil⟩
  | cons t tickets ih =>
    unfold checkTicket at h
    split at h
    · cases h
    · split at h
      · cases h
      · rename_i r' hr
        cases h
        exact @ih space r' hr
    · rename_i space' shown hp
      obtain ⟨adjust, hrun, hall⟩ := hpunch hp
      split at h
      · cases h
        exact ⟨adjust, hrun, hall⟩
      · split at h
        · cases h
        · rename_i r' hr
          cases h
          obtain ⟨adjust', hrun', hall'⟩ := @ih space' r' hr
          refine ⟨adjust ++ adjust', run_append_ok hrun hrun', fun o ho => ?_⟩
          rcases List.mem_append.mp ho with ho | ho
          · exact hall o ho
          · exact hall' o ho

theorem effects_checkTickets {arg : TicketArg} (hcheck : ∀ nonce, arg ≠ .check nonce) {s : Vroute}
    (hsrvc : ∀ srvci, arg = .srvc srvci → ∃ leaf, .srvcPassed leaf srvci ∈ s.log) :
    Effects w op s (endState (checkTickets arg s)) := by
  unfold checkTickets
  split
  · exact refl s
  · rename_i r hr
    obtain ⟨adjust, hrun, hall⟩ := checkTicket_space hr
    exact (Effect.punched hcheck hsrvc hall hrun hr).acts

theorem acts_cbPing (h : Heard op m .ping ctxt) : Acts w op (cbPing w m ctxt) := by
  apply moves_lift_bind
  rintro ⟨nonce, fromId⟩ hdec
  refine moves_bind (acts_kick _ _) fun known => ?_
  refine moves_bind (acts_welcome h _ _ _) fun _ => ?_
  intro s
  exact effects_gated _ (acts_sendRsp h (decSrc_nonce hdec) ⟨_, .ping, rfl, rfl, rfl⟩)

theorem acts_cbPingRsp (h : Heard op m .pingRsp ctxt) : Acts w op (cbPingRsp m ctxt) := by
  apply moves_lift_bind
  rintro ⟨nonce, result⟩ hdec
  refine acts_withToken h rfl (decPingRsp_nonce hdec) ?_
  exact moves_bind (acts_passNode h (.pingRsp hdec) _ _ _) fun _ => moves_pure _

theorem acts_cbFindNode (h : Heard op m .findNode ctxt) : Acts w op (cbFindNode w m ctxt) := by
  apply moves_lift_bind
  rintro ⟨nonce, fromId, targetId⟩ hdec
  refine moves_bind (acts_kick _ _) fun _ => ?_
  intro s
  show Effects w op s (endState ((lift (findNode s.node_space targetId vnodeInfoRelax) >>= _) s))
  cases hfind : findNode s.node_space targetId vnodeInfoRelax with
  | error e => exact refl s
  | ok found =>
    rw [bind_ok_apply (lift_ok _ s)]
    cases found with
    | none => exact refl s
    | some nodei =>
      exact effects_gated _
        (acts_sendRsp h (decSrcArg_nonce hdec) ⟨_, .findNode hfind, rfl, rfl, rfl⟩)

theorem acts_cbFindNodeRsp (h : Heard op m .findNodeRsp ctxt) :
    Acts w op (cbFindNodeRsp m ctxt) := by
  apply moves_lift_bind
  rintro ⟨nonce, fromId, result⟩ hdec
  refine acts_withToken h rfl (decSrcArg_nonce hdec) ?_
  refine moves_bind (acts_kick _ _) fun _ => ?_
  exact moves_bind (acts_passNode h (.findNodeRsp hdec) _ _ _) fun _ => moves_pure _

theorem acts_cbFindClosestNodes (h : Heard op m .findClosestNodes ctxt) :
    Acts w op (cbFindClosestNodes w m ctxt) := by
  apply moves_lift_bind
  rintro ⟨nonce, fromId, targetId⟩ hdec
  refine moves_bind (acts_kick _ _) fun _ => ?_
  intro s
  show Effects w op s (endState ((lift (findClosestNodes s.node_space targetId MAX_CAPC) >>= _) s))
  cases hfind : findClosestNodes s.node_space targetId MAX_CAPC with
  | error e => exact refl s
  | ok closest =>
    rw [bind_ok_apply (lift_ok _ s)]
    cases closest with
    | nil => exact refl s
    | cons n ns =>
      exact effects_gated _
        (acts_sendRsp h (decSrcArg_nonce hdec) ⟨_, .findClosestNodes hfind, rfl, rfl, rfl⟩)

theorem acts_cbFindClosestNodesRsp (h : Heard op m .findClosestNodesRsp ctxt) :
    Acts w op (cbFindClosestNodesRsp m ctxt) := by
  apply moves_lift_bind
  rintro ⟨nonce, fromId, closest⟩ hdec
  refine acts_withToken h rfl (decFindClosestNodesRsp_nonce hdec) ?_
  refine moves_bind (acts_kick _ _) fun _ => ?_
  refine moves_bind (acts_passNodes h ?_ _ _) fun _ => moves_pure _
  intro x hx
  obtain ⟨b, hb, heq⟩ := List.mem_map.mp (List.of_mem_zip hx).2
  rw [← heq]
  exact .findClosestNodesRsp hdec hb

theorem acts_cbReflex (h : Heard op m .reflex ctxt) : Acts w op (cbReflex w m ctxt) := by
  apply moves_lift_bind
  rintro ⟨nonce, fromId⟩ hdec
  refine moves_bind (acts_kick _ _) fun _ => ?_
  intro s
  exact acts_sendRsp h (decSrc_nonce hdec) ⟨_, .reflex _, rfl, rfl, rfl⟩

theorem acts_cbReflexRsp (h : Heard op m .reflexRsp ctxt) : Acts w op (cbReflexRsp m ctxt) := by
  apply moves_lift_bind
  rintro ⟨nonce, fromId, addr⟩ hdec
  refine acts_withToken h rfl (decSrcArg_nonce hdec) ?_
  refine moves_bind (acts_kick _ _) fun _ => moves_bind ?_ fun _ => moves_pure _
  intro s
  unfold reflexNode
  split
  · exact refl s
  · rename_i node hnode
    exact (Effect.reflexed h hdec hnode).acts

theorem acts_cbProbe (h : Heard op m .probe ctxt) : Acts w op (cbProbe w m ctxt) := by
  apply moves_lift_bind
  rintro ⟨nonce, fromId, targetId⟩ hdec
  apply moves_get_bind
  intro s
  split
  · refine moves_bind (acts_kick _ _) fun _ s => ?_
    exact acts_sendRsp h (decSrcArg_nonce hdec) ⟨_, .probe, rfl, rfl, rfl⟩
  · exact moves_pure _

theorem acts_cbProbeRsp (h : Heard op m .probeRsp ctxt) : Acts w op (cbProbeRsp m ctxt) := by
  apply moves_lift_bind
  rintro ⟨nonce, fromId⟩ hdec
  refine acts_withToken h rfl (decSrc_nonce hdec) ?_
  refine moves_bind (acts_kick _ _) fun _ => moves_bind (fun s => ?_) fun _ => moves_pure _
  exact effects_checkTickets (fun _ => TicketArg.noConfusion) fun _ => TicketArg.noConfusion

theorem acts_cbPostService (h : Heard op m .postService ctxt) :
    Acts w op (cbPostService m ctxt) := by
  apply moves_lift_bind
  rintro ⟨nonce, fromId, srvci⟩ hdec
  refine moves_bind (acts_kick _ _) fun _ => ?_
  exact moves_bind (acts_passService h (.postService hdec) _ _) fun _ => moves_pure _

theorem acts_cbFindService (h : Heard op m .findService ctxt) :
    Acts w op (cbFindService w m ctxt) := by
  apply moves_lift_bind
  rintro ⟨nonce, fromId, hash⟩ hdec
  refine moves_bind (acts_kick _ _) fun _ => ?_
  intro s
  show Effects w op s (endState ((lift (getService s.srvc_space hash vsrvcInfoRelax) >>= _) s))
  cases hget : getService s.srvc_space hash vsrvcInfoRelax with
  | error e => exact refl s
  | ok r =>
    obtain ⟨srvci, found⟩ := r
    rw [bind_ok_apply (lift_ok _ s)]
    dsimp only
    cases found with
    | false => exact refl s
    | true =>
      exact effects_gated _
        (acts_sendRsp h (decSrcArg_nonce hdec) ⟨_, .findService hget, rfl, rfl, rfl⟩)

theorem calls_probeNode {space : NodeSpace} {targetId : Token} {c : DhtCall}
    (hc : c ∈ probeNode space targetId) : c.id ≠ .postService := by
  obtain ⟨conn, rfl⟩ := mem_probeNode hc
  exact DhtId.noConfusion

/-- A service that was passed on is in the log until the end of the handler. -/
theorem acts_cbFindServiceRsp (h : Heard op m .findServiceRsp ctxt) :
    Acts w op (cbFindServiceRsp w m ctxt) := by
  apply moves_lift_bind
  rintro ⟨nonce, fromId, result⟩ hdec
  refine acts_withToken h rfl (decSrcArg_nonce hdec) ?_
  refine moves_bind (acts_kick _ _) fun _ => ?_
  intro s
  refine related_bind (acts_passService h (.findServiceRsp hdec) _ _ s) fun _ s₁ hpassed => ?_
  have hmem := passService_mem hpassed
  show Effects w op s₁ (endState ((dhtCalls w m.now _ >>= _) s₁))
  refine related_bind (acts_dhtCalls_of (fun c => calls_probeNode) _ s₁) fun _ s₂ hcalled => ?_
  have hkept := mem_log_of_growing (growing_of_silent (silent_dhtCalls w m.now _)) hcalled hmem
  refine related_bind (effects_checkTickets (fun _ => TicketArg.noConfusion) ?_) fun _ _ _ => refl _
  intro srvci heq
  cases heq
  exact ⟨_, hkept⟩

theorem acts_routeCbOps (h : Heard op m id ctxt) : Acts w op (routeCbOps w m ctxt id) := by
  cases id with
  | ping => exact acts_cbPing h
  | pingRsp => exact acts_cbPingRsp h
  | findNode => exact acts_cbFindNode h
  | findNodeRsp => exact acts_cbFindNodeRsp h
  | findClosestNodes => exact acts_cbFindClosestNodes h
  | findClosestNodesRsp => exact acts_cbFindClosestNodesRsp h
  | reflex => exact acts_cbReflex h
  | reflexRsp => exact acts_cbReflexRsp h
  | probe => exact acts_cbProbe h
  | probeRsp => exact acts_cbProbeRsp h
  | postService => exact acts_cbPostService h
  | findService => exact acts_cbFindService h
  | findServiceRsp => exact acts_cbFindServiceRsp h

end Handlers

/-! ## Operations -/

section Operations

variable {w : World} {op : RouteOp}

theorem acts_routeMsgCb (m : Arrival) (buf : List UInt8) (len : Int) :
    Acts w (.recv m buf len) (routeMsgCb w m buf len) := by
  apply moves_lift_bind
  intro opened hopened
  cases opened with
  | none => exact moves_pure _
  | some p =>
    obtain ⟨id, ctxt⟩ := p
    exact acts_routeCbOps ⟨buf, len, rfl, hopened⟩

/-- An operation of the node space that adds no node, and its calls. -/
theorem acts_onNodeSpace (now : Int) {f : NodeSpace → Res (NodeSpace × List DhtCall)}
    (spaceOp : Int × SpaceOp) (hadd : ∀ nodei flag, spaceOp.2 ≠ .addNode nodei flag)
    (hspace : ∀ space space' calls, f space = .ok (space', calls) →
      spaceExec space spaceOp = .ok space')
    (hcalls : ∀ space space' calls, f space = .ok (space', calls) →
      ∀ c ∈ calls, c.id ≠ .postService) :
    Acts w op (onNodeSpace w now f) := by
  intro s
  unfold onNodeSpace
  rw [bind_ok_apply (get_apply s)]
  cases h : f s.node_space with
  | error e => exact refl s
  | ok p =>
    obtain ⟨space, calls⟩ := p
    rw [bind_ok_apply (lift_ok _ s)]
    dsimp only
    rw [bind_ok_apply (modify_apply _ s)]
    have hmove : Effect w op s { s with node_space := space } :=
      .nodes (fun nodei flag heq => absurd heq (hadd nodei flag)) (hspace _ _ _ h)
    exact Relation.ReflTransGen.head hmove (acts_dhtCalls_of (hcalls _ _ _ h) now _)

theorem not_post_of_openCall {c : DhtCall} {id : DhtId} (h : openCall c = some id) :
    c.id ≠ .postService := by
  cases c with
  | postService conn srvci => cases h
  | ping | findNode | findClosestNodes | reflex | probe | findService => exact DhtId.noConfusion

theorem tickBucket_not_post {space : NodeSpace} {now : Int} {rand : Nat} {b b' : Bucket}
    {calls : List DhtCall} (h : tickBucket space now rand b = .ok (b', calls)) :
    ∀ c ∈ calls, c.id ≠ .postService := by
  have hpings : ∀ c ∈ b.peers.flatMap fun p => (pingPeer space now p).2, c.id ≠ .postService := by
    intro c hc
    obtain ⟨p, -, hcp⟩ := List.mem_flatMap.mp hc
    unfold pingPeer at hcp
    split at hcp
    · cases hcp
    · split at hcp
      · cases hcp
      · rw [List.mem_singleton.mp hcp]
        exact DhtId.noConfusion
  unfold tickBucket at h
  dsimp only at h
  split at h
  · cases h
    exact hpings
  · split at h
    · cases h
      exact hpings
    · split at h
      · cases h
      · split at h
        · cases h
          intro c hc
          rcases List.mem_append.mp hc with hc | hc
          · exact hpings c hc
          · rw [List.mem_singleton.mp hc]
            exact DhtId.noConfusion
        · cases h
          exact hpings

theorem calls_nodeSpaceTick {space space' : NodeSpace} {rand : Fin NBUCKETS → Nat} {now : Int}
    {calls : List DhtCall} (h : nodeSpaceTick space rand now = .ok (space', calls)) :
    ∀ c ∈ calls, c.id ≠ .postService := by
  intro c hc
  obtain ⟨i, hi⟩ := everyBucket_calls (C := fun _ c => c.id ≠ .postService)
    (fun _ _ _ _ hb => tickBucket_not_post hb) h c hc
  exact hi

theorem calls_probeConnectivity {space space' : NodeSpace} {laddr : VsockaddrIn}
    {calls : List DhtCall} (h : probeConnectivity space laddr = .ok (space', calls)) :
    ∀ c ∈ calls, c.id ≠ .postService := by
  intro c hc
  obtain ⟨i, hi⟩ := everyBucket_calls (C := fun _ c => openCall c = some .probe) (by
    intro i b b' calls' hb c hc
    split at hb
    · cases hb
    · rename_i qs calls'' hqs
      cases hb
      exact (probePeers_calls hqs c hc).1) h c hc
  exact not_post_of_openCall hi

theorem calls_probeService {space : NodeSpace} {hash : Token} {c : DhtCall}
    (hc : c ∈ probeService space hash) : c.id ≠ .postService := by
  obtain ⟨p, -, hcp⟩ := List.mem_flatMap.mp hc
  split at hcp
  · rw [List.mem_singleton.mp hcp]
    exact DhtId.noConfusion
  · cases hcp

/-- Only the service that is announced is posted. -/
theorem calls_airService {space : NodeSpace} {srvci srvci' : VsrvcInfo} {conn : VnodeConn}
    (hc : .postService conn srvci' ∈ airService space srvci) : srvci' = srvci := by
  obtain ⟨p, -, hcp⟩ := List.mem_flatMap.mp hc
  split at hcp
  · cases List.mem_singleton.mp hcp
    rfl
  · cases hcp

theorem acts_vrouteTick (rand : Fin NBUCKETS → Nat) (now : Int) :
    Acts w op (vrouteTick w rand now) := by
  refine moves_bind ?_ fun _ => moves_bind ?_ fun _ => moves_pure _
  · refine acts_onNodeSpace now (now, .tick rand) (fun _ _ => SpaceOp.noConfusion) ?_ ?_
    · intro space space' calls h
      rw [spaceExec, h]
      rfl
    · exact fun _ _ _ => calls_nodeSpaceTick
  · intro s
    exact (Effect.reaped s now).acts

theorem acts_vrouteFindService (hash : Token) (cookie : Nat) :
    Acts w op (vrouteFindService hash cookie) := by
  intro s
  show Effects w op s (endState ((lift (getService s.srvc_space hash vsrvcInfoRelax) >>= _) s))
  cases hget : getService s.srvc_space hash vsrvcInfoRelax with
  | error e => exact refl s
  | ok r =>
    obtain ⟨srvci, found⟩ := r
    rw [bind_ok_apply (lift_ok _ s)]
    dsimp only
    cases found with
    | false =>
      have htold := @Effect.told w op s hash srvci false [] cookie hget Bool.noConfusion
      exact htold.acts
    | true =>
      show Effects w op s (endState ((lift (showAddrs srvci.toAddrBlock) >>= _) s))
      cases hshow : showAddrs srvci.toAddrBlock with
      | error e => exact refl s
      | ok addrs => exact (Effect.told cookie hget fun _ => hshow).acts

theorem acts_vrouteProbeService (hash : Token) (cookie : Nat) (now : Int) :
    Acts w op (vrouteProbeService w hash cookie now) := by
  apply moves_get_bind
  intro s
  refine moves_bind (acts_dhtCalls_of (fun _ => calls_probeService) now) fun _ => ?_
  refine moves_bind (fun s => ?_) fun _ => moves_pure _
  exact (Effect.waits s hash cookie now).acts

theorem acts_vrouteAirService (srvci : VsrvcInfo) (now : Int) :
    Acts w (.airService srvci now) (vrouteAirService w srvci now) := by
  apply moves_get_bind
  intro s
  refine moves_bind (acts_dhtCalls ?_ now) fun _ => moves_pure _
  intro conn srvci' hc
  exact ⟨now, calls_airService hc ▸ rfl⟩

theorem acts_vrouteReflexAddr (addr : SockaddrIn) (now : Int) :
    Acts w op (vrouteReflexAddr w addr now) := by
  apply moves_get_bind
  intro s
  refine moves_bind (acts_dhtCalls_of ?_ now) fun _ => moves_pure _
  intro c hc
  exact not_post_of_openCall (openCall_reflexAddr hc).1

theorem acts_vrouteProbeConnectivity (laddr : VsockaddrIn) (now : Int) :
    Acts w op (vrouteProbeConnectivity w laddr now) := by
  refine moves_bind (acts_onNodeSpace now (now, .probeConnectivity laddr)
    (fun _ _ => SpaceOp.noConfusion) ?_ ?_) fun _ => moves_pure _
  · intro space space' calls h
    rw [spaceExec, h]
    rfl
  · exact fun _ _ _ => calls_probeConnectivity

theorem acts_vrouteJoinNode (freshId : Token) (addr : SockaddrIn) (now : Int) :
    Acts w (.joinNode freshId addr now) (vrouteJoinNode freshId addr now) := by
  apply moves_lift_bind
  intro nodei hfake
  refine moves_bind (fun s => ?_) fun _ => moves_pure _
  exact effects_storeNode (Or.inr ⟨freshId, addr, .join freshId addr now, hfake⟩) .byOther now

/-- Every operation is a sequence of effects. -/
theorem acts_routeOp (op : RouteOp) : Acts w op (routeOp w op) := by
  cases op with
  | recv m buf len => exact acts_routeMsgCb m buf len
  | tick rand now => exact acts_vrouteTick rand now
  | joinNode freshId addr now => exact acts_vrouteJoinNode freshId addr now
  | findService hash cookie => exact acts_vrouteFindService hash cookie
  | probeService hash cookie now => exact acts_vrouteProbeService hash cookie now
  | airService srvci now => exact acts_vrouteAirService srvci now
  | reflexAddr addr now => exact acts_vrouteReflexAddr addr now
  | probeConnectivity laddr now => exact acts_vrouteProbeConnectivity laddr now
  | clear => exact moves_bind (fun s => (Effect.cleared s).acts) fun _ => moves_pure _

end Operations

end Vdht.Route
