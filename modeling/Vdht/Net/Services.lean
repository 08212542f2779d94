import Vdht.Net.Matching
import Vdht.Route.Faultless

/-!
# Where the services of a network come from

A service travels as a record: a node announces it to its peers, they store a copy and pass it on in
their answers. On the way it is encoded, read into the room of the receiver, copied into the table
and out of it again. None of this makes a service up or changes one.
-/

namespace Vdht.Net

open Vdht.Core Dht Lib NodeId Route Rpc

/-! ## Copies of a service -/

/-- A copy of a service, its addresses in any order. -/
structure Resembles (s a : VsrvcInfo) : Prop where
  hash : s.hash = a.hash
  hostid : s.hostid = a.hostid
  nice : s.nice = a.nice
  proto : s.proto = a.proto
  addrs : s.used.Perm a.used

theorem Resembles.refl (s : VsrvcInfo) : Resembles s s := ⟨rfl, rfl, rfl, rfl, List.Perm.refl _⟩

theorem Resembles.trans {s t a : VsrvcInfo} (h : Resembles s t) (h' : Resembles t a) :
    Resembles s a :=
  ⟨h.hash.trans h'.hash, h.hostid.trans h'.hostid, h.nice.trans h'.nice, h.proto.trans h'.proto,
    h.addrs.trans h'.addrs⟩

/-- A service that resembles one of `K`. -/
def ComesFrom (K : VsrvcInfo → Prop) (s : VsrvcInfo) : Prop := ∃ a, K a ∧ Resembles s a

theorem ComesFrom.mono {K K' : VsrvcInfo → Prop} (hK : ∀ a, K a → K' a) {s : VsrvcInfo}
    (h : ComesFrom K s) : ComesFrom K' s := by
  obtain ⟨a, ha, hs⟩ := h
  exact ⟨a, hK a ha, hs⟩

theorem ComesFrom.of_resembles {K : VsrvcInfo → Prop} {s t : VsrvcInfo} (h : Resembles s t)
    (ht : ComesFrom K t) : ComesFrom K s := by
  obtain ⟨a, ha, hta⟩ := ht
  exact ⟨a, ha, h.trans hta⟩

/-- A record that was read from a message and can be stored. -/
structure Readable (K : VsrvcInfo → Prop) (s : VsrvcInfo) : Prop where
  copyable : s.Copyable
  distinct : DistinctAddrs s.used
  comes : ComesFrom K s

/-- A record in a table. -/
structure Held (K : VsrvcInfo → Prop) (s : VsrvcInfo) : Prop where
  inOrder : InOrder s
  comes : ComesFrom K s

theorem Readable.copy {K : VsrvcInfo → Prop} {dest s : VsrvcInfo} (hs : Readable K s)
    (hd : dest.Fitting) : ∃ d, vsrvcInfoCopy dest s = .ok (d, 0) ∧ Held K d := by
  obtain ⟨d, hcopy, horder⟩ := copy_inOrder hd hs.copyable hs.distinct
  obtain ⟨d', hcopy', -, hhash, hhost, hnice, hproto, hused⟩ := vsrvcInfoCopy_ok hd hs.copyable
  rw [hcopy] at hcopy'
  cases hcopy'
  have hperm : d.used.Perm s.used := hused ▸ putAddrs_perm hs.distinct
  exact ⟨d, hcopy, horder, hs.comes.of_resembles ⟨hhash, hhost, hnice, hproto, hperm⟩⟩

/-- A service that is found is a copy of one in the table. -/
theorem getService_held {K : VsrvcInfo → Prop} {space : SrvcSpace} {hash : Token} {d : VsrvcInfo}
    (h : ∀ i, ∀ t ∈ space.bucket i, Held K t.srvci)
    (hget : getService space hash vsrvcInfoRelax = .ok (d, true)) : Passable d ∧ ComesFrom K d := by
  obtain ⟨d', found, hok, hfound⟩ := getService_stored (fun i t ht => (h i t ht).inOrder) hash
  rw [hget] at hok
  cases hok
  obtain ⟨hpass, i, t, ht, hsame⟩ := hfound rfl
  have hperm : d.used.Perm t.srvci.used := by rw [hsame.addrs]
  exact ⟨hpass, (h i t ht).comes.of_resembles
    ⟨hsame.hash, hsame.hostid, hsame.nice, hsame.proto, hperm⟩⟩

/-! ## Services in messages -/

section Messages

variable {K : VsrvcInfo → Prop}

theorem readable_read {b : Block RELAX_SIZE} {s : VsrvcInfo}
    (hsame : SameSrvc (vsrvcInfoOfBytes b.data) s) (hs : Passable s) (hcomes : ComesFrom K s) :
    Readable K (vsrvcInfoOfBytes b.data) := by
  have hperm : (vsrvcInfoOfBytes b.data).used.Perm s.used := by rw [hsame.used]
  obtain ⟨hcopy, hdis⟩ := passable_read hsame hs
  exact ⟨hcopy, hdis, hcomes.of_resembles
    ⟨hsame.hash, hsame.hostid, hsame.nice, hsame.proto, hperm⟩⟩

/-- What a message of the kind says about services. -/
def TellsSrvcs (K : VsrvcInfo → Prop) (id : DhtId) (ctxt : BeNode) : Prop :=
  ∀ m srvci, ReadsSrvc m ctxt id srvci → Readable K srvci

theorem tells_of_other {id : DhtId} (hpost : id ≠ .postService) (hfind : id ≠ .findServiceRsp)
    (ctxt : BeNode) : TellsSrvcs K id ctxt := by
  intro m srvci h
  cases h with
  | postService => exact absurd rfl hpost
  | findServiceRsp => exact absurd rfl hfind

/-- The record a service is read from. -/
theorem tells_of_service {y name : String} {id : DhtId} (hn : Named y name id) {nonce : Vnonce}
    {srcId : Token} {s : VsrvcInfo} (hs : Passable s) (hcomes : ComesFrom K s) {out : List UInt8}
    {ctxt : BeNode}
    (henc : encDht nonce y name [("id", beCreateBuf srcId.data), ("service", srvcRecord s)]
      vdhtBufLen = .ok (some out)) (hopen : OpensAs out id ctxt) : TellsSrvcs K id ctxt := by
  have hread := (delivers_service hn hs.sendable).opened henc hopen
  have hany : ∀ {m : Arrival} {n : Vnonce} {src : Token} {b : Block RELAX_SIZE},
      decSrcArg "service" ctxt m.nonce m.fromId srvcRelaxBlock = .ok (n, src, b) →
        Readable K (vsrvcInfoOfBytes b.data) := by
    intro m n src b hdec
    obtain ⟨r, hr, hsame⟩ := hread m.nonce m.fromId srvcRelaxBlock
    rw [hdec] at hr
    cases hr
    exact readable_read hsame hs hcomes
  intro m srvci h
  cases h with
  | postService hdec => exact hany hdec
  | findServiceRsp hdec => exact hany hdec

end Messages

/-! ## Services of a node -/

/-- Where a call of a user takes its addresses from. -/
def ShownFrom (K : VsrvcInfo → Prop) (call : Shown) : Prop :=
  call.addrs = [] ∨ ∃ a, K a ∧ call.hash = a.hash ∧ call.proto = a.proto.toInt ∧
    call.addrs.Perm a.used

/-- An event whose services come from `K`. -/
def Traced (K : VsrvcInfo → Prop) : RouteEvent → Prop
  | .srvcPassed _ srvci => Readable K srvci
  | .pushed id _ nonce msg => ∃ ctxt, Labelled msg id nonce ctxt ∧ TellsSrvcs K id ctxt
  | .shown call => ShownFrom K call
  | .accepted _ | .reaped _ | .nodePassed _ _ => True

/-- All services the node holds, has read, has sent and has shown to its users come from `K`. -/
structure Sourced (K : VsrvcInfo → Prop) (s : Vroute) : Prop where
  stored : ∀ i, ∀ t ∈ s.srvc_space.bucket i, Held K t.srvci
  log : ∀ e ∈ s.log, Traced K e

theorem TellsSrvcs.mono {K K' : VsrvcInfo → Prop} (hK : ∀ a, K a → K' a) {id : DhtId}
    {ctxt : BeNode} (h : TellsSrvcs K id ctxt) : TellsSrvcs K' id ctxt := by
  intro m srvci hread
  have hs := h m srvci hread
  exact ⟨hs.copyable, hs.distinct, hs.comes.mono hK⟩

theorem Traced.mono {K K' : VsrvcInfo → Prop} (hK : ∀ a, K a → K' a) {e : RouteEvent}
    (h : Traced K e) : Traced K' e := by
  cases e with
  | srvcPassed leaf srvci => exact ⟨h.copyable, h.distinct, h.comes.mono hK⟩
  | pushed id conn nonce msg =>
    obtain ⟨ctxt, hlabel, htells⟩ := h
    exact ⟨ctxt, hlabel, htells.mono hK⟩
  | shown call =>
    rcases h with hnone | ⟨a, ha, hcopy⟩
    · exact Or.inl hnone
    · exact Or.inr ⟨a, hK a ha, hcopy⟩
  | accepted | reaped | nodePassed => trivial

theorem Sourced.mono {K K' : VsrvcInfo → Prop} (hK : ∀ a, K a → K' a) {s : Vroute}
    (h : Sourced K s) : Sourced K' s where
  stored := fun i t ht => ⟨(h.stored i t ht).inOrder, (h.stored i t ht).comes.mono hK⟩
  log := fun e he => (h.log e he).mono hK

theorem shown_of_copy {K : VsrvcInfo → Prop} {srvci : VsrvcInfo} {addrs : List VsockaddrIn}
    (hcomes : ComesFrom K srvci) (h : showAddrs srvci.toAddrBlock = .ok addrs) (cookie : Nat) :
    ShownFrom K ⟨cookie, srvci.hash, srvci.naddrs, srvci.proto.toInt, addrs⟩ := by
  obtain ⟨a, ha, hsame⟩ := hcomes
  have haddrs : addrs = srvci.used := by
    unfold showAddrs at h
    split at h
    · cases h
    · cases h
      rfl
  refine Or.inr ⟨a, ha, hsame.hash, ?_, haddrs ▸ hsame.addrs⟩
  rw [hsame.proto]

section Steps

variable {K : VsrvcInfo → Prop} {w : World} {op : RouteOp} {s s' : Vroute}

/-- What an operation brings in: the services of the message it handles, and the one it announces. -/
structure Brings (K : VsrvcInfo → Prop) (op : RouteOp) : Prop where
  heard : ∀ m id ctxt, Heard op m id ctxt → TellsSrvcs K id ctxt
  aired : ∀ srvci now, op = .airService srvci now → srvci.Kept ∧ K srvci

theorem traced_asked (hb : Brings K op) {c : DhtCall} {nonce : Vnonce} {myid : Token}
    {out : List UInt8}
    (hpost : ∀ conn srvci, c = .postService conn srvci → ∃ t, op = .airService srvci t)
    (henc : (c.message nonce myid).encode = .ok (some out)) :
    Traced K (.pushed c.id c.conn nonce out) := by
  obtain ⟨ctxt, hlabel⟩ := DhtMsg.labelled henc
  rw [DhtCall.message_id, DhtCall.message_nonce] at hlabel
  refine ⟨ctxt, hlabel, ?_⟩
  cases c with
  | postService conn srvci =>
    obtain ⟨t, hop⟩ := hpost conn srvci rfl
    obtain ⟨hkept, hK⟩ := hb.aired srvci t hop
    exact tells_of_service (named_query .postService "post_service" (by decide))
      (passable_of_kept hkept) ⟨srvci, hK, .refl srvci⟩ henc hlabel.opens
  | ping | findNode | findClosestNodes | reflex | probe | findService =>
    exact tells_of_other DhtId.noConfusion DhtId.noConfusion ctxt

theorem traced_answered (hs : Sourced K s) {m : Arrival} {id : DhtId} {msg : DhtMsg}
    {out : List UInt8} (hreply : Replies s m msg.nonce id msg)
    (henc : msg.encode = .ok (some out)) : Traced K (.pushed msg.id m.conn msg.nonce out) := by
  obtain ⟨ctxt, hlabel⟩ := DhtMsg.labelled henc
  refine ⟨ctxt, hlabel, ?_⟩
  generalize hn : msg.nonce = nonce at hreply
  cases hreply with
  | findService hget =>
    obtain ⟨hpass, hcomes⟩ := getService_held hs.stored hget
    exact tells_of_service (named_rsp .findServiceRsp "find_service" (by decide)) hpass hcomes henc
      hlabel.opens
  | ping | findNode | findClosestNodes | reflex | probe =>
    exact tells_of_other DhtId.noConfusion DhtId.noConfusion ctxt

theorem traced_uttered (hb : Brings K op) (hs : Sourced K s) {e : RouteEvent}
    (h : Utters w op s e) : Traced K e := by
  cases h with
  | asked hpost henc => exact traced_asked hb hpost henc
  | answered hheard hnonce hreply henc => exact traced_answered hs hreply henc
  | srvcRead leaf hheard hread => exact hb.heard _ _ _ hheard _ _ hread
  | shown h =>
    cases h with
    | nothing => exact Or.inl rfl
    | passed cookie hread haddrs => exact shown_of_copy (hs.log _ hread).comes haddrs cookie
    | stored cookie hget haddrs =>
      exact shown_of_copy (getService_held hs.stored hget).2 haddrs cookie
  | accepted | nodeRead | reaped => trivial

theorem sourced_effect (hb : Brings K op) (hs : Sourced K s) (h : Effect w op s s') :
    Sourced K s' := by
  obtain ⟨L, hlog, hL⟩ := h.log
  refine ⟨?_, fun e he => ?_⟩
  · cases h with
    | srvcStored hread hadd =>
      have hreadable : Readable K _ := hs.log _ hread
      obtain ⟨space, hok, hheld⟩ := addService_holds (fun d hd => hd.inOrder.sound.toFitting)
        (fun dest hdest => hreadable.copy hdest) hs.stored _
      rw [hadd] at hok
      cases hok
      exact hheld
    | cleared => exact fun i t ht => absurd ht List.not_mem_nil
    | lost | asked | answered | accepted | nodeRead | srvcRead | nodes | reflexed | punched | waits
      | told | reaped => exact hs.stored
  · rcases List.mem_append.mp (hlog ▸ he) with he | he
    · exact hs.log e he
    · exact traced_uttered hb hs (hL e he)

theorem brings_message {m : Sent} (htraced : Traced K (.pushed m.id m.conn m.nonce m.msg))
    (arrival : Arrival) (rest : List UInt8) : Brings K (.recv arrival (m.msg ++ rest) m.msg.length) := by
  obtain ⟨ctxt, hlabel, htells⟩ := htraced
  refine ⟨fun m' id ctxt' hheard => ?_, fun srvci now h => by cases h⟩
  obtain ⟨buf, len, heq, hbegin⟩ := hheard
  cases heq
  rw [hlabel.opens.opened rest] at hbegin
  cases hbegin
  exact htells

end Steps

/-! ## Runs of the network -/

section Runs

variable {ι : Type} {w : ι → World}

/-- A step that announces a service. -/
def Airs (l : NodeStep RouteOp Delivery Sent) (srvci : VsrvcInfo) : Prop :=
  ∃ now, l = .act (.airService srvci now)

/-- The nodes carry services. -/
theorem carrying_services :
    Carrying (nodes w)
      (fun _ l => (∀ m buf len, l ≠ .act (.recv m buf len)) ∧ ∀ srvci, Airs l srvci → srvci.Kept)
      (fun _ _ l => Airs l) (fun K _ s => Sourced K s)
      (fun K m => Traced K (.pushed m.id m.conn m.nonce m.msg)) where
  mono := fun hK hs => hs.mono hK
  sent := fun hs hm => hs.log _ (mem_sent hm)
  step := by
    intro K i s l hok hs htells
    have hmore : ∀ a, K a → K a ∨ Airs l a := fun a => Or.inl
    cases l with
    | act op =>
      have hbrings : Brings (fun a => K a ∨ Airs (.act op) a) op := by
        refine ⟨fun m id ctxt hheard => ?_, fun srvci now hop => ?_⟩
        · obtain ⟨buf, len, rfl, -⟩ := hheard
          exact absurd rfl (hok.1 m buf len)
        · subst hop
          exact ⟨hok.2 srvci ⟨now, rfl⟩, Or.inr ⟨now, rfl⟩⟩
      exact Effects.invariant (fun _ _ => sourced_effect hbrings) (acts_routeOp op s) (hs.mono hmore)
    | recv x m =>
      have htraced := (htells x m rfl).mono hmore
      have hlabelled := htraced
      obtain ⟨ctxt, hlabel, -⟩ := hlabelled
      obtain ⟨rest, hrcv⟩ := hostRcv_packed (w i) x s (if_pos rfl) hlabel.opens.pos hlabel.length_le
      have hstep : (nodes w).step i (.recv x m) s =
          endState (routeOp (w i) (.recv x.arrival (m.msg ++ rest) m.msg.length) s) := hrcv
      rw [hstep]
      exact Effects.invariant (fun _ _ => sourced_effect (brings_message htraced _ _))
        (acts_routeOp _ s) (hs.mono hmore)

/-- The service that some node announces in the run. -/
def AiredIn (ops : List (NetOp ι RouteOp Delivery)) (a : VsrvcInfo) : Prop :=
  ∃ i now, .act i (.airService a now) ∈ ops

theorem airedIn_of_step {net : ι → Vroute} {ops : List (NetOp ι RouteOp Delivery)}
    {o : NetOp ι RouteOp Delivery} {i : ι} {l : NodeStep RouteOp Delivery Sent} {a : VsrvcInfo}
    (ho : o ∈ ops) (hs : stepOf (nodes w) net o = some (i, l)) (hairs : Airs l a) :
    ∃ now, .act i (.airService a now) ∈ ops := by
  obtain ⟨now, rfl⟩ := hairs
  cases o with
  | act i' op =>
    cases hs
    exact ⟨now, ho⟩
  | deliver src k dst x =>
    obtain ⟨m, -, heq⟩ := Option.map_eq_some_iff.mp hs
    cases heq

variable [DecidableEq ι]

/-- In every run of nodes that start without tickets, messages and services, whatever the channel does,
with all datagrams coming from the nodes and all announced records being as a node registers them: every
service in the table of a node is a copy of one that some node announced in the run, and so is what a
user is shown, unless it has no address. The tables and the tickets are taken as lists. -/
theorem services_announced (w : ι → World) {net : ι → Vroute} (hstart : ∀ i, Started (net i))
    (hempty : ∀ i b, (net i).srvc_space.bucket b = []) {ops : List (NetOp ι RouteOp Delivery)}
    (hops : ∀ o ∈ ops, Honest o)
    (hkept : ∀ i srvci now, .act i (.airService srvci now) ∈ ops → srvci.Kept) (j : ι) :
    (∀ b, ∀ t ∈ (netRun (nodes w) net ops j).srvc_space.bucket b,
      ∃ i a now, .act i (.airService a now) ∈ ops ∧ Resembles t.srvci a) ∧
    ∀ call, .shown call ∈ (netRun (nodes w) net ops j).log → call.addrs ≠ [] →
      ∃ i a now, .act i (.airService a now) ∈ ops ∧ call.hash = a.hash ∧
        call.proto = a.proto.toInt ∧ call.addrs.Perm a.used := by
  have hsourced : Sourced (AiredIn ops) (netRun (nodes w) net ops j) := by
    refine netRun_within carrying_services (K := fun _ => AiredIn ops)
      (A := fun o => Honest o ∧ o ∈ ops) ?_ (fun _ _ _ hf => hf) ?_
      (fun o ho => ⟨hops o ho, ho⟩) (fun i => ⟨fun b t ht => ?_, fun e he => ?_⟩) j
    · intro net o i l ho hs
      refine ⟨honest_step ho.1 hs, fun srvci hairs => ?_⟩
      obtain ⟨now, hmem⟩ := airedIn_of_step ho.2 hs hairs
      exact hkept i srvci now hmem
    · intro net o i l a ho hs hairs
      exact ⟨i, airedIn_of_step ho.2 hs hairs⟩
    · rw [hempty i b] at ht
      exact absurd ht List.not_mem_nil
    · rw [(hstart i).log] at he
      exact absurd he List.not_mem_nil
  refine ⟨fun b t ht => ?_, fun call hcall hne => ?_⟩
  · obtain ⟨a, ⟨i, now, hmem⟩, hsame⟩ := (hsourced.stored b t ht).comes
    exact ⟨i, a, now, hmem, hsame⟩
  · rcases hsourced.log _ hcall with hnone | ⟨a, ⟨i, now, hmem⟩, hcopy⟩
    · exact absurd hnone hne
    · exact ⟨i, a, now, hmem, hcopy⟩

end Runs

/-! ## A service that is found -/

/-- A node that takes part in everything and has a version. -/
def knownNode (i : Bool) : Vroute :=
  vrouteInit (Block.ofList VTOKEN_LEN [if i then 1 else 0]) 0xffff
    (nodeSpaceInit zeroAddr.addr 8 10 (Block.ofList VTOKEN_LEN [if i then 1 else 0])
      (Block.zero VTOKEN_LEN)) 8
    ⟨{ oneAddrNode (Block.ofList VTOKEN_LEN [if i then 1 else 0]) with
      ver := Block.ofList VTOKEN_LEN [7] }, false, none⟩

/-- A service with one address and a free slot. -/
def storedService : VsrvcInfo :=
  { oneAddrService (Block.ofList VTOKEN_LEN [3]) (Block.zero VTOKEN_LEN) with
    addrs := [zeroAddr, zeroAddr] }

theorem storedService_kept : storedService.Kept := by
  refine ⟨⟨⟨?_, ?_, ?_, ?_⟩, ?_, ?_⟩, ?_, ?_⟩
  · show (0 : Int) ≤ 2
    decide
  · show (2 : Int) ≤ 12
    decide
  · exact Int.dvd_refl 2
  · rfl
  · show (0 : Int) ≤ 1
    decide
  · show (1 : Int) ≤ 2
    decide
  · exact List.pairwise_singleton _ _
  · intro a ha
    rw [List.mem_singleton.mp ha]
    decide

/-- Node 0 gets to know node 1 and announces a service, for which a user of node 1 asks. -/
def findOps : List (NetOp Bool RouteOp Delivery) :=
  [.act false (.joinNode (Block.ofList VTOKEN_LEN [9]) zeroAddr.addr 1),
    .act false (.tick (fun _ => 0) 5), .deliver false 0 true plainDelivery,
    .deliver true 0 false plainDelivery, .act false (.airService storedService 6),
    .deliver false 1 true plainDelivery,
    .act true (.findService (Block.ofList VTOKEN_LEN [3]) 1)]

/-- The number of addresses that a user was shown by an event. -/
def shownCount : RouteEvent → Option Nat
  | .shown call => some call.addrs.length
  | _ => none

theorem findOps_run :
    (netRun (nodes pairWorld) knownNode findOps true).log.filterMap shownCount = [1] := by
  decide +kernel

theorem honest_findOps : ∀ o ∈ findOps, Honest o := by
  simp only [findOps, List.forall_mem_cons]
  refine ⟨?_, ?_, ?_, ?_, ?_, ?_, ?_, fun o ho => absurd ho List.not_mem_nil⟩ <;>
    exact fun i m buf len h => by cases h

theorem airs_findOps {i : Bool} {srvci : VsrvcInfo} {now : Int}
    (h : .act i (.airService srvci now) ∈ findOps) : srvci = storedService := by
  simp only [findOps, List.mem_cons, List.not_mem_nil, or_false] at h
  rcases h with h | h | h | h | h | h | h <;> cases h
  rfl

/-- The user of node 1 is shown the address that node 0 announced. -/
theorem services_announced_found :
    ∃ call, .shown call ∈ (netRun (nodes pairWorld) knownNode findOps true).log ∧
      call.addrs.length = 1 ∧ call.hash = storedService.hash ∧
        call.addrs.Perm storedService.used := by
  have hmem : 1 ∈ (netRun (nodes pairWorld) knownNode findOps true).log.filterMap shownCount := by
    rw [findOps_run]
    exact List.mem_singleton_self _
  obtain ⟨e, he, heq⟩ := List.mem_filterMap.mp hmem
  cases e with
  | shown call =>
    have hlen : call.addrs.length = 1 := Option.some.inj heq
    have hne : call.addrs ≠ [] := fun h => by rw [h] at hlen; cases hlen
    obtain ⟨i, a, now, hair, hhash, -, haddrs⟩ := (services_announced pairWorld
      (fun _ => ⟨rfl, rfl⟩) (fun _ _ => rfl) honest_findOps
      (fun _ _ _ h => airs_findOps h ▸ storedService_kept) true).2 call he hne
    rw [airs_findOps hair] at hhash haddrs
    exact ⟨call, he, hlen, hhash, haddrs⟩
  | pushed | accepted | reaped | nodePassed | srvcPassed => cases heq

end Vdht.Net
