import Vdht.Net.Host

/-!
# Responses and queries across the network

The channel between the nodes may lose, delay, duplicate, reorder and misdirect messages and tell
any address as their source. If no nonce is made twice, a response is nevertheless accepted by the
node that asked, once, and its kind is that of the question.
-/

namespace Vdht.Net

open Vdht.Core Dht Lib NodeId Route Rpc

/-! ## Questions and nonces of one node -/

/-- What a response answers. -/
def questionOf : DhtId → DhtId
  | .pingRsp => .ping
  | .findNodeRsp => .findNode
  | .findClosestNodesRsp => .findClosestNodes
  | .reflexRsp => .reflex
  | .probeRsp => .probe
  | .findServiceRsp => .findService
  | id => id

theorem isRsp_questionOf (id : DhtId) : isRsp (questionOf id) = false := by
  cases id <;> rfl

theorem questionOf_of_query {id : DhtId} (h : isRsp id = false) : questionOf id = id := by
  cases id with
  | ping | findNode | findClosestNodes | reflex | probe | postService | findService => rfl
  | pingRsp | findNodeRsp | findClosestNodesRsp | reflexRsp | probeRsp | findServiceRsp => cases h

theorem replies_question {s : Vroute} {m : Arrival} {nonce : Vnonce} {id : DhtId} {msg : DhtMsg}
    (h : Replies s m nonce id msg) : questionOf msg.id = id ∧ isRsp msg.id = true := by
  cases h <;> exact ⟨rfl, rfl⟩

/-- The kind and the nonce of a query that was pushed. -/
def asked : RouteEvent → Option (DhtId × Vnonce)
  | .pushed id _ nonce _ => if isRsp id then none else some (id, nonce)
  | _ => none

/-- Every query has a nonce of its own among those that were made. -/
def Numbered (w : World) (s : Vroute) : Prop :=
  ((s.log.filterMap asked).map Prod.snd).Sublist ((List.range s.nmsgs).map w.nonce)

section Numbers

variable {w : World} {s : Vroute}

theorem numbered_more (h : Numbered w s) (n : Nat) :
    ((s.log.filterMap asked).map Prod.snd).Sublist ((List.range (s.nmsgs + n)).map w.nonce) := by
  refine h.trans (List.Sublist.map _ ?_)
  rw [List.range_add]
  exact List.sublist_append_left _ _

/-- Nothing is asked. -/
theorem numbered_silent (h : Numbered w s) {s' : Vroute} {L : List RouteEvent}
    (hlog : s'.log = s.log ++ L) (hL : ∀ e ∈ L, asked e = none) {n : Nat}
    (hn : s'.nmsgs = s.nmsgs + n) : Numbered w s' := by
  unfold Numbered
  rw [hlog, hn, List.filterMap_append, List.filterMap_eq_nil_iff.mpr hL, List.append_nil]
  exact numbered_more h n

theorem numbered_effect {op : RouteOp} {s' : Vroute} (hs : Numbered w s) (h : Effect w op s s') :
    Numbered w s' := by
  have hsame : ∀ {t : Vroute}, t.log = s.log → t.nmsgs = s.nmsgs → Numbered w t := by
    intro t hlog hn
    refine numbered_silent hs (L := []) ?_ (fun e he => absurd he List.not_mem_nil) (n := 0) hn
    rw [hlog, List.append_nil]
  cases h with
  | lost => exact numbered_more hs 1
  | @asked _ c out now hpost henc =>
    unfold Numbered
    dsimp only
    rw [List.filterMap_append, List.map_append, List.range_succ, List.map_append]
    refine hs.append ?_
    have hquery : asked (.pushed c.id c.conn (w.nonce s.nmsgs) out) = some (c.id, w.nonce s.nmsgs) := by
      cases c <;> rfl
    rw [List.filterMap_cons_some hquery]
    exact List.Sublist.refl _
  | answered hheard hnonce hreply henc =>
    refine numbered_silent hs rfl (fun e he => ?_) (n := 1) rfl
    rw [List.mem_singleton.mp he, asked, if_pos (replies_question hreply).2]
  | accepted | nodeRead | srvcRead | told =>
    refine numbered_silent hs rfl (fun e he => ?_) (n := 0) rfl
    rw [List.mem_singleton.mp he]
    rfl
  | punched =>
    refine numbered_silent hs rfl (fun e he => ?_) (n := 0) rfl
    obtain ⟨call, -, rfl⟩ := List.mem_map.mp he
    rfl
  | reaped now =>
    refine numbered_silent hs (List.append_assoc _ _ _) (fun e he => ?_) (n := 0) rfl
    rcases List.mem_append.mp he with he | he
    · obtain ⟨call, -, rfl⟩ := List.mem_map.mp he
      rfl
    · obtain ⟨nonce, -, rfl⟩ := List.mem_map.mp he
      rfl
  | cleared =>
    refine numbered_silent hs rfl (fun e he => ?_) (n := 0) rfl
    obtain ⟨nonce, -, rfl⟩ := List.mem_map.mp he
    rfl
  | nodes | srvcStored | reflexed | waits => exact hsame rfl rfl

/-- A nonce of a query was made for one message. -/
theorem Numbered.made (h : Numbered w s) {q : DhtId} {nonce : Vnonce}
    (hq : (q, nonce) ∈ s.log.filterMap asked) : ∃ k < s.nmsgs, w.nonce k = nonce := by
  obtain ⟨k, hk, hnonce⟩ := List.mem_map.mp (h.subset (List.mem_map.mpr ⟨_, hq, rfl⟩))
  exact ⟨k, List.mem_range.mp hk, hnonce⟩

theorem Numbered.nodup (h : Numbered w s)
    (hw : ∀ k l, k < s.nmsgs → l < s.nmsgs → w.nonce k = w.nonce l → k = l) :
    ((s.log.filterMap asked).map Prod.snd).Nodup := by
  refine List.Sublist.nodup h (List.Nodup.map_on ?_ List.nodup_range)
  intro k hk l hl
  exact hw k l (List.mem_range.mp hk) (List.mem_range.mp hl)

end Numbers

/-! ## What is said in the network -/

/-- A kind and a nonce. -/
abbrev Said := DhtId × Vnonce

/-- The message can be read, and it was said, as was the question it belongs to. -/
structure Voiced (K : Said → Prop) (id : DhtId) (nonce : Vnonce) (msg : List UInt8) : Prop where
  labelled : ∃ ctxt, Labelled msg id nonce ctxt
  said : K (id, nonce)
  question : K (questionOf id, nonce)

/-- Every message of the node is voiced, and every response it accepted was said. -/
structure Spoken (K : Said → Prop) (s : Vroute) : Prop where
  pushed : ∀ id conn nonce msg, .pushed id conn nonce msg ∈ s.log → Voiced K id nonce msg
  accepted : ∀ nonce, .accepted nonce ∈ s.log → ∃ id, isRsp id = true ∧ K (id, nonce)

theorem Voiced.mono {K K' : Said → Prop} (hK : ∀ f, K f → K' f) {id : DhtId} {nonce : Vnonce}
    {msg : List UInt8} (h : Voiced K id nonce msg) : Voiced K' id nonce msg :=
  ⟨h.labelled, hK _ h.said, hK _ h.question⟩

theorem Spoken.mono {K K' : Said → Prop} (hK : ∀ f, K f → K' f) {s : Vroute} (h : Spoken K s) :
    Spoken K' s where
  pushed := fun id conn nonce msg hmem => (h.pushed id conn nonce msg hmem).mono hK
  accepted := by
    intro nonce hmem
    obtain ⟨id, hid, hsaid⟩ := h.accepted nonce hmem
    exact ⟨id, hid, hK _ hsaid⟩

/-- What the node itself has said. -/
def Pushed (s : Vroute) (f : Said) : Prop := ∃ conn msg, .pushed f.1 conn f.2 msg ∈ s.log

theorem Pushed.mono {s s' : Vroute} (h : s.log <+: s'.log) {f : Said} (hf : Pushed s f) :
    Pushed s' f := by
  obtain ⟨conn, msg, hmem⟩ := hf
  exact ⟨conn, msg, h.subset hmem⟩

/-- The message an operation handles is one that was said. -/
def HearsSaid (K : Said → Prop) (op : RouteOp) : Prop :=
  ∀ m id ctxt nonce, Heard op m id ctxt → messageNonce m ctxt = .ok nonce → K (id, nonce)

section Steps

variable {K : Said → Prop} {w : World} {op : RouteOp} {s s' : Vroute}

theorem spoken_effect (hears : HearsSaid K op) (hs : Spoken (fun f => K f ∨ Pushed s f) s)
    (h : Effect w op s s') : Spoken (fun f => K f ∨ Pushed s' f) s' := by
  obtain ⟨L, hlog, hL⟩ := h.log
  have hgrow : s.log <+: s'.log := hlog ▸ List.prefix_append _ _
  have hold : Spoken (fun f => K f ∨ Pushed s' f) s := hs.mono fun f hf => hf.imp_right (.mono hgrow)
  constructor
  · intro id conn nonce msg hmem
    rcases List.mem_append.mp (hlog ▸ hmem) with hmem' | hnew
    · exact hold.pushed id conn nonce msg hmem'
    · have hsaid : Pushed s' (id, nonce) := ⟨conn, msg, hmem⟩
      have hutters := hL _ hnew
      cases hutters with
      | @asked c out hpost henc =>
        have hlabel := DhtMsg.labelled henc
        rw [DhtCall.message_id, DhtCall.message_nonce] at hlabel
        have hquestion : questionOf c.id = c.id := by cases c <;> rfl
        refine ⟨hlabel, Or.inr hsaid, ?_⟩
        rw [hquestion]
        exact Or.inr hsaid
      | answered hheard hnonce hreply henc =>
        refine ⟨DhtMsg.labelled henc, Or.inr hsaid, Or.inl ?_⟩
        rw [(replies_question hreply).1]
        exact hears _ _ _ _ hheard hnonce
  · intro nonce hmem
    rcases List.mem_append.mp (hlog ▸ hmem) with hmem | hnew
    · exact hold.accepted nonce hmem
    · have hutters := hL _ hnew
      cases hutters with
      | accepted hheard hid hnonce => exact ⟨_, hid, Or.inl (hears _ _ _ _ hheard hnonce)⟩

theorem spoken_effects (hears : HearsSaid K op) (hs : Spoken K s) (h : Effects w op s s') :
    Spoken (fun f => K f ∨ Pushed s' f) s' :=
  Effects.invariant (I := fun t => Spoken (fun f => K f ∨ Pushed t f) t)
    (fun _ _ => spoken_effect hears) h (hs.mono fun _ => Or.inl)

/-- A message is handled under the label it was sent with. -/
theorem hears_of_labelled {id : DhtId} {nonce : Vnonce} {msg : List UInt8} {ctxt : BeNode}
    (h : Labelled msg id nonce ctxt) (hK : K (id, nonce)) (m : Arrival) (rest : List UInt8) :
    HearsSaid K (.recv m (msg ++ rest) msg.length) := by
  intro m' id' ctxt' nonce' hheard hnonce
  obtain ⟨buf, len, heq, hbegin⟩ := hheard
  cases heq
  rw [h.opens.opened rest] at hbegin
  cases hbegin
  have hread : (.ok nonce : Res Vnonce) = .ok nonce' := (h.nonce_ok _).symm.trans hnonce
  cases hread
  exact hK

end Steps

section Nodes

variable {ι : Type} {w : ι → World}

/-- The nodes carry what was said. -/
theorem carrying_said :
    Carrying (nodes w) (fun _ l => ∀ m buf len, l ≠ .act (.recv m buf len))
      (fun i s l f => Pushed ((nodes w).step i l s) f) (fun K _ s => Spoken K s)
      (fun K m => Voiced K m.id m.nonce m.msg) where
  mono := fun hK hs => hs.mono hK
  sent := by
    intro K i s m hs hm
    exact hs.pushed _ _ _ _ (mem_sent hm)
  step := by
    intro K i s l hok hs htells
    cases l with
    | act op =>
      refine spoken_effects ?_ hs (acts_routeOp op s)
      intro m id ctxt nonce hheard
      obtain ⟨buf, len, rfl, -⟩ := hheard
      exact absurd rfl (hok m buf len)
    | recv x m =>
      have hvoiced := htells x m rfl
      obtain ⟨ctxt, hlabel⟩ := hvoiced.labelled
      obtain ⟨rest, hrcv⟩ := hostRcv_packed (w i) x s (if_pos rfl) hlabel.opens.pos hlabel.length_le
      have hstep : (nodes w).step i (.recv x m) s =
          endState (routeOp (w i) (.recv x.arrival (m.msg ++ rest) m.msg.length) s) := hrcv
      rw [hstep]
      exact spoken_effects (hears_of_labelled hlabel hvoiced.said _ _) hs (acts_routeOp _ s)

theorem honest_step {net : ι → Vroute} {o : NetOp ι RouteOp Delivery} {i : ι}
    {l : NodeStep RouteOp Delivery Sent} (ho : Honest o) (h : stepOf (nodes w) net o = some (i, l)) :
    ∀ m buf len, l ≠ .act (.recv m buf len) := by
  cases o with
  | act j op =>
    cases h
    intro m buf len heq
    cases heq
    exact ho i m buf len rfl
  | deliver src k dst x =>
    obtain ⟨m, -, heq⟩ := Option.map_eq_some_iff.mp h
    cases heq
    intro m' buf len heq
    cases heq

variable [DecidableEq ι]

/-- Somebody in the network has said it. -/
def SaidIn (net : ι → Vroute) (f : Said) : Prop := ∃ i, Pushed (net i) f

theorem netRun_spoken {net : ι → Vroute} (hstart : ∀ i, Started (net i))
    {ops : List (NetOp ι RouteOp Delivery)} (hops : ∀ o ∈ ops, Honest o) (j : ι) :
    Spoken (SaidIn (netRun (nodes w) net ops)) (netRun (nodes w) net ops j) := by
  refine netRun_within carrying_said (K := SaidIn) (fun net o i l ho => honest_step ho) ?_ ?_ hops
    (fun i => ⟨?_, ?_⟩) j
  · intro net o f hf
    obtain ⟨i, hi⟩ := hf
    exact ⟨i, hi.mono (netStep_log net o i)⟩
  · intro net o i l f _ hs hf
    refine ⟨i, ?_⟩
    rw [netStep_some hs, Function.update_self]
    exact hf
  · intro id conn nonce msg hmem
    rw [(hstart i).log] at hmem
    exact absurd hmem List.not_mem_nil
  · intro nonce hmem
    rw [(hstart i).log] at hmem
    exact absurd hmem List.not_mem_nil

theorem netRun_numbered {net : ι → Vroute} (hstart : ∀ i, Started (net i))
    (ops : List (NetOp ι RouteOp Delivery)) (j : ι) :
    Numbered (w j) (netRun (nodes w) net ops j) := by
  refine netRun_keeps (I := fun i s => Numbered (w i) s) ?_ (fun i => ?_) ops j
  · intro i op s hs
    exact Effects.invariant (fun _ _ => numbered_effect) (acts_routeOp op s) hs
  · unfold Numbered
    rw [(hstart i).log]
    exact List.nil_sublist _

theorem netRun_booked {net : ι → Vroute} (hstart : ∀ i, Started (net i))
    (ops : List (NetOp ι RouteOp Delivery)) (j : ι) : (netRun (nodes w) net ops j).Booked := by
  refine netRun_keeps (I := fun _ s => s.Booked) (fun i op s => booked_routeOp (w i) op s)
    (fun i => ?_) ops j
  unfold Vroute.Booked
  rw [(hstart i).log, (hstart i).tickets]
  exact Ledger.nil

end Nodes

/-! ## Matching -/

section Matching

variable {ι : Type} [DecidableEq ι] {w : ι → World} {net : ι → Vroute}
  {ops : List (NetOp ι RouteOp Delivery)}

theorem mem_asked {s : Vroute} {q : DhtId} {nonce : Vnonce} (hq : isRsp q = false)
    (h : Pushed s (q, nonce)) : (q, nonce) ∈ s.log.filterMap asked := by
  obtain ⟨conn, msg, hmem⟩ := h
  refine List.mem_filterMap.mpr ⟨_, hmem, ?_⟩
  rw [asked, if_neg (Bool.eq_false_iff.mp hq)]

/-- No nonce was made twice so far, by one node or by two. -/
def NoncesDiffer (w : ι → World) (net : ι → Vroute) : Prop :=
  ∀ i j k l, k < (net i).nmsgs → l < (net j).nmsgs → (w i).nonce k = (w j).nonce l → i = j ∧ k = l

/-- A nonce is made for one query of one node. -/
theorem query_unique (hw : NoncesDiffer w (netRun (nodes w) net ops))
    (hstart : ∀ i, Started (net i)) {i j : ι} {q q' : DhtId} {nonce : Vnonce}
    (hq : isRsp q = false) (hq' : isRsp q' = false)
    (hi : Pushed (netRun (nodes w) net ops i) (q, nonce))
    (hj : Pushed (netRun (nodes w) net ops j) (q', nonce)) : i = j ∧ q = q' := by
  have hmi := mem_asked hq hi
  have hmj := mem_asked hq' hj
  obtain ⟨k, hk, hki⟩ := (netRun_numbered hstart ops i).made hmi
  obtain ⟨l, hl, hlj⟩ := (netRun_numbered hstart ops j).made hmj
  obtain ⟨rfl, -⟩ := hw i j k l hk hl (hki.trans hlj.symm)
  have hnodup := (netRun_numbered hstart ops i).nodup fun a b ha hb hab => (hw i i a b ha hb hab).2
  have hsame := List.inj_on_of_nodup_map hnodup hmi hmj rfl
  exact ⟨rfl, congrArg Prod.fst hsame⟩

/-- The nonces of the queries with a response, among those of all queries. -/
theorem issued_sublist (log : List RouteEvent) :
    (log.filterMap issued).Sublist ((log.filterMap asked).map Prod.snd) := by
  induction log with
  | nil => exact List.Sublist.refl _
  | cons e log ih =>
    cases e with
    | pushed id conn nonce msg =>
      cases id with
      | ping | findNode | findClosestNodes | reflex | probe | findService => exact ih.cons_cons nonce
      | postService => exact ih.cons nonce
      | pingRsp | findNodeRsp | findClosestNodesRsp | reflexRsp | probeRsp | findServiceRsp => exact ih
    | accepted | reaped | nodePassed | srvcPassed | shown => exact ih

theorem issued_eq_some {e : RouteEvent} {nonce : Vnonce} (h : issued e = some nonce) :
    ∃ q conn msg, e = .pushed q conn nonce msg ∧ expectsRsp q = true := by
  cases e with
  | pushed id conn n msg =>
    by_cases hid : expectsRsp id = true
    · rw [issued, if_pos hid] at h
      cases h
      exact ⟨id, conn, msg, rfl, hid⟩
    · rw [issued, if_neg hid] at h
      cases h
  | accepted | reaped | nodePassed | srvcPassed | shown => cases h

theorem not_rsp_of_expects {q : DhtId} (h : expectsRsp q = true) : isRsp q = false := by
  cases q <;> first | rfl | cases h

/-- In every run of nodes that start without tickets and messages, whatever the channel does, with all
datagrams coming from the nodes and all nonces that were made being different: a nonce a node has
accepted is that of a query of this node, which it has accepted once; what else was sent with this nonce
anywhere are responses of the kind that was asked for, and there is one. The tickets are taken as a
list. -/
theorem responses_matched (w : ι → World) {net : ι → Vroute} (hstart : ∀ i, Started (net i))
    {ops : List (NetOp ι RouteOp Delivery)} (hops : ∀ o ∈ ops, Honest o)
    (hw : NoncesDiffer w (netRun (nodes w) net ops)) {i : ι} {nonce : Vnonce}
    (hacc : .accepted nonce ∈ (netRun (nodes w) net ops i).log) :
    ((netRun (nodes w) net ops i).log.filterMap accepted).count nonce = 1 ∧
      ∃ q, expectsRsp q = true ∧ Pushed (netRun (nodes w) net ops i) (q, nonce) ∧
        (∃ j id, isRsp id = true ∧ Pushed (netRun (nodes w) net ops j) (id, nonce)) ∧
        ∀ j id, Pushed (netRun (nodes w) net ops j) (id, nonce) →
          (j = i ∧ id = q) ∨ (isRsp id = true ∧ questionOf id = q) := by
  have hbooked := (netRun_booked (w := w) hstart ops i).used_le nonce
  have hnodup := (netRun_numbered hstart ops i).nodup fun a b ha hb hab => (hw i i a b ha hb hab).2
  have hle := count_accepted_le nonce (netRun (nodes w) net ops i).log
  have hone := List.nodup_iff_count_le_one.mp ((issued_sublist _).nodup hnodup) nonce
  have hmem : nonce ∈ (netRun (nodes w) net ops i).log.filterMap accepted :=
    List.mem_filterMap.mpr ⟨_, hacc, rfl⟩
  have hpos := List.count_pos_iff.mpr hmem
  have hissued : 0 < ((netRun (nodes w) net ops i).log.filterMap issued).count nonce := by omega
  obtain ⟨e, he, hnonce⟩ := List.mem_filterMap.mp (List.count_pos_iff.mp hissued)
  obtain ⟨q, conn, msg, rfl, hq⟩ := issued_eq_some hnonce
  have hqi : Pushed (netRun (nodes w) net ops i) (q, nonce) := ⟨conn, msg, he⟩
  refine ⟨by omega, q, hq, hqi, ?_, fun j id hj => ?_⟩
  · obtain ⟨id, hid, j, hj⟩ := (netRun_spoken hstart hops i).accepted nonce hacc
    exact ⟨j, id, hid, hj⟩
  · obtain ⟨conn', msg', hj'⟩ := hj
    obtain ⟨j', hj''⟩ := ((netRun_spoken hstart hops j).pushed id conn' nonce msg' hj').question
    obtain ⟨rfl, hquestion⟩ :=
      query_unique hw hstart (isRsp_questionOf id) (not_rsp_of_expects hq) hj'' hqi
    by_cases hid : isRsp id = true
    · exact Or.inr ⟨hid, hquestion⟩
    · rw [questionOf_of_query (Bool.eq_false_iff.mpr hid)] at hquestion
      subst hquestion
      have hown := query_unique hw hstart (Bool.eq_false_iff.mpr hid) (not_rsp_of_expects hq)
        ⟨conn', msg', hj'⟩ hqi
      exact Or.inl ⟨hown.1, rfl⟩

end Matching

/-! ## Two nodes -/

/-- Node 0 or node 1 of two, before its first operation. -/
def pairNode (i : Bool) : Vroute :=
  configuredRoute none (Block.ofList VTOKEN_LEN [if i then 1 else 0])
    (nodeSpaceInit zeroAddr.addr 8 10 (Block.ofList VTOKEN_LEN [if i then 1 else 0])
      (Block.zero VTOKEN_LEN)) 8
    ⟨oneAddrNode (Block.ofList VTOKEN_LEN [if i then 1 else 0]), false, none⟩

/-- Two nodes whose nonces differ by the node and count up, and whose queues take every message. -/
def pairWorld (i : Bool) : World where
  nonce k := Block.ofList VNONCE_LEN [if i then 1 else 0, k.toUInt8]
  push _ := true

/-- A delivery at time 6 that comes from the zero address. -/
def plainDelivery : Delivery where
  addr := zeroAddr.addr
  spec := zeroAddr.addr
  usrMsg := staleUsr
  m := anArrival 6

/-- Node 0 pings node 1 and gets two copies of the response. -/
def pingOps : List (NetOp Bool RouteOp Delivery) :=
  [.act false (.joinNode (Block.ofList VTOKEN_LEN [9]) zeroAddr.addr 1),
    .act false (.tick (fun _ => 0) 5), .deliver false 0 true plainDelivery,
    .deliver true 0 false plainDelivery, .deliver true 0 false plainDelivery]

theorem pingOps_run :
    (netRun (nodes pairWorld) pairNode pingOps false).log.filterMap accepted =
        [Block.ofList VNONCE_LEN [0, 0]] ∧
      ∀ i, (netRun (nodes pairWorld) pairNode pingOps i).nmsgs = 1 := by
  decide +kernel

theorem nonces_differ_pingOps :
    NoncesDiffer pairWorld (netRun (nodes pairWorld) pairNode pingOps) := by
  intro i j k l hk hl h
  rw [pingOps_run.2] at hk hl
  obtain rfl : k = 0 := by omega
  obtain rfl : l = 0 := by omega
  refine ⟨?_, rfl⟩
  revert h
  cases i <;> cases j <;> decide

theorem honest_pingOps : ∀ o ∈ pingOps, Honest o := by
  simp only [pingOps, List.forall_mem_cons]
  refine ⟨?_, ?_, ?_, ?_, ?_, fun o ho => absurd ho List.not_mem_nil⟩ <;>
    exact fun i m buf len h => by cases h

/-- The second copy of the response is not accepted. -/
theorem responses_matched_copies :
    ((netRun (nodes pairWorld) pairNode pingOps false).log.filterMap accepted).count
        (Block.ofList VNONCE_LEN [0, 0]) = 1 ∧
      ∃ q, expectsRsp q = true ∧
        Pushed (netRun (nodes pairWorld) pairNode pingOps false)
          (q, Block.ofList VNONCE_LEN [0, 0]) := by
  have hstart : ∀ i, Started (pairNode i) := fun _ => ⟨rfl, rfl⟩
  have hmem : Block.ofList VNONCE_LEN [0, 0] ∈
      (netRun (nodes pairWorld) pairNode pingOps false).log.filterMap accepted := by
    rw [pingOps_run.1]
    exact List.mem_singleton_self _
  obtain ⟨e, he, heq⟩ := List.mem_filterMap.mp hmem
  have hacc : .accepted (Block.ofList VNONCE_LEN [0, 0]) ∈
      (netRun (nodes pairWorld) pairNode pingOps false).log := by
    cases e with
    | accepted nonce =>
      cases heq
      exact he
    | pushed | reaped | nodePassed | srvcPassed | shown => cases heq
  obtain ⟨hone, q, hq, hpushed, -⟩ :=
    responses_matched pairWorld hstart honest_pingOps nonces_differ_pingOps hacc
  exact ⟨hone, q, hq, hpushed⟩

end Vdht.Net
