import Vdht.Lsctl.Replies
import Vdht.Lsctl.Requests
import Vdht.Node.Registry

/-!
# Finding a service through the control socket

`vdhtc_find_service` packs a query, sends it to the daemon and shows the reply to the callbacks of
its user. The daemon asks its node, whose callbacks fill the arguments of the reply. The user is
shown what the node shows, with the padding of the addresses cleared.
-/

namespace Vdht.Lsctl

open Lib NodeId Services Route

/-! ## The daemon -/

/-- `_aux_vlsctl_number_addr_cb1` and `_aux_vlsctl_iterate_addr_cb1`, with the calls of the node. -/
def auxVlsctlCb1 (args : ServiceRspArgs) : TicketCall → Res ServiceRspArgs
  | .number _ _ naddrs proto =>
    if naddrs < 0 then .error .assertion
    else .ok (auxVlsctlNumberAddrCb args naddrs.toNat (Int32.ofInt proto))
  | .addr _ _ a _ => auxVlsctlIterateAddrCb args a.addr a.type

/-- What `_vlsctl_exec_cmd_find_service` sends back; `mbuf` is what it has allocated. -/
def findServiceRsp (find : Token → Res (Int × List TicketCall)) (mbuf : List UInt8) (hash : Token) :
    Res (Option (List UInt8)) :=
  find hash >>= fun r =>
    if r.1 < 0 then .ok none
    else r.2.foldlM auxVlsctlCb1 (rspArgsInit .findService hash).args >>= fun args =>
      vlsctlPackCmd ⟨.findService, args⟩ mbuf

/-- What the daemon sends back for a message that holds one query. -/
def daemonRsp (app : App) (find : Token → Res (Int × List TicketCall)) (mbuf m : List UInt8) :
    Res (Option (List UInt8)) :=
  vlsctlUnpackCmd (execCmd app m) m >>= fun u =>
    match u.calls with
    | [.findService hash] => findServiceRsp find mbuf hash
    | _ => .ok none

/-! ## The client -/

/-- `vdhtc_find_service` with the calls it makes; `exchange` gives what comes back for a message, if
anything does. -/
def vdhtcFindService (fuel : Nat) (exchange : List UInt8 → Res (Option (List UInt8)))
    (srvcHash : Token) (cookie : Nat) : Res (Int × List TicketCall) :=
  let bound := bindCmdFindService vlsctlcInit srvcHash
  if bound.2 < 0 then .ok (-1, [])
  else do
    let buf ← vlsctlcPackCmd bound.1 (List.replicate BUF_SZ 0)
    match ← exchange buf with
    | none => .ok (-1, [])
    | some d => do
      let unpacked ← vlsctlcUnpackCmd fuel bound.1 (d.take BUF_SZ)
      if unpacked.2 < 0 then .ok (-1, [])
      else
        match ← unbindCmdFindService unpacked.1 with
        | none => .ok (-1, [])
        | some (hash, addrs, proto) =>
          if hash ≠ srvcHash then .ok (-1, [])
          else .ok (0, Shown.calls ⟨cookie, hash, addrs.length, proto.toInt, addrs⟩)

/-! ## What is shown -/

section Showing

variable {addrs : List VsockaddrIn}

theorem calls_eq_report (cookie : Nat) (hash : Token) (proto : Int) (addrs : List VsockaddrIn) :
    Shown.calls ⟨cookie, hash, addrs.length, proto, addrs⟩ =
      report cookie hash addrs.length proto addrs := by
  rw [Shown.calls, report, icbLoop_eq cookie hash (Int.zero_add (addrs.length : Int))]

theorem icbLoop_fills (cookie : Nat) (hash : Token) (naddrs i : Int) (args : ServiceRspArgs) :
    (icbLoop cookie hash naddrs i addrs).foldlM auxVlsctlCb1 args = iterateAddrs args addrs := by
  induction addrs generalizing i args with
  | nil => rfl
  | cons a addrs ih =>
    rw [icbLoop, List.foldlM_cons, iterateAddrs]
    exact bind_congr fun m => ih (i + 1) m

/-- The callbacks of the handler answer the query. -/
theorem report_answers (cookie : Nat) (hash : Token) (proto : Int) (addrs : List VsockaddrIn) :
    (report cookie hash addrs.length proto addrs).foldlM auxVlsctlCb1
        (rspArgsInit .findService hash).args >>= (fun args =>
          .ok (⟨.findService, args⟩ : VlsctlRspArgs)) =
      answer .findService hash (Int32.ofInt proto) addrs := by
  rw [← calls_eq_report, Shown.calls, List.foldlM_cons, auxVlsctlCb1,
    if_neg (Int.not_lt.mpr (Int.natCast_nonneg _)), ok_bind, icbLoop_fills, Int.toNat_natCast]
  rfl

theorem report_fills {calls : List TicketCall} {args : ServiceRspArgs} {cmd : VlsctlCmd}
    {rsp : VlsctlRspArgs} (h : calls.foldlM auxVlsctlCb1 args >>= (fun args =>
      .ok (⟨cmd, args⟩ : VlsctlRspArgs)) = .ok rsp) :
    ∃ filled, calls.foldlM auxVlsctlCb1 args = .ok filled ∧ rsp = ⟨cmd, filled⟩ := by
  obtain ⟨filled, hfilled, hrsp⟩ := bind_ok.mp h
  exact ⟨filled, hfilled, (Except.ok.inj hrsp).symm⟩

variable {find : Token → Res (Int × List TicketCall)} {hash : Token} {mbuf : List UInt8}

/-- The reply of the daemon holds what the node shows. -/
theorem findServiceRsp_ok {ret proto : Int} {ck : Nat} (hret : 0 ≤ ret)
    (hfind : find hash = .ok (ret, report ck hash addrs.length proto addrs))
    (hmax : addrs.length ≤ VSRVCINFO_MAX_ADDRS) (hfamily : ∀ a ∈ addrs, a.addr.sin_family < 256)
    (hbuf : mbuf.length = BUF_SZ) :
    ∃ b : CmdBlock, b.cmd = .findService ∧
      findServiceRsp find mbuf hash =
        .ok (some (messageBytes VLSCTL_VERSION vlsctlRspSucc.toUInt8 b.bytes)) ∧
      ReplyContent hash (Int32.ofInt proto) (addrs.map replied) b.content := by
  obtain ⟨rsp, hanswer, b, hcmd, hpack, hcontent⟩ := @vlsctlPackCmd_ok .findService hash
    (Int32.ofInt proto) addrs (Or.inl rfl) hmax hfamily mbuf hbuf
  obtain ⟨args, hfill, rfl⟩ := report_fills (hanswer ▸ report_answers ck hash proto addrs)
  refine ⟨b, hcmd, ?_, hcontent⟩
  rw [findServiceRsp, hfind, ok_bind, if_neg (Int.not_lt.mpr hret), hfill, ok_bind, hpack]

/-- A reply fits into the buffer of the client. -/
theorem take_reply {b : CmdBlock} {proto : Int32}
    (hcontent : ReplyContent hash proto addrs b.content)
    (hmax : addrs.length ≤ VSRVCINFO_MAX_ADDRS) :
    (messageBytes VLSCTL_VERSION vlsctlRspSucc.toUInt8 b.bytes).take BUF_SZ =
      messageBytes VLSCTL_VERSION vlsctlRspSucc.toUInt8 b.bytes := by
  have hlen := hcontent.length
  have hsz : BUF_SZ = 1024 := rfl
  have htwelve : VSRVCINFO_MAX_ADDRS = 12 := rfl
  have htoken : VSRVCHASH_LEN = 20 := rfl
  refine List.take_of_length_le ?_
  rw [length_messageBytes, CmdBlock.length_bytes]
  omega

/-- The user sees what the node shows. -/
theorem vdhtcFindService_ok {app : App} {ret proto : Int} {ck : Nat} (hret : 0 ≤ ret)
    (hfind : find hash = .ok (ret, report ck hash addrs.length proto addrs))
    (hmax : addrs.length ≤ VSRVCINFO_MAX_ADDRS) (hfamily : ∀ a ∈ addrs, a.addr.sin_family < 256)
    (hlow : -2 ^ 31 ≤ proto) (hhigh : proto < 2 ^ 31) (hbuf : mbuf.length = BUF_SZ)
    (happ : 0 ≤ app (.findService hash)) (cookie : Nat) :
    vdhtcFindService 3 (daemonRsp app find mbuf) hash cookie =
      .ok (0, report cookie hash addrs.length proto (addrs.map replied)) := by
  obtain ⟨c', n, hbind, hbound, hn, hpack⟩ :=
    bind_packs (c := vlsctlcInit) (r := .findService hash) trivial rfl
  obtain ⟨m, clen, hm, hread, -⟩ := packed_read (r := .findService hash) trivial hbound hn hpack
    (List.length_replicate (n := BUF_SZ) (a := (0 : UInt8)))
    (fun call hcall => (List.mem_singleton.mp hcall) ▸ happ)
  obtain ⟨b, hcmd, hsent, hcontent⟩ := findServiceRsp_ok hret hfind hmax hfamily hbuf
  have hrsp : daemonRsp app find mbuf m =
      .ok (some (messageBytes VLSCTL_VERSION vlsctlRspSucc.toUInt8 b.bytes)) := by
    rw [daemonRsp, hread, ok_bind]
    exact hsent
  have hmax' : (addrs.map replied).length ≤ VSRVCINFO_MAX_ADDRS := by
    rwa [List.length_map]
  obtain ⟨c'', hunpack, hunbind⟩ := reply_read (hcmd ▸ Or.inl rfl) hmax' hcontent c'
  rw [hcmd] at hunbind
  rw [vdhtcFindService]
  rw [show bindCmdFindService vlsctlcInit hash = (c', 0) from Except.ok.inj hbind,
    if_neg (Int.lt_irrefl 0), hm, ok_bind, hrsp, ok_bind]
  dsimp only
  rw [take_reply hcontent hmax', hunpack, ok_bind, if_neg (Int.lt_irrefl 0),
    unbindCmdFindService, hunbind, ok_bind]
  dsimp only
  rw [if_neg (not_not.mpr rfl), calls_eq_report, List.length_map,
    Int32.toInt_ofInt_of_le hlow hhigh]

end Showing

/-- The padding is no part of an address. -/
theorem lists_replied {l : List VsockaddrIn} {types : AddrKey → Option UInt32} (h : Lists l types) :
    Lists (l.map replied) types := by
  refine ⟨?_, fun a type => ?_⟩
  · have hdistinct := h.distinct
    rw [distinctAddrs_iff] at hdistinct ⊢
    rw [List.map_map]
    exact hdistinct
  · rw [← h.shown]
    constructor
    · rintro ⟨x, hx, hkey, htype⟩
      obtain ⟨y, hy, rfl⟩ := List.mem_map.mp hx
      exact ⟨y, hy, hkey, htype⟩
    · rintro ⟨x, hx, hkey, htype⟩
      exact ⟨replied x, List.mem_map_of_mem hx, hkey, htype⟩

/-- The family of the addresses fits into the byte it is packed into. -/
theorem lists_family {l : List VsockaddrIn} {types : AddrKey → Option UInt32} (h : Lists l types)
    (hinet : ∀ a type, types a = some type → a.family = AF_INET) :
    ∀ a ∈ l, a.addr.sin_family < 256 := by
  intro a ha
  have hkey : a.addr.sin_family = AF_INET :=
    hinet a.addr.key a.type ((h.shown a.addr.key a.type).mp ⟨a, ha, rfl, rfl⟩)
  rw [hkey]
  decide

/-! ## Runs -/

/-- The find that the daemon makes, with the `find_service` of the routing space. -/
def nodeFind (route : Token → Nat → Res (Int × List TicketCall)) (node : VnodeSrvc)
    (hash : Token) : Res (Int × List TicketCall) :=
  (vnodeSrvcFind route node hash 0).map fun f => (f.ret, f.calls)

/-- What the routing space shows fits into a reply. -/
structure Showable (ret : Int) (addrs : List VsockaddrIn) (proto : Int) : Prop where
  ret : 0 ≤ ret
  le_max : addrs.length ≤ VSRVCINFO_MAX_ADDRS
  family : ∀ a ∈ addrs, a.addr.sin_family < 256
  low : -2 ^ 31 ≤ proto
  high : proto < 2 ^ 31

/-- After valid posts and unposts in any order, in which no service gets more than twelve addresses
and a full one no new types, a user of the client library is shown the addresses that are posted,
each with its protocol. Of other services the user is shown what the routing space shows. -/
theorem finds_posted {id : Token} {nice : Int} {ops : List SrvcOp}
    (hnice : 0 ≤ Int16.ofInt nice) (hops : Admits registryStep Admissible emptyRegistry ops)
    (hspared : Admits registryStep Spared emptyRegistry ops)
    (hfamily : ∀ op ∈ ops, ∀ hash a, op.Posts hash a → a.family = AF_INET)
    {mbuf : List UInt8} (hbuf : mbuf.length = BUF_SZ) {app : App}
    (happ : ∀ hash, 0 ≤ app (.findService hash))
    (route : Token → Nat → Res (Int × List TicketCall)) :
    ∃ node, run Services.srvcExec (vnodeSrvcEmpty id nice) ops = .ok node ∧ ∀ hash cookie,
      (∀ e, specRun registryStep emptyRegistry ops hash = some e → ∃ l, Lists l e.types ∧
        vdhtcFindService 3 (daemonRsp app (nodeFind route node) mbuf) hash cookie =
          .ok (0, report cookie hash l.length e.proto l)) ∧
      (specRun registryStep emptyRegistry ops hash = none → ∀ ret addrs proto,
        Showable ret addrs proto →
        route hash 0 = .ok (ret, report 0 hash addrs.length proto addrs) →
        vdhtcFindService 3 (daemonRsp app (nodeFind route node) mbuf) hash cookie =
          .ok (0, report cookie hash addrs.length proto (addrs.map replied))) := by
  obtain ⟨node, hrun, hrep⟩ := srvcExec_registry (represents_empty id hnice) hops hspared
  have hlisted : ∀ hash a, (specRun registryStep emptyRegistry ops).Listed hash a →
      a ∈ {a : AddrKey | a.family = AF_INET} := within_run hfamily
  refine ⟨node, hrun, fun hash cookie => ⟨fun e he => ?_, ?_⟩⟩
  · obtain ⟨l, proto, hlists, hmax, hproto, hfound⟩ :=
      hrep.sound.found ((congrFun hrep.registry hash).trans he)
    have hfind : nodeFind route node hash = .ok (0, report 0 hash l.length e.proto l) := by
      rw [nodeFind, hfound]
      rfl
    have hinet : ∀ a ∈ l, a.addr.sin_family < 256 := by
      refine lists_family hlists fun a type htype => hlisted hash a ⟨e, he, fun hgone => ?_⟩
      exact Option.some_ne_none type (htype.symm.trans hgone)
    have hlow := proto.le_toInt
    have hhigh := proto.toInt_lt
    have hshown := vdhtcFindService_ok (Int.le_refl 0) hfind hmax hinet (by omega) (by omega) hbuf
      (happ hash) cookie
    refine ⟨l.map replied, lists_replied hlists, ?_⟩
    rw [hshown, List.length_map]
  · intro hnone ret addrs proto hs hroute
    have hfind : nodeFind route node hash =
        .ok (if ret < 0 then -1 else 0, report 0 hash addrs.length proto addrs) := by
      rw [nodeFind, (agrees_of_represents hrep).unknown route hash 0 hnone, hroute]
      rfl
    rw [if_neg (Int.not_lt.mpr hs.ret)] at hfind
    exact vdhtcFindService_ok (Int.le_refl 0) hfind hs.le_max hs.family hs.low hs.high hbuf
      (happ hash) cookie

/-- A service is posted, another is unposted and posted. -/
def postedOps : List SrvcOp :=
  [.post (Block.zero VTOKEN_LEN) (hostAddr 80 VSOCKADDR_LOCAL) 1,
    .unpostExt (Block.ofList VTOKEN_LEN [1]),
    .post (Block.ofList VTOKEN_LEN [1]) (hostAddr 80 VSOCKADDR_LOCAL) 2]

theorem postedOps_posts {op : SrvcOp} (hop : op ∈ postedOps) :
    op.Valid ∧ ∀ hash a, op.Posts hash a → a = (hostAddr 80 VSOCKADDR_LOCAL).addr.key := by
  rw [postedOps] at hop
  rcases List.mem_cons.mp hop with rfl | hop
  · exact ⟨⟨by decide, by decide, by decide⟩, fun hash a h => h.2.symm⟩
  · rcases List.mem_cons.mp hop with rfl | hop
    · exact ⟨trivial, fun hash a h => h.elim⟩
    · rw [List.mem_singleton.mp hop]
      exact ⟨⟨by decide, by decide, by decide⟩, fun hash a h => h.2.symm⟩

theorem postedOps_admissible : Admits registryStep Admissible emptyRegistry postedOps := by
  have hK : ({(hostAddr 80 VSOCKADDR_LOCAL).addr.key} : Set AddrKey).encard ≤ 12 := by
    rw [Set.encard_singleton]
    decide
  refine admits_within hK fun op hop => ⟨(postedOps_posts hop).1, fun hash a h => ?_⟩
  exact (postedOps_posts hop).2 hash a h

theorem postedOps_spared : Admits registryStep Spared emptyRegistry postedOps := by
  refine ⟨fun e he => ?_, trivial, fun e he => ?_, trivial⟩
  · cases he
  · have hnone := Function.update_self (Block.ofList VTOKEN_LEN [1]) none
      (registryStep emptyRegistry (.post (Block.zero VTOKEN_LEN)
        (hostAddr 80 VSOCKADDR_LOCAL) 1)).1
    exact absurd (hnone.symm.trans he) (Option.some_ne_none e).symm

/-- A routing space without services. -/
def noServices (hash : Token) (cookie : Nat) : Res (Int × List TicketCall) :=
  .ok (0, report cookie hash 0 VPROTO_UNKNOWN [])

theorem finds_posted_both :
    ∃ node, run Services.srvcExec (vnodeSrvcEmpty (Block.zero VTOKEN_LEN) 5) postedOps = .ok node ∧
      ∀ hash cookie,
        (∀ e, specRun registryStep emptyRegistry postedOps hash = some e → ∃ l, Lists l e.types ∧
          vdhtcFindService 3 (daemonRsp (fun _ => 0) (nodeFind noServices node)
              (List.replicate BUF_SZ 0)) hash cookie =
            .ok (0, report cookie hash l.length e.proto l)) ∧
        (specRun registryStep emptyRegistry postedOps hash = none → ∀ ret addrs proto,
          Showable ret addrs proto →
          noServices hash 0 = .ok (ret, report 0 hash addrs.length proto addrs) →
          vdhtcFindService 3 (daemonRsp (fun _ => 0) (nodeFind noServices node)
              (List.replicate BUF_SZ 0)) hash cookie =
            .ok (0, report cookie hash addrs.length proto (addrs.map replied))) :=
  finds_posted (by decide) postedOps_admissible postedOps_spared
    (fun _ hop hash a h => by rw [(postedOps_posts hop).2 hash a h]; rfl)
    List.length_replicate (fun _ => by decide) noServices

end Vdht.Lsctl
