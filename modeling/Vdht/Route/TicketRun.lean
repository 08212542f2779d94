import Vdht.Lib.Run
import Vdht.Lib.Sweep
import Vdht.Route.Tickets

/-!
# Runs of the ticket space

The scans of `vroute_tckt.c` with their callbacks one by one. Every ticket carries the number
under which it was added, so that a call says which ticket made it. Whatever the order of the
operations, a service probe calls its number callback once, when it is removed: a check answers
exactly the probes for its service, a reap exactly the tickets that are overdue, and everything
else stays where it is.
-/

namespace Vdht.Route

open Lib NodeId

/-! ## The operations -/

/-- One call of a user's callback. -/
inductive TicketCall where
  | number (cookie : Nat) (hash : Token) (naddrs proto : Int)
  | addr (cookie : Nat) (hash : Token) (addr : VsockaddrIn) (last : Bool)

/-- The loop over `icb`, at the index `i`. -/
def icbLoop (cookie : Nat) (hash : Token) (naddrs : Int) : Int → List VsockaddrIn → List TicketCall
  | _, [] => []
  | i, a :: addrs =>
    .addr cookie hash a (i + 1 = naddrs) :: icbLoop cookie hash naddrs (i + 1) addrs

/-- `ncb`, then `icb` for each address. -/
def Shown.calls (s : Shown) : List TicketCall :=
  .number s.cookie s.hash s.naddrs s.proto :: icbLoop s.cookie s.hash s.naddrs 0 s.addrs

/-- A ticket with the number under which it was added, so that tickets of the same content can be
told apart. -/
abbrev NumberedTicket := Nat × Ticket

/-- The calls made for one ticket, under its number. -/
def tagged (n : Nat) (shown : List Shown) : List (Nat × TicketCall) :=
  (shown.flatMap Shown.calls).map (n, ·)

/-- What a check accumulates. -/
structure Punching where
  space : NodeSpace
  calls : List (Nat × TicketCall)
  found : Bool

/-- One turn of the loop of `check_ticket`. -/
def punchStep (arg : TicketArg) (st : Punching) (x : NumberedTicket) :
    Res (Option Punching) :=
  match vticketPunch st.space x.2.info arg with
  | .error e => .error e
  | .ok none => .ok none
  | .ok (some (space, shown)) => .ok (some ⟨space, st.calls ++ tagged x.1 shown, true⟩)

/-- `type == VTICKET_TOKEN_CHECK` -/
def TicketArg.isCheck : TicketArg → Bool
  | .check _ => true
  | _ => false

/-- One turn of the loop of `timed_reap`. -/
def reapStep (overdueTmo now : Int) (calls : List (Nat × TicketCall)) (x : NumberedTicket) :
    Res (Option (List (Nat × TicketCall))) :=
  if isOverdue overdueTmo now x.2 then .ok (some (calls ++ tagged x.1 (vticketTimedoutPunch x.2)))
  else .ok none

/-- `vroute_tckt_space` together with the space of peers that its tickets adjust, and with what a
run of it has done so far. -/
structure TcktSpace where
  overdue_tmo : Int
  tickets : List NumberedTicket
  node_space : NodeSpace
  /-- how many tickets have been added -/
  added : Nat
  /-- the calls of each operation so far -/
  log : List (List (Nat × TicketCall))

/-- A space of tickets that is empty. -/
def tcktSpaceInit (overdueTmo : Int) (space : NodeSpace) : TcktSpace := ⟨overdueTmo, [], space, 0, []⟩

/-- The addresses a service info counts are there. -/
def TicketArg.Stored : TicketArg → Prop
  | .srvc srvci => srvci.naddrs ≤ srvci.addrs.length
  | _ => True

/-- The operations on the tickets: one is added, those that an argument concerns are checked, those
that are overdue are dropped. -/
inductive TcktOp where
  | add (info : TicketInfo) (now : Int)
  | check (arg : TicketArg) (stored : arg.Stored)
  | reap (now : Int)

/-- An operation on the tickets, with the calls that it makes put down at the end of the log. -/
def tcktExec (s : TcktSpace) : TcktOp → Res TcktSpace
  | .add info now =>
    .ok { s with
      tickets := s.tickets ++ [(s.added, ⟨now, info⟩)]
      added := s.added + 1
      log := s.log ++ [[]] }
  | .check arg _ =>
    match scanFrom (punchStep arg) arg.isCheck 0 s.tickets ⟨s.node_space, [], false⟩ with
    | .error e => .error e
    | .ok (tickets, r) =>
      .ok { s with tickets := tickets, node_space := r.space, log := s.log ++ [r.calls] }
  | .reap now =>
    match scanFrom (reapStep s.overdue_tmo now) false 0 s.tickets [] with
    | .error e => .error e
    | .ok (tickets, calls) => .ok { s with tickets := tickets, log := s.log ++ [calls] }

/-! ## The scan of a reap -/

/-- One turn of a reap decides by the age of the ticket. -/
theorem sweep_reap (overdueTmo now : Int) (xs : List NumberedTicket) :
    sweep (reapStep overdueTmo now) false xs [] =
      .ok (xs.filter fun x => !isOverdue overdueTmo now x.2,
        (xs.filter fun x => isOverdue overdueTmo now x.2).flatMap fun x =>
          tagged x.1 (vticketTimedoutPunch x.2)) := by
  have hstep : ∀ calls, ∀ x ∈ xs, reapStep overdueTmo now calls x =
      .ok (if isOverdue overdueTmo now x.2 then
        some (calls ++ tagged x.1 (vticketTimedoutPunch x.2)) else none) := by
    intro calls x _
    rw [reapStep]
    split <;> rfl
  rw [sweep_all hstep, List.flatMap_eq_foldl]

/-! ## What the operations are for -/

/-- The callbacks a user sees: the number of addresses, then each of them, the last one marked. -/
def report (cookie : Nat) (hash : Token) (naddrs proto : Int) (addrs : List VsockaddrIn) :
    List TicketCall :=
  .number cookie hash naddrs proto ::
    (addrs.dropLast.map (.addr cookie hash · false) ++
      addrs.getLast?.toList.map (.addr cookie hash · true))

/-- The tickets of a user who waits for a service. -/
def TicketInfo.isProbe : TicketInfo → Bool
  | .srvc _ _ => true
  | _ => false

/-- A service probe for `hash`. -/
def probes (hash : Token) (x : NumberedTicket) : Bool :=
  match x.2.info with
  | .srvc own _ => own = hash
  | _ => false

/-- Whether a ticket waits for the response of a nonce. -/
def checks (nonce : Vnonce) (x : NumberedTicket) : Bool :=
  match x.2.info with
  | .check own => own = nonce
  | _ => false

/-- A connectivity probe that went out with `nonce`. -/
def connects (nonce : Vnonce) (x : NumberedTicket) : Bool :=
  match x.2.info with
  | .conn own _ _ => own = nonce
  | _ => false

/-- What a probe is told when a service info arrives. -/
def answer (srvci : VsrvcInfo) (x : NumberedTicket) : List (Nat × TicketCall) :=
  match x.2.info with
  | .srvc _ cookie =>
    (report cookie srvci.hash srvci.naddrs srvci.proto.toInt srvci.used).map (x.1, ·)
  | _ => []

/-- What a probe is told when it expires. -/
def noAnswer (x : NumberedTicket) : List (Nat × TicketCall) :=
  match x.2.info with
  | .srvc hash cookie => (report cookie hash 0 VPROTO_UNKNOWN []).map (x.1, ·)
  | _ => []

/-- The tickets after an operation, and the calls it makes. -/
def tcktSpec (s : TcktSpace) : TcktOp → List NumberedTicket × List (Nat × TicketCall)
  | .add info now => (s.tickets ++ [(s.added, ⟨now, info⟩)], [])
  | .check (.check nonce) _ => (s.tickets.eraseP (checks nonce), [])
  | .check (.srvc srvci) _ =>
    (s.tickets.filter fun x => !probes srvci.hash x,
      (s.tickets.filter (probes srvci.hash)).flatMap (answer srvci))
  | .check (.conn nonce) _ => (s.tickets.filter fun x => !connects nonce x, [])
  | .reap now =>
    (s.tickets.filter fun x => !isOverdue s.overdue_tmo now x.2,
      (s.tickets.filter fun x => isOverdue s.overdue_tmo now x.2).flatMap noAnswer)

/-- The index tells the last address from the others. -/
theorem icbLoop_eq (cookie : Nat) (hash : Token) {naddrs i : Int} {addrs : List VsockaddrIn}
    (h : i + addrs.length = naddrs) :
    icbLoop cookie hash naddrs i addrs =
      addrs.dropLast.map (.addr cookie hash · false) ++
        addrs.getLast?.toList.map (.addr cookie hash · true) := by
  induction addrs generalizing i with
  | nil => rfl
  | cons a addrs ih =>
    rw [icbLoop, ih (by rw [List.length_cons] at h; omega)]
    cases addrs with
    | nil =>
      have hlast : i + 1 = naddrs := h
      simp [hlast]
    | cons b addrs =>
      have hmore : i + 1 ≠ naddrs := by
        simp only [List.length_cons] at h
        omega
      simp [hmore]

/-- A service info that holds its addresses is reported with all of them. -/
theorem shown_calls (cookie : Nat) {srvci : VsrvcInfo}
    (h : srvci.naddrs ≤ srvci.addrs.length) :
    Shown.calls ⟨cookie, srvci.hash, srvci.naddrs, srvci.proto.toInt, srvci.used⟩ =
      report cookie srvci.hash srvci.naddrs srvci.proto.toInt srvci.used := by
  rw [Shown.calls, report]
  by_cases hneg : srvci.naddrs < 0
  · have hused : srvci.used = [] := by
      rw [AddrBlock.used, Int.toNat_of_nonpos (by omega)]
      rfl
    rw [hused]
    rfl
  · have hlen : (0 : Int) + srvci.used.length = srvci.naddrs := by
      rw [AddrBlock.used, List.length_take]
      omega
    rw [icbLoop_eq _ _ hlen]

/-! ## The operations do what they are for -/

theorem punchStep_srvc {srvci : VsrvcInfo} (h : srvci.naddrs ≤ srvci.addrs.length)
    (st : Punching) (x : NumberedTicket) :
    punchStep (.srvc srvci) st x = .ok (if probes srvci.hash x then
      some ⟨st.space, st.calls ++ answer srvci x, true⟩ else none) := by
  obtain ⟨n, ts, info⟩ := x
  cases info with
  | check own => rfl
  | conn own id conn => rfl
  | srvc hash cookie =>
    have hshow : showAddrs srvci.toAddrBlock = .ok srvci.used := by
      rw [showAddrs, if_neg (by omega)]
    by_cases heq : hash = srvci.hash
    · subst heq
      have hcalls := shown_calls cookie h
      simp [punchStep, vticketPunch, hshow, probes, answer, tagged, hcalls]
    · have hne : ¬ vsrvcHashEqual hash srvci.hash = true := mt vsrvcHashEqual_iff.mp heq
      simp only [punchStep, vticketPunch, if_neg hne, probes, heq, decide_false, Bool.false_eq_true,
        if_false]

theorem punchStep_check (nonce : Vnonce) (st : Punching) (x : NumberedTicket) :
    punchStep (.check nonce) st x =
      .ok (if checks nonce x then some ⟨st.space, st.calls, true⟩ else none) := by
  obtain ⟨n, ts, info⟩ := x
  cases info with
  | srvc hash cookie => rfl
  | conn own id conn => rfl
  | check own =>
    by_cases heq : own = nonce
    · simp [punchStep, vticketPunch, checks, heq, tagged]
    · have hne : vnonceEqual own nonce = false := by
        rw [← Bool.not_eq_true, vnonceEqual_iff]
        exact heq
      simp [punchStep, vticketPunch, hne, checks, heq]

theorem punchStep_conn (nonce : Vnonce) (st : Punching) (x : NumberedTicket) :
    ∃ space, punchStep (.conn nonce) st x =
      .ok (if connects nonce x then some ⟨space, st.calls, true⟩ else none) := by
  obtain ⟨n, ts, info⟩ := x
  cases info with
  | srvc hash cookie => exact ⟨st.space, rfl⟩
  | check own => exact ⟨st.space, rfl⟩
  | conn own id conn =>
    refine ⟨adjustConnectivity st.space id conn, ?_⟩
    by_cases heq : own = nonce
    · simp [punchStep, vticketPunch, connects, heq, tagged]
    · have hne : vnonceEqual own nonce = false := by
        rw [← Bool.not_eq_true, vnonceEqual_iff]
        exact heq
      simp [punchStep, vticketPunch, hne, connects, heq]

theorem foldl_calls {g : Punching → NumberedTicket → Punching}
    {f : NumberedTicket → List (Nat × TicketCall)}
    (h : ∀ st x, (g st x).calls = st.calls ++ f x) (xs : List NumberedTicket) (st : Punching) :
    (xs.foldl g st).calls = st.calls ++ xs.flatMap f := by
  induction xs generalizing st with
  | nil => simp
  | cons x xs ih => rw [List.foldl_cons, ih, h, List.flatMap_cons, List.append_assoc]

theorem noAnswer_eq (x : NumberedTicket) : tagged x.1 (vticketTimedoutPunch x.2) = noAnswer x := by
  obtain ⟨n, ts, info⟩ := x
  cases info with
  | srvc hash cookie => rfl
  | check own => rfl
  | conn own id conn => rfl

/-- No operation fails; it leaves the tickets and makes the calls it is for. -/
theorem tcktExec_spec (s : TcktSpace) (op : TcktOp) :
    ∃ s', tcktExec s op = .ok s' ∧ s'.tickets = (tcktSpec s op).1 ∧
      s'.log = s.log ++ [(tcktSpec s op).2] ∧
      s'.added = s.added + (match op with | .add _ _ => 1 | _ => 0) := by
  cases op with
  | add info now => exact ⟨_, rfl, rfl, rfl, rfl⟩
  | reap now =>
    rw [tcktExec, scan_eq_sweep, sweep_reap]
    exact ⟨_, rfl, rfl, by simp only [noAnswer_eq, tcktSpec], rfl⟩
  | check arg stored =>
    rw [tcktExec, scan_eq_sweep]
    cases arg with
    | check nonce =>
      have hisCheck : (TicketArg.check nonce).isCheck = true := rfl
      rw [hisCheck, sweep_once fun st x _ => punchStep_check nonce st x]
      refine ⟨_, rfl, rfl, ?_, rfl⟩
      cases s.tickets.find? (checks nonce) with
      | none => rfl
      | some x => rfl
    | srvc srvci =>
      have hisCheck : (TicketArg.srvc srvci).isCheck = false := rfl
      rw [hisCheck, sweep_all fun st x _ => punchStep_srvc stored st x]
      refine ⟨_, rfl, rfl, ?_, rfl⟩
      dsimp only
      rw [foldl_calls fun _ _ => rfl]
      rfl
    | conn nonce =>
      have hisCheck : (TicketArg.conn nonce).isCheck = false := rfl
      choose space hspace using punchStep_conn nonce
      have hcalls := @foldl_calls (fun st x => ⟨space st x, st.calls, true⟩) (fun _ => [])
        (fun _ _ => (List.append_nil _).symm) (s.tickets.filter (connects nonce))
        ⟨s.node_space, [], false⟩
      rw [hisCheck, sweep_all fun st x _ => hspace st x]
      refine ⟨_, rfl, rfl, ?_, rfl⟩
      dsimp only
      rw [hcalls]
      simp [tcktSpec]

/-! ## Every probe is called once -/

/-- The information of the tickets that are added, in order. -/
def addedInfo : TcktOp → Option TicketInfo
  | .add info _ => some info
  | _ => none

/-- The `n`-th ticket that is added is a service probe. -/
def ProbeAdded (ops : List TcktOp) (n : Nat) : Prop :=
  ∃ info, (ops.filterMap addedInfo)[n]? = some info ∧ info.isProbe = true

/-- Whether a call of a ticket tells the user the number of addresses, which is the first of its
calls. -/
def TicketCall.isNumber : TicketCall → Bool
  | .number _ _ _ _ => true
  | _ => false

/-- How often ticket `n` calls its number callback. -/
def numberCalls (n : Nat) (calls : List (Nat × TicketCall)) : Nat :=
  calls.countP fun c => c.1 = n ∧ c.2.isNumber

/-- Ticket `n` has not been removed. -/
def TcktSpace.Pending (s : TcktSpace) (n : Nat) : Prop := n ∈ s.tickets.map Prod.fst

instance (s : TcktSpace) (n : Nat) : Decidable (s.Pending n) :=
  inferInstanceAs (Decidable (n ∈ s.tickets.map Prod.fst))

theorem numberCalls_append (n : Nat) (xs ys : List (Nat × TicketCall)) :
    numberCalls n (xs ++ ys) = numberCalls n xs + numberCalls n ys := List.countP_append

theorem numberCalls_report (n m : Nat) (cookie : Nat) (hash : Token) (naddrs proto : Int)
    (addrs : List VsockaddrIn) :
    numberCalls n ((report cookie hash naddrs proto addrs).map (m, ·)) =
      if m = n then 1 else 0 := by
  have haddrs : ∀ l : List VsockaddrIn, ∀ last,
      numberCalls n ((l.map (.addr cookie hash · last)).map (m, ·)) = 0 := by
    intro l last
    rw [numberCalls, List.countP_eq_zero]
    intro c hc
    obtain ⟨call, hcall, rfl⟩ := List.mem_map.mp hc
    obtain ⟨a, -, rfl⟩ := List.mem_map.mp hcall
    simp [TicketCall.isNumber]
  have hhead : numberCalls n [(m, .number cookie hash naddrs proto)] = if m = n then 1 else 0 := by
    by_cases hmn : m = n <;> simp [numberCalls, TicketCall.isNumber, hmn]
  rw [report, List.map_cons, List.map_append, ← List.singleton_append, numberCalls_append,
    numberCalls_append, haddrs, haddrs, hhead, Nat.add_zero]

/-- Distinct tickets, each of which calls its user once if it is a probe. -/
theorem numberCalls_flatMap {n : Nat} {f : NumberedTicket → List (Nat × TicketCall)}
    {xs : List NumberedTicket} (hnodup : (xs.map Prod.fst).Nodup)
    (hf : ∀ x ∈ xs, numberCalls n (f x) = if x.1 = n ∧ x.2.info.isProbe then 1 else 0) :
    numberCalls n (xs.flatMap f) = if ∃ x ∈ xs, x.1 = n ∧ x.2.info.isProbe then 1 else 0 := by
  induction xs with
  | nil => simp [numberCalls]
  | cons x xs ih =>
    rw [List.map_cons, List.nodup_cons] at hnodup
    have hrest := ih hnodup.2 fun y hy => hf y (List.mem_cons_of_mem _ hy)
    rw [List.flatMap_cons, numberCalls_append, hrest, hf x List.mem_cons_self]
    by_cases hx : x.1 = n ∧ x.2.info.isProbe = true
    · have hno : ¬ ∃ y ∈ xs, y.1 = n ∧ y.2.info.isProbe = true := by
        intro ⟨y, hy, hyn, _⟩
        exact hnodup.1 (hx.1 ▸ hyn ▸ List.mem_map_of_mem hy)
      rw [if_pos hx, if_neg hno, if_pos ⟨x, List.mem_cons_self, hx⟩]
    · have hiff : (∃ y ∈ x :: xs, y.1 = n ∧ y.2.info.isProbe = true) ↔
          ∃ y ∈ xs, y.1 = n ∧ y.2.info.isProbe = true := by
        simp only [List.exists_mem_cons_iff, hx, false_or]
      rw [if_neg hx, Nat.zero_add]
      simp only [hiff]

/-- What holds of the tickets after the operations `ops`. -/
structure TcktSpace.Inv (s : TcktSpace) (ops : List TcktOp) : Prop where
  added : s.added = (ops.filterMap addedInfo).length
  info : ∀ x ∈ s.tickets, (ops.filterMap addedInfo)[x.1]? = some x.2.info
  distinct : (s.tickets.map Prod.fst).Nodup
  once : ∀ n, ProbeAdded ops n →
    numberCalls n s.log.flatten = if s.Pending n then 0 else 1
  never : ∀ n, ¬ ProbeAdded ops n → numberCalls n s.log.flatten = 0

theorem inv_tcktSpaceInit (overdueTmo : Int) (space : NodeSpace) :
    (tcktSpaceInit overdueTmo space).Inv [] := by
  refine ⟨rfl, nofun, List.nodup_nil, ?_, fun _ _ => rfl⟩
  intro n hn
  obtain ⟨info, hinfo, -⟩ := hn
  cases hinfo

/-- What an operation does to the calls of each ticket. -/
structure Counted (s : TcktSpace) (kept : List NumberedTicket) (calls : List (Nat × TicketCall)) :
    Prop where
  sublist : kept.Sublist s.tickets
  removed : ∀ x ∈ s.tickets, x.2.info.isProbe = true →
    numberCalls x.1 calls = if x.1 ∈ kept.map Prod.fst then 0 else 1
  others : ∀ n, (∀ x ∈ s.tickets, x.1 = n → x.2.info.isProbe = false) → numberCalls n calls = 0

/-- The tickets that meet a predicate go, and call their users. -/
theorem counted_filter {s : TcktSpace} (hnodup : (s.tickets.map Prod.fst).Nodup)
    (p : NumberedTicket → Bool) {f : NumberedTicket → List (Nat × TicketCall)}
    (hf : ∀ x ∈ s.tickets, p x = true → ∀ n,
      numberCalls n (f x) = if x.1 = n ∧ x.2.info.isProbe then 1 else 0) :
    Counted s (s.tickets.filter fun x => !p x) ((s.tickets.filter p).flatMap f) := by
  have hkey : ∀ x ∈ s.tickets, ∀ y ∈ s.tickets, x.1 = y.1 → x = y :=
    fun x hx y hy => List.inj_on_of_nodup_map hnodup hx hy
  have hcount : ∀ n, numberCalls n ((s.tickets.filter p).flatMap f) =
      if ∃ x ∈ s.tickets.filter p, x.1 = n ∧ x.2.info.isProbe then 1 else 0 := by
    intro n
    apply numberCalls_flatMap (hnodup.sublist (List.filter_sublist.map _))
    intro x hx
    obtain ⟨hmem, hp⟩ := List.mem_filter.mp hx
    exact hf x hmem hp n
  refine ⟨List.filter_sublist, ?_, ?_⟩
  · intro x hx hprobe
    rw [hcount]
    cases hp : p x with
    | true =>
      have hgone : x.1 ∉ (s.tickets.filter fun x => !p x).map Prod.fst := by
        intro hmem
        obtain ⟨y, hy, hyx⟩ := List.mem_map.mp hmem
        obtain ⟨hys, hyp⟩ := List.mem_filter.mp hy
        rw [hkey y hys x hx hyx, hp] at hyp
        cases hyp
      rw [if_pos ⟨x, List.mem_filter.mpr ⟨hx, hp⟩, rfl, hprobe⟩, if_neg hgone]
    | false =>
      have hstays : x.1 ∈ (s.tickets.filter fun x => !p x).map Prod.fst :=
        List.mem_map_of_mem (List.mem_filter.mpr ⟨hx, by rw [hp]; rfl⟩)
      have hno : ¬ ∃ y ∈ s.tickets.filter p, y.1 = x.1 ∧ y.2.info.isProbe = true := by
        intro ⟨y, hy, hyx, _⟩
        obtain ⟨hys, hyp⟩ := List.mem_filter.mp hy
        rw [hkey y hys x hx hyx, hp] at hyp
        cases hyp
      rw [if_neg hno, if_pos hstays]
  · intro n hn
    rw [hcount, if_neg]
    intro ⟨x, hx, hxn, hprobe⟩
    rw [hn x (List.mem_filter.mp hx).1 hxn] at hprobe
    cases hprobe

theorem not_probe_of_checks {nonce : Vnonce} {x : NumberedTicket} (h : checks nonce x = true) :
    x.2.info.isProbe = false := by
  rw [checks] at h
  split at h
  · rename_i own hinfo
    rw [hinfo]
    rfl
  · cases h

theorem not_probe_of_connects {nonce : Vnonce} {x : NumberedTicket} (h : connects nonce x = true) :
    x.2.info.isProbe = false := by
  rw [connects] at h
  split at h
  · rename_i own id conn hinfo
    rw [hinfo]
    rfl
  · cases h

theorem numberCalls_answer (srvci : VsrvcInfo) (x : NumberedTicket) (n : Nat) :
    numberCalls n (answer srvci x) = if x.1 = n ∧ x.2.info.isProbe then 1 else 0 := by
  obtain ⟨m, ts, info⟩ := x
  cases info with
  | srvc hash cookie =>
    rw [answer]
    dsimp only
    rw [numberCalls_report]
    simp [TicketInfo.isProbe]
  | check own => simp [answer, numberCalls, TicketInfo.isProbe]
  | conn own id conn => simp [answer, numberCalls, TicketInfo.isProbe]

theorem numberCalls_noAnswer (x : NumberedTicket) (n : Nat) :
    numberCalls n (noAnswer x) = if x.1 = n ∧ x.2.info.isProbe then 1 else 0 := by
  obtain ⟨m, ts, info⟩ := x
  cases info with
  | srvc hash cookie =>
    rw [noAnswer]
    dsimp only
    rw [numberCalls_report]
    simp [TicketInfo.isProbe]
  | check own => simp [noAnswer, numberCalls, TicketInfo.isProbe]
  | conn own id conn => simp [noAnswer, numberCalls, TicketInfo.isProbe]

/-- A check or a reap calls exactly the probes it removes. -/
theorem counted_spec {s : TcktSpace} (hnodup : (s.tickets.map Prod.fst).Nodup) {op : TcktOp}
    (hop : addedInfo op = none) : Counted s (tcktSpec s op).1 (tcktSpec s op).2 := by
  cases op with
  | add info now => cases hop
  | reap now =>
    exact counted_filter hnodup (fun x => isOverdue s.overdue_tmo now x.2)
      fun x _ _ n => numberCalls_noAnswer x n
  | check arg stored =>
    cases arg with
    | srvc srvci =>
      exact counted_filter hnodup (probes srvci.hash) fun x _ _ n => numberCalls_answer srvci x n
    | conn nonce =>
      have hcounted := counted_filter hnodup (connects nonce) (f := fun _ => []) <| by
        intro x _ hx n
        simp [numberCalls, not_probe_of_connects hx]
      rw [List.flatMap_eq_nil_iff.mpr fun _ _ => rfl] at hcounted
      exact hcounted
    | check nonce =>
      refine ⟨List.eraseP_sublist, ?_, fun _ _ => rfl⟩
      intro x hx hprobe
      have hstays : x ∈ s.tickets.eraseP (checks nonce) := by
        refine (List.mem_eraseP_of_neg ?_).mpr hx
        intro hchecks
        rw [not_probe_of_checks hchecks] at hprobe
        cases hprobe
      exact (if_pos (List.mem_map_of_mem hstays)).symm

/-! ## Runs -/

theorem TcktSpace.Inv.lt {s : TcktSpace} {ops : List TcktOp} (h : s.Inv ops) {n : Nat}
    (hn : s.Pending n) : n < s.added := by
  obtain ⟨x, hx, rfl⟩ := List.mem_map.mp hn
  have hinfo := h.info x hx
  rw [h.added]
  by_contra hge
  rw [List.getElem?_eq_none (by omega)] at hinfo
  cases hinfo

/-- A pending ticket is a probe exactly when it was added as one. -/
theorem TcktSpace.Inv.isProbe {s : TcktSpace} {ops : List TcktOp} (h : s.Inv ops)
    {x : NumberedTicket} (hx : x ∈ s.tickets) :
    x.2.info.isProbe = true ↔ ProbeAdded ops x.1 := by
  have hinfo := h.info x hx
  constructor
  · intro hprobe
    exact ⟨_, hinfo, hprobe⟩
  · intro ⟨info, hadded, hprobe⟩
    rw [hinfo] at hadded
    exact Option.some.inj hadded ▸ hprobe

theorem inv_removal {s s' : TcktSpace} {ops : List TcktOp} {op : TcktOp} (h : s.Inv ops)
    (hop : addedInfo op = none) (htickets : s'.tickets = (tcktSpec s op).1)
    (hlog : s'.log = s.log ++ [(tcktSpec s op).2]) (hadded : s'.added = s.added) :
    s'.Inv (ops ++ [op]) := by
  have hcounted := counted_spec h.distinct hop
  have hinfos : (ops ++ [op]).filterMap addedInfo = ops.filterMap addedInfo := by
    simp [hop]
  have hprobes : ∀ n, ProbeAdded (ops ++ [op]) n ↔ ProbeAdded ops n := by
    intro n
    rw [ProbeAdded, ProbeAdded, hinfos]
  have hcalls : ∀ n, numberCalls n s'.log.flatten =
      numberCalls n s.log.flatten + numberCalls n (tcktSpec s op).2 := by
    intro n
    rw [hlog, List.flatten_append, numberCalls_append, List.flatten_singleton]
  have hsub : s'.tickets.Sublist s.tickets := htickets ▸ hcounted.sublist
  refine ⟨?_, ?_, h.distinct.sublist (hsub.map _), ?_, ?_⟩
  · rw [hadded, hinfos, h.added]
  · intro x hx
    rw [hinfos]
    exact h.info x (hsub.subset hx)
  · intro n hn
    rw [hprobes] at hn
    rw [hcalls, h.once n hn]
    by_cases hpending : s.Pending n
    · obtain ⟨x, hx, rfl⟩ := List.mem_map.mp hpending
      have hx' := hcounted.removed x hx ((h.isProbe hx).mpr hn)
      rw [if_pos hpending, hx', Nat.zero_add, ← htickets]
      rfl
    · have hgone : ¬ s'.Pending n := fun hn' => hpending ((hsub.map Prod.fst).subset hn')
      have hnone : ∀ x ∈ s.tickets, x.1 = n → x.2.info.isProbe = false :=
        fun x hx hxn => absurd (hxn ▸ List.mem_map_of_mem hx) hpending
      rw [if_neg hpending, if_neg hgone, hcounted.others n hnone]
  · intro n hn
    rw [hprobes] at hn
    have hnone : ∀ x ∈ s.tickets, x.1 = n → x.2.info.isProbe = false := by
      intro x hx hxn
      rw [← Bool.not_eq_true, h.isProbe hx, hxn]
      exact hn
    rw [hcalls, h.never n hn, hcounted.others n hnone]

theorem inv_addition {s s' : TcktSpace} {ops : List TcktOp} {info : TicketInfo} {now : Int}
    (h : s.Inv ops) (htickets : s'.tickets = s.tickets ++ [(s.added, ⟨now, info⟩)])
    (hlog : s'.log = s.log ++ [[]]) (hadded : s'.added = s.added + 1) :
    s'.Inv (ops ++ [TcktOp.add info now]) := by
  have hinfos : (ops ++ [TcktOp.add info now]).filterMap addedInfo =
      ops.filterMap addedInfo ++ [info] := by
    simp [addedInfo]
  have hlen : s.added = (ops.filterMap addedInfo).length := h.added
  have hcalls : s'.log.flatten = s.log.flatten := by simp [hlog]
  have hpending : ∀ n, s'.Pending n ↔ s.Pending n ∨ n = s.added := by
    intro n
    rw [TcktSpace.Pending, htickets, List.map_append, List.mem_append]
    simp [TcktSpace.Pending]
  have hold : ∀ n, n ≠ s.added → (ProbeAdded (ops ++ [TcktOp.add info now]) n ↔ ProbeAdded ops n) := by
    intro n hn
    rw [ProbeAdded, ProbeAdded, hinfos]
    rcases Nat.lt_or_gt_of_ne hn with hlt | hgt
    · rw [List.getElem?_append_left (by omega)]
    · have hnone : (ops.filterMap addedInfo ++ [info])[n]? = none :=
        List.getElem?_eq_none (by rw [List.length_append, List.length_singleton]; omega)
      have hnone' : (ops.filterMap addedInfo)[n]? = none := List.getElem?_eq_none (by omega)
      rw [hnone, hnone']
  have hnew : ¬ ProbeAdded ops s.added := by
    intro ⟨_, hget, _⟩
    rw [List.getElem?_eq_none (by omega)] at hget
    cases hget
  refine ⟨?_, ?_, ?_, ?_, ?_⟩
  · rw [hadded, hinfos, hlen, List.length_append, List.length_singleton]
  · intro x hx
    rw [hinfos]
    rw [htickets] at hx
    rcases List.mem_append.mp hx with hx | hx
    · have hlt := h.lt (List.mem_map_of_mem hx)
      rw [List.getElem?_append_left (by omega)]
      exact h.info x hx
    · rw [List.mem_singleton.mp hx, hlen]
      simp
  · have hfresh : s.added ∉ s.tickets.map Prod.fst := fun hn => absurd (h.lt hn) (by omega)
    rw [htickets, List.map_append]
    exact List.nodup_append.mpr ⟨h.distinct, List.nodup_singleton _, by
      intro a ha b hb
      obtain rfl : b = s.added := by simpa using hb
      exact fun hab => hfresh (hab ▸ ha)⟩
  · intro n hn
    rw [hcalls]
    by_cases hlast : n = s.added
    · subst hlast
      rw [if_pos ((hpending _).mpr (Or.inr rfl)), h.never _ hnew]
    · have hiff : s'.Pending n ↔ s.Pending n := by
        rw [hpending]
        exact or_iff_left hlast
      rw [h.once n ((hold n hlast).mp hn)]
      simp only [hiff]
  · intro n hn
    rw [hcalls]
    by_cases hlast : n = s.added
    · subst hlast
      exact h.never _ hnew
    · exact h.never n (mt (hold n hlast).mpr hn)

theorem inv_step {s : TcktSpace} {ops : List TcktOp} (h : s.Inv ops) (op : TcktOp) :
    ∃ s', tcktExec s op = .ok s' ∧ s'.Inv (ops ++ [op]) := by
  obtain ⟨s', hexec, htickets, hlog, hadded⟩ := tcktExec_spec s op
  refine ⟨s', hexec, ?_⟩
  cases op with
  | add info now => exact inv_addition h htickets hlog hadded
  | check arg stored => exact inv_removal h rfl htickets hlog hadded
  | reap now => exact inv_removal h rfl htickets hlog hadded

theorem inv_run {s : TcktSpace} {ops : List TcktOp} (h : s.Inv ops) (more : List TcktOp) :
    ∃ s', run tcktExec s more = .ok s' ∧ s'.Inv (ops ++ more) := by
  induction more generalizing s ops with
  | nil => exact ⟨s, rfl, by rwa [List.append_nil]⟩
  | cons op more ih =>
    obtain ⟨m, hm, hinv⟩ := inv_step h op
    obtain ⟨s', hs', hinv'⟩ := ih hinv
    rw [List.append_assoc] at hinv'
    exact ⟨s', run_cons_ok.mpr ⟨m, hm, hs'⟩, hinv'⟩

/-- One operation of a run: it leaves the tickets and makes the calls it is for, a probe is
called when it is removed and only then, and a ticket that is not there is not called. -/
structure Settles (s : TcktSpace) (op : TcktOp) (s' : TcktSpace) : Prop where
  exec : tcktExec s op = .ok s'
  tickets : s'.tickets = (tcktSpec s op).1
  log : s'.log = s.log ++ [(tcktSpec s op).2]
  once : ∀ x ∈ s.tickets, x.2.info.isProbe = true →
    numberCalls x.1 (tcktSpec s op).2 = if s'.Pending x.1 then 0 else 1
  never : ∀ n, ¬ s.Pending n → numberCalls n (tcktSpec s op).2 = 0

theorem settles_step {s : TcktSpace} {ops : List TcktOp} (h : s.Inv ops) (op : TcktOp) :
    ∃ s', Settles s op s' ∧ s'.Inv (ops ++ [op]) := by
  obtain ⟨s', hexec, htickets, hlog, hadded⟩ := tcktExec_spec s op
  obtain ⟨s'', hexec', hinv⟩ := inv_step h op
  obtain rfl : s' = s'' := Except.ok.inj (hexec.symm.trans hexec')
  refine ⟨s', ⟨hexec, htickets, hlog, ?_, ?_⟩, hinv⟩
  · intro x hx hprobe
    simp only [TcktSpace.Pending, htickets]
    cases op with
    | add info now =>
      have hstays : x ∈ (tcktSpec s (.add info now)).1 := List.mem_append_left _ hx
      exact (if_pos (List.mem_map_of_mem hstays)).symm
    | check arg stored => exact (counted_spec h.distinct rfl).removed x hx hprobe
    | reap now => exact (counted_spec h.distinct rfl).removed x hx hprobe
  · intro n hn
    have hnone : ∀ x ∈ s.tickets, x.1 = n → x.2.info.isProbe = false :=
      fun x hx hxn => absurd (hxn ▸ List.mem_map_of_mem hx) hn
    cases op with
    | add info now => rfl
    | check arg stored => exact (counted_spec h.distinct rfl).others n hnone
    | reap now => exact (counted_spec h.distinct rfl).others n hnone

end Vdht.Route
