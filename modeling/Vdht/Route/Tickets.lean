import Vdht.Route.NodeSpace

/-!
# Tickets

`vroute_tckt.c`: what the node remembers about the queries it sent. A check ticket holds the
nonce of a query and is used up by the first response with this nonce. The other two kinds
hold what is to be done when an answer arrives; a service ticket calls its user back, with the
addresses of the service or, when it expires, with none.
-/

namespace Vdht.Route

open NodeId

/-- One call of the number callback of a user and the address callbacks behind it. The two
callbacks and the user's data are known by `cookie`. -/
structure Shown where
  cookie : Nat
  hash : Token
  naddrs : Int
  proto : Int
  addrs : List VsockaddrIn

/-- What a ticket waits for: a response with a nonce, a service with a hash for a user, or a probe
of a connection. -/
inductive TicketInfo where
  | check (nonce : Vnonce)
  | srvc (hash : Token) (cookie : Nat)
  | conn (nonce : Vnonce) (targetId : Token) (conn : VnodeConn)

/-- `vticket`: what is waited for, and since when. The time is an `int` in the source. -/
structure Ticket where
  ts : Int
  info : TicketInfo

/-- The type of a ticket and the arguments of `check_ticket`. -/
inductive TicketArg where
  | check (nonce : Vnonce)
  | srvc (srvci : VsrvcInfo)
  | conn (nonce : Vnonce)

/-- `VPROTO_UNKNOWN`: the protocol that a user is told when no service was found. -/
def VPROTO_UNKNOWN : Int := 5

/-- The addresses a user is shown, one by one. -/
def showAddrs (b : AddrBlock) : Res (List VsockaddrIn) :=
  if b.naddrs > b.addrs.length then .error .bounds else .ok b.used

/-- `vticket_punch` for a ticket of the type asked for, `none` for a ticket that stays; it may
change the node space and call the user. -/
def vticketPunch (space : NodeSpace) (info : TicketInfo) (arg : TicketArg) :
    Res (Option (NodeSpace × List Shown)) :=
  match info, arg with
  | .check own, .check nonce => .ok (if vnonceEqual own nonce then some (space, []) else none)
  | .srvc hash cookie, .srvc srvci =>
    if vsrvcHashEqual hash srvci.hash then
      match showAddrs srvci.toAddrBlock with
      | .error e => .error e
      | .ok addrs =>
        .ok (some (space, [⟨cookie, srvci.hash, srvci.naddrs, srvci.proto.toInt, addrs⟩]))
    else .ok none
  | .conn own targetId conn, .conn nonce =>
    .ok (if vnonceEqual own nonce then some (adjustConnectivity space targetId conn, [])
      else none)
  | _, _ => .ok none

/-- What a check of the tickets leaves: the tickets that stay, the space with the connections
adjusted, what users were shown, and whether a ticket was concerned. -/
structure Checked where
  tickets : List Ticket
  space : NodeSpace
  shown : List Shown
  found : Bool

/-- `check_ticket`: every ticket that is punched is removed, of the check tickets only the
first. -/
def checkTicket (arg : TicketArg) : List Ticket → NodeSpace → Res Checked
  | [], space => .ok ⟨[], space, [], false⟩
  | t :: ts, space =>
    match vticketPunch space t.info arg with
    | .error e => .error e
    | .ok none =>
      match checkTicket arg ts space with
      | .error e => .error e
      | .ok r => .ok { r with tickets := t :: r.tickets }
    | .ok (some (space, shown)) =>
      match arg with
      | .check _ => .ok ⟨ts, space, shown, true⟩
      | _ =>
        match checkTicket arg ts space with
        | .error e => .error e
        | .ok r => .ok { r with shown := shown ++ r.shown, found := true }

/-- Whether a ticket has waited for as long as tickets wait at most. -/
def isOverdue (overdueTmo now : Int) (t : Ticket) : Bool := now - t.ts ≥ overdueTmo

/-- `vticket_timedout_punch` -/
def vticketTimedoutPunch (t : Ticket) : List Shown :=
  match t.info with
  | .srvc hash cookie => [⟨cookie, hash, 0, VPROTO_UNKNOWN, []⟩]
  | _ => []

/-- The tickets that stay, and the calls made for those that do not. -/
def timedReap (overdueTmo now : Int) (tickets : List Ticket) : List Ticket × List Shown :=
  (tickets.filter fun t => !isOverdue overdueTmo now t,
    (tickets.filter (isOverdue overdueTmo now)).flatMap vticketTimedoutPunch)

/-! ## Outstanding nonces -/

/-- The nonce of a ticket that waits for a response. -/
def checkNonce (t : Ticket) : Option Vnonce :=
  match t.info with
  | .check nonce => some nonce
  | _ => none

/-- The nonces of the check tickets. -/
def outstanding (tickets : List Ticket) : List Vnonce := tickets.filterMap checkNonce

@[simp] theorem outstanding_append (ts us : List Ticket) :
    outstanding (ts ++ us) = outstanding ts ++ outstanding us := List.filterMap_append

theorem outstanding_cons_check {t : Ticket} {nonce : Vnonce} (h : t.info = .check nonce)
    (ts : List Ticket) : outstanding (t :: ts) = nonce :: outstanding ts := by
  rw [outstanding, List.filterMap_cons_some]
  · rfl
  · rw [checkNonce, h]

theorem outstanding_cons_other {t : Ticket} (h : ∀ nonce, t.info ≠ .check nonce)
    (ts : List Ticket) : outstanding (t :: ts) = outstanding ts := by
  rw [outstanding, List.filterMap_cons_none]
  · rfl
  · unfold checkNonce
    split
    · rename_i nonce hinfo
      exact absurd hinfo (h nonce)
    · rfl

theorem vticketPunch_passes {space : NodeSpace} {info : TicketInfo} {nonce : Vnonce}
    (h : info ≠ .check nonce) : vticketPunch space info (.check nonce) = .ok none := by
  cases info with
  | check own =>
    have hne : ¬ vnonceEqual own nonce = true := by
      intro heq
      rw [vnonceEqual_iff] at heq
      exact h (congrArg TicketInfo.check heq)
    rw [vticketPunch, if_neg hne]
  | srvc hash cookie => rfl
  | conn own id conn => rfl

/-- A ticket with another nonce or of another kind, in front of two lists of tickets. -/
theorem outstanding_cons_passes {t : Ticket} {nonce : Vnonce} (h : t.info ≠ .check nonce)
    {ts us : List Ticket} (hout : outstanding us = (outstanding ts).erase nonce) :
    (nonce ∈ outstanding (t :: ts) ↔ nonce ∈ outstanding ts) ∧
      outstanding (t :: us) = (outstanding (t :: ts)).erase nonce := by
  by_cases hcheck : ∃ own, t.info = .check own
  · obtain ⟨own, hinfo⟩ := hcheck
    have hne : own ≠ nonce := fun heq => h (heq ▸ hinfo)
    rw [outstanding_cons_check hinfo, outstanding_cons_check hinfo,
      List.erase_cons_tail (by simpa using hne), hout, List.mem_cons]
    exact ⟨or_iff_right (Ne.symm hne), rfl⟩
  · have hother : ∀ own, t.info ≠ .check own := fun own hinfo => hcheck ⟨own, hinfo⟩
    rw [outstanding_cons_other hother, outstanding_cons_other hother]
    exact ⟨Iff.rfl, hout⟩

/-- A check removes the first ticket with the nonce, and does nothing when there is none. -/
theorem checkTicket_check (nonce : Vnonce) (tickets : List Ticket) (space : NodeSpace) :
    ∃ ts, checkTicket (.check nonce) tickets space =
        .ok ⟨ts, space, [], decide (nonce ∈ outstanding tickets)⟩ ∧
      outstanding ts = (outstanding tickets).erase nonce ∧
      (nonce ∉ outstanding tickets → ts = tickets) := by
  induction tickets with
  | nil => exact ⟨[], rfl, rfl, fun _ => rfl⟩
  | cons t tickets ih =>
    obtain ⟨ts, hts, hout, hsame⟩ := ih
    by_cases hcheck : t.info = .check nonce
    · refine ⟨tickets, ?_, ?_, ?_⟩
      · rw [outstanding_cons_check hcheck, checkTicket, hcheck, vticketPunch,
          if_pos (vnonceEqual_iff.mpr rfl)]
        simp
      · rw [outstanding_cons_check hcheck, List.erase_cons_head]
      · intro hno
        rw [outstanding_cons_check hcheck] at hno
        simp at hno
    · obtain ⟨hmem, hout'⟩ := outstanding_cons_passes hcheck hout
      refine ⟨t :: ts, ?_, hout', ?_⟩
      · rw [checkTicket, vticketPunch_passes hcheck]
        dsimp only
        rw [hts]
        simp [hmem]
      · intro hno
        rw [hsame (fun hm => hno (hmem.mpr hm))]

/-- The other checks leave the check tickets alone. -/
theorem checkTicket_other {arg : TicketArg} (harg : ∀ nonce, arg ≠ .check nonce)
    {tickets : List Ticket} {space : NodeSpace} {r : Checked}
    (h : checkTicket arg tickets space = .ok r) : outstanding r.tickets = outstanding tickets := by
  induction tickets generalizing space r with
  | nil =>
    cases h
    rfl
  | cons t tickets ih =>
    unfold checkTicket at h
    split at h
    · cases h
    · split at h
      · cases h
      · rename_i r' hr
        cases h
        have hrest := ih hr
        show outstanding ([t] ++ r'.tickets) = outstanding ([t] ++ tickets)
        rw [outstanding_append, outstanding_append, hrest]
    · rename_i space' shown hpunch
      have hinfo : ∀ nonce, t.info ≠ .check nonce := by
        intro nonce hcheck
        rw [hcheck] at hpunch
        cases arg with
        | check other => exact harg other rfl
        | srvc srvci => cases hpunch
        | conn other => cases hpunch
      rw [outstanding_cons_other hinfo]
      split at h
      · exact absurd rfl (harg _)
      · split at h
        · cases h
        · rename_i r' hr
          cases h
          show outstanding r'.tickets = outstanding tickets
          exact ih hr

end Vdht.Route
