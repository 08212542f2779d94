import Vdht.Node.Locks
import Vdht.Lib.Run

/-!
# Starting and stopping a host

A start and a stop only record what is to be done in the mode of the node; the timer does it. Both
return success in every mode. A stop is recorded whenever the node is not offline, a start only
when it is, so a start that meets a node on its way down is forgotten, and no other request is.

What `upnpDiscover` and the port mapping find and the clock are inputs. All of this happens under
the lock of the node, so requests and ticks take turns.
-/

namespace Vdht.Host

open Node Lib

/-! ## The port mapper -/

/-- The states of the UPnP client: not set up, set up, and with a gateway that it can use. -/
inductive UpnpcState where
  | raw
  | ready
  | active
deriving DecidableEq, Repr

/-- `_vupnpc_setup`; `igd` says whether a valid device was found. -/
def vupnpcSetup (state : UpnpcState) (igd : Bool) : UpnpcState × Int :=
  if state ≠ .raw then (state, -1)
  else if igd then (.ready, 0)
  else (.raw, 0)

/-- `_vupnpc_shutdown`: from any state the client is not set up then. -/
def vupnpcShutdown (_ : UpnpcState) : UpnpcState := .raw

/-- `_vupnpc_workable`: the client is set up or can use its gateway. -/
def vupnpcWorkable (state : UpnpcState) : Bool := state = .ready ∨ state = .active

/-! ## The node -/

/-- The part of the node that its start, its stop and its timer look at: its mode, the UPnP client,
and when it last ticked and wrote its tables back. -/
structure NodeState where
  mode : VnodeMode
  upnpc : UpnpcState
  tick_ts : Int
  tick_tmo : Int
  wb_ts : Int
  wb_tmo : Int

/-- What the timer callback has the other modules do. -/
inductive NodeCall where
  | load
  | getBootNodes
  | getUaddrs
  | getEaddrs
  | renice
  | tick
  | store
  | routeTick
deriving DecidableEq, Repr

/-- `_vnode_start`: a node that is off is set up and goes up; in any other mode nothing happens.
`igd` says whether a gateway is found. -/
def vnodeStart (node : NodeState) (igd : Bool) : NodeState × Int :=
  if node.mode ≠ .off then (node, 0)
  else ({ node with upnpc := (vupnpcSetup node.upnpc igd).1, mode := .up }, 0)

/-- `_vnode_stop`: a node that is not off, and has not failed, goes down with its UPnP client shut
down. -/
def vnodeStop (node : NodeState) : NodeState × Int :=
  if node.mode = .off ∨ node.mode = .err then (node, 0)
  else ({ node with upnpc := vupnpcShutdown node.upnpc, mode := .down }, 0)

/-- `_aux_node_tick_cb`; `mapped` says whether a port could be mapped. -/
def auxNodeTickCb (node : NodeState) (now : Int) (mapped : Bool) : NodeState × List NodeCall :=
  match node.mode with
  | .off => (node, [])
  | .err => (node, [])
  | .up =>
    ({ node with
        upnpc := if vupnpcWorkable node.upnpc ∧ mapped then .active else node.upnpc
        tick_ts := now
        wb_ts := now
        mode := .run },
      [.load, .getBootNodes, .getUaddrs, .getEaddrs])
  | .run =>
    let tickDue := node.tick_ts + node.tick_tmo < now
    let wbDue := node.wb_ts + node.wb_tmo < now
    ({ node with
        tick_ts := if tickDue then now else node.tick_ts
        wb_ts := if wbDue then now else node.wb_ts },
      (if tickDue then [.renice, .tick] else []) ++ (if wbDue then [.store] else []) ++
        [.routeTick])
  | .down => ({ node with mode := .off }, [.store])

/-! ## The host -/

/-- `_vhost_start`, which starts the node and says whether that failed. -/
def vhostStart (node : NodeState) (igd : Bool) : NodeState × Int :=
  match vnodeStart node igd with
  | (node, ret) => if ret < 0 then (node, -1) else (node, 0)

/-- `_vhost_stop`, which stops the node and says whether that failed. -/
def vhostStop (node : NodeState) : NodeState × Int :=
  match vnodeStop node with
  | (node, ret) => if ret < 0 then (node, -1) else (node, 0)

/-- What a user asks of the host. -/
inductive Request where
  | start
  | stop
deriving DecidableEq, Repr

/-- What can happen to a host: a request of a user, or a tick of its timer with the time and whether
the ports get mapped. -/
inductive HostEvent where
  | start (igd : Bool)
  | stop
  | tick (now : Int) (mapped : Bool)

/-- A node and the last request that returned success, with the mode it met. -/
structure HostRun where
  node : NodeState
  last : Option (Request × VnodeMode)

/-- The request that was made of `s`, and what it left and returned. -/
def HostRun.answer (s : HostRun) (r : Request) (res : NodeState × Int) : HostRun × Int :=
  (⟨res.1, if res.2 = 0 then some (r, s.node.mode) else s.last⟩, res.2)

/-- An event of the host, with what a request returns and a note of the requests that were answered.
-/
def hostStep (s : HostRun) : HostEvent → HostRun × Int
  | .start igd => s.answer .start (vhostStart s.node igd)
  | .stop => s.answer .stop (vhostStop s.node)
  | .tick now mapped => ({ s with node := (auxNodeTickCb s.node now mapped).1 }, 0)

/-- A node that is offline. -/
def hostInit (tickTmo wbTmo : Int) : HostRun := ⟨⟨.off, .raw, 0, tickTmo, 0, wbTmo⟩, none⟩

/-- The events of a list, one after the other. -/
def hostRun (s : HostRun) (events : List HostEvent) : HostRun := specRun hostStep s events

/-- The mode the last accepted request asks for. -/
def HostRun.wanted (s : HostRun) : VnodeMode :=
  match s.last with
  | some (.start, _) => .run
  | _ => .off

/-! ## One event -/

/-- The mode after a tick. -/
def afterTick : VnodeMode → VnodeMode
  | .off => .off
  | .up => .run
  | .run => .run
  | .down => .off
  | .err => .err

/-- Where the mode goes when the last accepted request is the given one. -/
def heads : Option (Request × VnodeMode) → VnodeMode
  | some (.start, .down) => .off
  | some (.start, _) => .run
  | _ => .off

theorem auxNodeTickCb_mode (node : NodeState) (now : Int) (mapped : Bool) :
    (auxNodeTickCb node now mapped).1.mode = afterTick node.mode := by
  unfold auxNodeTickCb
  cases hm : node.mode with
  | off => exact hm
  | up => rfl
  | run => rfl
  | down => rfl
  | err => exact hm

theorem vhostStart_eq (node : NodeState) (igd : Bool) :
    (vhostStart node igd).2 = 0 ∧
      (vhostStart node igd).1.mode = if node.mode = .off then .up else node.mode := by
  unfold vhostStart vnodeStart
  by_cases h : node.mode = .off
  · rw [if_neg (not_not.mpr h), if_pos h]
    exact ⟨rfl, rfl⟩
  · rw [if_pos h, if_neg h]
    exact ⟨rfl, rfl⟩

theorem vhostStop_eq (node : NodeState) :
    (vhostStop node).2 = 0 ∧ (vhostStop node).1.mode =
      if node.mode = .off ∨ node.mode = .err then node.mode else .down := by
  unfold vhostStop vnodeStop
  by_cases h : node.mode = .off ∨ node.mode = .err
  · rw [if_pos h, if_pos h]
    exact ⟨rfl, rfl⟩
  · rw [if_neg h, if_neg h]
    exact ⟨rfl, rfl⟩

/-- The mode is on its way to where the last accepted request leads. -/
structure HostRun.OnItsWay (s : HostRun) : Prop where
  sane : s.node.mode ≠ .err
  heads : afterTick s.node.mode = heads s.last

theorem hostStep_onItsWay (s : HostRun) (e : HostEvent) (h : s.OnItsWay) :
    (hostStep s e).1.OnItsWay := by
  obtain ⟨hsane, hheads⟩ := h
  cases e with
  | start igd =>
    obtain ⟨hret, hmode⟩ := vhostStart_eq s.node igd
    refine ⟨?_, ?_⟩
    · show (vhostStart s.node igd).1.mode ≠ .err
      rw [hmode]
      split
      · exact VnodeMode.noConfusion
      · exact hsane
    · show afterTick (vhostStart s.node igd).1.mode =
        Host.heads (if (vhostStart s.node igd).2 = 0 then _ else _)
      rw [hmode, if_pos hret]
      cases hm : s.node.mode with
      | off => rfl
      | up => rfl
      | run => rfl
      | down => rfl
      | err => exact absurd hm hsane
  | stop =>
    obtain ⟨hret, hmode⟩ := vhostStop_eq s.node
    refine ⟨?_, ?_⟩
    · show (vhostStop s.node).1.mode ≠ .err
      rw [hmode]
      split
      · exact hsane
      · exact VnodeMode.noConfusion
    · show afterTick (vhostStop s.node).1.mode =
        Host.heads (if (vhostStop s.node).2 = 0 then _ else _)
      rw [hmode, if_pos hret]
      cases hm : s.node.mode with
      | off => rfl
      | up => rfl
      | run => rfl
      | down => rfl
      | err => exact absurd hm hsane
  | tick now mapped =>
    have hmode := auxNodeTickCb_mode s.node now mapped
    refine ⟨?_, ?_⟩
    · show (auxNodeTickCb s.node now mapped).1.mode ≠ .err
      rw [hmode]
      cases hm : s.node.mode with
      | err => exact absurd hm hsane
      | _ => exact VnodeMode.noConfusion
    · show afterTick (auxNodeTickCb s.node now mapped).1.mode = Host.heads s.last
      rw [hmode, ← hheads]
      cases s.node.mode <;> rfl

/-! ## Runs -/

theorem hostRun_onItsWay (tickTmo wbTmo : Int) (events : List HostEvent) :
    (hostRun (hostInit tickTmo wbTmo) events).OnItsWay :=
  specRun_invariant (P := fun _ => True) (fun s e hs _ => hostStep_onItsWay s e hs)
    ⟨VnodeMode.noConfusion, rfl⟩ fun _ _ => trivial

/-- Ticks leave the last request as it is, and one of them is enough. -/
theorem hostRun_ticks (s : HostRun) (t : Int × Bool) (later : List (Int × Bool)) :
    (hostRun s ((t :: later).map fun t => .tick t.1 t.2)).last = s.last ∧
      (hostRun s ((t :: later).map fun t => .tick t.1 t.2)).node.mode =
        afterTick s.node.mode := by
  have hidem : ∀ m, afterTick (afterTick m) = afterTick m := by
    rintro (_ | _ | _ | _ | _) <;> rfl
  induction later generalizing s t with
  | nil => exact ⟨rfl, auxNodeTickCb_mode s.node t.1 t.2⟩
  | cons u later ih =>
    obtain ⟨hlast, hmode⟩ := ih (hostStep s (.tick t.1 t.2)).1 u
    refine ⟨hlast, hmode.trans ?_⟩
    show afterTick (auxNodeTickCb s.node t.1 t.2).1.mode = _
    rw [auxNodeTickCb_mode, hidem]

theorem hostRun_append (s : HostRun) (es fs : List HostEvent) :
    hostRun s (es ++ fs) = hostRun (hostRun s es) fs := List.foldl_append

/-- Whatever the users asked for and whenever the timer ticked: when at least two more ticks follow
and nobody asks for anything, the node is in the mode that the last accepted request asks for,
unless this was a start that met the node on its way down. -/
theorem hostRun_settles_iff (tickTmo wbTmo : Int) (events : List HostEvent) (t₁ t₂ : Int × Bool)
    (later : List (Int × Bool)) :
    (hostRun (hostInit tickTmo wbTmo)
        (events ++ (t₁ :: t₂ :: later).map fun t => .tick t.1 t.2)).node.mode =
      (hostRun (hostInit tickTmo wbTmo)
        (events ++ (t₁ :: t₂ :: later).map fun t => .tick t.1 t.2)).wanted ↔
    (hostRun (hostInit tickTmo wbTmo) events).last ≠ some (.start, .down) := by
  obtain ⟨hsane, hheads⟩ := hostRun_onItsWay tickTmo wbTmo events
  rw [hostRun_append]
  generalize hostRun (hostInit tickTmo wbTmo) events = s at hheads
  obtain ⟨hlast, hmode⟩ := hostRun_ticks s t₁ (t₂ :: later)
  unfold HostRun.wanted
  rw [hlast, hmode, hheads]
  rcases s.last with _ | ⟨_ | _, _ | _ | _ | _ | _⟩ <;> simp [heads]

/-- The node runs, is stopped and is started again before the timer has taken it down. -/
theorem start_lost :
    (hostRun (hostInit 5 60) [.start true, .tick 1 true, .stop, .start true, .tick 2 true,
        .tick 3 true]).last = some (.start, .down) ∧
      (hostRun (hostInit 5 60) [.start true, .tick 1 true, .stop, .start true, .tick 2 true,
        .tick 3 true]).node.mode = .off := by
  exact ⟨rfl, rfl⟩

end Vdht.Host
