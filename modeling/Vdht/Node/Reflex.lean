import Vdht.NodeId.NodeInfo

/-!
# The own node

What `vnode.c` keeps about the node itself, and how a reflexive address is taken in. The upper
bits of the type of an own address say what is still to be done about it. The first report that
`_aux_node_reflex_NAT` remembers lives in a static variable, which is a field here.
-/

namespace Vdht.Node

open NodeId

/-- The part of the node that a report of an external address looks at: its record, whether it is
behind a symmetric NAT, and what it has been told first. -/
structure Vnode where
  nodei : VnodeInfo
  is_symm_nat : Bool
  /-- the local and external address of the first report, once there is one -/
  nat_data : Option (SockaddrIn × SockaddrIn)

/-- The bit of an address that is to be reflected. -/
def NEED_REFLEX : UInt32 := 17

/-- The address is to be reflected. -/
def needReflex (mask : UInt32) : Bool := mask &&& (1 <<< NEED_REFLEX) ≠ 0

/-- The mark is taken away, and the rest of the type stays. -/
def clearReflex (mask : UInt32) : UInt32 := mask &&& ~~~(1 <<< NEED_REFLEX)

/-- `_aux_node_reflex_NAT` -/
def auxNodeReflexNAT (node : Vnode) (laddr eaddr : SockaddrIn) : Vnode :=
  if vsockaddrIsPublic eaddr = false then node
  else
    match node.nat_data with
    | none => { node with nat_data := some (laddr, eaddr) }
    | some (dataLaddr, dataEaddr) =>
      if vsockaddrEqual dataLaddr laddr = false then node
      else if vsockaddrEqual dataEaddr eaddr = false then { node with is_symm_nat := true }
      else node

/-- The position of the first address, from `i` on, that equals `laddr` and awaits a reflexive
address; `n` more addresses are in use. -/
def findReflex (laddr : SockaddrIn) : List VsockaddrIn → Nat → Nat → Res (Option Nat)
  | _, _, 0 => .ok none
  | [], _, _ + 1 => .error .bounds
  | a :: addrs, i, n + 1 =>
    if needReflex a.type = false then findReflex laddr addrs (i + 1) n
    else if vsockaddrEqual laddr a.addr = false then findReflex laddr addrs (i + 1) n
    else .ok (some i)

/-- `_vnode_reflex_addr`: the NAT is looked at, and when the local address waits for a report the
external one is added to the record. -/
def vnodeReflexAddr (node : Vnode) (laddr : SockaddrIn) (eaddr : VsockaddrIn) : Res Vnode :=
  let node := auxNodeReflexNAT node laddr eaddr.addr
  match findReflex laddr node.nodei.addrs 0 node.nodei.naddrs.toNat with
  | .error e => .error e
  | .ok none => .ok node
  | .ok (some i) =>
    match vnodeInfoAddAddr node.nodei eaddr.addr eaddr.type with
    | .error e => .error e
    | .ok (nodei, _) =>
      match getSlot nodei.addrs i with
      | .error e => .error e
      | .ok a =>
        match setSlot nodei.addrs i { a with type := clearReflex a.type } with
        | .error e => .error e
        | .ok addrs => .ok { node with nodei := { nodei with addrs := addrs } }

end Vdht.Node
