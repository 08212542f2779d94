import Vdht.Route.Peers
import Vdht.Route.Tickets

/-!
# Known versions

The node space knows an id with a version when a record with this id carries this version and
the version is not the unknown one. Only `add_node` can teach the space an id with a version,
and only the one of the record that is added; merging a fake record keeps the stored version.
-/

namespace Vdht.Route

open NodeId Lib

def NodeSpace.Knows (space : NodeSpace) (id ver : Token) : Prop :=
  ver ≠ vnodeVerUnknown ∧ ∃ p ∈ space.peers, p.nodei.id = id ∧ p.nodei.ver = ver

/-- What a space may learn from `nodei`. -/
def Taught (nodei : VnodeInfo) (id ver : Token) : Prop := nodei.id = id ∧ nodei.ver = ver

/-! ## Peers -/

/-- The id and the version of a merged record both come from the stored or from the new one. -/
theorem vnodeInfoMerge_from {dest src d : VnodeInfo} {r : Int}
    (h : vnodeInfoMerge dest src = .ok (d, r)) :
    (d.id = dest.id ∧ d.ver = dest.ver) ∨ (d.id = src.id ∧ d.ver = src.ver) := by
  unfold vnodeInfoMerge at h
  split at h
  · cases h
    exact Or.inl ⟨rfl, rfl⟩
  · rename_i hid
    rw [Bool.not_eq_false, vtokenEqual_iff] at hid
    split at h
    · split at h
      · cases h
      · cases h
        exact Or.inl ⟨rfl, rfl⟩
    · split at h
      · split at h
        · cases h
        · rename_i c r' hc
          cases h
          exact Or.inr (vnodeInfoCopy_ids hc)
      · split at h
        · cases h
        · cases h
          exact Or.inr ⟨hid, rfl⟩

theorem vpeerUpdate_from {space : NodeSpace} {p q : Vpeer} {nodei : VnodeInfo} {flag : AddFlag}
    {now ret : Int} (h : vpeerUpdate space p nodei flag now = .ok (q, ret)) :
    (q.nodei.id = p.nodei.id ∧ q.nodei.ver = p.nodei.ver) ∨
      (q.nodei.id = nodei.id ∧ q.nodei.ver = nodei.ver) := by
  obtain ⟨d, hmerge, ⟨-, worst, -, rfl⟩ | ⟨-, rfl⟩⟩ := vpeerUpdate_cases h
  · exact vnodeInfoMerge_from hmerge
  · exact vnodeInfoMerge_from hmerge

theorem vpeerInit_from {space : NodeSpace} {q : Vpeer} {nodei : VnodeInfo} {now : Int}
    (h : vpeerInit space nodei now = .ok q) :
    q.nodei.id = nodei.id ∧ q.nodei.ver = nodei.ver := by
  obtain ⟨d, r, worst, hcopy, -, rfl⟩ := vpeerInit_cases h
  exact vnodeInfoCopy_ids hcopy

theorem bumpWeight_taught {space : NodeSpace} {nodei : VnodeInfo} {id ver : Token}
    (h : Taught (bumpWeight space nodei) id ver) : Taught nodei id ver := by
  unfold bumpWeight at h
  split at h
  · exact h
  · exact h

/-- What `add_node` adds, when the operation is one. -/
def addedNode : SpaceOp → Option VnodeInfo
  | .addNode nodei _ => some nodei
  | _ => none

/-- A peer keeps its id and its version or takes those of the record that is added. -/
theorem PeerStep.taught {space : NodeSpace} {op : Int × SpaceOp} {p q : Vpeer}
    (h : PeerStep space op p q) :
    (q.nodei.id = p.nodei.id ∧ q.nodei.ver = p.nodei.ver) ∨
      ∃ nodei, addedNode op.2 = some nodei ∧ Taught nodei q.nodei.id q.nodei.ver := by
  cases h with
  | same => exact Or.inl ⟨rfl, rfl⟩
  | updated hu =>
    rcases vpeerUpdate_from hu with hsame | ⟨hid, hver⟩
    · exact Or.inl hsame
    · exact Or.inr ⟨_, rfl, bumpWeight_taught ⟨hid.symm, hver.symm⟩⟩
  | kicked => exact Or.inl ⟨rfl, rfl⟩
  | adjusted => exact Or.inl ⟨rfl, rfl⟩
  | probed => exact Or.inl ⟨rfl, rfl⟩
  | pinged =>
    rw [pingPeer_nodei]
    exact Or.inl ⟨rfl, rfl⟩

/-! ## Operations -/

theorem SpaceFrom.knows {space s : NodeSpace} {op : Int × SpaceOp} (h : SpaceFrom op space s)
    {id ver : Token} (hk : s.Knows id ver) :
    space.Knows id ver ∨ ∃ nodei, addedNode op.2 = some nodei ∧ Taught nodei id ver := by
  obtain ⟨hver, q, hq, rfl, rfl⟩ := hk
  rcases h.2 q hq with ⟨p, hp, hpq⟩ | hent
  · rcases hpq.taught with ⟨hid, hpv⟩ | ht
    · exact Or.inl ⟨hver, p, hp, hid.symm, hpv.symm⟩
    · exact Or.inr ht
  · cases hent with
    | added flag hne hinit =>
      obtain ⟨hid, hqv⟩ := vpeerInit_from hinit
      exact Or.inr ⟨_, rfl, bumpWeight_taught ⟨hid.symm, hqv.symm⟩⟩

theorem addNode_knows {space s : NodeSpace} {nodei : VnodeInfo} {flag : AddFlag} {now : Int}
    (h : addNode space nodei flag now = .ok s) {id ver : Token} (hk : s.Knows id ver) :
    space.Knows id ver ∨ Taught nodei id ver := by
  rcases (addNode_from h).knows hk with hold | ⟨n, hn, ht⟩
  · exact Or.inl hold
  · cases hn
    exact Or.inr ht

/-- The other operations teach nothing. -/
theorem SpaceFrom.knows_same {space s : NodeSpace} {op : Int × SpaceOp}
    (h : SpaceFrom op space s) (hop : addedNode op.2 = none) {id ver : Token}
    (hk : s.Knows id ver) : space.Knows id ver := by
  rcases h.knows hk with hold | ⟨n, hn, -⟩
  · exact hold
  · rw [hop] at hn
    cases hn

theorem kickNode_knows {space : NodeSpace} {kicked id ver : Token} {now : Int}
    (h : (kickNode space kicked now).1.Knows id ver) : space.Knows id ver :=
  (kickNode_from space kicked now).knows_same rfl h

theorem adjustConnectivity_knows {space : NodeSpace} {target id ver : Token} {conn : VnodeConn}
    (h : (adjustConnectivity space target conn).Knows id ver) : space.Knows id ver :=
  (adjustConnectivity_from space target conn 0).knows_same rfl h

theorem probeConnectivity_knows {space s : NodeSpace} {laddr : VsockaddrIn}
    {calls : List DhtCall} (h : probeConnectivity space laddr = .ok (s, calls)) {id ver : Token}
    (hk : s.Knows id ver) : space.Knows id ver :=
  (probeConnectivity_from 0 h).knows_same rfl hk

theorem nodeSpaceTick_knows {space s : NodeSpace} {rand : Fin NBUCKETS → Nat} {now : Int}
    {calls : List DhtCall} (h : nodeSpaceTick space rand now = .ok (s, calls)) {id ver : Token}
    (hk : s.Knows id ver) : space.Knows id ver :=
  (nodeSpaceTick_from h).knows_same rfl hk

/-! ## Tickets -/

theorem vticketPunch_knows {space s : NodeSpace} {info : TicketInfo} {arg : TicketArg}
    {shown : List Shown} (h : vticketPunch space info arg = .ok (some (s, shown)))
    {id ver : Token} (hk : s.Knows id ver) : space.Knows id ver := by
  unfold vticketPunch at h
  split at h
  · split at h
    · cases h
      exact hk
    · cases h
  · split at h
    · split at h
      · cases h
      · cases h
        exact hk
    · cases h
  · split at h
    · cases h
      exact adjustConnectivity_knows hk
    · cases h
  · cases h

theorem checkTicket_knows {arg : TicketArg} {tickets : List Ticket} {space : NodeSpace}
    {r : Checked} (h : checkTicket arg tickets space = .ok r) {id ver : Token}
    (hk : r.space.Knows id ver) : space.Knows id ver := by
  induction tickets generalizing space r with
  | nil =>
    cases h
    exact hk
  | cons t tickets ih =>
    unfold checkTicket at h
    split at h
    · cases h
    · split at h
      · cases h
      · rename_i r' hr
        cases h
        exact ih hr hk
    · rename_i space' shown hpunch
      apply vticketPunch_knows hpunch
      split at h
      · cases h
        exact hk
      · split at h
        · cases h
        · rename_i r' hr
          cases h
          exact ih hr hk

end Vdht.Route
