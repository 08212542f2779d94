import Vdht.NodeId.MemoryRun
import Vdht.Node.OwnAddrs
import Vdht.Route.Lookup

/-!
# Where addresses come from

A record gets its addresses from a caller or from another record. So the addresses of the stored
nodes are addresses of the records that were added, and those of the records that leave the space
are addresses of the stored ones.
-/

namespace Vdht.Route

open NodeId Lib Node

/-- All addresses of the list are of `K`. -/
def AddrsIn (K : AddrKey → Prop) (l : List VsockaddrIn) : Prop := ∀ a ∈ l, K (addrKey a)

/-- A record that can be added, with addresses of `K`. -/
structure Known (K : AddrKey → Prop) (n : VnodeInfo) : Prop extends n.WellFormed where
  addrs : AddrsIn K n.used

section Records

variable {K : AddrKey → Prop}

theorem addrsIn_of_hasAddr {l m : List VsockaddrIn} (h : AddrsIn K l)
    (hsub : ∀ a, HasAddr m a → HasAddr l a) : AddrsIn K m := by
  intro a ha
  obtain ⟨b, hb, heq⟩ := hsub a.addr ⟨a, ha, vsockaddrEqual_refl _⟩
  have hkey : addrKey b = addrKey a := vsockaddrEqual_iff_key.mp heq
  exact hkey ▸ h b hb

theorem AddrsIn.cons {a : VsockaddrIn} {l : List VsockaddrIn} (ha : K (addrKey a))
    (h : AddrsIn K l) : AddrsIn K (a :: l) := by
  intro b hb
  rcases List.mem_cons.mp hb with rfl | hb
  · exact ha
  · exact h b hb

theorem addrsIn_putAddrs {rule : AddrRule} {l : List VsockaddrIn} (h : AddrsIn K l) :
    AddrsIn K (putAddrs rule [] l) := by
  refine addrsIn_of_hasAddr h fun a ha => ?_
  rcases hasAddr_putAddrs.mp ha with ⟨b, hb, -⟩ | ha
  · exact absurd hb List.not_mem_nil
  · exact ha

theorem addrsIn_putAddr {rule : AddrRule} {l : List VsockaddrIn} {addr : SockaddrIn}
    (type : UInt32) (h : AddrsIn K l) (ha : K addr.key) : AddrsIn K (putAddr rule l addr type) := by
  refine addrsIn_of_hasAddr (AddrsIn.cons (a := ⟨addr, type⟩) ha h) fun a hput => ?_
  rcases hasAddr_putAddr.mp hput with ⟨b, hb, heq⟩ | heq
  · exact ⟨b, List.mem_cons_of_mem _ hb, heq⟩
  · exact ⟨⟨addr, type⟩, List.mem_cons_self, heq⟩

theorem addrsIn_addAddr {b b' : AddrBlock} {addr : SockaddrIn} {type : UInt32} {r : Int}
    (hb : b.Sound nodeRule) (h : AddrsIn K b.used) (ha : K addr.key)
    (hadd : addAddr nodeRule b addr type = .ok (b', r)) : AddrsIn K b'.used := by
  rcases Int.lt_or_le b.naddrs MAX_ADDRS with hlt | hge
  · obtain ⟨c, r', hc, -, -, hused, -⟩ := @addAddr_ok nodeRule b hb hlt addr type rfl
    rw [hc] at hadd
    cases hadd
    rw [hused]
    exact addrsIn_putAddr type h ha
  · rw [@addAddr_full nodeRule b hge addr type rfl] at hadd
    cases hadd
    exact h

theorem addrsIn_mergeFake {src : List VsockaddrIn} {n : Nat} {b b' : AddrBlock} {updated : Bool}
    {r : Int} (hb : b.Sound nodeRule) (h : AddrsIn K b.used) (hsrc : AddrsIn K (src.take n))
    (hm : mergeFake src n b updated = .ok (b', r)) : AddrsIn K b'.used := by
  induction src generalizing n b updated with
  | nil =>
    cases n with
    | zero =>
      cases hm
      exact h
    | succ n => cases hm
  | cons a src ih =>
    cases n with
    | zero =>
      cases hm
      exact h
    | succ n =>
      have hhead : K (addrKey a) := hsrc a List.mem_cons_self
      have htail : AddrsIn K (src.take n) := fun x hx => hsrc x (List.mem_cons_of_mem a hx)
      unfold mergeFake at hm
      split at hm
      · cases hm
      · exact ih hb h htail hm
      · split at hm
        · cases hm
        · rename_i c r' hc
          have hin := addrsIn_addAddr hb h hhead hc
          split at hm
          · cases hm
            exact hin
          · exact ih (addAddr_keeps hb hc).1 hin htail hm

theorem addrsIn_copy {dest n d : VnodeInfo} {r : Int} (hdest : dest.Fitting) (hn : Known K n)
    (h : vnodeInfoCopy dest n = .ok (d, r)) : AddrsIn K d.used := by
  obtain ⟨d', r', hcopy, -, -, -, -, -, hused⟩ := vnodeInfoCopy_ok hdest hn.le_max hn.stored
  rw [hcopy] at h
  cases h
  rw [hused]
  exact addrsIn_putAddrs hn.addrs

theorem addrsIn_merge {dest n d : VnodeInfo} {r : Int} (hdest : dest.Sound)
    (hin : AddrsIn K dest.used) (hn : Known K n) (h : vnodeInfoMerge dest n = .ok (d, r)) :
    AddrsIn K d.used := by
  unfold vnodeInfoMerge at h
  split at h
  · cases h
    exact hin
  · split at h
    · split at h
      · cases h
      · rename_i b r' hm
        cases h
        exact addrsIn_mergeFake hdest hin hn.addrs hm
    · split at h
      · split at h
        · cases h
        · rename_i c r' hcopy
          cases h
          exact addrsIn_copy hdest.toFitting hn hcopy
      · rename_i hsame
        split at h
        · cases h
        · rename_i addrs updated hm
          cases h
          -- the list now has the addresses of the source, each in its place
          have hkeys := mergeSame_keys hm
          rw [ne_eq, not_not] at hsame
          intro a ha
          replace ha : a ∈ addrs.take n.naddrs.toNat := hsame ▸ ha
          have hmem : addrKey a ∈ (n.addrs.take n.naddrs.toNat).map addrKey :=
            hkeys ▸ List.mem_map_of_mem ha
          obtain ⟨b, hb, hkey⟩ := List.mem_map.mp hmem
          exact hkey ▸ hn.addrs b hb

theorem known_bumpWeight (space : NodeSpace) {n : VnodeInfo} (h : Known K n) :
    Known K (bumpWeight space n) := by
  refine ⟨bumpWeight_wellFormed space h.toWellFormed, ?_⟩
  have hused : (bumpWeight space n).used = n.used := by
    unfold bumpWeight
    split <;> rfl
  rw [hused]
  exact h.addrs

theorem addrsIn_reflexAddrs {old : List VsockaddrIn} (laddr : SockaddrIn) {eaddr : VsockaddrIn}
    (h : AddrsIn K old) (ha : K (addrKey eaddr)) : AddrsIn K (reflexAddrs old laddr eaddr) := by
  have hadded : AddrsIn K (withReported old eaddr) := by
    unfold withReported
    split
    · exact addrsIn_putAddr eaddr.type h ha
    · exact h
  unfold reflexAddrs
  split
  · exact h
  · intro a hmem
    obtain ⟨j, hj, rfl⟩ := List.mem_iff_getElem.mp hmem
    have hlt : j < (withReported old eaddr).length := by rwa [List.length_modify] at hj
    have hold := hadded _ (List.getElem_mem hlt)
    rw [List.getElem_modify]
    -- clearing a bit of the type leaves the address
    split
    · exact hold
    · exact hold

end Records

/-! ## The space -/

/-- A sound space whose peers have addresses of `K`. -/
structure NodeSpace.Sourced (K : AddrKey → Prop) (space : NodeSpace) : Prop where
  inv : space.Inv
  addrs : ∀ p ∈ space.peers, AddrsIn K p.nodei.used

/-- A node that is added has addresses of `K`. -/
def SpaceOp.Brings (K : AddrKey → Prop) : SpaceOp → Prop
  | .addNode nodei _ => Known K nodei
  | _ => True

section Space

variable {K : AddrKey → Prop}

theorem PeerStep.addrsIn {space : NodeSpace} {op : Int × SpaceOp} {p q : Vpeer}
    (h : PeerStep space op p q) (hop : op.2.Brings K) (hp : PeerOk p)
    (hin : AddrsIn K p.nodei.used) : AddrsIn K q.nodei.used := by
  cases h with
  | updated hu =>
    obtain ⟨d, hmerge, ⟨-, worst, -, rfl⟩ | ⟨-, rfl⟩⟩ := vpeerUpdate_cases hu
    · exact addrsIn_merge hp.1 hin (known_bumpWeight space hop) hmerge
    · exact addrsIn_merge hp.1 hin (known_bumpWeight space hop) hmerge
  | pinged now rand =>
    rw [pingPeer_nodei]
    exact hin
  | same | kicked | adjusted | probed => exact hin

theorem Enters.addrsIn {space : NodeSpace} {op : Int × SpaceOp} {q : Vpeer}
    (h : Enters space op q) (hop : op.2.Brings K) : AddrsIn K q.nodei.used := by
  cases h with
  | added flag hne hinit =>
    obtain ⟨d, r, worst, hcopy, -, rfl⟩ := vpeerInit_cases hinit
    exact addrsIn_copy fitting_vpeerAllocNodei (known_bumpWeight space hop) hcopy

/-- An operation that brings no other addresses succeeds and keeps the space. -/
theorem NodeSpace.Sourced.exec {space : NodeSpace} (h : space.Sourced K) {o : Int × SpaceOp}
    (ho : o.2.Brings K) : ∃ s, spaceExec space o = .ok s ∧ s.Sourced K := by
  have hadm : o.2.Admissible := by
    obtain ⟨now, op⟩ := o
    cases op with
    | addNode nodei flag => exact ho.toWellFormed
    | kickNode | adjustConnectivity | probeConnectivity | tick | clear => trivial
  obtain ⟨s, hs, hinv⟩ := spaceExec_ok h.inv o hadm
  refine ⟨s, hs, hinv, fun q hq => ?_⟩
  rcases (spaceExec_from hs).2 q hq with ⟨p, hp, hstep⟩ | henters
  · exact hstep.addrsIn ho (h.inv.peerOk hp) (h.addrs p hp)
  · exact henters.addrsIn ho

/-- A record that leaves the space. -/
theorem NodeSpace.Sourced.copied {space : NodeSpace} (h : space.Sourced K) {p : Vpeer}
    (hp : p ∈ space.peers) :
    ∃ d r, vnodeInfoCopy vnodeInfoRelax p.nodei = .ok (d, r) ∧ d.Sound ∧
      Known K (dropWeight space d) := by
  obtain ⟨hsound, hpos⟩ := h.inv.peerOk hp
  have hslots := hsound.slots
  have hle := hsound.naddrs_le
  have hwf : p.nodei.WellFormed := ⟨hpos, hsound.naddrs_le_max, by omega⟩
  obtain ⟨d, r, hcopy, -, hd, -, hdpos⟩ := vnodeInfoCopy_wellFormed fitting_relax hwf
  have hdslots := hd.slots
  have hdle := hd.naddrs_le
  have hdrop : (dropWeight space d).toAddrBlock = d.toAddrBlock := by
    unfold dropWeight
    split <;> rfl
  refine ⟨d, r, hcopy, hd, ⟨?_, ?_, ?_⟩, ?_⟩
  · rw [hdrop]
    exact hdpos
  · rw [hdrop]
    exact hd.naddrs_le_max
  · rw [hdrop]
    omega
  · rw [hdrop]
    exact addrsIn_copy fitting_relax ⟨hwf, h.addrs p hp⟩ hcopy

end Space

end Vdht.Route
