import Vdht.Dht.RoundTrip
import Vdht.Route.Route

/-!
# Records from the network

When a record that came in a message may be passed to one of the spaces, and which strings of a
message lead to such a record. `be_unpack_buf` only bounds the length of the string from above,
so a string can be read that no encoder makes: it may be cut off anywhere, and its fields may
hold anything.
-/

namespace Vdht.Route

open Vdht.Core Dht Lib NodeId

/-- The record has at least one address, at most as many as there is room for, and was copied
from a string of exactly its size. -/
structure GoodNode (leaf : Option BeNode) (nodei : VnodeInfo) : Prop where
  pos : 1 ≤ nodei.naddrs
  le_max : nodei.naddrs ≤ MAX_ADDRS
  exact_size : ∃ s : BeStr, leaf = some (.str s) ∧ (s.bytes.length : Int) = vnodeInfoSize nodei

structure GoodSrvc (leaf : Option BeNode) (srvci : VsrvcInfo) : Prop where
  pos : 1 ≤ srvci.naddrs
  le_max : srvci.naddrs ≤ MAX_ADDRS
  exact_size : ∃ s : BeStr, leaf = some (.str s) ∧ (s.bytes.length : Int) = vsrvcInfoSize srvci
  types : ∀ a ∈ srvci.used, a.type < VSOCKADDR_BUTT

/-- What is passed to a space is good. -/
def GoodEvent : RouteEvent → Prop
  | .nodePassed leaf nodei => GoodNode leaf nodei
  | .srvcPassed leaf srvci => GoodSrvc leaf srvci
  | _ => True

/-- The string is what the encoder makes of a node info with an address. -/
def NodeImage (leaf : Option BeNode) : Prop :=
  ∃ (n : VnodeInfo) (h : _), n.Sendable ∧ 1 ≤ n.naddrs ∧
    leaf = some (bufNode (vnodeInfoFront n) h)

/-- The string is what the encoder makes of a service info with an address, all of them of a
type there is. -/
def SrvcImage (leaf : Option BeNode) : Prop :=
  ∃ (t : VsrvcInfo) (h : _), t.Sendable ∧ 1 ≤ t.naddrs ∧
    (∀ a ∈ t.used, a.type < VSOCKADDR_BUTT) ∧ leaf = some (bufNode (vsrvcInfoFront t) h)

/-- Reading a string that is not too long. -/
theorem unpack_str {n : Nat} {s : BeStr} {buf r : Block n} (hs : s.bytes.length ≤ n)
    (h : unpack (some (.str s)) buf = .ok r) : ∃ rest, r.data = s.bytes ++ rest := by
  obtain ⟨r', hr, hdata⟩ := @unpack_bytes n s.bytes buf s.short hs
  rw [show bufNode s.bytes s.short = .str s from rfl, h] at hr
  cases hr
  exact hdata

theorem goodNode_iff {leaf : Option BeNode} {r : Block RELAX_SIZE}
    (h : unpack leaf nodeRelaxBlock = .ok r) :
    GoodNode leaf (vnodeInfoOfBytes r.data) ↔ NodeImage leaf := by
  constructor
  · rintro ⟨hpos, hmax, s, rfl, hsize⟩
    have hmaxval : MAX_ADDRS = 12 := rfl
    have hlen : s.bytes.length ≤ RELAX_SIZE := by
      unfold vnodeInfoSize VNODEINFO_HEADER at hsize
      rw [RELAX_SIZE]
      omega
    obtain ⟨rest, hdata⟩ := unpack_str hlen h
    rw [hdata] at hpos hmax hsize
    obtain ⟨m, hm, hmpos, hs⟩ := exists_vnodeInfoFront rfl hsize hpos hmax
    refine ⟨m, hs ▸ s.short, hm, hmpos, ?_⟩
    simp only [bufNode, ← hs]
  · rintro ⟨n, hlt, hn, hpos, rfl⟩
    obtain ⟨r', hr, rest, hdata⟩ := @unpack_bytes RELAX_SIZE (vnodeInfoFront n) nodeRelaxBlock hlt
      (length_front_le hn (length_vnodeInfoHead n))
    rw [h] at hr
    cases hr
    have hsame := vnodeInfoOfBytes_front hn rest
    rw [hdata]
    refine ⟨?_, ?_, ⟨vnodeInfoFront n, hlt⟩, rfl, ?_⟩
    · rw [hsame.naddrs]
      exact hpos
    · rw [hsame.naddrs]
      exact hn.naddrs_le
    · unfold vnodeInfoSize
      rw [hsame.naddrs]
      exact hn.length_front (length_vnodeInfoHead n)

theorem goodSrvc_iff {leaf : Option BeNode} {r : Block RELAX_SIZE}
    (h : unpack leaf srvcRelaxBlock = .ok r) :
    GoodSrvc leaf (vsrvcInfoOfBytes r.data) ↔ SrvcImage leaf := by
  constructor
  · rintro ⟨hpos, hmax, ⟨s, rfl, hsize⟩, htypes⟩
    have hmaxval : MAX_ADDRS = 12 := rfl
    have hlen : s.bytes.length ≤ RELAX_SIZE := by
      unfold vsrvcInfoSize VSRVCINFO_HEADER at hsize
      rw [RELAX_SIZE]
      omega
    obtain ⟨rest, hdata⟩ := unpack_str hlen h
    rw [hdata] at hpos hmax hsize htypes
    obtain ⟨t, ht, htpos, hs⟩ := exists_vsrvcInfoFront rfl hsize hpos hmax
    refine ⟨t, hs ▸ s.short, ht, htpos, ?_, ?_⟩
    · rw [hs, (vsrvcInfoOfBytes_front ht rest).used] at htypes
      exact htypes
    · simp only [bufNode, ← hs]
  · rintro ⟨t, hlt, ht, hpos, htypes, rfl⟩
    obtain ⟨r', hr, rest, hdata⟩ := @unpack_bytes RELAX_SIZE (vsrvcInfoFront t) srvcRelaxBlock hlt
      (length_front_le ht (length_vsrvcInfoHead t))
    rw [h] at hr
    cases hr
    have hsame := vsrvcInfoOfBytes_front ht rest
    rw [hdata]
    refine ⟨?_, ?_, ⟨⟨vsrvcInfoFront t, hlt⟩, rfl, ?_⟩, ?_⟩
    · rw [hsame.naddrs]
      exact hpos
    · rw [hsame.naddrs]
      exact ht.naddrs_le
    · unfold vsrvcInfoSize
      rw [hsame.naddrs]
      exact ht.length_front (length_vsrvcInfoHead t)
    · rw [hsame.used]
      exact htypes

/-! ## Good records are sound -/

theorem GoodNode.wellFormed {leaf : Option BeNode} {s : List UInt8}
    (h : GoodNode leaf (vnodeInfoOfBytes s)) : (vnodeInfoOfBytes s).WellFormed := by
  refine ⟨h.pos, h.le_max, ?_⟩
  have hlen : (vnodeInfoOfBytes s).addrs.length = MAX_ADDRS.toNat := length_readAddrs _ _
  have hmax := h.le_max
  have hmaxval : MAX_ADDRS = 12 := rfl
  rw [hlen]
  omega

theorem GoodSrvc.wellFormed {leaf : Option BeNode} {s : List UInt8}
    (h : GoodSrvc leaf (vsrvcInfoOfBytes s)) : (vsrvcInfoOfBytes s).WellFormed := by
  refine ⟨h.pos, h.le_max, ?_, h.types⟩
  have hlen : (vsrvcInfoOfBytes s).addrs.length = MAX_ADDRS.toNat := length_readAddrs _ _
  have hmax := h.le_max
  have hmaxval : MAX_ADDRS = 12 := rfl
  rw [hlen]
  omega

end Vdht.Route
