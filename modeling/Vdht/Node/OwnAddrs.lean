import Mathlib.Data.List.Pairwise
import Vdht.Node.Reflex

/-!
# Reports about own addresses

`_vnode_reflex_addr` looks for the own address that a report is about, adds the reported address and
then clears a bit of the entry at the index it found. The insertion may have moved the entry away
from that index, and it may have replaced the type of a known address together with the work that
was pending for it.
-/

namespace Vdht.Node

open NodeId

variable {node : Vnode} {laddr : SockaddrIn} {eaddr a : VsockaddrIn} {old l r : List VsockaddrIn}

/-! ## What a report does to the list -/

/-- The entry is about `laddr` and waits for a reflexive address. -/
def awaits (laddr : SockaddrIn) (a : VsockaddrIn) : Bool :=
  needReflex a.type && vsockaddrEqual laddr a.addr

/-- The address without the mark that it is to be reflected. -/
def clearEntry (a : VsockaddrIn) : VsockaddrIn := { a with type := clearReflex a.type }

/-- The list with the reported address, unless it is full. -/
def withReported (old : List VsockaddrIn) (eaddr : VsockaddrIn) : List VsockaddrIn :=
  if old.length < MAX_ADDRS then putAddr nodeRule old eaddr.addr eaddr.type else old

/-- The list after a report. -/
def reflexAddrs (old : List VsockaddrIn) (laddr : SockaddrIn) (eaddr : VsockaddrIn) :
    List VsockaddrIn :=
  match old.findIdx? (awaits laddr) with
  | none => old
  | some i => (withReported old eaddr).modify i clearEntry

theorem findReflex_eq {addrs : List VsockaddrIn} {i n : Nat} (hn : n ≤ addrs.length) :
    findReflex laddr addrs i n =
      .ok (((addrs.take n).findIdx? (awaits laddr)).map (i + ·)) := by
  induction addrs generalizing i n with
  | nil =>
    obtain rfl : n = 0 := Nat.le_zero.mp hn
    rfl
  | cons a addrs ih =>
    cases n with
    | zero => rfl
    | succ n =>
      have hstep : findReflex laddr (a :: addrs) i (n + 1) =
          if awaits laddr a then .ok (some i) else findReflex laddr addrs (i + 1) n := by
        rw [findReflex, awaits]
        cases needReflex a.type <;> cases vsockaddrEqual laddr a.addr <;> rfl
      rw [hstep, List.take_succ_cons, List.findIdx?_cons]
      cases awaits laddr a with
      | true => rfl
      | false =>
        rw [if_neg Bool.false_ne_true, if_neg Bool.false_ne_true,
          ih (Nat.le_of_succ_le_succ hn), Option.map_map]
        congr 2
        funext j
        simp only [Function.comp_apply]
        omega

theorem auxNodeReflexNAT_nodei (node : Vnode) (laddr eaddr : SockaddrIn) :
    (auxNodeReflexNAT node laddr eaddr).nodei = node.nodei := by
  rw [auxNodeReflexNAT]
  split
  · rfl
  · split
    · rfl
    · split
      · rfl
      · split <;> rfl

/-- What adding the reported address does to a record, full or not. -/
theorem addReported (h : node.nodei.Sound) (eaddr : VsockaddrIn) :
    ∃ n r, vnodeInfoAddAddr node.nodei eaddr.addr eaddr.type = .ok (n, r) ∧ n.Sound ∧
      n.used = withReported node.nodei.used eaddr := by
  have hlen := h.length_used
  rw [vnodeInfoAddAddr, withReported, hlen]
  rcases Int.lt_or_le node.nodei.naddrs MAX_ADDRS with hlt | hge
  · obtain ⟨b, r, hadd, -, hb, hused, -⟩ := @addAddr_ok nodeRule _ h hlt eaddr.addr eaddr.type rfl
    rw [hadd, if_pos hlt]
    exact ⟨{ node.nodei with toAddrBlock := b }, r, rfl, hb, hused⟩
  · rw [@addAddr_full nodeRule _ hge eaddr.addr eaddr.type rfl, if_neg (by omega)]
    exact ⟨node.nodei, -1, rfl, h, rfl⟩

theorem length_withReported (old : List VsockaddrIn) (eaddr : VsockaddrIn) :
    old.length ≤ (withReported old eaddr).length := by
  rw [withReported]
  split
  · rw [putAddr]
    split
    · rename_i hfind
      rw [length_findAddr hfind]
    · rw [(insertAddr_perm _ _ _).length_eq]
      exact Nat.le_succ _
  · exact Nat.le_refl _

/-- A report never fails, leaves a sound record and changes its list as `reflexAddrs` does. -/
theorem vnodeReflexAddr_eq (h : node.nodei.Sound) (laddr : SockaddrIn) (eaddr : VsockaddrIn) :
    ∃ n, vnodeReflexAddr node laddr eaddr =
        .ok { auxNodeReflexNAT node laddr eaddr.addr with nodei := n } ∧
      n.Sound ∧ n.used = reflexAddrs node.nodei.used laddr eaddr := by
  have hslots := h.slots
  have hle := h.naddrs_le
  have hfind := @findReflex_eq laddr node.nodei.addrs 0 node.nodei.naddrs.toNat (by omega)
  have hsame : (Option.map (0 + ·) : Option Nat → Option Nat) = id := by
    funext o
    cases o <;> simp
  rw [hsame, id_eq] at hfind
  have hnodei := auxNodeReflexNAT_nodei node laddr eaddr.addr
  rw [vnodeReflexAddr, reflexAddrs, AddrBlock.used]
  simp only [hnodei, hfind]
  cases hidx : (node.nodei.addrs.take node.nodei.naddrs.toNat).findIdx? (awaits laddr) with
  | none => exact ⟨node.nodei, by rw [← hnodei], h, rfl⟩
  | some i =>
    obtain ⟨n, ret, hadd, hn, hused⟩ := addReported h eaddr
    have hi : i < node.nodei.used.length := (List.findIdx?_eq_some_iff_findIdx_eq.mp hidx).1
    have hin : i < n.used.length := by
      rw [hused]
      exact Nat.lt_of_lt_of_le hi (length_withReported _ _)
    have hinn : i < n.naddrs.toNat := by
      have hlen := hn.length_used
      omega
    have hia : i < n.addrs.length := by
      rw [AddrBlock.used, List.length_take] at hin
      omega
    dsimp only
    rw [hadd]
    dsimp only
    rw [getSlot_ok hia]
    dsimp only
    rw [setSlot_ok hia]
    refine ⟨_, rfl, ⟨⟨hn.capc_nonneg, hn.capc_le, hn.capc_dvd, ?_⟩, hn.naddrs_nonneg,
      hn.naddrs_le⟩, ?_⟩
    · show ((n.addrs.set i _).length : Int) = _
      rw [List.length_set]
      exact hn.slots
    · show (n.addrs.set i _).take n.naddrs.toNat = _
      have hset : n.addrs.set i { n.addrs[i] with type := clearReflex n.addrs[i].type } =
          n.addrs.modify i clearEntry := by
        rw [List.modify_eq_take_cons_drop hia, List.set_eq_take_append_cons_drop, if_pos hia]
        rfl
      rw [hset, List.take_modify]
      exact congrArg (List.modify · i clearEntry) hused

/-! ## The pending work of an entry -/

/-- The bit of an address whose port is to be mapped. -/
def NEED_PORTMAP : UInt32 := 16

/-- The bit of an address that is to be probed. -/
def NEED_PROBE : UInt32 := 18

/-- The bits of a type that say what is still to be done. -/
def pendingBits (type : UInt32) : UInt32 :=
  type &&& (1 <<< NEED_PORTMAP ||| 1 <<< NEED_REFLEX ||| 1 <<< NEED_PROBE)

theorem needReflex_clearReflex (type : UInt32) : needReflex (clearReflex type) = false := by
  have hzero : clearReflex type &&& (1 <<< NEED_REFLEX) = 0 := by
    rw [clearReflex, UInt32.and_assoc, UInt32.not_and_self, UInt32.and_zero]
  rw [needReflex, hzero]
  rfl

/-- Some entry is about `laddr` and waits for a reflexive address. -/
def Awaited (old : List VsockaddrIn) (laddr : SockaddrIn) : Prop := ∃ a ∈ old, awaits laddr a = true

/-- What a report has to do to the list when it was awaited. -/
structure Taken (old new : List VsockaddrIn) (laddr : SockaddrIn) (eaddr : VsockaddrIn) : Prop where
  cleared : ∀ a ∈ new, vsockaddrEqual laddr a.addr = true → needReflex a.type = false
  pending : ∀ a ∈ old, vsockaddrEqual laddr a.addr = false →
    ∀ b ∈ new, vsockaddrEqual a.addr b.addr = true → pendingBits b.type = pendingBits a.type
  kept : ∀ a ∈ old, HasAddr new a.addr
  added : HasAddr new eaddr.addr ∨ (old.length : Int) = MAX_ADDRS

theorem eq_of_distinct {a b : VsockaddrIn} (hd : DistinctAddrs old) (ha : a ∈ old) (hb : b ∈ old)
    (hab : vsockaddrEqual a.addr b.addr = true) : a = b := by
  have hpairs : old.Pairwise fun x y => vsockaddrEqual x.addr y.addr = true → x = y := by
    refine hd.imp fun hne heq => ?_
    rw [hne] at heq
    cases heq
  have : Std.Symm fun x y : VsockaddrIn => vsockaddrEqual x.addr y.addr = true → x = y :=
    ⟨fun x y h heq => (h (vsockaddrEqual_symm heq)).symm⟩
  exact List.Pairwise.forall_of_forall (fun _ _ _ => rfl) hpairs ha hb hab

/-- The entry that is found, with the others, which are about other addresses. -/
theorem awaited_split (hd : DistinctAddrs old) (h : Awaited old laddr) :
    ∃ l a r, old = l ++ a :: r ∧ awaits laddr a = true ∧
      old.findIdx? (awaits laddr) = some l.length ∧
      ∀ b ∈ l ++ r, vsockaddrEqual laddr b.addr = false := by
  obtain ⟨x, hx, hxa⟩ := h
  obtain ⟨i, hi⟩ : ∃ i, old.findIdx? (awaits laddr) = some i := by
    rw [← Option.isSome_iff_exists, List.findIdx?_isSome, List.any_eq_true]
    exact ⟨x, hx, hxa⟩
  obtain ⟨hlt, hawaits, -⟩ := List.findIdx?_eq_some_iff_getElem.mp hi
  have hsplit : old = old.take i ++ old[i] :: old.drop (i + 1) := by
    rw [← List.drop_eq_getElem_cons hlt, List.take_append_drop]
  have hlen : (old.take i).length = i := List.length_take_of_le (Nat.le_of_lt hlt)
  have heq : vsockaddrEqual laddr old[i].addr = true := (Bool.and_eq_true_iff.mp hawaits).2
  refine ⟨_, _, _, hsplit, hawaits, by rw [hlen, hi], fun b hb => ?_⟩
  rw [hsplit] at hd
  have hperm := (distinctAddrs_perm List.perm_middle).mp hd
  have hne := (List.pairwise_cons.mp hperm).1 b hb
  by_contra hsame
  have hlb := Bool.eq_true_of_not_eq_false hsame
  rw [vsockaddrEqual_trans (vsockaddrEqual_symm heq) hlb] at hne
  cases hne

theorem modify_middle (l r : List VsockaddrIn) (a : VsockaddrIn) :
    (l ++ a :: r).modify l.length clearEntry = l ++ clearEntry a :: r := by
  induction l with
  | nil => rfl
  | cons b l ih =>
    rw [List.cons_append, List.length_cons, List.modify_succ_cons, ih]
    rfl

/-- The report is taken when the entry stays at its place and the others keep their work. -/
theorem taken_middle {l' r' : List VsockaddrIn} {b : VsockaddrIn} (hold : old = l ++ a :: r)
    (ha : awaits laddr a = true) (hb : b.addr = a.addr)
    (hothers : ∀ c ∈ l' ++ r', vsockaddrEqual laddr c.addr = false)
    (hpend : ∀ c ∈ l ++ r, ∀ d ∈ l' ++ r', vsockaddrEqual c.addr d.addr = true →
      pendingBits d.type = pendingBits c.type)
    (hkept : ∀ c ∈ l ++ r, HasAddr (l' ++ r') c.addr)
    (hadded : HasAddr (l' ++ clearEntry b :: r') eaddr.addr ∨ (old.length : Int) = MAX_ADDRS) :
    Taken old (l' ++ clearEntry b :: r') laddr eaddr := by
  have heq : vsockaddrEqual laddr a.addr = true := (Bool.and_eq_true_iff.mp ha).2
  have hmem : ∀ {c d : VsockaddrIn} {m k : List VsockaddrIn},
      c ∈ m ++ d :: k → c = d ∨ c ∈ m ++ k := fun hc =>
    List.mem_cons.mp (List.perm_middle.mem_iff.mp hc)
  refine ⟨fun c hc hlc => ?_, fun c hc hlc d hd hcd => ?_, fun c hc => ?_, hadded⟩
  · rcases hmem hc with rfl | hc
    · exact needReflex_clearReflex _
    · rw [hothers c hc] at hlc
      cases hlc
  · rw [hold] at hc
    rcases hmem hc with rfl | hc
    · rw [heq] at hlc
      cases hlc
    · rcases hmem hd with rfl | hd
      · have hca : vsockaddrEqual c.addr a.addr = true := by rw [← hb]; exact hcd
        rw [vsockaddrEqual_trans heq (vsockaddrEqual_symm hca)] at hlc
        cases hlc
      · exact hpend c hc d hd hcd
  · rw [hold] at hc
    rw [hasAddr_middle]
    rcases hmem hc with rfl | hc
    · right
      show vsockaddrEqual b.addr c.addr = true
      rw [hb]
      exact vsockaddrEqual_refl _
    · exact Or.inl (hkept c hc)

/-! ## A known address -/

/-- The entry of the reported address gets its type. -/
def retyped (eaddr x : VsockaddrIn) : VsockaddrIn :=
  if vsockaddrEqual x.addr eaddr.addr then { x with type := nodeRule.retype x.type eaddr.type } else x

theorem retyped_addr (eaddr x : VsockaddrIn) : (retyped eaddr x).addr = x.addr := by
  rw [retyped]
  split <;> rfl

theorem findAddr_map (hd : DistinctAddrs l) (h : HasAddr l eaddr.addr) :
    findAddr nodeRule.retype eaddr.addr eaddr.type l = some (l.map (retyped eaddr)) := by
  induction l with
  | nil =>
    obtain ⟨x, hx, -⟩ := h
    cases hx
  | cons b l ih =>
    obtain ⟨hb, hl⟩ := List.pairwise_cons.mp hd
    rw [findAddr, List.map_cons, retyped]
    by_cases heq : vsockaddrEqual b.addr eaddr.addr = true
    · have hrest : l.map (retyped eaddr) = l := by
        refine (List.map_congr_left fun x hx => ?_).trans (List.map_id l)
        rw [retyped, if_neg]
        · rfl
        · intro hxe
          have hne := hb x hx
          rw [vsockaddrEqual_trans heq (vsockaddrEqual_symm hxe)] at hne
          cases hne
      rw [if_pos heq, if_pos heq, hrest]
    · have hl' : HasAddr l eaddr.addr := by
        obtain ⟨x, hx, hxe⟩ := h
        rcases List.mem_cons.mp hx with rfl | hx
        · exact absurd hxe heq
        · exact ⟨x, hx, hxe⟩
      rw [if_neg heq, if_neg heq, ih hl hl', Option.map_some]

/-- Types are replaced and nothing moves. -/
theorem taken_map {f : VsockaddrIn → VsockaddrIn} (hf : ∀ x, (f x).addr = x.addr)
    (hd : DistinctAddrs old) (hold : old = l ++ a :: r) (ha : awaits laddr a = true)
    (hothers : ∀ b ∈ l ++ r, vsockaddrEqual laddr b.addr = false)
    (hpend : ∀ c ∈ l ++ r, pendingBits (f c).type = pendingBits c.type)
    (hadded : HasAddr old eaddr.addr ∨ (old.length : Int) = MAX_ADDRS) :
    Taken old ((old.map f).modify l.length clearEntry) laddr eaddr := by
  have hsub : ∀ c ∈ l ++ r, c ∈ old := fun c hc => by
    rw [hold]
    exact List.perm_middle.mem_iff.mpr (List.mem_cons_of_mem a hc)
  have hlen : (l.map f).length = l.length := List.length_map f
  have hnew : (old.map f).modify l.length clearEntry = l.map f ++ clearEntry (f a) :: r.map f := by
    rw [hold, List.map_append, List.map_cons, ← hlen, modify_middle]
  have hmem : ∀ {d : VsockaddrIn}, d ∈ l.map f ++ r.map f → ∃ c ∈ l ++ r, f c = d := fun hd => by
    rw [← List.map_append] at hd
    exact List.mem_map.mp hd
  rw [hnew]
  refine taken_middle hold ha (hf a) (fun d hd' => ?_) (fun c hc d hd' hcd => ?_) (fun c hc => ?_) ?_
  · obtain ⟨c, hc, rfl⟩ := hmem hd'
    rw [hf]
    exact hothers c hc
  · obtain ⟨e, he, rfl⟩ := hmem hd'
    rw [hf] at hcd
    rw [eq_of_distinct hd (hsub c hc) (hsub e he) hcd]
    exact hpend e he
  · refine ⟨f c, ?_, by rw [hf]; exact vsockaddrEqual_refl _⟩
    rw [← List.map_append]
    exact List.mem_map_of_mem hc
  · refine hadded.imp_left fun hhas => ?_
    rw [hold, hasAddr_middle] at hhas
    rw [hasAddr_middle]
    refine hhas.imp (fun h => ?_) fun h => ?_
    · obtain ⟨c, hc, hce⟩ := h
      refine ⟨f c, ?_, by rw [hf]; exact hce⟩
      rw [← List.map_append]
      exact List.mem_map_of_mem hc
    · show vsockaddrEqual (f a).addr _ = true
      rw [hf]
      exact h

/-! ## A new address -/

theorem insertAddr_split (hs : SortedAddrs vsockaddrType old) (eaddr : VsockaddrIn) :
    ∃ front back, old = front ++ back ∧
      insertAddr nodeRule.key eaddr old = front ++ eaddr :: back ∧
      (∀ b ∈ front, vsockaddrType b.type ≤ vsockaddrType eaddr.type) ∧
      ∀ b ∈ back, vsockaddrType b.type > vsockaddrType eaddr.type := by
  refine ⟨_, _, List.rdropWhile_append_rtakeWhile.symm, rfl, fun b hb => ?_, fun b hb => ?_⟩
  · have hsorted := @sortedAddrs_insertAddr vsockaddrType eaddr old hs
    exact (List.pairwise_append.mp hsorted).2.2 b hb eaddr List.mem_cons_self
  · have hgt := List.mem_rtakeWhile_imp hb
    exact of_decide_eq_true hgt

/-- The new address comes behind the entry. -/
theorem taken_insert (hd : DistinctAddrs old) (hs : SortedAddrs vsockaddrType old)
    (hold : old = l ++ a :: r) (ha : awaits laddr a = true)
    (hothers : ∀ b ∈ l ++ r, vsockaddrEqual laddr b.addr = false)
    (hnew : ¬ HasAddr old eaddr.addr) (hle : vsockaddrType a.type ≤ vsockaddrType eaddr.type) :
    Taken old ((insertAddr nodeRule.key eaddr old).modify l.length clearEntry) laddr eaddr := by
  obtain ⟨front, back, hsplit, hinsert, -, hback⟩ := insertAddr_split hs eaddr
  obtain ⟨r₁, rfl, rfl⟩ : ∃ r₁, front = l ++ a :: r₁ ∧ r = r₁ ++ back := by
    rcases List.append_eq_append_iff.mp (hsplit.symm.trans hold) with ⟨m, hm, hm'⟩ | ⟨m, hm, hm'⟩
    · have ha : a ∈ back := by
        rw [hm']
        exact List.mem_append_right _ List.mem_cons_self
      exact absurd (hback a ha) (UInt32.not_lt.mpr hle)
    · cases m with
      | nil =>
        have ha : a ∈ back := by
          rw [List.nil_append] at hm'
          rw [← hm']
          exact List.mem_cons_self
        exact absurd (hback a ha) (UInt32.not_lt.mpr hle)
      | cons b m =>
        rw [List.cons_append, List.cons.injEq] at hm'
        obtain ⟨rfl, rfl⟩ := hm'
        exact ⟨m, hm, rfl⟩
  have hsub : ∀ c ∈ l ++ (r₁ ++ back), c ∈ old := fun c hc => by
    rw [hold]
    exact List.perm_middle.mem_iff.mpr (List.mem_cons_of_mem a hc)
  have hmem : ∀ {d : VsockaddrIn}, d ∈ l ++ (r₁ ++ eaddr :: back) →
      d = eaddr ∨ d ∈ l ++ (r₁ ++ back) := fun hd => by
    rw [← List.append_assoc] at hd ⊢
    exact List.mem_cons.mp (List.perm_middle.mem_iff.mp hd)
  have haold : a ∈ old := by
    rw [hold]
    exact List.mem_append_right _ List.mem_cons_self
  have hla : vsockaddrEqual laddr a.addr = true := (Bool.and_eq_true_iff.mp ha).2
  rw [hinsert, List.append_assoc, List.cons_append, modify_middle]
  refine taken_middle hold ha rfl (fun d hd' => ?_) (fun c hc d hd' hcd => ?_) (fun c hc => ?_)
    (Or.inl ?_)
  · rcases hmem hd' with rfl | hd'
    · by_contra heq
      have hle := Bool.eq_true_of_not_eq_false heq
      exact hnew ⟨a, haold, vsockaddrEqual_trans (vsockaddrEqual_symm hla) hle⟩
    · exact hothers d hd'
  · rcases hmem hd' with rfl | hd'
    · exact absurd ⟨c, hsub c hc, hcd⟩ hnew
    · rw [eq_of_distinct hd (hsub c hc) (hsub d hd') hcd]
  · refine ⟨c, ?_, vsockaddrEqual_refl _⟩
    rw [← List.append_assoc] at hc ⊢
    exact List.perm_middle.mem_iff.mpr (List.mem_cons_of_mem _ hc)
  · rw [hasAddr_middle, ← List.append_assoc, hasAddr_middle]
    exact Or.inl (Or.inr (vsockaddrEqual_refl _))

/-- The new address comes in front of the entry, and the bit of another entry is cleared. -/
theorem awaits_moved (hs : SortedAddrs vsockaddrType old) (hold : old = l ++ a :: r)
    (hgt : vsockaddrType a.type > vsockaddrType eaddr.type) :
    a ∈ (insertAddr nodeRule.key eaddr old).modify l.length clearEntry := by
  obtain ⟨front, back, hsplit, hinsert, hfront, -⟩ := insertAddr_split hs eaddr
  obtain ⟨l₁, rfl, rfl⟩ : ∃ l₁, l = front ++ l₁ ∧ back = l₁ ++ a :: r := by
    rcases List.append_eq_append_iff.mp (hsplit.symm.trans hold) with ⟨m, hm, hm'⟩ | ⟨m, hm, hm'⟩
    · exact ⟨m, hm, hm'⟩
    · cases m with
      | nil => exact ⟨[], by rw [hm, List.append_nil, List.append_nil], hm'.symm⟩
      | cons b m =>
        rw [List.cons_append, List.cons.injEq] at hm'
        obtain ⟨rfl, rfl⟩ := hm'
        have ha : a ∈ front := by
          rw [hm]
          exact List.mem_append_right _ List.mem_cons_self
        exact absurd hgt (UInt32.not_lt.mpr (hfront a ha))
  rw [hinsert]
  have hget : ((front ++ eaddr :: (l₁ ++ a :: r)).modify (front ++ l₁).length
      clearEntry)[(front ++ l₁).length + 1]? = some a := by
    rw [List.getElem?_modify_ne _ _ (by omega), List.getElem?_append_right
      (by rw [List.length_append]; omega), List.length_append]
    have hidx : front.length + l₁.length + 1 - front.length = l₁.length + 1 := by omega
    rw [hidx, List.getElem?_cons_succ, List.getElem?_append_right (Nat.le_refl _), Nat.sub_self]
    rfl
  exact List.mem_of_getElem? hget

/-! ## When a report is taken -/

/-- What `_vnode_reflex_addr` has to do with a report. -/
def ReportHandled (node : Vnode) (laddr : SockaddrIn) (eaddr : VsockaddrIn) : Prop :=
  ∃ node', vnodeReflexAddr node laddr eaddr = .ok node' ∧
    (¬ Awaited node.nodei.used laddr → node'.nodei.used = node.nodei.used) ∧
    (Awaited node.nodei.used laddr → Taken node.nodei.used node'.nodei.used laddr eaddr)

/-- The entry of the reported address is that of `laddr` itself or has nothing to lose. -/
def KeepsWork (old : List VsockaddrIn) (laddr : SockaddrIn) (eaddr : VsockaddrIn) : Prop :=
  ∃ e ∈ old, vsockaddrEqual e.addr eaddr.addr = true ∧
    (vsockaddrEqual laddr e.addr = true ∨ vsockaddrType e.type = vsockaddrType eaddr.type ∨
      pendingBits e.type = pendingBits eaddr.type)

/-- The address is new and its place is behind the entry of `laddr`. -/
def GoesBehind (old : List VsockaddrIn) (laddr : SockaddrIn) (eaddr : VsockaddrIn) : Prop :=
  ¬ HasAddr old eaddr.addr ∧
    ∀ a ∈ old, vsockaddrEqual laddr a.addr = true →
      vsockaddrType a.type ≤ vsockaddrType eaddr.type

theorem pendingBits_retyped (htype : vsockaddrType eaddr.type ≠ VSOCKADDR_UNKNOWN)
    {e : VsockaddrIn} (he : vsockaddrEqual e.addr eaddr.addr = true) :
    pendingBits (retyped eaddr e).type = pendingBits e.type ↔
      vsockaddrType e.type = vsockaddrType eaddr.type ∨
        pendingBits e.type = pendingBits eaddr.type := by
  rw [retyped, if_pos he]
  by_cases hbase : vsockaddrType e.type = vsockaddrType eaddr.type
  · have hkeep : nodeRule.retype e.type eaddr.type = e.type := if_neg fun h => h.2 hbase
    simp only [hkeep, hbase, true_or]
  · have htake : nodeRule.retype e.type eaddr.type = eaddr.type := if_pos ⟨htype, hbase⟩
    simp only [htake, hbase, false_or]
    exact eq_comm

/-- The address is known: its entry is retyped. -/
theorem taken_known_iff (hd : DistinctAddrs old) (hold : old = l ++ a :: r)
    (ha : awaits laddr a = true) (hothers : ∀ b ∈ l ++ r, vsockaddrEqual laddr b.addr = false)
    (htype : vsockaddrType eaddr.type ≠ VSOCKADDR_UNKNOWN) {e : VsockaddrIn} (he : e ∈ old)
    (hee : vsockaddrEqual e.addr eaddr.addr = true) :
    Taken old ((old.map (retyped eaddr)).modify l.length clearEntry) laddr eaddr ↔
      KeepsWork old laddr eaddr := by
  have hrest : ∀ c, c ∈ old ↔ c ∈ a :: (l ++ r) := fun c => by
    rw [hold]
    exact List.perm_middle.mem_iff
  constructor
  · intro htaken
    refine ⟨e, he, hee, ?_⟩
    by_cases hle : vsockaddrEqual laddr e.addr = true
    · exact Or.inl hle
    · have hle' := Bool.eq_false_of_not_eq_true hle
      have hother : e ∈ l ++ r := by
        refine (List.mem_cons.mp ((hrest e).mp he)).resolve_left fun heq => hle ?_
        rw [heq]
        exact (Bool.and_eq_true_iff.mp ha).2
      have hlen : (l.map (retyped eaddr)).length = l.length := List.length_map _
      have hmem : retyped eaddr e ∈ (old.map (retyped eaddr)).modify l.length clearEntry := by
        rw [hold, List.map_append, List.map_cons, ← hlen, modify_middle]
        refine List.perm_middle.mem_iff.mpr (List.mem_cons_of_mem _ ?_)
        rw [← List.map_append]
        exact List.mem_map_of_mem hother
      have hpend := htaken.pending e he hle' _ hmem
        (by rw [retyped_addr]; exact vsockaddrEqual_refl _)
      exact Or.inr ((pendingBits_retyped htype hee).mp hpend)
  · rintro ⟨e', he', hee', hwork⟩
    obtain rfl := eq_of_distinct hd he he' (vsockaddrEqual_trans hee (vsockaddrEqual_symm hee'))
    refine taken_map (retyped_addr eaddr) hd hold ha hothers (fun c hc => ?_) (Or.inl ⟨e, he, hee⟩)
    by_cases hce : vsockaddrEqual c.addr eaddr.addr = true
    · have hcold : c ∈ old := (hrest c).mpr (List.mem_cons_of_mem a hc)
      obtain rfl := eq_of_distinct hd he hcold (vsockaddrEqual_trans hee (vsockaddrEqual_symm hce))
      refine (pendingBits_retyped htype hee).mpr (hwork.resolve_left fun hle => ?_)
      rw [hothers e hc] at hle
      cases hle
    · rw [retyped, if_neg hce]

/-- The address is new: it is inserted. -/
theorem taken_new_iff (hd : DistinctAddrs old) (hs : SortedAddrs vsockaddrType old)
    (hold : old = l ++ a :: r) (ha : awaits laddr a = true)
    (hothers : ∀ b ∈ l ++ r, vsockaddrEqual laddr b.addr = false)
    (hnew : ¬ HasAddr old eaddr.addr) :
    Taken old ((insertAddr nodeRule.key eaddr old).modify l.length clearEntry) laddr eaddr ↔
      GoesBehind old laddr eaddr := by
  obtain ⟨hneed, hla⟩ := Bool.and_eq_true_iff.mp ha
  have haold : a ∈ old := by
    rw [hold]
    exact List.mem_append_right _ List.mem_cons_self
  constructor
  · intro htaken
    refine ⟨hnew, fun b hb hlb => ?_⟩
    obtain rfl := eq_of_distinct hd haold hb (vsockaddrEqual_trans (vsockaddrEqual_symm hla) hlb)
    by_contra hgt
    have hmem := awaits_moved hs hold (UInt32.not_le.mp hgt)
    rw [htaken.cleared a hmem hla] at hneed
    cases hneed
  · intro hbehind
    exact taken_insert hd hs hold ha hothers hnew (hbehind.2 a haold hla)

/-- The list of an awaited report, case by case. -/
theorem keepsTaken_iff (hlen : (old.length : Int) ≤ MAX_ADDRS) (hd : DistinctAddrs old)
    (hs : SortedAddrs vsockaddrType old) (htype : vsockaddrType eaddr.type ≠ VSOCKADDR_UNKNOWN)
    (hawaited : Awaited old laddr) :
    Taken old (reflexAddrs old laddr eaddr) laddr eaddr ↔
      (old.length : Int) = MAX_ADDRS ∨ KeepsWork old laddr eaddr ∨ GoesBehind old laddr eaddr := by
  obtain ⟨l, a, r, hold, ha, hidx, hothers⟩ := awaited_split hd hawaited
  rw [reflexAddrs, hidx]
  dsimp only
  rw [withReported]
  by_cases hfull : (old.length : Int) < MAX_ADDRS
  · rw [if_pos hfull, or_iff_right (by omega)]
    by_cases hknown : HasAddr old eaddr.addr
    · obtain ⟨e, he, hee⟩ := hknown
      rw [putAddr, findAddr_map hd ⟨e, he, hee⟩]
      dsimp only
      rw [or_iff_left fun h : GoesBehind old laddr eaddr => h.1 ⟨e, he, hee⟩]
      exact taken_known_iff hd hold ha hothers htype he hee
    · rw [putAddr, findAddr_eq_none.mpr hknown]
      dsimp only
      rw [or_iff_right fun h : KeepsWork old laddr eaddr => hknown ⟨h.choose, h.choose_spec.1,
        h.choose_spec.2.1⟩]
      exact taken_new_iff hd hs hold ha hothers hknown
  · have hmax : (old.length : Int) = MAX_ADDRS := by omega
    rw [if_neg hfull]
    refine iff_of_true ?_ (Or.inl hmax)
    have hmap : Taken old ((old.map id).modify l.length clearEntry) laddr eaddr :=
      taken_map (fun _ => rfl) hd hold ha hothers (fun _ _ => rfl) (Or.inr hmax)
    rwa [List.map_id] at hmap

/-- A report is handled exactly when nobody waits for it, when the list is full, when the reported
address is known and its entry has no work to lose, or when its place is behind the entry that
waits. -/
theorem reportHandled_iff (h : node.nodei.Sound) (hd : DistinctAddrs node.nodei.used)
    (hs : SortedAddrs vsockaddrType node.nodei.used)
    (htype : vsockaddrType eaddr.type = VSOCKADDR_UPNP ∨
      vsockaddrType eaddr.type = VSOCKADDR_REFLEXIVE) (laddr : SockaddrIn) :
    ReportHandled node laddr eaddr ↔
      ¬ Awaited node.nodei.used laddr ∨ (node.nodei.used.length : Int) = MAX_ADDRS ∨
        KeepsWork node.nodei.used laddr eaddr ∨ GoesBehind node.nodei.used laddr eaddr := by
  have hlen : (node.nodei.used.length : Int) ≤ MAX_ADDRS := by
    rw [h.length_used]
    exact h.naddrs_le_max
  have hknown : vsockaddrType eaddr.type ≠ VSOCKADDR_UNKNOWN := by
    rcases htype with h | h <;> rw [h] <;> decide
  obtain ⟨n, hrun, -, hused⟩ := vnodeReflexAddr_eq h laddr eaddr
  have hresult : ReportHandled node laddr eaddr ↔
      (¬ Awaited node.nodei.used laddr →
        reflexAddrs node.nodei.used laddr eaddr = node.nodei.used) ∧
      (Awaited node.nodei.used laddr →
        Taken node.nodei.used (reflexAddrs node.nodei.used laddr eaddr) laddr eaddr) := by
    rw [ReportHandled, hrun, ← hused]
    constructor
    · rintro ⟨node', hnode', hkeep, htaken⟩
      cases hnode'
      exact ⟨hkeep, htaken⟩
    · intro hboth
      exact ⟨_, rfl, hboth⟩
  rw [hresult]
  by_cases hawaited : Awaited node.nodei.used laddr
  · rw [or_iff_right (not_not.mpr hawaited), ← keepsTaken_iff hlen hd hs hknown hawaited]
    exact ⟨fun hboth => hboth.2 hawaited, fun htaken => ⟨absurd hawaited, fun _ => htaken⟩⟩
  · refine iff_of_true ⟨fun _ => ?_, fun h => absurd h hawaited⟩ (Or.inl hawaited)
    have hnone : node.nodei.used.findIdx? (awaits laddr) = none := by
      rw [List.findIdx?_eq_none_iff]
      intro a ha
      by_contra hawaits
      exact hawaited ⟨a, ha, Bool.eq_true_of_not_eq_false hawaits⟩
    rw [reflexAddrs, hnone]

/-! ## A host with two addresses -/

/-- An address of the node with port 1. -/
def ownAddr (ip : UInt32) (type : UInt32) : VsockaddrIn := ⟨⟨2, 1, ip, Lib.Block.zero 8⟩, type⟩

/-- Two private addresses, as `_aux_node_add_addr_cb` adds them: everything is pending for both. -/
def twoHosts : Vnode where
  nodei := { vnodeInfoRelax with
    naddrs := 2
    addrs := [ownAddr 0x0200000a 0x70000, ownAddr 0x0201a8c0 0x70000] ++
      List.replicate 10 zeroAddr }
  is_symm_nat := false
  nat_data := none

theorem sound_twoHosts : twoHosts.nodei.Sound := by
  refine ⟨⟨?_, ?_, ?_, rfl⟩, ?_, ?_⟩ <;> decide

/-- A new public address is reported for the first one. -/
theorem reportHandled_new :
    ReportHandled twoHosts (ownAddr 0x0200000a 0).addr (ownAddr 0x08070605 VSOCKADDR_REFLEXIVE) := by
  have hdistinct : DistinctAddrs twoHosts.nodei.used :=
    List.pairwise_pair.mpr rfl
  have hsorted : SortedAddrs vsockaddrType twoHosts.nodei.used :=
    List.pairwise_pair.mpr (UInt32.le_refl _)
  have hnew : ¬ HasAddr twoHosts.nodei.used (ownAddr 0x08070605 VSOCKADDR_REFLEXIVE).addr := by
    rw [← @findAddr_eq_none nodeRule.retype _ 0]
    rfl
  have hbehind : ∀ a ∈ twoHosts.nodei.used, vsockaddrType a.type ≤ VSOCKADDR_REFLEXIVE := by decide
  exact (reportHandled_iff sound_twoHosts hdistinct hsorted (Or.inr rfl) _).mpr
    (Or.inr (Or.inr (Or.inr ⟨hnew, fun a ha _ => hbehind a ha⟩)))

/-- The other address is reported for the first one, by a neighbour that sees it as the sender: what
was pending for it is forgotten. -/
theorem pending_work_forgotten :
    ¬ ReportHandled twoHosts (ownAddr 0x0200000a 0).addr (ownAddr 0x0201a8c0 VSOCKADDR_UPNP) := by
  rintro ⟨node', hrun, -, htaken⟩
  have hused : (vnodeReflexAddr twoHosts (ownAddr 0x0200000a 0).addr
      (ownAddr 0x0201a8c0 VSOCKADDR_UPNP)).map (fun n => n.nodei.used) =
        .ok [ownAddr 0x0200000a 0x50000, ownAddr 0x0201a8c0 VSOCKADDR_UPNP] := rfl
  rw [hrun] at hused
  have hlist : node'.nodei.used = [ownAddr 0x0200000a 0x50000, ownAddr 0x0201a8c0 VSOCKADDR_UPNP] :=
    Except.ok.inj hused
  have hpend := (htaken ⟨ownAddr 0x0200000a 0x70000, List.mem_cons_self, rfl⟩).pending
    (ownAddr 0x0201a8c0 0x70000) (List.mem_cons_of_mem _ List.mem_cons_self) rfl
    (ownAddr 0x0201a8c0 VSOCKADDR_UPNP)
    (by rw [hlist]; exact List.mem_cons_of_mem _ List.mem_cons_self) rfl
  revert hpend
  decide

end Vdht.Node
