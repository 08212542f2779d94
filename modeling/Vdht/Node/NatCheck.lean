import Vdht.Node.OwnAddrs

/-!
# Symmetric NATs

`_aux_node_reflex_NAT` remembers the first report of a public address and compares with it every
later report for the same local address. What is reported for another local address is not looked
at. So the verdict is about the local address of the first public report, and depends on the order
of the reports only in which local address that is.
-/

namespace Vdht.Node

open NodeId

/-- A local address and the address that was reported for it. -/
abbrev Report := SockaddrIn × VsockaddrIn

/-- The external address of the report is a public one. -/
def IsPublic (r : Report) : Bool := vsockaddrIsPublic r.2.addr

/-- Two reports of different public addresses for one local address. -/
structure Conflict (r s : Report) : Prop where
  laddr : vsockaddrEqual r.1 s.1 = true
  public_left : IsPublic r = true
  public_right : IsPublic s = true
  eaddr : vsockaddrEqual r.2.addr s.2.addr = false

/-- The reports show a symmetric NAT, on any local address. -/
def SeenSymmetric (reports : List Report) : Prop := ∃ r ∈ reports, ∃ s ∈ reports, Conflict r s

/-- They show one on the local address of the first public report. -/
def FirstSymmetric (reports : List Report) : Prop :=
  ∃ first, reports.find? IsPublic = some first ∧
    ∃ r ∈ reports, ∃ s ∈ reports, vsockaddrEqual first.1 r.1 = true ∧ Conflict r s

/-- The reports of external addresses that a node gets, one after the other. -/
def reflexReports (node : Vnode) (reports : List Report) : Res Vnode :=
  reports.foldlM (fun node r => vnodeReflexAddr node r.1 r.2) node

variable {node : Vnode} {seen reports : List Report} {r : Report}

/-! ## What the node knows -/

/-- A report that disagrees with the remembered one. -/
def Disagrees (first r : Report) : Prop :=
  IsPublic r = true ∧ vsockaddrEqual first.1 r.1 = true ∧
    vsockaddrEqual first.2.addr r.2.addr = false

/-- What the node knows after the reports. -/
structure Judged (seen : List Report) (node : Vnode) : Prop where
  data : node.nat_data = (seen.find? IsPublic).map fun first => (first.1, first.2.addr)
  verdict : node.is_symm_nat = true ↔
    ∃ first, seen.find? IsPublic = some first ∧ ∃ r ∈ seen, Disagrees first r

theorem find?_report (seen : List Report) (r : Report) :
    (seen ++ [r]).find? IsPublic = (seen.find? IsPublic).or (if IsPublic r then some r else none) := by
  rw [List.find?_append, List.find?_singleton]

/-- A report that is neither remembered nor disagrees changes nothing. -/
theorem Judged.unchanged (h : Judged seen node)
    (hfind : (seen ++ [r]).find? IsPublic = seen.find? IsPublic)
    (hagree : ∀ first, seen.find? IsPublic = some first → ¬ Disagrees first r) :
    Judged (seen ++ [r]) node := by
  refine ⟨by rw [h.data, hfind], ?_⟩
  rw [h.verdict, hfind]
  refine exists_congr fun first => and_congr_right fun hfirst => ?_
  constructor
  · intro hold
    obtain ⟨s, hs, hdis⟩ := hold
    exact ⟨s, List.mem_append_left _ hs, hdis⟩
  · intro hnew
    obtain ⟨s, hs, hdis⟩ := hnew
    rcases List.mem_append.mp hs with hs | hs
    · exact ⟨s, hs, hdis⟩
    · rw [List.mem_singleton.mp hs] at hdis
      exact absurd hdis (hagree first hfirst)

/-- The first public report is remembered. -/
theorem Judged.remembered (h : Judged seen node) (hseen : seen.find? IsPublic = none)
    (hr : IsPublic r = true) :
    Judged (seen ++ [r]) { node with nat_data := some (r.1, r.2.addr) } := by
  have hfind := find?_report seen r
  rw [hseen, hr, if_pos rfl, Option.none_or] at hfind
  refine ⟨by rw [hfind]; rfl, ?_⟩
  have hfalse : ¬ node.is_symm_nat = true := by
    rw [h.verdict, hseen]
    simp
  refine iff_of_false hfalse fun hnew => ?_
  obtain ⟨first, hfirst, s, hs, hdis⟩ := hnew
  rw [hfind] at hfirst
  obtain rfl := Option.some.inj hfirst
  rcases List.mem_append.mp hs with hs | hs
  · exact List.find?_eq_none.mp hseen s hs hdis.1
  · have hne := hdis.2.2
    rw [List.mem_singleton.mp hs, vsockaddrEqual_refl] at hne
    cases hne

/-- A report that disagrees with the remembered one settles the verdict. -/
theorem Judged.settled {first : Report} (h : Judged seen node)
    (hfirst : seen.find? IsPublic = some first) (hdis : Disagrees first r) :
    Judged (seen ++ [r]) { node with is_symm_nat := true } := by
  have hfind := find?_report seen r
  rw [hfirst, Option.some_or] at hfind
  refine ⟨by rw [hfind, ← hfirst]; exact h.data, iff_of_true rfl ⟨first, hfind, r, ?_, hdis⟩⟩
  exact List.mem_append_right _ List.mem_cons_self

theorem auxNodeReflexNAT_judged (h : Judged seen node) (r : Report) :
    Judged (seen ++ [r]) (auxNodeReflexNAT node r.1 r.2.addr) := by
  have hfind := find?_report seen r
  rw [auxNodeReflexNAT]
  cases hpublic : vsockaddrIsPublic r.2.addr with
  | false =>
    -- a private address changes nothing, and is no report that could disagree
    have hr : IsPublic r = false := hpublic
    rw [hr, if_neg Bool.false_ne_true, Option.or_none] at hfind
    rw [if_pos rfl]
    refine h.unchanged hfind fun first hfirst hdis => ?_
    rw [hdis.1] at hr
    cases hr
  | true =>
    have hr : IsPublic r = true := hpublic
    have hdata := h.data
    rw [if_neg Bool.noConfusion]
    cases hseen : seen.find? IsPublic with
    | none =>
      rw [hseen, Option.map_none] at hdata
      rw [hdata]
      exact h.remembered hseen hr
    | some first =>
      rw [hseen, Option.map_some] at hdata
      rw [hseen, Option.some_or, ← hseen] at hfind
      have hkeep : ¬ Disagrees first r → Judged (seen ++ [r]) node := fun hagree =>
        h.unchanged hfind fun f hf hdis => hagree (Option.some.inj (hseen.symm.trans hf) ▸ hdis)
      rw [hdata]
      dsimp only
      split
      · rename_i hother
        exact hkeep fun hdis => by rw [hdis.2.1] at hother; cases hother
      · rename_i hlocal
        split
        · rename_i hdiff
          rw [← hdata]
          exact h.settled hseen ⟨hr, Bool.eq_true_of_not_eq_false hlocal, hdiff⟩
        · rename_i hequal
          exact hkeep fun hdis => hequal hdis.2.2

/-- One report, with the record of the own addresses kept sound. -/
theorem vnodeReflexAddr_judged (hs : node.nodei.Sound) (h : Judged seen node) (r : Report) :
    ∃ node', vnodeReflexAddr node r.1 r.2 = .ok node' ∧ node'.nodei.Sound ∧
      Judged (seen ++ [r]) node' := by
  obtain ⟨n, hrun, hn, -⟩ := vnodeReflexAddr_eq hs r.1 r.2
  have hjudged := auxNodeReflexNAT_judged h r
  exact ⟨_, hrun, hn, hjudged.data, hjudged.verdict⟩

theorem reflexReports_judged (hs : node.nodei.Sound) (h : Judged seen node)
    (reports : List Report) :
    ∃ node', reflexReports node reports = .ok node' ∧ Judged (seen ++ reports) node' := by
  induction reports generalizing node seen with
  | nil => exact ⟨node, rfl, by rw [List.append_nil]; exact h⟩
  | cons r reports ih =>
    obtain ⟨next, hstep, hnext, hjudged⟩ := vnodeReflexAddr_judged hs h r
    obtain ⟨node', hrun, hlast⟩ := ih hnext hjudged
    rw [List.append_assoc, List.singleton_append] at hlast
    refine ⟨node', ?_, hlast⟩
    rw [reflexReports, List.foldlM_cons, hstep]
    exact hrun

/-! ## The verdict -/

/-- Of two reports that conflict with each other, one conflicts with the remembered one. -/
theorem exists_disagrees_iff {first : Report} (hfirst : reports.find? IsPublic = some first) :
    (∃ r ∈ reports, Disagrees first r) ↔
      ∃ r ∈ reports, ∃ s ∈ reports, vsockaddrEqual first.1 r.1 = true ∧ Conflict r s := by
  constructor
  · intro ⟨r, hr, hpublic, hlocal, hdiff⟩
    exact ⟨first, List.mem_of_find?_eq_some hfirst, r, hr, vsockaddrEqual_refl _, hlocal,
      List.find?_some hfirst, hpublic, hdiff⟩
  · intro ⟨r, hr, s, hs, hlocal, hconflict⟩
    by_cases hsame : vsockaddrEqual first.2.addr r.2.addr = true
    · refine ⟨s, hs, hconflict.public_right, vsockaddrEqual_trans hlocal hconflict.laddr, ?_⟩
      by_contra heq
      have hrs := vsockaddrEqual_trans (vsockaddrEqual_symm hsame)
        (Bool.eq_true_of_not_eq_false heq)
      rw [hconflict.eaddr] at hrs
      cases hrs
    · exact ⟨r, hr, hconflict.public_left, hlocal, Bool.eq_false_of_not_eq_true hsame⟩

theorem Judged.iff_firstSymmetric (h : Judged reports node) :
    node.is_symm_nat = true ↔ FirstSymmetric reports := by
  rw [h.verdict]
  refine exists_congr fun first => and_congr_right fun hfirst => ?_
  rw [exists_disagrees_iff hfirst]

/-- The verdict is that of every order whose first public report is for the same local address. -/
theorem firstSymmetric_of_perm {others : List Report} (hperm : others.Perm reports)
    (hfirst : ∀ f ∈ reports.find? IsPublic, ∀ g ∈ others.find? IsPublic,
      vsockaddrEqual f.1 g.1 = true) (h : FirstSymmetric reports) : FirstSymmetric others := by
  obtain ⟨f, hf, r, hr, s, hs, hlocal, hconflict⟩ := h
  obtain ⟨g, hg⟩ : ∃ g, others.find? IsPublic = some g := by
    rw [← Option.isSome_iff_exists, List.find?_isSome]
    exact ⟨r, hperm.mem_iff.mpr hr, hconflict.public_left⟩
  have hsame := hfirst f hf g hg
  exact ⟨g, hg, r, hperm.mem_iff.mpr hr, s, hperm.mem_iff.mpr hs,
    vsockaddrEqual_trans (vsockaddrEqual_symm hsame) hlocal, hconflict⟩

/-- Whatever is reported to a fresh node, its NAT is taken for symmetric when two reports for the
local address of the first public report conflict, and in every order of the reports that begins
with that local address. -/
theorem nat_verdict (hs : node.nodei.Sound) (hsymm : node.is_symm_nat = false)
    (hdata : node.nat_data = none) (reports : List Report) :
    ∃ node', reflexReports node reports = .ok node' ∧
      (node'.is_symm_nat = true ↔ FirstSymmetric reports) ∧
      ∀ others : List Report, others.Perm reports →
        (∀ f ∈ reports.find? IsPublic, ∀ g ∈ others.find? IsPublic,
          vsockaddrEqual f.1 g.1 = true) →
        ∃ node'', reflexReports node others = .ok node'' ∧
          node''.is_symm_nat = node'.is_symm_nat := by
  have hfresh : Judged [] node := by
    refine ⟨by rw [hdata]; rfl, ?_⟩
    rw [hsymm]
    refine iff_of_false Bool.false_ne_true fun h => ?_
    obtain ⟨first, hfirst, -⟩ := h
    cases hfirst
  obtain ⟨node', hrun, hjudged⟩ := reflexReports_judged hs hfresh reports
  rw [List.nil_append] at hjudged
  refine ⟨node', hrun, hjudged.iff_firstSymmetric, fun others hperm hfirst => ?_⟩
  obtain ⟨node'', hrun', hjudged'⟩ := reflexReports_judged hs hfresh others
  rw [List.nil_append] at hjudged'
  refine ⟨node'', hrun', ?_⟩
  rw [Bool.eq_iff_iff, hjudged.iff_firstSymmetric, hjudged'.iff_firstSymmetric]
  constructor
  · refine firstSymmetric_of_perm hperm.symm fun g hg f hf => ?_
    exact vsockaddrEqual_symm (hfirst f hf g hg)
  · exact firstSymmetric_of_perm hperm hfirst

/-- Two reports for one address, which conflict. -/
theorem nat_verdict_conflict :
    ∃ node', reflexReports twoHosts
        [((ownAddr 0x0200000a 0).addr, ownAddr 0x08070605 VSOCKADDR_REFLEXIVE),
          ((ownAddr 0x0200000a 0).addr, ownAddr 0x09070605 VSOCKADDR_REFLEXIVE)] = .ok node' ∧
      node'.is_symm_nat = true := by
  obtain ⟨node', hrun, hverdict, -⟩ := nat_verdict sound_twoHosts rfl rfl
    [((ownAddr 0x0200000a 0).addr, ownAddr 0x08070605 VSOCKADDR_REFLEXIVE),
      ((ownAddr 0x0200000a 0).addr, ownAddr 0x09070605 VSOCKADDR_REFLEXIVE)]
  exact ⟨node', hrun, hverdict.mpr ⟨_, rfl, _, List.mem_cons_self, _,
    List.mem_cons_of_mem _ List.mem_cons_self, rfl, rfl, rfl, rfl, rfl⟩⟩

/-- A report for one address, and two for another, which conflict. -/
def mixedReports : List Report :=
  [((ownAddr 0x0200000a 0).addr, ownAddr 0x08070605 VSOCKADDR_REFLEXIVE),
    ((ownAddr 0x0201a8c0 0).addr, ownAddr 0x08070605 VSOCKADDR_REFLEXIVE),
    ((ownAddr 0x0201a8c0 0).addr, ownAddr 0x09070605 VSOCKADDR_REFLEXIVE)]

/-- The conflict is not seen, and it is seen when the reports arrive in the opposite order. -/
theorem conflict_unseen :
    SeenSymmetric mixedReports ∧
      (reflexReports twoHosts mixedReports).map Vnode.is_symm_nat = .ok false ∧
      (reflexReports twoHosts mixedReports.reverse).map Vnode.is_symm_nat = .ok true := by
  refine ⟨⟨_, List.mem_cons_of_mem _ List.mem_cons_self, _,
    List.mem_cons_of_mem _ (List.mem_cons_of_mem _ List.mem_cons_self), rfl, rfl, rfl, rfl⟩, rfl, rfl⟩

end Vdht.Node
