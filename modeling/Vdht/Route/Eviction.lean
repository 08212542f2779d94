import Vdht.Lib.Least
import Vdht.Route.Announced

/-!
# The service that gives way

The scan of `add_service` keeps the service of the greatest age so far, and starts from the age 0:
it finds the first of the services that were received earliest, if that was before now. A bucket
that is full gives up that service for the new one. The age is an `int`, so this takes a clock that
neither goes back nor runs more than an `int` ahead of the services.
-/

namespace Vdht.Route

open NodeId Lib

variable {space : SrvcSpace} {srvci : VsrvcInfo} {now : Int} {ss : List Vservice}

/-- The clock has not gone back since the services were received, and the ages are an `int`. -/
def Timely (now : Int) (ss : List Vservice) : Prop :=
  ∀ s ∈ ss, 0 ≤ now - s.rcv_ts ∧ now - s.rcv_ts < 2 ^ 31

/-! ## The scan -/

theorem serviceAge_eq {s : Vservice} (h : 0 ≤ now - s.rcv_ts ∧ now - s.rcv_ts < 2 ^ 31) :
    serviceAge now s = now - s.rcv_ts := by
  obtain ⟨hlow, hhigh⟩ := h
  exact Int32.toInt_ofInt_of_le (by omega) (by omega)

/-- The age is that of the choice, or 0. -/
theorem findOldest_scan (hnone : ∀ s ∈ ss, ¬ srvcPair s.srvci = srvcPair srvci)
    (hclock : Timely now ss) (start : Nat) (choice : Option (Vservice × Nat)) :
    findOldest srvci now ss start (choice.elim 0 fun x => now - x.1.rcv_ts)
        (choice.map Prod.snd) =
      (false, ((ss.zipIdx start).foldl (fun choice x =>
        if x.1.rcv_ts < choice.elim now (fun y => y.1.rcv_ts) then some x else choice)
          choice).map Prod.snd) := by
  induction ss generalizing start choice with
  | nil => rfl
  | cons s ss ih =>
    obtain ⟨hs, hnone⟩ := List.forall_mem_cons.mp hnone
    obtain ⟨hage, hclock⟩ := List.forall_mem_cons.mp hclock
    rw [findOldest, if_neg (mt samePair_iff.mp hs), List.zipIdx_cons, List.foldl_cons,
      serviceAge_eq hage]
    have holder : now - s.rcv_ts > (choice.elim 0 fun x => now - x.1.rcv_ts) ↔
        s.rcv_ts < choice.elim now fun y => y.1.rcv_ts := by
      cases choice with
      | none =>
        rw [Option.elim_none, Option.elim_none]
        omega
      | some x =>
        rw [Option.elim_some, Option.elim_some]
        omega
    by_cases hlt : s.rcv_ts < choice.elim now fun y => y.1.rcv_ts
    · rw [if_pos (holder.mpr hlt), if_pos hlt]
      exact ih hnone hclock (start + 1) (some (s, start))
    · rw [if_neg (mt holder.mp hlt), if_neg hlt]
      exact ih hnone hclock (start + 1) choice

/-- What the scan picks in a bucket without the pair. -/
theorem findOldest_new (hnone : ∀ s ∈ ss, ¬ srvcPair s.srvci = srvcPair srvci)
    (hclock : Timely now ss) :
    (findOldest srvci now ss 0 0 none = (false, none) ∧ ∀ s ∈ ss, now ≤ s.rcv_ts) ∨
      ∃ front old back, ss = front ++ old :: back ∧
        findOldest srvci now ss 0 0 none = (false, some front.length) ∧ old.rcv_ts < now ∧
        (∀ s ∈ front, old.rcv_ts < s.rcv_ts) ∧ ∀ s ∈ back, old.rcv_ts ≤ s.rcv_ts := by
  have hscan := findOldest_scan hnone hclock 0 none
  have hspec := leastBelow_spec (fun x : Vservice × Nat => x.1.rcv_ts) now ss.zipIdx
  unfold leastBelow at hspec
  rw [Option.elim_none, Option.map_none] at hscan
  rw [hscan]
  generalize ss.zipIdx.foldl _ none = choice at hspec
  cases hspec with
  | unfound h =>
    refine Or.inl ⟨rfl, fun s hs => ?_⟩
    obtain ⟨x, hx, rfl⟩ := List.mem_map.mp ((List.zipIdx_map_fst 0 ss).symm ▸ hs)
    exact h x hx
  | found x h hlt =>
    obtain ⟨old, i⟩ := x
    obtain ⟨front, back, hss, rfl, hfront, hback⟩ := h.position
    exact Or.inr ⟨front, old, back, hss, rfl, hlt, hfront, hback⟩

/-! ## Adding a service -/

/-- Adding a service whose pair is not in the bucket. With room in the bucket it is appended. Else it
takes the place of the first of the services that were received earliest, if that was before now, and
is dropped if not. Nothing else changes. -/
theorem addService_evicts (h : space.Sound) (hs : srvci.Copyable)
    (hnone : ∀ s ∈ space.bucket (vsrvcIdBucket srvci.hostid), srvcPair s.srvci ≠ srvcPair srvci)
    (hclock : Timely now (space.bucket (vsrvcIdBucket srvci.hostid))) :
    ((space.bucket (vsrvcIdBucket srvci.hostid)).length < space.bucket_sz →
      ∃ t : Vservice, t.StoredAs srvci now ∧
        addService space srvci now = .ok (space.setBucket (vsrvcIdBucket srvci.hostid)
          (space.bucket (vsrvcIdBucket srvci.hostid) ++ [t]))) ∧
    (space.bucket_sz ≤ (space.bucket (vsrvcIdBucket srvci.hostid)).length →
      ((∀ s ∈ space.bucket (vsrvcIdBucket srvci.hostid), now ≤ s.rcv_ts) →
        addService space srvci now = .ok space) ∧
      ((∃ s ∈ space.bucket (vsrvcIdBucket srvci.hostid), s.rcv_ts < now) →
        ∃ front old back t, space.bucket (vsrvcIdBucket srvci.hostid) = front ++ old :: back ∧
          (∀ s ∈ front, old.rcv_ts < s.rcv_ts) ∧ (∀ s ∈ back, old.rcv_ts ≤ s.rcv_ts) ∧
          old.rcv_ts < now ∧ t.StoredAs srvci now ∧
          addService space srvci now =
            .ok (space.setBucket (vsrvcIdBucket srvci.hostid) (front ++ t :: back)))) := by
  have hrecords := h (vsrvcIdBucket srvci.hostid)
  unfold addService
  dsimp only
  generalize hss : space.bucket (vsrvcIdBucket srvci.hostid) = ss at *
  obtain ⟨new, hnew, -, hstored⟩ := @vserviceInit_stored ⟨vsrvcInfoAlloc, 0⟩ _
    fitting_vsrvcInfoAlloc hs now
  have happend : appendService space (vsrvcIdBucket srvci.hostid) srvci now =
      .ok (space.setBucket (vsrvcIdBucket srvci.hostid) (ss ++ [new])) := by
    rw [appendService, hnew, hss]
  rcases findOldest_new hnone hclock with ⟨hfind, hlate⟩ | ⟨front, old, back, hsplit, hfind, hearly,
    hfront, hback⟩
  · rw [hfind]
    refine ⟨fun hroom => ⟨new, hstored, ?_⟩, fun hfull => ⟨fun _ => ?_, ?_⟩⟩
    · show (if _ then _ else if _ then _ else _) = _
      rw [if_neg (by simp), if_pos hroom, happend]
    · show (if _ then _ else if _ then _ else _) = _
      rw [if_neg (by simp), if_neg (Nat.not_lt.mpr hfull)]
    · rintro ⟨s, hs, hlt⟩
      exact absurd (hlate s hs) (Int.not_le.mpr hlt)
  · rw [hfind]
    refine ⟨fun hroom => ⟨new, hstored, ?_⟩, fun hfull => ⟨fun hlate => ?_, fun _ => ?_⟩⟩
    · show (if _ then _ else if _ then _ else _) = _
      rw [if_neg fun hfull => absurd hfull.2 (Nat.not_le.mpr hroom), if_pos hroom, happend]
    · have hold := hlate old (hsplit ▸ List.mem_append_right _ List.mem_cons_self)
      exact absurd hearly (Int.not_lt.mpr hold)
    · have hold : old ∈ ss := hsplit ▸ List.mem_append_right _ List.mem_cons_self
      obtain ⟨t, ht, -, hstored'⟩ := vserviceInit_stored (hrecords old hold).toFitting hs now
      refine ⟨front, old, back, t, hsplit, hfront, hback, hearly, hstored', ?_⟩
      show (if _ then _ else if _ then _ else _) = _
      rw [if_pos ⟨rfl, hfull⟩, overwriteService, hss, hsplit, Option.getD_some, getSlot_behind]
      dsimp only
      rw [ht]
      dsimp only
      rw [List.set_append_right _ _ (Nat.le_refl _), Nat.sub_self, List.set_cons_zero]

/-- The second of two services on one host takes the place of the first in a bucket for one. -/
theorem addService_evicts_second :
    ∃ space t, addService (srvcSpaceInit 1) (oneAddrService (Block.zero 20) (Block.zero 20)) 1 =
        .ok space ∧
      t.StoredAs (oneAddrService (Block.ofList 20 [1]) (Block.zero 20)) 9 ∧
      addService space (oneAddrService (Block.ofList 20 [1]) (Block.zero 20)) 9 =
        .ok (space.setBucket (vsrvcIdBucket (Block.zero 20)) [t]) := by
  have hann := fun hash => oneAddrService_announceable hash (Block.zero 20)
  obtain ⟨space, hadd, hinv, -⟩ := addService_inv (SrvcSpace.inv_init 1) (hann (Block.zero 20)) 1
  have hspace : space = (srvcSpaceInit 1).setBucket (vsrvcIdBucket (Block.zero 20))
      [⟨{ oneAddrService (Block.zero 20) (Block.zero 20) with addrs := [zeroAddr, zeroAddr] },
        1⟩] := by
    have hok : addService (srvcSpaceInit 1) (oneAddrService (Block.zero 20) (Block.zero 20)) 1 =
        .ok _ := rfl
    rw [hok] at hadd
    exact (Except.ok.inj hadd).symm
  have hbucket : space.bucket (vsrvcIdBucket (Block.zero 20)) =
      [⟨{ oneAddrService (Block.zero 20) (Block.zero 20) with addrs := [zeroAddr, zeroAddr] },
        1⟩] := by
    rw [hspace, SrvcSpace.setBucket_self]
  have hsize : space.bucket_sz = 1 := by rw [hspace, SrvcSpace.setBucket, srvcSpaceInit]
  have hnew : ∀ s ∈ space.bucket (vsrvcIdBucket (Block.zero 20)),
      srvcPair s.srvci ≠ srvcPair (oneAddrService (Block.ofList 20 [1]) (Block.zero 20)) := by
    intro s hs
    rw [hbucket] at hs
    rw [List.mem_singleton.mp hs]
    exact fun h => absurd (congrArg Prod.snd h) (by decide)
  have hclock : Timely 9 (space.bucket (vsrvcIdBucket (Block.zero 20))) := by
    intro s hs
    rw [hbucket] at hs
    rw [List.mem_singleton.mp hs]
    decide
  obtain ⟨-, hfull⟩ := addService_evicts hinv.sound
    (hann (Block.ofList 20 [1])).wellFormed.copyable hnew hclock
  have hroom : space.bucket_sz ≤ (space.bucket (vsrvcIdBucket (Block.zero 20))).length := by
    rw [hsize, hbucket]
    exact Nat.le_refl 1
  have hearly : ∃ s ∈ space.bucket (vsrvcIdBucket (Block.zero 20)), s.rcv_ts < 9 := by
    rw [hbucket]
    exact ⟨_, List.mem_cons_self, by decide⟩
  obtain ⟨front, old, back, t, hsplit, -, -, -, hstored, hput⟩ := (hfull hroom).2 hearly
  rw [show (oneAddrService (Block.ofList 20 [1]) (Block.zero 20)).hostid = Block.zero 20 from rfl,
    hbucket] at hsplit
  rcases List.append_eq_singleton_iff.mp hsplit.symm with ⟨rfl, hback⟩ | ⟨-, hback⟩
  · obtain ⟨-, rfl⟩ := List.cons.inj hback
    exact ⟨space, t, hadd, hstored, hput⟩
  · exact absurd hback (List.cons_ne_nil old back)

end Vdht.Route
