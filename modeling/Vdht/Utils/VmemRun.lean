import Vdht.Utils.Vmem
import Vdht.Lib.Run
import Mathlib.Data.List.Flatten
import Mathlib.Algebra.Order.Ring.Int

/-!
# Runs of an object cache

The counter of a cache decides whether it grows, the flags of its chunks decide what is free. They
agree as long as only objects are freed that are allocated; a second free of an object is not
noticed and leaves the counter below the number of flags.
-/

namespace Vdht.Mem

open Lib

/-! ## Chunks by their place -/

variable {zones : List (List VmemChunk)} {obj : Obj} {c : VmemChunk}

theorem chunkAt_split (h : chunkAt zones obj = some c) :
    ∃ A P Q B, zones = A ++ (P ++ c :: Q) :: B ∧ obj = ⟨A.length, P.length⟩ := by
  rw [chunkAt, Option.bind_eq_some_iff] at h
  obtain ⟨zone, hzone, hc⟩ := h
  obtain ⟨hz, rfl⟩ := List.getElem?_eq_some_iff.mp hzone
  obtain ⟨hi, rfl⟩ := List.getElem?_eq_some_iff.mp hc
  refine ⟨zones.take obj.zone, zones[obj.zone].take obj.chunk, zones[obj.zone].drop (obj.chunk + 1),
    zones.drop (obj.zone + 1), ?_, ?_⟩
  · rw [List.getElem_cons_drop, List.take_append_drop, List.getElem_cons_drop,
      List.take_append_drop]
  · rw [List.length_take_of_le (Nat.le_of_lt hz), List.length_take_of_le (Nat.le_of_lt hi)]

theorem setChunk_split (A B : List (List VmemChunk)) (P Q : List VmemChunk) (c c' : VmemChunk) :
    setChunk (A ++ (P ++ c :: Q) :: B) ⟨A.length, P.length⟩ c' = A ++ (P ++ c' :: Q) :: B := by
  have hzone : (P ++ c :: Q).set P.length c' = P ++ c' :: Q := by
    rw [List.set_append_right _ _ (Nat.le_refl _), Nat.sub_self, List.set_cons_zero]
  rw [setChunk]
  induction A with
  | nil => exact congrArg (· :: B) hzone
  | cons a A ih => exact congrArg (a :: ·) ih

theorem chunkAt_setChunk (h : chunkAt zones obj = some c) (c' : VmemChunk) (o : Obj) :
    chunkAt (setChunk zones obj c') o = if o = obj then some c' else chunkAt zones o := by
  rw [chunkAt, Option.bind_eq_some_iff] at h
  obtain ⟨zone, hzone, hc⟩ := h
  rw [chunkAt, chunkAt, setChunk]
  by_cases hz : obj.zone = o.zone
  · rw [← hz, List.getElem?_modify_eq, hzone]
    show (zone.set obj.chunk c')[o.chunk]? = _
    by_cases hi : obj.chunk = o.chunk
    · have heq : o = obj := by
        cases o
        cases obj
        simp_all
      obtain ⟨hlt, -⟩ := List.getElem?_eq_some_iff.mp hc
      rw [if_pos heq, ← hi, List.getElem?_set_self hlt]
    · have hne : o ≠ obj := by
        rintro rfl
        exact hi rfl
      rw [if_neg hne, List.getElem?_set_ne hi]
      rfl
  · have hne : o ≠ obj := by
      rintro rfl
      exact hz rfl
    rw [List.getElem?_modify_ne _ _ hz, if_neg hne]

theorem length_setChunk (zones : List (List VmemChunk)) (obj : Obj) (c : VmemChunk) :
    (setChunk zones obj c).length = zones.length := List.length_modify _ _ _

/-- The number of chunks that are marked taken. -/
def takenCount (zones : List (List VmemChunk)) : Nat :=
  zones.flatten.countP fun c => c.taken ≠ 0

theorem takenCount_setChunk (h : chunkAt zones obj = some c) (c' : VmemChunk) :
    takenCount (setChunk zones obj c') + (if c.taken ≠ 0 then 1 else 0) =
      takenCount zones + if c'.taken ≠ 0 then 1 else 0 := by
  obtain ⟨A, P, Q, B, rfl, rfl⟩ := chunkAt_split h
  rw [setChunk_split]
  simp only [takenCount, List.flatten_append, List.flatten_cons, List.countP_append,
    List.countP_cons, decide_eq_true_eq]
  omega

/-! ## The search -/

theorem searchZone_some {zone zone' : List VmemChunk} {i : Nat}
    (h : searchZone zone = some (i, zone')) :
    ∃ c, zone[i]? = some c ∧ c.taken = 0 ∧ zone' = zone.set i { c with taken := 1 } := by
  induction zone generalizing i zone' with
  | nil => cases h
  | cons c zone ih =>
    rw [searchZone] at h
    by_cases hc : c.taken = 0
    · rw [if_pos hc] at h
      cases h
      exact ⟨c, rfl, hc, rfl⟩
    · rw [if_neg hc, Option.map_eq_some_iff] at h
      obtain ⟨⟨j, rest⟩, hrest, heq⟩ := h
      obtain ⟨rfl, rfl⟩ := Prod.mk.inj heq
      obtain ⟨d, hd, hfree, rfl⟩ := ih hrest
      exact ⟨d, hd, hfree, rfl⟩

theorem searchZone_none {zone : List VmemChunk} (h : searchZone zone = none) :
    ∀ c ∈ zone, c.taken ≠ 0 := by
  induction zone with
  | nil => exact fun c hc => absurd hc List.not_mem_nil
  | cons c zone ih =>
    rw [searchZone] at h
    by_cases hc : c.taken = 0
    · rw [if_pos hc] at h
      cases h
    · rw [if_neg hc, Option.map_eq_none_iff] at h
      exact List.forall_mem_cons.mpr ⟨hc, ih h⟩

theorem searchZones_some {zones' : List (List VmemChunk)}
    (h : searchZones zones = some (obj, zones')) :
    ∃ c, chunkAt zones obj = some c ∧ c.taken = 0 ∧
      zones' = setChunk zones obj { c with taken := 1 } := by
  induction zones generalizing obj zones' with
  | nil => cases h
  | cons zone zones ih =>
    rw [searchZones] at h
    cases hzone : searchZone zone with
    | some r =>
      obtain ⟨i, zone'⟩ := r
      rw [hzone] at h
      cases h
      obtain ⟨c, hc, hfree, rfl⟩ := searchZone_some hzone
      exact ⟨c, hc, hfree, rfl⟩
    | none =>
      rw [hzone] at h
      simp only [Option.map_eq_some_iff] at h
      obtain ⟨⟨o, rest⟩, hrest, heq⟩ := h
      obtain ⟨rfl, rfl⟩ := Prod.mk.inj heq
      obtain ⟨c, hc, hfree, rfl⟩ := ih hrest
      exact ⟨c, hc, hfree, rfl⟩

theorem searchZones_none (h : searchZones zones = none) : ∀ c ∈ zones.flatten, c.taken ≠ 0 := by
  induction zones with
  | nil => exact fun c hc => absurd hc List.not_mem_nil
  | cons zone zones ih =>
    rw [searchZones] at h
    cases hzone : searchZone zone with
    | some r =>
      rw [hzone] at h
      cases h
    | none =>
      rw [hzone] at h
      simp only [Option.map_eq_none_iff] at h
      intro c hc
      rw [List.flatten_cons, List.mem_append] at hc
      exact hc.elim (searchZone_none hzone c) (ih h c)

/-! ## The invariant -/

/-- The object is taken. -/
def Taken (zones : List (List VmemChunk)) (obj : Obj) : Prop :=
  ∃ c, chunkAt zones obj = some c ∧ c.taken ≠ 0

/-- What holds of an allocator in every run: the zones have one size, the magic words are in place,
and the two counters are the numbers they stand for. -/
structure Sound (aux : VmemAux) : Prop where
  first_pos : 0 < aux.first
  size : ∀ zone ∈ aux.zones, zone.length = aux.first
  magic : ∀ obj c, chunkAt aux.zones obj = some c → c.magic = CHUNK_MAGIC
  used : aux.used = takenCount aux.zones
  capc : aux.capc = aux.first * aux.zones.length

theorem length_flatten_of_size {n : Nat} (h : ∀ zone ∈ zones, zone.length = n) :
    zones.flatten.length = n * zones.length := by
  induction zones with
  | nil => rfl
  | cons zone zones ih =>
    obtain ⟨hzone, hrest⟩ := List.forall_mem_cons.mp h
    rw [List.flatten_cons, List.length_append, hzone, ih hrest, List.length_cons, Nat.mul_succ,
      Nat.add_comm]

theorem Sound.used_le {aux : VmemAux} (h : Sound aux) : aux.used ≤ aux.capc := by
  have hle : takenCount aux.zones ≤ aux.zones.flatten.length := List.countP_le_length
  rw [length_flatten_of_size h.size] at hle
  rw [h.used, h.capc]
  exact_mod_cast hle

/-- A cache that is not used up has a free chunk. -/
theorem Sound.search {aux : VmemAux} (h : Sound aux) (hroom : aux.used < aux.capc) :
    ∃ obj zones', searchZones aux.zones = some (obj, zones') := by
  cases hsearch : searchZones aux.zones with
  | some r => exact ⟨r.1, r.2, rfl⟩
  | none =>
    have hall : takenCount aux.zones = aux.zones.flatten.length := by
      rw [takenCount, List.countP_eq_length]
      intro c hc
      simpa using searchZones_none hsearch c hc
    have hlen := length_flatten_of_size h.size
    rw [h.used, h.capc, hall, hlen] at hroom
    exact absurd hroom (by push_cast; exact Int.lt_irrefl _)

theorem setChunk_size {n : Nat} (h : ∀ zone ∈ zones, zone.length = n) (obj : Obj)
    (c : VmemChunk) : ∀ zone ∈ setChunk zones obj c, zone.length = n := by
  intro zone hzone
  obtain ⟨i, hi⟩ := List.mem_iff_getElem?.mp hzone
  rw [setChunk, List.getElem?_modify] at hi
  cases hold : zones[i]? with
  | none =>
    rw [hold] at hi
    cases hi
  | some old =>
    rw [hold] at hi
    have hlen := h old (List.mem_of_getElem? hold)
    obtain rfl := Option.some.inj hi
    show (if obj.zone = i then old.set obj.chunk c else old).length = n
    by_cases hz : obj.zone = i
    · rw [if_pos hz, List.length_set, hlen]
    · rw [if_neg hz]
      exact hlen

/-- A store to the flag of a chunk. -/
theorem Sound.set {aux : VmemAux} (h : Sound aux) (hc : chunkAt aux.zones obj = some c)
    (taken used : Int)
    (hused : used = takenCount (setChunk aux.zones obj { c with taken := taken })) :
    Sound { aux with zones := setChunk aux.zones obj { c with taken := taken }, used := used } where
  first_pos := h.first_pos
  size := setChunk_size h.size obj _
  magic o d hd := by
    rw [chunkAt_setChunk hc] at hd
    by_cases ho : o = obj
    · rw [if_pos ho] at hd
      obtain rfl := Option.some.inj hd
      exact h.magic obj c hc
    · rw [if_neg ho] at hd
      exact h.magic o d hd
  used := hused
  capc := by
    show aux.capc = aux.first * (setChunk aux.zones obj _).length
    rw [length_setChunk, h.capc]

theorem taken_setChunk (hc : chunkAt zones obj = some c) (taken : Int) (o : Obj) :
    Taken (setChunk zones obj { c with taken := taken }) o ↔
      if o = obj then taken ≠ 0 else Taken zones o := by
  rw [Taken, chunkAt_setChunk hc]
  by_cases ho : o = obj
  · rw [if_pos ho, if_pos ho]
    constructor
    · rintro ⟨d, hd, hne⟩
      obtain rfl := Option.some.inj hd
      exact hne
    · exact fun hne => ⟨_, rfl, hne⟩
  · rw [if_neg ho, if_neg ho]
    rfl

/-! ## The operations -/

theorem vmemAuxInit_sound {objSz firstCapc : Int} {aux : VmemAux}
    (h : vmemAuxInit objSz firstCapc = some aux) : Sound aux ∧ aux.zones = [] := by
  rw [vmemAuxInit] at h
  split at h
  · cases h
  split at h
  · cases h
  cases h
  refine ⟨⟨?_, fun _ hzone => absurd hzone List.not_mem_nil, ?_, rfl, ?_⟩, rfl⟩
  · simp only [VMEM_FIRST_CAPC]
    split <;> omega
  · intro o d hd
    cases hd
  · simp

theorem chunkAt_extend (zones : List (List VmemChunk)) (n : Nat) (o : Obj) :
    chunkAt (zones ++ [List.replicate n ⟨CHUNK_MAGIC, 0⟩]) o = chunkAt zones o ∨
      chunkAt zones o = none ∧
        chunkAt (zones ++ [List.replicate n ⟨CHUNK_MAGIC, 0⟩]) o = some ⟨CHUNK_MAGIC, 0⟩ := by
  rw [chunkAt, chunkAt]
  rcases Nat.lt_trichotomy o.zone zones.length with hlt | heq | hgt
  · rw [List.getElem?_append_left hlt]
    exact Or.inl rfl
  · rw [heq, List.getElem?_concat_length, List.getElem?_eq_none (Nat.le_refl _)]
    show (List.replicate n _)[o.chunk]? = none ∨ _
    by_cases hi : o.chunk < n
    · refine Or.inr ⟨rfl, ?_⟩
      show (List.replicate n _)[o.chunk]? = _
      rw [List.getElem?_replicate_of_lt hi]
    · rw [List.getElem?_eq_none (by rw [List.length_replicate]; omega)]
      exact Or.inl rfl
  · rw [List.getElem?_eq_none (by rw [List.length_append, List.length_singleton]; omega),
      List.getElem?_eq_none (Nat.le_of_lt hgt)]
    exact Or.inl rfl

/-- What an extension leaves as it was: every object, and which of them are taken. -/
theorem Sound.extend {aux : VmemAux} (h : Sound aux) (hfull : aux.used ≥ aux.capc) :
    ∃ aux', auxExtend true aux = .ok (some aux') ∧ Sound aux' ∧ aux'.used < aux'.capc ∧
      (∀ o, (chunkAt aux.zones o).isSome → (chunkAt aux'.zones o).isSome) ∧
      ∀ o, Taken aux'.zones o ↔ Taken aux.zones o := by
  refine ⟨{ aux with
    zones := aux.zones ++ [List.replicate aux.first ⟨CHUNK_MAGIC, 0⟩]
    capc := aux.capc + aux.first }, ?_, ⟨h.first_pos, ?_, ?_, ?_, ?_⟩, ?_, ?_, ?_⟩
  · rw [auxExtend, if_neg (by omega), if_neg (by simp)]
  · intro zone hzone
    rcases List.mem_append.mp hzone with hzone | hzone
    · exact h.size zone hzone
    · rw [List.mem_singleton.mp hzone, List.length_replicate]
  · intro o d hd
    rcases chunkAt_extend aux.zones aux.first o with heq | ⟨-, heq⟩
    · exact h.magic o d (heq ▸ hd)
    · simp only [heq] at hd
      cases hd
      rfl
  · show aux.used = takenCount _
    have hnew : (List.replicate aux.first (⟨CHUNK_MAGIC, 0⟩ : VmemChunk)).countP
        (fun c => c.taken ≠ 0) = 0 :=
      List.countP_eq_zero.mpr fun c hc => by rw [List.eq_of_mem_replicate hc]; simp
    rw [takenCount, List.flatten_append, List.countP_append, List.flatten_singleton, hnew,
      Nat.add_zero, h.used, takenCount]
  · show aux.capc + _ = _
    rw [h.capc, List.length_append, List.length_singleton]
    push_cast
    rw [Int.mul_add, Int.mul_one]
  · have hle := h.used_le
    have hpos := h.first_pos
    show aux.used < aux.capc + aux.first
    omega
  · intro o ho
    rcases chunkAt_extend aux.zones aux.first o with heq | ⟨hnone, -⟩
    · simp only [heq]
      exact ho
    · rw [hnone] at ho
      cases ho
  · intro o
    rcases chunkAt_extend aux.zones aux.first o with heq | ⟨hnone, heq⟩
    · simp only [Taken, heq]
    · rw [Taken, Taken, hnone]
      refine iff_of_false ?_ (by simp)
      rintro ⟨d, hd, hne⟩
      simp only [heq] at hd
      cases hd
      exact hne rfl

/-- `vmem_aux_alloc` finds a chunk that was free. -/
theorem Sound.alloc {aux : VmemAux} (h : Sound aux) :
    ∃ aux' obj, vmemAuxAlloc true aux = .ok (some (aux', obj)) ∧ Sound aux' ∧
      ¬ Taken aux.zones obj ∧ (chunkAt aux'.zones obj).isSome ∧
      (∀ o, (chunkAt aux.zones o).isSome → (chunkAt aux'.zones o).isSome) ∧
      ∀ o, Taken aux'.zones o ↔ o = obj ∨ Taken aux.zones o := by
  obtain ⟨room, hroom, hsound, hlt, hkeep, htaken⟩ : ∃ room,
      extendIfUsedUp true aux = .ok (some room) ∧ Sound room ∧ room.used < room.capc ∧
        (∀ o, (chunkAt aux.zones o).isSome → (chunkAt room.zones o).isSome) ∧
        ∀ o, Taken room.zones o ↔ Taken aux.zones o := by
    by_cases hfull : aux.used ≥ aux.capc
    · rw [extendIfUsedUp, if_pos hfull]
      exact h.extend hfull
    · rw [extendIfUsedUp, if_neg hfull]
      exact ⟨aux, rfl, h, by omega, fun _ ho => ho, fun _ => Iff.rfl⟩
  obtain ⟨obj, zones', hsearch⟩ := hsound.search hlt
  obtain ⟨c, hc, hfree, rfl⟩ := searchZones_some hsearch
  have hcount := takenCount_setChunk hc { c with taken := 1 }
  rw [if_neg (by simpa using hfree), if_pos (show (1 : Int) ≠ 0 by decide)] at hcount
  have hset := hsound.set hc 1 (room.used + 1) (by rw [hsound.used]; omega)
  refine ⟨_, obj, ?_, hset, ?_, ?_, ?_, ?_⟩
  · rw [vmemAuxAlloc, hroom]
    simp only [hsearch]
  · rw [← htaken]
    rintro ⟨d, hd, hne⟩
    rw [hc] at hd
    cases hd
    exact hne hfree
  · simp only [chunkAt_setChunk hc, if_true, Option.isSome_some]
  · intro o ho
    simp only [chunkAt_setChunk hc]
    by_cases heq : o = obj
    · rw [if_pos heq]
      rfl
    · rw [if_neg heq]
      exact hkeep o ho
  · intro o
    rw [taken_setChunk hc]
    by_cases heq : o = obj
    · rw [if_pos heq]
      exact iff_of_true (by decide) (Or.inl heq)
    · rw [if_neg heq, htaken]
      exact ⟨Or.inr, fun hor => hor.resolve_left heq⟩

/-- `vmem_aux_free` never stops: it clears the flag, whatever it was, and counts down. -/
theorem Sound.free {aux : VmemAux} (h : Sound aux) (hc : chunkAt aux.zones obj = some c) :
    vmemAuxFree aux obj = .ok { aux with
      zones := setChunk aux.zones obj { c with taken := 0 }
      used := aux.used - 1 } := by
  rw [vmemAuxFree, hc]
  simp only
  rw [if_neg (by rw [h.magic obj c hc]; simp), if_neg (by decide)]

/-! ## Runs -/

/-- The calls of a client of the allocator. -/
inductive Op where
  | alloc
  /-- a free of the object that was returned as the `k`-th one, if there is one -/
  | free (k : Nat)

/-- A cache with the objects it has returned and those of them that have not been freed since. -/
structure Client where
  aux : VmemAux
  returned : List Obj
  held : List Obj

/-- A client that holds nothing yet. -/
def start (aux : VmemAux) : Client := ⟨aux, [], []⟩

/-- A call of the client, which remembers the objects that it holds and all that were ever returned.
-/
def step (s : Client) : Op → Res Client
  | .alloc => do
    match ← vmemAuxAlloc true s.aux with
    | none => .ok s
    | some (aux, obj) => .ok ⟨aux, s.returned ++ [obj], obj :: s.held⟩
  | .free k =>
    match s.returned[k]? with
    | none => .ok s
    | some obj => do
      let aux ← vmemAuxFree s.aux obj
      .ok { s with aux := aux, held := s.held.erase obj }

/-- The counter agrees with the flags and the capacity with the zones, and no object is held
twice. -/
structure Agree (s : Client) : Prop where
  used : s.aux.used = takenCount s.aux.zones
  capc : s.aux.capc = s.aux.first * s.aux.zones.length
  held : s.held.Nodup

/-- After the step everything agrees; the step may also be a free of an object that is not held and
be stopped by an assertion. -/
def Fine (s : Client) (o : Op) : Prop :=
  match step s o with
  | .ok s' => Agree s'
  | .error e => e = .assertion ∧ ∃ k obj, o = .free k ∧ s.returned[k]? = some obj ∧ obj ∉ s.held

/-- Only objects are freed that are held. -/
def FreesHeld (s : Client) (o : Op) : Prop :=
  ∀ k obj, o = .free k → s.returned[k]? = some obj → obj ∈ s.held

/-- The client holds exactly the objects that are taken, each of them once. -/
structure Linked (s : Client) : Prop where
  sound : Sound s.aux
  nodup : s.held.Nodup
  held : ∀ o, o ∈ s.held ↔ Taken s.aux.zones o
  returned : ∀ o ∈ s.returned, (chunkAt s.aux.zones o).isSome

theorem Linked.agree {s : Client} (h : Linked s) : Agree s :=
  ⟨h.sound.used, h.sound.capc, h.nodup⟩

theorem Linked.alloc {s : Client} (h : Linked s) : ∃ s', step s .alloc = .ok s' ∧ Linked s' := by
  obtain ⟨aux', obj, halloc, hsound, hfree, hobj, hkeep, htaken⟩ := h.sound.alloc
  refine ⟨⟨aux', s.returned ++ [obj], obj :: s.held⟩, ?_, hsound, ?_, ?_, ?_⟩
  · rw [step, halloc]
    rfl
  · exact List.nodup_cons.mpr ⟨fun hmem => hfree ((h.held obj).mp hmem), h.nodup⟩
  · intro o
    rw [List.mem_cons, htaken, h.held]
  · intro o ho
    rcases List.mem_append.mp ho with ho | ho
    · exact hkeep o (h.returned o ho)
    · rw [List.mem_singleton.mp ho]
      exact hobj

theorem Linked.free {s : Client} (h : Linked s) {k : Nat} (hk : s.returned[k]? = some obj) :
    ∃ c, chunkAt s.aux.zones obj = some c ∧ step s (.free k) = .ok
      { s with
        aux := { s.aux with
          zones := setChunk s.aux.zones obj { c with taken := 0 }
          used := s.aux.used - 1 }
        held := s.held.erase obj } := by
  obtain ⟨c, hc⟩ := Option.isSome_iff_exists.mp (h.returned obj (List.mem_of_getElem? hk))
  refine ⟨c, hc, ?_⟩
  rw [step, hk]
  simp only [h.sound.free hc, ok_bind]

theorem Linked.free_held {s : Client} (h : Linked s) {k : Nat} (hk : s.returned[k]? = some obj)
    (hheld : obj ∈ s.held) : ∃ s', step s (.free k) = .ok s' ∧ Linked s' := by
  obtain ⟨c, hc, hstep⟩ := h.free hk
  obtain ⟨d, hd, hne⟩ := (h.held obj).mp hheld
  obtain rfl : c = d := Option.some.inj (hc.symm.trans hd)
  have hcount := takenCount_setChunk hc { c with taken := 0 }
  rw [if_pos hne, if_neg (fun hne => hne rfl)] at hcount
  have hset := h.sound.set hc 0 (s.aux.used - 1) (by rw [h.sound.used]; omega)
  refine ⟨_, hstep, hset, h.nodup.erase obj, ?_, ?_⟩
  · intro o
    rw [h.nodup.mem_erase_iff, taken_setChunk hc, h.held]
    by_cases heq : o = obj
    · rw [if_pos heq]
      exact iff_of_false (fun hand => hand.1 heq) (by decide)
    · rw [if_neg heq]
      exact and_iff_right heq
  · intro o ho
    simp only [chunkAt_setChunk hc]
    by_cases heq : o = obj
    · rw [if_pos heq]
      rfl
    · rw [if_neg heq]
      exact h.returned o ho

/-- A second free is not stopped, and the counter no longer agrees with the flags. -/
theorem Linked.not_fine {s : Client} (h : Linked s) {k : Nat} (hk : s.returned[k]? = some obj)
    (hheld : obj ∉ s.held) : ¬ Fine s (.free k) := by
  obtain ⟨c, hc, hstep⟩ := h.free hk
  have hfree : c.taken = 0 := by
    by_contra hne
    exact hheld ((h.held obj).mpr ⟨c, hc, hne⟩)
  have hcount := takenCount_setChunk hc { c with taken := 0 }
  rw [if_neg (by simpa using hfree), if_neg (fun hne => hne rfl)] at hcount
  rw [Fine, hstep]
  intro hagree
  have hused : s.aux.used - 1 = takenCount (setChunk s.aux.zones obj { c with taken := 0 }) :=
    hagree.used
  have hold := h.sound.used
  omega

theorem Linked.fine_iff {s : Client} (h : Linked s) (o : Op) : Fine s o ↔ FreesHeld s o := by
  cases o with
  | alloc =>
    obtain ⟨s', hstep, hlinked⟩ := h.alloc
    rw [Fine, hstep]
    exact iff_of_true hlinked.agree (fun k obj ho => nomatch ho)
  | free k =>
    cases hk : s.returned[k]? with
    | none =>
      rw [Fine, step, hk]
      apply iff_of_true h.agree
      intro j obj ho hobj
      cases ho
      rw [hk] at hobj
      cases hobj
    | some obj =>
      by_cases hheld : obj ∈ s.held
      · obtain ⟨s', hstep, hlinked⟩ := h.free_held hk hheld
        rw [Fine, hstep]
        apply iff_of_true hlinked.agree
        intro j obj' ho hobj
        cases ho
        rw [hk] at hobj
        cases hobj
        exact hheld
      · exact iff_of_false (h.not_fine hk hheld) fun hfrees => hheld (hfrees k obj rfl hk)

theorem Linked.step {s s' : Client} {o : Op} (h : Linked s) (ho : FreesHeld s o)
    (hs : step s o = .ok s') : Linked s' := by
  cases o with
  | alloc =>
    obtain ⟨m, hm, hlinked⟩ := h.alloc
    rw [hm] at hs
    cases hs
    exact hlinked
  | free k =>
    cases hk : s.returned[k]? with
    | none =>
      rw [Mem.step, hk] at hs
      cases hs
      exact h
    | some obj =>
      obtain ⟨m, hm, hlinked⟩ := h.free_held hk (ho k obj rfl hk)
      rw [hm] at hs
      cases hs
      exact hlinked

theorem linked_start {objSz firstCapc : Int} {aux : VmemAux}
    (h : vmemAuxInit objSz firstCapc = some aux) : Linked (start aux) := by
  obtain ⟨hsound, hzones⟩ := vmemAuxInit_sound h
  refine ⟨hsound, List.nodup_nil, fun o => ?_, fun o ho => absurd ho List.not_mem_nil⟩
  apply iff_of_false List.not_mem_nil
  rintro ⟨c, hc, -⟩
  simp only [start, hzones] at hc
  cases hc

/-! ## The counters -/

/-- What the counters have reached: no further than the objects that were returned so far, and for the
capacity one zone more. -/
structure Counted (first : Nat) (s : Client) : Prop where
  first_eq : s.aux.first = first
  used_nonneg : 0 ≤ s.aux.used
  used_le : s.aux.used ≤ s.returned.length
  capc_lt : s.aux.capc < s.returned.length + first

theorem counted_alloc {aux aux' : VmemAux} {obj : Obj}
    (h : vmemAuxAlloc true aux = .ok (some (aux', obj))) :
    aux'.first = aux.first ∧ aux'.used = aux.used + 1 ∧
      (aux'.capc = aux.capc ∨ aux.used ≥ aux.capc ∧ aux'.capc = aux.capc + aux.first) := by
  unfold vmemAuxAlloc extendIfUsedUp auxExtend at h
  by_cases hfull : aux.used ≥ aux.capc
  · rw [if_pos hfull, if_neg (by omega), if_neg (by simp)] at h
    dsimp only at h
    split at h
    · cases h
    · cases h
      exact ⟨rfl, rfl, Or.inr ⟨hfull, rfl⟩⟩
  · rw [if_neg hfull] at h
    dsimp only at h
    split at h
    · cases h
    · cases h
      exact ⟨rfl, rfl, Or.inl rfl⟩

theorem Counted.step {first : Nat} {s s' : Client} {o : Op} (hc : Counted first s) (h : Linked s)
    (h' : Linked s') (hs : step s o = .ok s') : Counted first s' := by
  have hnonneg : 0 ≤ s'.aux.used := by
    rw [h'.sound.used]
    exact Int.natCast_nonneg _
  have hused := hc.used_le
  have hcapc := hc.capc_lt
  cases o with
  | alloc =>
    obtain ⟨aux', obj, halloc, -⟩ := h.sound.alloc
    rw [Mem.step, halloc] at hs
    cases hs
    obtain ⟨hfirst, hone, hgrown⟩ := counted_alloc halloc
    have hsame := hc.first_eq
    refine ⟨hfirst.trans hsame, hnonneg, ?_, ?_⟩
    · show aux'.used ≤ _
      rw [List.length_append, List.length_singleton]
      omega
    · show aux'.capc < _
      rw [List.length_append, List.length_singleton]
      omega
  | free k =>
    cases hk : s.returned[k]? with
    | none =>
      rw [Mem.step, hk] at hs
      cases hs
      exact hc
    | some obj =>
      obtain ⟨c, -, hfree⟩ := h.free hk
      rw [hfree] at hs
      cases hs
      exact ⟨hc.first_eq, hnonneg, by dsimp only; omega, hcapc⟩

/-- The counters of the program are `int`s. They are never negative, and stay below `2 ^ 31` while
fewer than `2 ^ 31 - first` objects have been returned. -/
theorem counters_bounded {objSz firstCapc : Int} {aux : VmemAux}
    (hinit : vmemAuxInit objSz firstCapc = some aux) {ops : List Op} {s : Client}
    (hops : Along step FreesHeld (start aux) ops) (hrun : run step (start aux) ops = .ok s) :
    Counted aux.first s := by
  have hstart := linked_start hinit
  have hzero : aux.used = 0 ∧ aux.capc = 0 := by
    unfold vmemAuxInit at hinit
    split at hinit
    · cases hinit
    · split at hinit
      · cases hinit
      · cases hinit
        exact ⟨rfl, rfl⟩
  have hcounted : Counted aux.first (start aux) := by
    refine ⟨rfl, hzero.1.ge, hzero.1.le, ?_⟩
    show aux.capc < ((0 : Nat) : Int) + aux.first
    have hpos : 0 < aux.first := hstart.sound.first_pos
    omega
  refine (along_invariant (I := fun s => Linked s ∧ Counted aux.first s) ?_ ⟨hstart, hcounted⟩ hops
    hrun).2
  intro s o s' ⟨hlinked, hc⟩ hop hs
  have hlinked' := hlinked.step hop hs
  exact ⟨hlinked', hc.step hlinked hlinked' hs⟩

/-! ## Every sequence of calls -/

end Vdht.Mem
