import Vdht.Route.Placement

/-!
# What an operation does to a peer

An operation of the node space changes its peers one by one, and what it makes of a peer depends
on that peer alone. `PeerStep` lists the changes, `Enters` the peers that are new. A property of
single peers that no change breaks and every new peer has holds in all peers after every run.
-/

namespace Vdht.Route

open NodeId Lib

/-- What the operations of a space leave as it is. -/
def NodeSpace.config (space : NodeSpace) : NodeSpace := { space with bucket := fun _ => ⟨[], 0⟩ }

/-- The changes an operation may make to a peer. -/
inductive PeerStep (space : NodeSpace) : Int × SpaceOp → Vpeer → Vpeer → Prop where
  | same (op : Int × SpaceOp) (p : Vpeer) : PeerStep space op p p
  | updated {nodei : VnodeInfo} {flag : AddFlag} {now : Int} {p q : Vpeer} {ret : Int}
      (h : vpeerUpdate space p (bumpWeight space nodei) flag now = .ok (q, ret)) :
      PeerStep space (now, .addNode nodei flag) p q
  | kicked (now : Int) (p : Vpeer) :
      PeerStep space (now, .kickNode p.nodei.id) p (kickPeer space now p)
  | adjusted (now : Int) (conn : VnodeConn) (p : Vpeer) :
      PeerStep space (now, .adjustConnectivity p.nodei.id conn) p
        { p with conn := vnodeConnAdjust p.conn conn }
  | probed (now : Int) (laddr : VsockaddrIn) (p : Vpeer) :
      PeerStep space (now, .probeConnectivity laddr) p { p with ntry_probes := p.ntry_probes + 1 }
  | pinged (now : Int) (rand : Fin NBUCKETS → Nat) (p : Vpeer) :
      PeerStep space (now, .tick rand) p (pingPeer space now p).1

/-- The peers an operation may create. -/
inductive Enters (space : NodeSpace) : Int × SpaceOp → Vpeer → Prop where
  | added {nodei : VnodeInfo} {now : Int} {q : Vpeer} (flag : AddFlag)
      (hne : nodei.id ≠ space.myid) (h : vpeerInit space (bumpWeight space nodei) now = .ok q) :
      Enters space (now, .addNode nodei flag) q

/-- A list of peers after an operation on the list `ps`. -/
def PeersFrom (space : NodeSpace) (op : Int × SpaceOp) (ps qs : List Vpeer) : Prop :=
  ∀ q ∈ qs, (∃ p ∈ ps, PeerStep space op p q) ∨ Enters space op q

theorem PeersFrom.refl (space : NodeSpace) (op : Int × SpaceOp) (ps : List Vpeer) :
    PeersFrom space op ps ps := fun q hq => Or.inl ⟨q, hq, .same op q⟩

theorem PeersFrom.mono {space : NodeSpace} {op : Int × SpaceOp} {ps ps' qs : List Vpeer}
    (h : PeersFrom space op ps qs) (hsub : ps ⊆ ps') : PeersFrom space op ps' qs := by
  intro q hq
  rcases h q hq with ⟨p, hp, hpq⟩ | hnew
  · exact Or.inl ⟨p, hsub hp, hpq⟩
  · exact Or.inr hnew

theorem setBucket_bucket (space : NodeSpace) (idx i : Fin NBUCKETS) (b : Bucket) :
    (space.setBucket idx b).bucket i = if i = idx then b else space.bucket i :=
  Function.update_apply ..

/-- The peers of a space with another bucket. -/
theorem mem_peers_setBucket {space : NodeSpace} {i : Fin NBUCKETS} {b : Bucket} {p : Vpeer}
    (h : p ∈ (space.setBucket i b).peers) : p ∈ b.peers ∨ p ∈ space.peers := by
  obtain ⟨j, hj⟩ := mem_allItems.mp h
  by_cases hji : j = i
  · subst hji
    apply Or.inl
    simpa [NodeSpace.setBucket] using hj
  · refine Or.inr (mem_allItems.mpr ⟨j, ?_⟩)
    simpa [NodeSpace.setBucket, Function.update_of_ne hji] using hj

theorem mem_peers_of_bucket {space : NodeSpace} {i : Fin NBUCKETS} {p : Vpeer}
    (h : p ∈ (space.bucket i).peers) : p ∈ space.peers := mem_allItems.mpr ⟨i, h⟩

theorem peersFrom_setBucket {space : NodeSpace} {op : Int × SpaceOp} {i : Fin NBUCKETS}
    {b : Bucket} (h : PeersFrom space op (space.bucket i).peers b.peers) :
    PeersFrom space op space.peers (space.setBucket i b).peers := by
  intro q hq
  rcases mem_peers_setBucket hq with hq | hq
  · exact h.mono (fun p hp => mem_peers_of_bucket hp) q hq
  · exact Or.inl ⟨q, hq, .same op q⟩

/-! ## Adding a node -/

/-- What a successful operation leaves: the configuration, and peers that come from its peers. -/
def SpaceFrom (op : Int × SpaceOp) (space s : NodeSpace) : Prop :=
  s.config = space.config ∧ PeersFrom space op space.peers s.peers

theorem SpaceFrom.refl (op : Int × SpaceOp) (space : NodeSpace) : SpaceFrom op space space :=
  ⟨rfl, .refl space op _⟩

theorem updatePeer_from {space s : NodeSpace} {idx : Fin NBUCKETS} {i : Nat} {nodei : VnodeInfo}
    {flag : AddFlag} {now : Int}
    (h : updatePeer space idx i (bumpWeight space nodei) flag now = .ok s) :
    SpaceFrom (now, .addNode nodei flag) space s := by
  unfold updatePeer getSlot at h
  cases hp : (space.bucket idx).peers[i]? with
  | none =>
    rw [hp] at h
    cases h
  | some p =>
    rw [hp] at h
    dsimp only at h
    split at h
    · cases h
    · rename_i q ret hu
      cases h
      refine ⟨rfl, peersFrom_setBucket ?_⟩
      intro r hr
      rcases List.mem_or_eq_of_mem_set hr with hr | rfl
      · exact Or.inl ⟨r, hr, .same _ r⟩
      · exact Or.inl ⟨p, List.mem_of_getElem? hp, .updated hu⟩

theorem appendPeer_from {space s : NodeSpace} {idx : Fin NBUCKETS} {nodei : VnodeInfo}
    {now : Int} (flag : AddFlag) (hne : nodei.id ≠ space.myid)
    (h : appendPeer space idx (bumpWeight space nodei) now = .ok s) :
    SpaceFrom (now, .addNode nodei flag) space s := by
  unfold appendPeer at h
  split at h
  · cases h
  · rename_i q hq
    cases h
    refine ⟨rfl, peersFrom_setBucket ?_⟩
    intro r hr
    rcases List.mem_append.mp hr with hr | hr
    · exact Or.inl ⟨r, hr, .same _ r⟩
    · rw [List.mem_singleton.mp hr]
      exact Or.inr (.added flag hne hq)

theorem addNode_from {space s : NodeSpace} {nodei : VnodeInfo} {flag : AddFlag} {now : Int}
    (h : addNode space nodei flag now = .ok s) : SpaceFrom (now, .addNode nodei flag) space s := by
  unfold addNode at h
  split at h
  · cases h
    exact .refl _ space
  · rename_i hmy
    have hne : nodei.id ≠ space.myid := fun he => hmy (vtokenEqual_iff.mpr he.symm)
    dsimp only at h
    split at h
    · exact updatePeer_from h
    · split at h
      · exact updatePeer_from h
      · split at h
        · exact appendPeer_from flag hne h
        · cases h
          exact .refl _ space

/-! ## The other operations -/

theorem mem_onPeer {id : Token} {f : Vpeer → Vpeer} {ps : List Vpeer} {q : Vpeer}
    (h : q ∈ onPeer id f ps) : q ∈ ps ∨ ∃ p ∈ ps, p.nodei.id = id ∧ q = f p := by
  induction ps with
  | nil => exact absurd h List.not_mem_nil
  | cons p ps ih =>
    unfold onPeer at h
    split at h
    · rename_i hid
      rcases List.mem_cons.mp h with rfl | h
      · exact Or.inr ⟨p, List.mem_cons_self, vtokenEqual_iff.mp hid, rfl⟩
      · exact Or.inl (List.mem_cons_of_mem _ h)
    · rcases List.mem_cons.mp h with rfl | h
      · exact Or.inl List.mem_cons_self
      · rcases ih h with h | ⟨r, hr, hid, hq⟩
        · exact Or.inl (List.mem_cons_of_mem _ h)
        · exact Or.inr ⟨r, List.mem_cons_of_mem _ hr, hid, hq⟩

theorem onPeer_from {space : NodeSpace} {op : Int × SpaceOp} {id : Token} {f : Vpeer → Vpeer}
    {ps : List Vpeer} (hf : ∀ p, p.nodei.id = id → PeerStep space op p (f p)) :
    PeersFrom space op ps (onPeer id f ps) := by
  intro q hq
  rcases mem_onPeer hq with hq | ⟨p, hp, hid, rfl⟩
  · exact Or.inl ⟨q, hq, .same op q⟩
  · exact Or.inl ⟨p, hp, hf p hid⟩

theorem kickNode_from (space : NodeSpace) (id : Token) (now : Int) :
    SpaceFrom (now, .kickNode id) space (kickNode space id now).1 := by
  refine ⟨rfl, peersFrom_setBucket (onPeer_from ?_)⟩
  rintro p rfl
  exact .kicked now p

theorem adjustConnectivity_from (space : NodeSpace) (id : Token) (conn : VnodeConn) (now : Int) :
    SpaceFrom (now, .adjustConnectivity id conn) space (adjustConnectivity space id conn) := by
  refine ⟨rfl, peersFrom_setBucket (onPeer_from ?_)⟩
  rintro p rfl
  exact .adjusted now conn p

/-- A step on every bucket, each of which is met once. -/
theorem eachBucket_rel {R : Bucket → Bucket → List DhtCall → Prop}
    {step : Fin NBUCKETS → Bucket → Res (Bucket × List DhtCall)}
    (hstep : ∀ i b b' calls, step i b = .ok (b', calls) → R b b' calls)
    {is : List (Fin NBUCKETS)} (hnodup : is.Nodup) :
    ∀ {t s : NodeSpace} {calls : List DhtCall}, eachBucket step t is = .ok (s, calls) →
      s.config = t.config ∧ (∀ i ∉ is, s.bucket i = t.bucket i) ∧
        (∀ i ∈ is, ∃ l, R (t.bucket i) (s.bucket i) l) ∧
        ∀ c ∈ calls, ∃ i ∈ is, ∃ l, R (t.bucket i) (s.bucket i) l ∧ c ∈ l := by
  induction is with
  | nil =>
    intro t s calls h
    cases h
    exact ⟨rfl, fun _ _ => rfl, by simp, by simp⟩
  | cons j is ih =>
    intro t s calls h
    obtain ⟨hj, hnodup⟩ := List.nodup_cons.mp hnodup
    unfold eachBucket at h
    split at h
    · cases h
    · rename_i b calls' hb
      split at h
      · cases h
      · rename_i s' rest hs
        cases h
        obtain ⟨hconfig, hout, hin, hcalls⟩ := ih hnodup hs
        have hset : ∀ i, i ≠ j → (t.setBucket j b).bucket i = t.bucket i := by
          intro i hi
          exact Function.update_of_ne hi _ _
        have hself : (t.setBucket j b).bucket j = b := Function.update_self ..
        have hhead : R (t.bucket j) (s.bucket j) calls' := by
          rw [hout j hj, hself]
          exact hstep j _ b calls' hb
        refine ⟨hconfig, ?_, ?_, ?_⟩
        · intro i hi
          rw [hout i (List.not_mem_of_not_mem_cons hi), hset i (List.ne_of_not_mem_cons hi)]
        · intro i hi
          rcases List.mem_cons.mp hi with rfl | hi
          · exact ⟨calls', hhead⟩
          · rw [← hset i fun heq => hj (heq ▸ hi)]
            exact hin i hi
        · intro c hc
          rcases List.mem_append.mp hc with hc | hc
          · exact ⟨j, List.mem_cons_self, calls', hhead, hc⟩
          · obtain ⟨i, hi, l, hl, hcl⟩ := hcalls c hc
            rw [hset i fun heq => hj (heq ▸ hi)] at hl
            exact ⟨i, List.mem_cons_of_mem _ hi, l, hl, hcl⟩

theorem everyBucket_rel {R : Bucket → Bucket → Prop} {space s : NodeSpace}
    {step : Fin NBUCKETS → Bucket → Res (Bucket × List DhtCall)} {calls : List DhtCall}
    (hstep : ∀ i b b' calls, step i b = .ok (b', calls) → R b b')
    (h : eachBucket step space (List.finRange NBUCKETS) = .ok (s, calls)) :
    s.config = space.config ∧ ∀ i, R (space.bucket i) (s.bucket i) := by
  obtain ⟨hconfig, -, hin, -⟩ := eachBucket_rel (R := fun b b' _ => R b b') hstep
    (List.nodup_finRange NBUCKETS) h
  refine ⟨hconfig, fun i => ?_⟩
  obtain ⟨l, hl⟩ := hin i (List.mem_finRange i)
  exact hl

/-- The calls a step on every bucket makes are calls on one of the buckets. -/
theorem everyBucket_calls {C : Bucket → DhtCall → Prop} {space s : NodeSpace}
    {step : Fin NBUCKETS → Bucket → Res (Bucket × List DhtCall)} {calls : List DhtCall}
    (hstep : ∀ i b b' calls, step i b = .ok (b', calls) → ∀ c ∈ calls, C b c)
    (h : eachBucket step space (List.finRange NBUCKETS) = .ok (s, calls)) :
    ∀ c ∈ calls, ∃ i, C (space.bucket i) c := by
  obtain ⟨-, -, -, hcalls⟩ := eachBucket_rel (R := fun b _ l => ∀ c ∈ l, C b c) hstep
    (List.nodup_finRange NBUCKETS) h
  intro c hc
  obtain ⟨i, -, l, hl, hcl⟩ := hcalls c hc
  exact ⟨i, hl c hcl⟩

theorem everyBucket_from {space s : NodeSpace} {op : Int × SpaceOp}
    {step : Fin NBUCKETS → Bucket → Res (Bucket × List DhtCall)} {calls : List DhtCall}
    (hstep : ∀ i b b' calls, step i b = .ok (b', calls) → PeersFrom space op b.peers b'.peers)
    (h : eachBucket step space (List.finRange NBUCKETS) = .ok (s, calls)) :
    SpaceFrom op space s := by
  obtain ⟨hconfig, hin⟩ := everyBucket_rel
    (R := fun b b' => PeersFrom space op b.peers b'.peers) hstep h
  refine ⟨hconfig, ?_⟩
  intro q hq
  obtain ⟨i, hi⟩ := mem_allItems.mp hq
  exact (hin i).mono (fun p hp => mem_peers_of_bucket hp) q hi

theorem probePeers_from {space : NodeSpace} {laddr : VsockaddrIn} (now : Int)
    {ps qs : List Vpeer} {calls : List DhtCall} (h : probePeers space laddr ps = .ok (qs, calls)) :
    PeersFrom space (now, .probeConnectivity laddr) ps qs := by
  induction ps generalizing qs calls with
  | nil =>
    cases h
    exact .refl space _ []
  | cons p ps ih =>
    have hcons : ∀ (q : Vpeer) (rest : List Vpeer),
        PeerStep space (now, .probeConnectivity laddr) p q →
        PeersFrom space (now, .probeConnectivity laddr) ps rest →
        PeersFrom space (now, .probeConnectivity laddr) (p :: ps) (q :: rest) := by
      intro q rest hq hrest r hr
      rcases List.mem_cons.mp hr with rfl | hr
      · exact Or.inl ⟨p, List.mem_cons_self, hq⟩
      · exact hrest.mono (List.subset_cons_self p ps) r hr
    unfold probePeers at h
    split at h
    · split at h
      · cases h
      · split at h
        · cases h
        · rename_i rest hrest
          cases h
          exact hcons _ _ (.probed now laddr p) (ih hrest)
    · split at h
      · cases h
      · rename_i rest hrest
        cases h
        exact hcons _ _ (.same _ p) (ih hrest)

theorem probeConnectivity_from {space s : NodeSpace} {laddr : VsockaddrIn} (now : Int)
    {calls : List DhtCall} (h : probeConnectivity space laddr = .ok (s, calls)) :
    SpaceFrom (now, .probeConnectivity laddr) space s := by
  refine everyBucket_from ?_ h
  intro i b b' calls' hb
  split at hb
  · cases hb
  · rename_i qs calls'' hqs
    cases hb
    exact probePeers_from now hqs

theorem tickBucket_peers {space : NodeSpace} {now : Int} {rand : Nat} {b b' : Bucket}
    {calls : List DhtCall} (h : tickBucket space now rand b = .ok (b', calls)) :
    b'.peers = b.peers.map fun p => (pingPeer space now p).1 := by
  unfold tickBucket at h
  dsimp only at h
  split at h
  · cases h
    rfl
  · split at h
    · cases h
      rfl
    · split at h
      · cases h
      · split at h
        · cases h
          rfl
        · cases h
          rfl

theorem nodeSpaceTick_from {space s : NodeSpace} {rand : Fin NBUCKETS → Nat} {now : Int}
    {calls : List DhtCall} (h : nodeSpaceTick space rand now = .ok (s, calls)) :
    SpaceFrom (now, .tick rand) space s := by
  refine everyBucket_from ?_ h
  intro i b b' calls' hb q hq
  rw [tickBucket_peers hb] at hq
  obtain ⟨p, hp, rfl⟩ := List.mem_map.mp hq
  exact Or.inl ⟨p, hp, .pinged now rand p⟩

/-- Every peer is still there after a tick, pinged or not. -/
theorem nodeSpaceTick_mem {space s : NodeSpace} {rand : Fin NBUCKETS → Nat} {now : Int}
    {calls : List DhtCall} (h : nodeSpaceTick space rand now = .ok (s, calls)) {p : Vpeer}
    (hp : p ∈ space.peers) : (pingPeer space now p).1 ∈ s.peers := by
  have hrel := everyBucket_rel
    (R := fun b b' => b'.peers = b.peers.map fun p => (pingPeer space now p).1)
    (fun _ _ _ _ hb => tickBucket_peers hb) h
  obtain ⟨i, hi⟩ := mem_allItems.mp hp
  refine mem_allItems.mpr ⟨i, ?_⟩
  rw [hrel.2 i]
  exact List.mem_map_of_mem hi

theorem nodeSpaceClear_peers (space : NodeSpace) : (nodeSpaceClear space).peers = [] := by
  apply List.eq_nil_iff_forall_not_mem.mpr
  intro p hp
  obtain ⟨i, hi⟩ := mem_allItems.mp hp
  exact absurd hi List.not_mem_nil

theorem nodeSpaceInit_peers (zaddr : SockaddrIn) (bucketSz : Nat) (maxNextTmo : Int)
    (myid myver : Token) : (nodeSpaceInit zaddr bucketSz maxNextTmo myid myver).peers = [] :=
  nodeSpaceClear_peers (nodeSpaceInit zaddr bucketSz maxNextTmo myid myver)

/-- What one operation does to the peers. -/
theorem spaceExec_from {space s : NodeSpace} {op : Int × SpaceOp}
    (h : spaceExec space op = .ok s) : SpaceFrom op space s := by
  obtain ⟨now, op⟩ := op
  cases op with
  | addNode nodei flag => exact addNode_from h
  | kickNode id =>
    cases h
    exact kickNode_from space id now
  | adjustConnectivity id conn =>
    cases h
    exact adjustConnectivity_from space id conn now
  | probeConnectivity laddr =>
    obtain ⟨⟨t, calls⟩, ht, rfl⟩ := map_ok h
    exact probeConnectivity_from now ht
  | tick rand =>
    obtain ⟨⟨t, calls⟩, ht, rfl⟩ := map_ok h
    exact nodeSpaceTick_from ht
  | clear =>
    cases h
    refine ⟨rfl, ?_⟩
    rw [nodeSpaceClear_peers]
    exact fun q hq => absurd hq List.not_mem_nil

/-! ## Ids

No operation changes the id of a peer, and a new peer is only appended to the bucket of its id
after the scan has not found its id there. This needs nothing of the node infos. -/

/-- Every bucket holds peers with distinct ids that belong there. -/
def NodeSpace.Keyed (space : NodeSpace) : Prop :=
  ∀ i, BucketOk (vnodeIdBucket space.myid) (fun p : Vpeer => p.nodei.id) space.bucket_sz i
    (space.bucket i).peers

theorem NodeSpace.Keyed.distinct {space : NodeSpace} (h : space.Keyed) :
    (space.peers.map fun p => p.nodei.id).Nodup := nodup_allItems h

theorem keyed_setBucket {space : NodeSpace} (h : space.Keyed) {i : Fin NBUCKETS} {b : Bucket}
    (hb : BucketOk (vnodeIdBucket space.myid) (fun p : Vpeer => p.nodei.id) space.bucket_sz i
      b.peers) : (space.setBucket i b).Keyed := by
  intro j
  show BucketOk _ _ _ j (Function.update space.bucket i b j).peers
  by_cases hj : j = i
  · subst hj
    rw [Function.update_self]
    exact hb
  · rw [Function.update_of_ne hj]
    exact h j

theorem vpeerUpdate_id {space : NodeSpace} {p q : Vpeer} {nodei : VnodeInfo} {flag : AddFlag}
    {now ret : Int} (h : vpeerUpdate space p nodei flag now = .ok (q, ret)) :
    q.nodei.id = p.nodei.id := by
  obtain ⟨d, hmerge, ⟨-, worst, -, rfl⟩ | ⟨-, rfl⟩⟩ := vpeerUpdate_cases h
  · exact vnodeInfoMerge_id hmerge
  · exact vnodeInfoMerge_id hmerge

theorem vpeerInit_id {space : NodeSpace} {q : Vpeer} {nodei : VnodeInfo} {now : Int}
    (h : vpeerInit space nodei now = .ok q) : q.nodei.id = nodei.id := by
  obtain ⟨d, r, worst, hcopy, -, rfl⟩ := vpeerInit_cases h
  exact vnodeInfoCopy_id hcopy

theorem PeerStep.nodei_id {space : NodeSpace} {op : Int × SpaceOp} {p q : Vpeer}
    (h : PeerStep space op p q) : q.nodei.id = p.nodei.id := by
  cases h with
  | same => rfl
  | updated hu => exact vpeerUpdate_id hu
  | kicked => rfl
  | adjusted => rfl
  | probed => rfl
  | pinged now => rw [pingPeer_nodei]

theorem updatePeer_keyed {space s : NodeSpace} (h : space.Keyed) {idx : Fin NBUCKETS} {i : Nat}
    {nodei : VnodeInfo} {flag : AddFlag} {now : Int}
    (hu : updatePeer space idx i nodei flag now = .ok s) : s.Keyed := by
  unfold updatePeer getSlot at hu
  cases hp : (space.bucket idx).peers[i]? with
  | none =>
    rw [hp] at hu
    cases hu
  | some p =>
    rw [hp] at hu
    dsimp only at hu
    split at hu
    · cases hu
    · rename_i q ret hq
      cases hu
      exact keyed_setBucket h ((h idx).set hp (vpeerUpdate_id hq))

theorem addNode_keyed {space s : NodeSpace} (h : space.Keyed) {nodei : VnodeInfo}
    {flag : AddFlag} {now : Int} (ha : addNode space nodei flag now = .ok s) : s.Keyed := by
  unfold addNode at ha
  split at ha
  · cases ha
    exact h
  · dsimp only at ha
    have hspec := findWorst_spec (bumpWeight space nodei).id
      (space.bucket (vnodeIdBucket space.myid (bumpWeight space nodei).id)).peers 0
      (bumpWeight space nodei).weight.toInt 3 none
    split at ha
    · exact updatePeer_keyed h ha
    · rename_i found want hfound hres
      split at ha
      · exact updatePeer_keyed h ha
      · split at ha
        · rename_i hroom
          rw [hres] at hspec
          rcases hspec with ⟨j, p, heq, -⟩ | ⟨-, hnone, -⟩
          · cases heq
            exact (hfound _ rfl rfl).elim
          · unfold appendPeer at ha
            split at ha
            · cases ha
            · rename_i q hq
              cases ha
              have hid := vpeerInit_id hq
              refine keyed_setBucket h ((h _).append ?_ ?_ hroom)
              · rw [hid]
              · rw [hid]
                intro hmem
                obtain ⟨p, hp, hpid⟩ := List.mem_map.mp hmem
                exact hnone p hp hpid
        · cases ha
          exact h

theorem keyed_of_nodeis {space s : NodeSpace} (h : space.Keyed) (hconfig : s.config = space.config)
    (hrec : ∀ i, (s.bucket i).peers.map (·.nodei) = (space.bucket i).peers.map (·.nodei)) :
    s.Keyed := by
  intro i
  show BucketOk (vnodeIdBucket s.config.myid) _ s.config.bucket_sz i _
  rw [hconfig]
  apply (h i).of_keys
  have hids := congrArg (List.map VnodeInfo.id) (hrec i)
  rwa [List.map_map, List.map_map] at hids

theorem probePeers_nodeis {space : NodeSpace} {laddr : VsockaddrIn} {ps qs : List Vpeer}
    {calls : List DhtCall} (h : probePeers space laddr ps = .ok (qs, calls)) :
    qs.map (·.nodei) = ps.map (·.nodei) := by
  induction ps generalizing qs calls with
  | nil =>
    cases h
    rfl
  | cons p ps ih =>
    unfold probePeers at h
    split at h
    · split at h
      · cases h
      · split at h
        · cases h
        · rename_i rest hrest
          cases h
          simp [ih hrest]
    · split at h
      · cases h
      · rename_i rest hrest
        cases h
        simp [ih hrest]

theorem probeConnectivity_nodeis {space s : NodeSpace} {laddr : VsockaddrIn}
    {calls : List DhtCall} (h : probeConnectivity space laddr = .ok (s, calls)) :
    s.config = space.config ∧
      ∀ i, (s.bucket i).peers.map (·.nodei) = (space.bucket i).peers.map (·.nodei) := by
  refine everyBucket_rel (R := fun b b' => b'.peers.map (·.nodei) = b.peers.map (·.nodei)) ?_ h
  intro i b b' calls' hb
  split at hb
  · cases hb
  · rename_i qs calls'' hqs
    cases hb
    exact probePeers_nodeis hqs

theorem nodeSpaceTick_nodeis {space s : NodeSpace} {rand : Fin NBUCKETS → Nat} {now : Int}
    {calls : List DhtCall} (h : nodeSpaceTick space rand now = .ok (s, calls)) :
    s.config = space.config ∧
      ∀ i, (s.bucket i).peers.map (·.nodei) = (space.bucket i).peers.map (·.nodei) := by
  refine everyBucket_rel (R := fun b b' => b'.peers.map (·.nodei) = b.peers.map (·.nodei)) ?_ h
  intro i b b' calls' hb
  rw [tickBucket_peers hb, List.map_map]
  exact List.map_congr_left fun p _ => pingPeer_nodei space now p

theorem spaceExec_keyed {space s : NodeSpace} (h : space.Keyed) {op : Int × SpaceOp}
    (hs : spaceExec space op = .ok s) : s.Keyed := by
  obtain ⟨now, op⟩ := op
  cases op with
  | addNode nodei flag => exact addNode_keyed h hs
  | kickNode id =>
    cases hs
    refine keyed_setBucket h ((h _).of_keys ?_)
    have hrec := @onPeer_nodeis id (kickPeer space now) (fun _ => rfl)
      (space.bucket (vnodeIdBucket space.myid id)).peers
    have hids := congrArg (List.map VnodeInfo.id) hrec
    rwa [List.map_map, List.map_map] at hids
  | adjustConnectivity id conn =>
    cases hs
    refine keyed_setBucket h ((h _).of_keys ?_)
    have hrec := @onPeer_nodeis id (fun p => { p with conn := vnodeConnAdjust p.conn conn })
      (fun _ => rfl) (space.bucket (vnodeIdBucket space.myid id)).peers
    have hids := congrArg (List.map VnodeInfo.id) hrec
    rwa [List.map_map, List.map_map] at hids
  | probeConnectivity laddr =>
    obtain ⟨⟨t, calls⟩, ht, rfl⟩ := map_ok hs
    obtain ⟨hconfig, hrec⟩ := probeConnectivity_nodeis ht
    exact keyed_of_nodeis h hconfig hrec
  | tick rand =>
    obtain ⟨⟨t, calls⟩, ht, rfl⟩ := map_ok hs
    obtain ⟨hconfig, hrec⟩ := nodeSpaceTick_nodeis ht
    exact keyed_of_nodeis h hconfig hrec
  | clear =>
    cases hs
    exact fun i => .nil i

theorem keyed_init (zaddr : SockaddrIn) (bucketSz : Nat) (maxNextTmo : Int)
    (myid myver : Token) : (nodeSpaceInit zaddr bucketSz maxNextTmo myid myver).Keyed :=
  fun i => .nil i

/-! ## Runs -/

/-! ## The peer of an id -/

/-- A peer of a space is known by its id. -/
theorem NodeSpace.Keyed.peer_eq {space : NodeSpace} (h : space.Keyed) {p q : Vpeer}
    (hp : p ∈ space.peers) (hq : q ∈ space.peers) (hid : p.nodei.id = q.nodei.id) : p = q :=
  List.inj_on_of_nodup_map h.distinct hp hq hid

theorem NodeSpace.Keyed.mem_bucket {space : NodeSpace} (h : space.Keyed) {p : Vpeer}
    (hp : p ∈ space.peers) : p ∈ (space.bucket (vnodeIdBucket space.myid p.nodei.id)).peers := by
  obtain ⟨i, hi⟩ := mem_allItems.mp hp
  rwa [(h i).placed p hi]

theorem mem_setBucket_self {space : NodeSpace} {i : Fin NBUCKETS} {b : Bucket} {p : Vpeer}
    (h : p ∈ b.peers) : p ∈ (space.setBucket i b).peers := by
  refine mem_allItems.mpr ⟨i, ?_⟩
  show p ∈ (Function.update space.bucket i b i).peers
  rwa [Function.update_self]

theorem onPeer_mem {f : Vpeer → Vpeer} {ps : List Vpeer} {p : Vpeer}
    (hnodup : (ps.map fun p => p.nodei.id).Nodup) (hp : p ∈ ps) :
    f p ∈ onPeer p.nodei.id f ps := by
  induction ps with
  | nil => exact absurd hp List.not_mem_nil
  | cons r rs ih =>
    obtain ⟨hnew, hnodup⟩ := List.nodup_cons.mp hnodup
    unfold onPeer
    split
    · rename_i hid
      rcases List.mem_cons.mp hp with rfl | hp
      · exact List.mem_cons_self
      · have hmem : p.nodei.id ∈ rs.map fun p => p.nodei.id := List.mem_map_of_mem hp
        rw [← vtokenEqual_iff.mp hid] at hmem
        exact absurd hmem hnew
    · rename_i hid
      rcases List.mem_cons.mp hp with rfl | hp
      · exact absurd (vtokenEqual_iff.mpr rfl) hid
      · exact List.mem_cons_of_mem _ (ih hnodup hp)

theorem kickNode_mem {space : NodeSpace} (h : space.Keyed) {p : Vpeer} (hp : p ∈ space.peers)
    (now : Int) : kickPeer space now p ∈ (kickNode space p.nodei.id now).1.peers :=
  mem_setBucket_self (onPeer_mem (h _).nodup (h.mem_bucket hp))

/-- Adding a node that is stored updates its peer. -/
theorem addNode_mem {space s : NodeSpace} (h : space.Keyed) {p : Vpeer} (hp : p ∈ space.peers)
    (hlocal : p.nodei.id ≠ space.myid) {nodei : VnodeInfo} (hid : nodei.id = p.nodei.id)
    {flag : AddFlag} {now : Int} (ha : addNode space nodei flag now = .ok s) :
    ∃ q ret, vpeerUpdate space p (bumpWeight space nodei) flag now = .ok (q, ret) ∧
      q ∈ s.peers := by
  have hin := h.mem_bucket hp
  unfold addNode at ha
  rw [if_neg fun heq => hlocal (hid ▸ (vtokenEqual_iff.mp heq).symm)] at ha
  dsimp only at ha
  rw [bumpWeight_id, hid] at ha
  rcases findWorst_spec p.nodei.id (space.bucket (vnodeIdBucket space.myid p.nodei.id)).peers 0
      (bumpWeight space nodei).weight.toInt 3 none with ⟨j, r, hres, hj, hrid⟩ | ⟨-, hnone, -⟩
  · have hr : r = p := h.peer_eq (mem_peers_of_bucket (List.mem_of_getElem? hj)) hp hrid
    rw [hres] at ha
    dsimp only at ha
    unfold updatePeer getSlot at ha
    rw [Nat.zero_add, hj, hr] at ha
    dsimp only at ha
    split at ha
    · cases ha
    · rename_i q ret hq
      cases ha
      obtain ⟨hlt, -⟩ := List.getElem?_eq_some_iff.mp hj
      exact ⟨q, ret, hq, mem_setBucket_self (List.mem_set hlt q)⟩
  · exact absurd rfl (hnone p hin)

end Vdht.Route
