import Vdht.Route.Peers

/-!
# Timeouts of peers

A peer is pinged when its timeout has passed, and is unreachable when the timeout has grown to
`max_next_tmo_unreachable`. Three operations change the timeout, each under another threshold of
the number of pings that went unanswered. The link between the two is that only a peer with more
than `max_ping_tms` pings has a timeout above `max_next_tmo`, and such a peer falls back to
`init_next_tmo` as soon as it is heard of.

Nothing bounds the two counters before they are added to. The timeout of an unreachable peer can
lie so close to the largest `int32_t` that `next_tmo += next_tmo_step` passes it, and only the
minimum with the limit is taken afterwards; `ntry_pings` passes the largest `int` after 2^31 pings
without an answer. These two additions are the only steps that break the link
(`timeouts_bounded_iff`).
-/

namespace Vdht.Route

open NodeId Lib

/-- The timing constants of a space, as `vroute_node_space_init` sets them. -/
structure NodeSpace.TimedBy (space : NodeSpace) (maxNextTmo : Int) : Prop where
  init : space.init_next_tmo = 2
  max : space.max_next_tmo = maxNextTmo
  unreachable : space.max_next_tmo_unreachable = 4 * maxNextTmo
  step : space.next_tmo_step = 5
  pings : space.max_ping_tms = 3

/-- What holds of the timeout of a peer, and the range of the counter of pings. -/
structure Vpeer.Timed (p : Vpeer) (maxNextTmo : Int) : Prop where
  low : min 2 maxNextTmo ≤ p.next_tmo
  high : p.next_tmo ≤ 4 * maxNextTmo
  pinged : max 2 maxNextTmo < p.next_tmo → 3 < p.ntry_pings
  counted : InSigned 31 p.ntry_pings

/-- Within the range of the configuration the limit of unreachable peers is an `int`. -/
theorem timedBy_init (zaddr : SockaddrIn) (bucketSz : Nat) {maxNextTmo : Int} (hpos : 1 ≤ maxNextTmo)
    (hmax : maxNextTmo < 2 ^ 29) (myid myver : Token) :
    (nodeSpaceInit zaddr bucketSz maxNextTmo myid myver).TimedBy maxNextTmo := by
  refine ⟨rfl, rfl, ?_, rfl, rfl⟩
  rw [Int.mul_comm 4]
  exact castInt_eq ⟨by omega, by omega⟩

theorem NodeSpace.TimedBy.of_config {space c : NodeSpace} {maxNextTmo : Int}
    (h : c.TimedBy maxNextTmo) (hc : space.config = c.config) : space.TimedBy maxNextTmo where
  init := (congrArg NodeSpace.init_next_tmo hc).trans h.init
  max := (congrArg NodeSpace.max_next_tmo hc).trans h.max
  unreachable := (congrArg NodeSpace.max_next_tmo_unreachable hc).trans h.unreachable
  step := (congrArg NodeSpace.next_tmo_step hc).trans h.step
  pings := (congrArg NodeSpace.max_ping_tms hc).trans h.pings

theorem vminimum_eq (x y : Int) : vminimum x y = min x y := by
  rw [vminimum]
  split
  · exact (min_eq_right ‹_›).symm
  · exact (min_eq_left (by omega)).symm

/-! ## One peer -/

/-- The peer is pinged by a tick at this time. -/
def NodeSpace.Due (space : NodeSpace) (now : Int) (p : Vpeer) : Prop :=
  p.tick_ts + p.next_tmo ≤ now ∧
    ¬ (p.ntry_pings > space.max_ping_tms ∧ vnodeInfoIsFake p.nodei = true)

/-- One more ping leaves the counters of the peer within their types, or does no harm: the timeout
is only added to from the fourth ping on, and a counter of pings that wraps only matters while the
timeout is above the limit of a good peer. -/
structure Vpeer.PingFits (p : Vpeer) (maxNextTmo : Int) : Prop where
  tmo : 3 ≤ p.ntry_pings → p.ntry_pings + 1 < 2 ^ 31 → p.next_tmo + 5 < 2 ^ 31
  pings : p.ntry_pings + 1 = 2 ^ 31 → p.next_tmo ≤ max 2 maxNextTmo

theorem pingPeer_idle {space : NodeSpace} {now : Int} {p : Vpeer} (h : ¬ space.Due now p) :
    (pingPeer space now p).1 = p := by
  rw [pingPeer]
  split
  · rfl
  · rw [if_pos]
    by_contra hfake
    exact h ⟨by omega, hfake⟩

theorem pingPeer_due {space : NodeSpace} {now : Int} {p : Vpeer} (h : space.Due now p) :
    (pingPeer space now p).1 = { p with
      ntry_pings := castInt (p.ntry_pings + 1)
      tick_ts := now
      next_tmo :=
        if castInt (p.ntry_pings + 1) > space.max_ping_tms then
          vminimum (castInt (p.next_tmo + space.next_tmo_step)) space.max_next_tmo_unreachable
        else p.next_tmo } := by
  rw [pingPeer, if_neg (Int.not_lt.mpr h.1), if_neg h.2]

section Peer

variable {space : NodeSpace} {maxNextTmo : Int} (hs : space.TimedBy maxNextTmo)
  (hpos : 1 ≤ maxNextTmo) (hmax : maxNextTmo < 2 ^ 29)

include hs hpos hmax in
/-- What a ping response makes of the timeout. -/
theorem vpeerTouch_next_tmo {p : Vpeer} (h : p.Timed maxNextTmo) (now : Int) :
    (vpeerTouch space p .byPingRsp now).next_tmo =
      if p.ntry_pings > 2 then 2 else min (p.next_tmo + 5) maxNextTmo := by
  rw [vpeerTouch, hs.init, hs.step, hs.max, vminimum_eq]
  dsimp only
  split
  · rfl
  · have hlow := h.low
    have hpinged := h.pinged
    rw [castInt_eq ⟨by omega, by omega⟩]

include hs hpos hmax in
theorem vpeerTouch_timed {p : Vpeer} (h : p.Timed maxNextTmo) (flag : AddFlag) (now : Int) :
    (vpeerTouch space p flag now).Timed maxNextTmo := by
  cases flag with
  | byOther => exact h
  | byPingRsp =>
    have hlow := h.low
    have htmo := vpeerTouch_next_tmo hs hpos hmax h now
    refine ⟨?_, ?_, ?_, ?_⟩
    · rw [htmo]
      split <;> omega
    · rw [htmo]
      split <;> omega
    · rw [htmo]
      intro hlt
      split at hlt <;> omega
    · show InSigned 31 0
      decide

/-- An update changes the timing of a peer as `vpeerTouch` does. -/
theorem vpeerUpdate_timing {p q : Vpeer} {nodei : VnodeInfo} {flag : AddFlag} {now ret : Int}
    (h : vpeerUpdate space p nodei flag now = .ok (q, ret)) :
    q.next_tmo = (vpeerTouch space p flag now).next_tmo ∧
      q.ntry_pings = (vpeerTouch space p flag now).ntry_pings := by
  obtain ⟨d, -, ⟨-, worst, -, rfl⟩ | ⟨-, rfl⟩⟩ := vpeerUpdate_cases h
  · exact ⟨rfl, rfl⟩
  · exact ⟨rfl, rfl⟩

theorem Vpeer.Timed.congr {p q : Vpeer} (h : p.Timed maxNextTmo) (htmo : q.next_tmo = p.next_tmo)
    (hpings : q.ntry_pings = p.ntry_pings) : q.Timed maxNextTmo := by
  refine ⟨?_, ?_, ?_, ?_⟩
  · rw [htmo]
    exact h.low
  · rw [htmo]
    exact h.high
  · rw [htmo, hpings]
    exact h.pinged
  · rw [hpings]
    exact h.counted

include hs hpos in
theorem kickPeer_timed {p : Vpeer} (h : p.Timed maxNextTmo) (now : Int) :
    (kickPeer space now p).Timed maxNextTmo := by
  have hlow := h.low
  have hhigh := h.high
  have hpinged := h.pinged
  have htmo : (kickPeer space now p).next_tmo = if p.ntry_pings > 1 then 2 else p.next_tmo := by
    rw [kickPeer, hs.init]
  refine ⟨?_, ?_, ?_, h.counted⟩
  · rw [htmo]
    split <;> omega
  · rw [htmo]
    split <;> omega
  · rw [htmo]
    intro hlt
    split at hlt
    · omega
    · exact hpinged hlt

include hs hpos hmax in
/-- A ping keeps the timing exactly when its additions fit. -/
theorem pingPeer_timed_iff {p : Vpeer} (h : p.Timed maxNextTmo) {now : Int}
    (hdue : space.Due now p) :
    (pingPeer space now p).1.Timed maxNextTmo ↔ p.PingFits maxNextTmo := by
  have hlow := h.low
  have hhigh := h.high
  have hpinged := h.pinged
  have hcounted := h.counted
  obtain ⟨hleast, hmost⟩ := hcounted
  rw [pingPeer_due hdue, hs.pings, hs.step, hs.unreachable, vminimum_eq]
  have hrange := castInt_range (p.ntry_pings + 1)
  by_cases hlast : p.ntry_pings + 1 = 2 ^ 31
  · -- the count of pings wraps, and the timeout stays as it is
    have hwrap : castInt (p.ntry_pings + 1) = p.ntry_pings + 1 - 2 ^ 32 :=
      castInt_wrap (by omega) (by omega)
    rw [hwrap, if_neg (by omega)]
    constructor
    · rintro ⟨-, -, hlink, -⟩
      dsimp only at hlink
      exact ⟨fun _ hlt => by omega, fun _ => by omega⟩
    · rintro ⟨-, hpings⟩
      have hgood := hpings hlast
      exact ⟨hlow, hhigh, fun hlt => by dsimp only at hlt; omega, hwrap ▸ hrange⟩
  · have hcount : castInt (p.ntry_pings + 1) = p.ntry_pings + 1 :=
      castInt_eq ⟨by omega, by omega⟩
    rw [hcount] at hrange ⊢
    by_cases hmany : 3 < p.ntry_pings + 1
    · rw [if_pos hmany]
      by_cases hfits : p.next_tmo + 5 < 2 ^ 31
      · rw [castInt_eq ⟨by omega, hfits⟩]
        refine iff_of_true ⟨?_, ?_, ?_, hrange⟩ ⟨fun _ _ => hfits, fun heq => absurd heq hlast⟩
        · dsimp only
          omega
        · dsimp only
          omega
        · exact fun _ => hmany
      · rw [castInt_wrap (by omega) (by omega)]
        refine iff_of_false ?_ fun hp => hfits (hp.tmo (by omega) (by omega))
        rintro ⟨hbelow, -, -, -⟩
        dsimp only at hbelow
        omega
    · rw [if_neg hmany]
      refine iff_of_true ⟨hlow, hhigh, ?_, hrange⟩
        ⟨fun hthree => by omega, fun heq => absurd heq hlast⟩
      intro hlt
      have := hpinged hlt
      omega

theorem vpeerInit_timing {nodei : VnodeInfo} {now : Int} {q : Vpeer}
    (h : vpeerInit space nodei now = .ok q) :
    q.next_tmo = space.init_next_tmo ∧ q.ntry_pings = 0 := by
  obtain ⟨d, r, worst, -, -, rfl⟩ := vpeerInit_cases h
  exact ⟨rfl, rfl⟩

include hs hpos in
theorem enters_timed {op : Int × SpaceOp} {q : Vpeer} (h : Enters space op q) :
    q.Timed maxNextTmo := by
  cases h with
  | added flag hne hinit =>
    obtain ⟨htmo, hpings⟩ := vpeerInit_timing hinit
    rw [hs.init] at htmo
    refine ⟨?_, ?_, ?_, ?_⟩
    · omega
    · omega
    · intro hlt
      omega
    · rw [hpings]
      decide

/-- The pings of an operation fit the peers. -/
def PingsFit (maxNextTmo : Int) (space : NodeSpace) : Int × SpaceOp → Prop
  | (now, .tick _) => ∀ p ∈ space.peers, space.Due now p → p.PingFits maxNextTmo
  | _ => True

include hs hpos hmax in
/-- No operation breaks the timing of a peer, as long as its pings fit. -/
theorem peerStep_timed {op : Int × SpaceOp} {p q : Vpeer} (h : PeerStep space op p q)
    (hp : p.Timed maxNextTmo) (hin : p ∈ space.peers) (hfits : PingsFit maxNextTmo space op) :
    q.Timed maxNextTmo := by
  cases h with
  | same => exact hp
  | updated hupdate =>
    obtain ⟨htmo, hpings⟩ := vpeerUpdate_timing hupdate
    exact (vpeerTouch_timed hs hpos hmax hp _ _).congr htmo hpings
  | kicked now => exact kickPeer_timed hs hpos hp now
  | adjusted => exact hp.congr rfl rfl
  | probed => exact hp.congr rfl rfl
  | pinged now =>
    by_cases hdue : space.Due now p
    · exact (pingPeer_timed_iff hs hpos hmax hp hdue).mpr (hfits p hin hdue)
    · rw [pingPeer_idle hdue]
      exact hp

/-! ## Unreachable peers -/

/-- A peer whose timeout has grown to the limit. -/
def NodeSpace.Unreachable (space : NodeSpace) (p : Vpeer) : Prop :=
  p.next_tmo ≥ space.max_next_tmo_unreachable

include hs hpos in
theorem Vpeer.Timed.pings_of_unreachable {p : Vpeer} (h : p.Timed maxNextTmo)
    (hfar : space.Unreachable p) : 3 < p.ntry_pings := by
  apply h.pinged
  rw [NodeSpace.Unreachable, hs.unreachable] at hfar
  omega

include hs hpos in
/-- An unreachable peer has had so many pings that a kick takes its timeout back. -/
theorem kickPeer_recovers {p : Vpeer} (h : p.Timed maxNextTmo) (hfar : space.Unreachable p)
    (now : Int) : ¬ space.Unreachable (kickPeer space now p) := by
  have hpings := h.pings_of_unreachable hs hpos hfar
  rw [NodeSpace.Unreachable, kickPeer]
  dsimp only
  rw [if_pos (by omega), hs.init, hs.unreachable]
  omega

include hs hpos hmax in
/-- So does an update by a ping response. -/
theorem vpeerUpdate_recovers {p q : Vpeer} (h : p.Timed maxNextTmo) (hfar : space.Unreachable p)
    {nodei : VnodeInfo} {now ret : Int}
    (hu : vpeerUpdate space p nodei .byPingRsp now = .ok (q, ret)) : ¬ space.Unreachable q := by
  have hpings := h.pings_of_unreachable hs hpos hfar
  rw [NodeSpace.Unreachable, (vpeerUpdate_timing hu).1, vpeerTouch_next_tmo hs hpos hmax h now,
    if_pos (by omega), hs.unreachable]
  omega

end Peer

/-! ## Runs -/

/-- What the constants and the peers of a space meet. -/
structure NodeSpace.InTime (space : NodeSpace) (maxNextTmo : Int) : Prop where
  timedBy : space.TimedBy maxNextTmo
  keyed : space.Keyed
  foreign : ∀ p ∈ space.peers, p.nodei.id ≠ space.myid
  timed : ∀ p ∈ space.peers, p.Timed maxNextTmo

theorem spaceExec_foreign {space s : NodeSpace} {op : Int × SpaceOp}
    (h : ∀ p ∈ space.peers, p.nodei.id ≠ space.myid) (hop : spaceExec space op = .ok s) :
    ∀ p ∈ s.peers, p.nodei.id ≠ s.myid := by
  obtain ⟨hconfig, hfrom⟩ := spaceExec_from hop
  have hmyid : s.config.myid = space.config.myid := by rw [hconfig]
  change s.myid = space.myid at hmyid
  rw [hmyid]
  intro q hq
  rcases hfrom q hq with ⟨p, hp, hpq⟩ | hent
  · rw [hpq.nodei_id]
    exact h p hp
  · cases hent with
    | added flag hne hinit =>
      rw [vpeerInit_id hinit, bumpWeight_id]
      exact hne

section Run

variable {maxNextTmo : Int} (hpos : 1 ≤ maxNextTmo) (hmax : maxNextTmo < 2 ^ 29)

include hpos hmax in
/-- The step of the runs. -/
theorem NodeSpace.InTime.exec {space s : NodeSpace} (h : space.InTime maxNextTmo)
    {op : Int × SpaceOp} (hfits : PingsFit maxNextTmo space op) (hop : spaceExec space op = .ok s) :
    s.InTime maxNextTmo := by
  obtain ⟨hconfig, hfrom⟩ := spaceExec_from hop
  refine ⟨h.timedBy.of_config hconfig, spaceExec_keyed h.keyed hop,
    spaceExec_foreign h.foreign hop, fun q hq => ?_⟩
  rcases hfrom q hq with ⟨p, hp, hpq⟩ | hent
  · exact peerStep_timed h.timedBy hpos hmax hpq (h.timed p hp) hp hfits
  · exact enters_timed h.timedBy hpos hent

/-- Every peer has its timeout between the bounds, a timeout above the limit of a good peer means
that pings went unanswered, and an unreachable peer is below the limit again as soon as a message or
a ping response of its node arrives. -/
structure NodeSpace.WithinLimits (space : NodeSpace) (maxNextTmo : Int) : Prop where
  low : ∀ p ∈ space.peers, min 2 maxNextTmo ≤ p.next_tmo
  high : ∀ p ∈ space.peers, p.next_tmo ≤ space.max_next_tmo_unreachable
  pinged : ∀ p ∈ space.peers, max 2 maxNextTmo < p.next_tmo → space.max_ping_tms < p.ntry_pings
  kicked : ∀ p ∈ space.peers, space.Unreachable p → ∀ now,
    ∀ q ∈ (kickNode space p.nodei.id now).1.peers, q.nodei.id = p.nodei.id → ¬ space.Unreachable q
  updated : ∀ p ∈ space.peers, space.Unreachable p → ∀ nodei now q ret,
    vpeerUpdate space p nodei .byPingRsp now = .ok (q, ret) → ¬ space.Unreachable q
  answered : ∀ p ∈ space.peers, space.Unreachable p → ∀ nodei now s, nodei.id = p.nodei.id →
    addNode space nodei .byPingRsp now = .ok s →
    ∀ q ∈ s.peers, q.nodei.id = p.nodei.id → ¬ space.Unreachable q

include hpos hmax in
theorem NodeSpace.InTime.withinLimits {space : NodeSpace} (h : space.InTime maxNextTmo) :
    space.WithinLimits maxNextTmo where
  low p hp := (h.timed p hp).low
  high p hp := by
    rw [h.timedBy.unreachable]
    exact (h.timed p hp).high
  pinged p hp := by
    rw [h.timedBy.pings]
    exact (h.timed p hp).pinged
  kicked p hp hfar now q hq hid := by
    have hkick := kickNode_mem h.keyed hp now
    have hexec : spaceExec space (now, .kickNode p.nodei.id) =
        .ok (kickNode space p.nodei.id now).1 := rfl
    rw [(spaceExec_keyed h.keyed hexec).peer_eq hq hkick hid]
    exact kickPeer_recovers h.timedBy hpos (h.timed p hp) hfar now
  updated p hp hfar nodei now q ret hu :=
    vpeerUpdate_recovers h.timedBy hpos hmax (h.timed p hp) hfar hu
  answered p hp hfar nodei now s hnode hadd q hq hid := by
    obtain ⟨r, ret, hu, hr⟩ := addNode_mem h.keyed hp (h.foreign p hp) hnode hadd
    have heq : q = r :=
      (addNode_keyed h.keyed hadd).peer_eq hq hr (hid.trans (vpeerUpdate_id hu).symm)
    rw [heq]
    exact vpeerUpdate_recovers h.timedBy hpos hmax (h.timed p hp) hfar hu

include hpos hmax in
/-- An operation leaves the space within its limits exactly when its pings fit. -/
theorem NodeSpace.InTime.withinLimits_iff {space : NodeSpace} (h : space.InTime maxNextTmo)
    (op : Int × SpaceOp) :
    (∀ s, spaceExec space op = .ok s → s.WithinLimits maxNextTmo) ↔
      PingsFit maxNextTmo space op := by
  constructor
  · intro hlimits
    obtain ⟨now, op⟩ := op
    cases op with
    | tick rand =>
      intro p hp hdue
      obtain ⟨s, calls, htick⟩ := nodeSpaceTick_total space rand now
      have hs := hlimits s (by rw [spaceExec, htick]; rfl)
      have hq := nodeSpaceTick_mem htick hp
      have hconfig := (nodeSpaceTick_from htick).1
      have hby := h.timedBy.of_config hconfig
      refine (pingPeer_timed_iff h.timedBy hpos hmax (h.timed p hp) hdue).mp ⟨hs.low _ hq, ?_, ?_, ?_⟩
      · rw [← hby.unreachable]
        exact hs.high _ hq
      · rw [← hby.pings]
        exact hs.pinged _ hq
      · rw [pingPeer_due hdue]
        exact castInt_range _
    | addNode nodei flag => trivial
    | kickNode id => trivial
    | adjustConnectivity id conn => trivial
    | probeConnectivity laddr => trivial
    | clear => trivial
  · intro hfits s hs
    exact (h.exec hpos hmax hfits hs).withinLimits hpos hmax

include hpos hmax in
theorem inTime_init (zaddr : SockaddrIn) (bucketSz : Nat) (myid myver : Token) :
    (nodeSpaceInit zaddr bucketSz maxNextTmo myid myver).InTime maxNextTmo := by
  have hempty := nodeSpaceInit_peers zaddr bucketSz maxNextTmo myid myver
  refine ⟨timedBy_init zaddr bucketSz hpos hmax myid myver,
    keyed_init zaddr bucketSz maxNextTmo myid myver, ?_, ?_⟩
  · rw [hempty]
    exact fun p hp => absurd hp List.not_mem_nil
  · rw [hempty]
    exact fun p hp => absurd hp List.not_mem_nil

end Run

/-! ## Short runs -/

section Short

variable {maxNextTmo : Int}

/-- An operation adds at most one to the number of pings without an answer. -/
theorem peerStep_pings {space : NodeSpace} {op : Int × SpaceOp} {p q : Vpeer}
    (h : PeerStep space op p q) (hp : p.Timed maxNextTmo) {k : Nat} (hk : k + 1 < 2 ^ 31)
    (hle : p.ntry_pings ≤ k) : q.ntry_pings ≤ k + 1 := by
  cases h with
  | same => omega
  | @updated nodei flag now _ _ ret hupdate =>
    rw [(vpeerUpdate_timing hupdate).2]
    cases flag with
    | byOther =>
      show p.ntry_pings ≤ k + 1
      omega
    | byPingRsp =>
      show (0 : Int) ≤ k + 1
      omega
  | kicked now =>
    show p.ntry_pings ≤ k + 1
    omega
  | adjusted =>
    show p.ntry_pings ≤ k + 1
    omega
  | probed =>
    show p.ntry_pings ≤ k + 1
    omega
  | pinged now =>
    by_cases hdue : space.Due now p
    · have hlow := hp.counted.1
      rw [pingPeer_due hdue]
      dsimp only
      rw [castInt_eq ⟨by omega, by omega⟩]
      omega
    · rw [pingPeer_idle hdue]
      omega

/-- Below the largest limit only 2^31 pings without an answer can be too many. -/
theorem pingsFit_of_short (hpos : 1 ≤ maxNextTmo) (hfits : 4 * maxNextTmo + 5 < 2 ^ 31)
    {ops : List (Int × SpaceOp)} {space : NodeSpace} (h : space.InTime maxNextTmo) {k : Nat}
    (hk : ∀ p ∈ space.peers, p.ntry_pings ≤ k) (hlen : k + ops.length + 1 < 2 ^ 31) :
    Along spaceExec (PingsFit maxNextTmo) space ops := by
  induction ops generalizing space k with
  | nil => trivial
  | cons op ops ih =>
    rw [List.length_cons] at hlen
    have hop : PingsFit maxNextTmo space op := by
      obtain ⟨now, op⟩ := op
      cases op with
      | tick rand =>
        intro p hp _
        have hhigh := (h.timed p hp).high
        have hfew := hk p hp
        exact ⟨fun _ _ => by omega, fun _ => by omega⟩
      | addNode nodei flag => trivial
      | kickNode id => trivial
      | adjustConnectivity id conn => trivial
      | probeConnectivity laddr => trivial
      | clear => trivial
    refine ⟨hop, fun s hs => ?_⟩
    refine ih (h.exec hpos (by omega) hop hs) (k := k + 1) (fun q hq => ?_) (by omega)
    rcases (spaceExec_from hs).2 q hq with ⟨p, hp, hpq⟩ | hent
    · exact peerStep_pings hpq (h.timed p hp) (by omega) (hk p hp)
    · cases hent with
      | added flag hne hinit =>
        rw [(vpeerInit_timing hinit).2]
        omega

end Short

/-- For a configured limit between 1 and 2^29 - 1, any operations and any times: the space is within
its limits at the start and after every operation if and only if every ping of every tick fits the
counters of its peer. -/
theorem timeouts_bounded_iff {zaddr : SockaddrIn} {bucketSz : Nat} {maxNextTmo : Int}
    {myid myver : Token} (hpos : 1 ≤ maxNextTmo) (hmax : maxNextTmo < 2 ^ 29)
    (ops : List (Int × SpaceOp)) :
    (nodeSpaceInit zaddr bucketSz maxNextTmo myid myver).WithinLimits maxNextTmo ∧
        Along spaceExec (fun space op => ∀ s, spaceExec space op = .ok s →
          s.WithinLimits maxNextTmo) (nodeSpaceInit zaddr bucketSz maxNextTmo myid myver) ops ↔
      Along spaceExec (PingsFit maxNextTmo)
        (nodeSpaceInit zaddr bucketSz maxNextTmo myid myver) ops := by
  have hinit := inTime_init hpos hmax zaddr bucketSz myid myver
  rw [and_iff_right (hinit.withinLimits hpos hmax)]
  exact along_iff (I := fun space : NodeSpace => space.InTime maxNextTmo)
    (fun space op h => h.withinLimits_iff hpos hmax op)
    (fun space op s h hfits hop => h.exec hpos hmax hfits hop) hinit

/-- A node is added, pinged four times in vain, and kicked. -/
theorem timeouts_bounded_iff_kicked :
    Along spaceExec (fun space op => ∀ s, spaceExec space op = .ok s → s.WithinLimits 1)
      (nodeSpaceInit zeroAddr.addr 1 1 (Block.zero 20) (Block.zero 20))
      [(0, .addNode (oneAddrNode (Block.ofList 20 [1])) .byOther), (2, .tick fun _ => 0),
        (4, .tick fun _ => 0), (6, .tick fun _ => 0), (8, .tick fun _ => 0),
        (9, .kickNode (Block.ofList 20 [1]))] := by
  refine ((timeouts_bounded_iff (by decide) (by decide) _).mpr ?_).2
  refine pingsFit_of_short (by decide) (by decide) (inTime_init (by decide) (by decide) _ _ _ _)
    (k := 0) (fun p hp => ?_) (by decide)
  have hempty := nodeSpaceInit_peers zeroAddr.addr 1 1 (Block.zero VTOKEN_LEN) (Block.zero VTOKEN_LEN)
  exact absurd (hempty ▸ hp) List.not_mem_nil

/-! ## A timeout that wraps -/

/-- A node of a known version, which is pinged for ever. -/
def silentNode : VnodeInfo :=
  { oneAddrNode (Block.ofList 20 [1]) with ver := Block.ofList 20 [1] }

/-- The node is added and never answers; no timeout is as long as the time between two ticks. -/
def silentOps : Nat → List (Int × SpaceOp)
  | 0 => [(0, .addNode silentNode .byOther)]
  | n + 1 => silentOps n ++ [((2 ^ 31 * (n + 1 : Nat) : Int), .tick fun _ => 0)]

/-- The timeout after `n` pings, for the largest limit. -/
def silentTmo (n : Nat) : Int := if n ≤ 3 then 2 else min (2 + 5 * (n - 3)) (2 ^ 31 - 4)

/-- A space without peers whose greatest waiting time is just below $2^{29}$, for concrete runs. -/
def silentSpace : NodeSpace :=
  nodeSpaceInit zeroAddr.addr 1 (2 ^ 29 - 1) (Block.zero 20) (Block.zero 20)

theorem silentOps_times (n : Nat) :
    ((silentOps n).map Prod.fst).Pairwise (· ≤ ·) ∧
      ∀ t ∈ (silentOps n).map Prod.fst, t ≤ 2 ^ 31 * n := by
  induction n with
  | zero => exact ⟨List.pairwise_singleton _ _, by simp [silentOps]⟩
  | succ n ih =>
    obtain ⟨hsorted, hlast⟩ := ih
    rw [silentOps, List.map_append, List.map_singleton]
    refine ⟨List.pairwise_append.mpr ⟨hsorted, List.pairwise_singleton _ _, ?_⟩, ?_⟩
    · intro t ht u hu
      rw [List.mem_singleton.mp hu]
      have := hlast t ht
      push_cast
      omega
    · intro t ht
      rcases List.mem_append.mp ht with ht | ht
      · have := hlast t ht
        push_cast
        omega
      · rw [List.mem_singleton.mp ht]

/-- The peer of the node after `n` pings. -/
structure Unanswered (space : NodeSpace) (n : Nat) (p : Vpeer) : Prop where
  stored : p ∈ space.peers
  real : vnodeInfoIsFake p.nodei = false
  pings : p.ntry_pings = n
  ts : p.tick_ts = 2 ^ 31 * n
  tmo : p.next_tmo = silentTmo n

theorem silent_tick {space : NodeSpace} (hs : space.TimedBy (2 ^ 29 - 1)) {n : Nat} {p : Vpeer}
    (h : Unanswered space n p) :
    ∃ s, spaceExec space (2 ^ 31 * (n + 1 : Nat), .tick fun _ => 0) = .ok s ∧
      s.TimedBy (2 ^ 29 - 1) ∧ ∃ q ∈ s.peers, vnodeInfoIsFake q.nodei = false ∧
        q.ntry_pings = castInt (n + 1) ∧ q.tick_ts = 2 ^ 31 * (n + 1 : Nat) ∧
        q.next_tmo = if castInt (n + 1) > 3 then min (castInt (silentTmo n + 5)) (2 ^ 31 - 4)
          else silentTmo n := by
  have hdue : space.Due (2 ^ 31 * (n + 1 : Nat)) p := by
    refine ⟨?_, fun hfake => ?_⟩
    · rw [h.ts, h.tmo, silentTmo]
      push_cast
      split <;> omega
    · rw [h.real] at hfake
      exact Bool.false_ne_true hfake.2
  obtain ⟨s, calls, htick⟩ :=
    nodeSpaceTick_total space (fun _ => 0) (2 ^ 31 * (n + 1 : Nat))
  refine ⟨s, by rw [spaceExec, htick]; rfl, hs.of_config (nodeSpaceTick_from htick).1, _,
    nodeSpaceTick_mem htick h.stored, ?_⟩
  rw [pingPeer_due hdue, hs.pings, hs.step, hs.unreachable, h.pings, h.tmo, vminimum_eq]
  exact ⟨h.real, rfl, rfl, rfl⟩

theorem silent_run {n : Nat} (hn : n ≤ 429496732) :
    ∃ s, run spaceExec silentSpace (silentOps n) = .ok s ∧ s.TimedBy (2 ^ 29 - 1) ∧
      ∃ p, Unanswered s n p := by
  induction n with
  | zero =>
    have hok : run spaceExec silentSpace (silentOps 0) = .ok _ := rfl
    refine ⟨_, hok, ⟨rfl, rfl, rfl, rfl, rfl⟩, _,
      ⟨mem_setBucket_self (List.mem_singleton_self _), ?_, ?_, ?_, ?_⟩⟩
    all_goals rfl
  | succ n ih =>
    obtain ⟨s, hrun, hs, p, hp⟩ := ih (by omega)
    obtain ⟨t, htick, ht, q, hq, hreal, hpings, hts, htmo⟩ := silent_tick hs hp
    have hcount : castInt (n + 1) = n + 1 := castInt_eq ⟨by omega, by omega⟩
    rw [hcount] at hpings htmo
    refine ⟨t, run_append_ok hrun (run_cons_ok.mpr ⟨t, htick, rfl⟩), ht, q, hq, hreal, ?_, hts, ?_⟩
    · rw [hpings]
      push_cast
      rfl
    · have hbound : silentTmo n + 5 < 2 ^ 31 := by
        rw [silentTmo]
        split <;> omega
      have hlow : 2 ≤ silentTmo n := by
        rw [silentTmo]
        split <;> omega
      rw [htmo, castInt_eq ⟨by omega, hbound⟩, silentTmo, silentTmo]
      push_cast
      split <;> split <;> split <;> omega

/-- With the largest limit the timeout of an unreachable peer wraps at one more ping. -/
theorem next_tmo_wraps :
    ((silentOps 429496733).map Prod.fst).Pairwise (· ≤ ·) ∧
      ∃ s, run spaceExec silentSpace (silentOps 429496733) = .ok s ∧
        (∃ p ∈ s.peers, p.next_tmo = -(2 ^ 31 - 1)) ∧ ¬ s.WithinLimits (2 ^ 29 - 1) := by
  refine ⟨(silentOps_times 429496733).1, ?_⟩
  obtain ⟨s, hrun, hs, p, hp⟩ := silent_run (Nat.le_refl 429496732)
  obtain ⟨t, htick, -, q, hq, -, -, -, htmo⟩ := silent_tick hs hp
  have hcount : castInt ((429496732 : Nat) + 1) = 429496733 := by decide
  have htmo' : q.next_tmo = -(2 ^ 31 - 1) := by
    rw [htmo, hcount]
    decide
  refine ⟨t, run_append_ok hrun (run_cons_ok.mpr ⟨t, htick, rfl⟩), ⟨q, hq, htmo'⟩, fun hlimits => ?_⟩
  have hlow := hlimits.low q hq
  rw [htmo'] at hlow
  revert hlow
  decide

end Vdht.Route
