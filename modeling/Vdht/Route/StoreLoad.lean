import Vdht.NodeId.Order
import Vdht.Route.Placement
import Vdht.Route.VerTexts

/-!
# Storing a peer and loading it again

The addresses of a stored peer are in order of base type, so the loader, which adds them one by one,
keeps their order, and so does the copy that the node space makes of the record. An empty space takes
every node but the local one.
-/

namespace Vdht.Route

open Vdht.Core NodeId Lib

open Lsctl (AF_INET)

variable {inetAton : List UInt8 → Option UInt32} {a vaddr : VsockaddrIn} {l rest : List VsockaddrIn}
  {nodei : VnodeInfo} {buf : List UInt8} {n fuel : Nat}

/-! ## The list of addresses -/

/-- The texts of addresses behind the first. -/
def moreWord (l : List VsockaddrIn) : List UInt8 := l.flatMap fun a => ','.toUInt8 :: addrWord a

theorem moreWord_cons (a : VsockaddrIn) (l : List VsockaddrIn) :
    moreWord (a :: l) = ','.toUInt8 :: (addrWord a ++ moreWord l) := by
  rw [moreWord, List.flatMap_cons]
  rfl

theorem length_moreWord (l : List VsockaddrIn) : (moreWord l).length ≤ 33 * l.length :=
  length_flatMap_le (fun a => Nat.succ_le_succ (length_addrWord a)) l

/-- Each address takes a turn of the loop and some of the text. -/
theorem le_length_moreWord (l : List VsockaddrIn) : l.length ≤ (moreWord l).length := by
  induction l with
  | nil => exact Nat.le_refl 0
  | cons a l ih =>
    rw [moreWord_cons, List.length_cons, List.length_cons, List.length_append]
    omega

theorem moreAddrs_ok (hn : n ≤ l.length) (hfit : buf.length + 33 * n < 512) :
    moreAddrs l n buf = .ok (buf ++ moreWord (l.take n)) := by
  induction l generalizing n buf with
  | nil =>
    cases n with
    | zero => simp [moreAddrs, moreWord]
    | succ n => simp at hn
  | cons a l ih =>
    cases n with
    | zero => simp [moreAddrs, moreWord]
    | succ n =>
      have ha := length_addrWord a
      have hcomma : (cstr "," ++ addrWord a).length = 1 + (addrWord a).length := by
        rw [List.length_append]
        rfl
      have hlen : (buf ++ (cstr "," ++ addrWord a)).length =
          buf.length + (1 + (addrWord a).length) := by
        rw [List.length_append, hcomma]
      rw [List.length_cons] at hn
      rw [moreAddrs, addrText_ok, ok_bind, sprintf_ok (by omega), ok_bind, ih (by omega) (by omega),
        List.take_succ_cons, moreWord_cons, List.append_assoc]
      rfl

/-- The text of a list of addresses. -/
theorem addrsText_ok (hn : nodei.WellFormed) :
    ∃ a rest, nodei.used = a :: rest ∧ rest.length ≤ 11 ∧
      addrsText nodei = .ok (addrWord a ++ moreWord rest) := by
  have hpos := hn.pos
  have hmax : nodei.naddrs ≤ 12 := hn.le_max
  have hstored := hn.stored
  have hused : nodei.used = nodei.addrs.take nodei.naddrs.toNat := rfl
  unfold addrsText
  cases haddrs : nodei.addrs with
  | nil =>
    rw [haddrs, List.length_nil] at hstored
    omega
  | cons a slots =>
    have hcount : nodei.naddrs.toNat = (nodei.naddrs - 1).toNat + 1 := by omega
    rw [haddrs, List.length_cons] at hstored
    rw [haddrs, hcount, List.take_succ_cons] at hused
    have ha := length_addrWord a
    have hfirst : ([] ++ addrWord a).length < 512 := by
      rw [List.nil_append]
      omega
    refine ⟨a, slots.take (nodei.naddrs - 1).toNat, hused, ?_, ?_⟩
    · rw [List.length_take]
      omega
    · dsimp only
      rw [addrText_ok, ok_bind, sprintf_ok hfirst, ok_bind, List.nil_append,
        moreAddrs_ok (by omega) (by omega)]

/-! ## Adding the addresses that are read -/

theorem vnodeInfoAddAddr_ok (hs : nodei.Sound) (hlt : nodei.naddrs < MAX_ADDRS)
    (a : VsockaddrIn) :
    ∃ d r, vnodeInfoAddAddr nodei a.addr a.type = .ok (d, r) ∧ d.Sound ∧ d.id = nodei.id ∧
      d.naddrs ≤ nodei.naddrs + 1 ∧ d.used = putAddr nodeRule nodei.used a.addr a.type := by
  have hallowed : nodeRule.allowed a.type = true := rfl
  obtain ⟨b, r, hadd, -, hb, hused, hle, -⟩ := addAddr_ok hs hlt a.addr hallowed
  refine ⟨{ nodei with toAddrBlock := b }, r, ?_, hb, rfl, hle, hused⟩
  rw [vnodeInfoAddAddr, hadd]

/-- The texts are read one by one, whatever the variable held. -/
theorem loadAddrs_ok (haton : ∀ ip, inetAton (inetNtoa ip) = some ip)
    (hports : ∀ b ∈ a :: rest, b.addr.sin_port ≠ 0) (hs : nodei.Sound)
    (hroom : nodei.naddrs + (a :: rest).length ≤ MAX_ADDRS) (hfuel : rest.length < fuel) :
    ∃ d, loadAddrs inetAton fuel (addrWord a ++ (moreWord rest ++ [0])) vaddr nodei = .ok d ∧
      d.Sound ∧ d.id = nodei.id ∧
      d.used = putAddrs nodeRule nodei.used ((a :: rest).map reloaded) := by
  induction rest generalizing a vaddr nodei fuel with
  | nil =>
    cases fuel with
    | zero => simp at hfuel
    | succ fuel =>
      have hcomma : Avoids [','.toUInt8] (addrWord a) := (avoids_addrWord a).of_subset (by simp)
      have hport := hports a List.mem_cons_self
      rw [List.length_singleton] at hroom
      obtain ⟨d, r, hadd, hd, hid, -, hused⟩ := vnodeInfoAddAddr_ok hs (by omega) (reloaded a)
      refine ⟨d, ?_, hd, hid, hused⟩
      rw [loadAddrs]
      show (strchr ','.toUInt8 (addrWord a ++ 0 :: []) >>= _) = _
      rw [strchr_miss (by decide) hcomma, ok_bind]
      dsimp only
      show (auxVsockaddrUnstrlize inetAton (addrWord a ++ 0 :: []) vaddr >>= _) = _
      rw [unstrlize_addrWord a vaddr (haton _) hport, ok_bind]
      dsimp only
      rw [hadd, ok_bind]
  | cons b rest ih =>
    cases fuel with
    | zero => simp at hfuel
    | succ fuel =>
      have hcomma : Avoids [','.toUInt8] (addrWord a) := (avoids_addrWord a).of_subset (by simp)
      have hport := hports a List.mem_cons_self
      have hlen := length_addrWord a
      rw [List.length_cons] at hroom hfuel
      rw [List.length_cons] at hroom
      obtain ⟨d, r, hadd, hd, hid, hcount, hused⟩ :=
        vnodeInfoAddAddr_ok hs (by omega) (reloaded a)
      obtain ⟨d', hload, hd', hid', hused'⟩ := @ih b (reloaded a) d fuel
        (fun x hx => hports x (List.mem_cons_of_mem _ hx)) hd
        (by rw [List.length_cons]; omega) (by omega)
      refine ⟨d', ?_, hd', hid'.trans hid, ?_⟩
      · rw [loadAddrs, moreWord_cons, List.cons_append, List.append_assoc, strchr_hit hcomma, ok_bind]
        dsimp only
        rw [copyField_cut (by omega), ok_bind, unstrlize_addrWord a vaddr (haton _) hport, ok_bind]
        dsimp only
        rw [hadd, ok_bind]
        exact hload
      · rw [hused', hused]
        rfl

/-! ## The order of the addresses -/

/-- Host and port. -/
def endpoint (a : VsockaddrIn) : UInt32 × UInt16 := (a.addr.sin_addr, a.addr.sin_port)

theorem distinct_reloaded (h : (l.map endpoint).Nodup) : DistinctAddrs (l.map reloaded) := by
  rw [DistinctAddrs, List.pairwise_map]
  apply (List.pairwise_map.mp h).imp
  intro x y hne
  rw [← Bool.not_eq_true, vsockaddrEqual_iff]
  rintro ⟨-, hip, hport⟩
  exact hne (Prod.ext hip hport)

theorem sorted_reloaded (h : SortedBy baseType l) : SortedBy baseType (l.map reloaded) := by
  rw [SortedBy, List.pairwise_map]
  exact h

/-! ## Adding a node to an empty space -/

/-- No bucket has a peer. -/
def NodeSpace.Empty (space : NodeSpace) : Prop := ∀ i, (space.bucket i).peers = []

theorem vpeerInit_used (space : NodeSpace) (hn : nodei.WellFormed) (now : Int) :
    ∃ q, vpeerInit space nodei now = .ok q ∧ q.nodei.id = nodei.id ∧
      q.nodei.used = putAddrs nodeRule [] nodei.used := by
  obtain ⟨d, r, hcopy, -, -, hid, -, -, hused⟩ :=
    vnodeInfoCopy_ok fitting_vpeerAllocNodei hn.le_max hn.stored
  obtain ⟨q, hq, -⟩ := vpeerInit_ok space hn now
  obtain ⟨d', r', worst, hcopy', -, rfl⟩ := vpeerInit_cases hq
  cases hcopy.symm.trans hcopy'
  exact ⟨_, hq, hid, hused⟩

theorem bumpWeight_used (space : NodeSpace) (nodei : VnodeInfo) :
    (bumpWeight space nodei).used = nodei.used := by
  unfold bumpWeight
  split <;> rfl

theorem peers_setBucket_empty {space : NodeSpace} (hempty : space.Empty) (k : Fin NBUCKETS)
    (b : Bucket) : (space.setBucket k b).peers = b.peers := by
  have hone : (fun i => ((space.setBucket k b).bucket i).peers) =
      fun i => if i = k then b.peers else [] := by
    funext i
    show (Function.update space.bucket k b i).peers = _
    by_cases hi : i = k
    · rw [if_pos hi, hi, Function.update_self]
    · rw [if_neg hi, Function.update_of_ne hi]
      exact hempty i
  rw [NodeSpace.peers, hone]
  exact allItems_single k b.peers

theorem addNode_empty {space : NodeSpace} (hempty : space.Empty) (hroom : 0 < space.bucket_sz)
    (hother : space.myid ≠ nodei.id) (hn : nodei.WellFormed) (flag : AddFlag) (now : Int) :
    ∃ space' q, addNode space nodei flag now = .ok space' ∧ space'.peers = [q] ∧
      q.nodei.id = nodei.id ∧ q.nodei.used = putAddrs nodeRule [] nodei.used := by
  obtain ⟨q, hq, hid, hused⟩ := vpeerInit_used space (bumpWeight_wellFormed space hn) now
  rw [bumpWeight_id] at hid
  rw [bumpWeight_used] at hused
  refine ⟨_, q, ?_, peers_setBucket_empty hempty (vnodeIdBucket space.myid nodei.id) ⟨[q], now⟩,
    hid, hused⟩
  have hbucket := hempty (vnodeIdBucket space.myid nodei.id)
  rw [addNode_new hother.symm (by simp [hbucket]) (by simpa [hbucket] using hroom), appendPeer, hq,
    hbucket]
  rfl

/-! ## The round trip -/

/-- What SQLite promises: strings without a quote and without a NUL are stored as they were
given. -/
def StoresStrings (sqlite : List UInt8 → Option PeerRow) : Prop :=
  ∀ row stmt, Avoids ['\''.toUInt8] row.id → Avoids ['\''.toUInt8] row.ver →
    Avoids ['\''.toUInt8] row.addrs → stmtText row = .ok stmt → sqlite stmt = some row

/-- One to twelve addresses with ports, no host and port twice, in order of base type. -/
structure Storable (nodei : VnodeInfo) : Prop extends nodei.WellFormed where
  ports : ∀ a ∈ nodei.used, a.addr.sin_port ≠ 0
  distinct : (nodei.used.map endpoint).Nodup
  sorted : SortedBy baseType nodei.used

/-- The texts of a row fit their arrays with a NUL behind them, and none was cut off. -/
structure TextsFit (nodei : VnodeInfo) (row : PeerRow) (stmt : List UInt8) : Prop where
  id : vtokenStrlize nodei.id 64 = (row.id, 0) ∧ row.id.length < 64
  ver : vnodeVerStrlize nodei.ver 64 = (row.ver, 0) ∧ row.ver.length < 64
  addr : ∀ a ∈ nodei.used, ∃ text, addrText a = .ok text ∧ text.length < 64
  addrs : addrsText nodei = .ok row.addrs ∧ row.addrs.length < 512
  stmt : stmtText row = .ok stmt ∧ stmt.length < BUF_SZ

/-- Host, port and type. -/
def stored (a : VsockaddrIn) : UInt32 × UInt16 × UInt32 :=
  (a.addr.sin_addr, a.addr.sin_port, a.type)

theorem map_stored_reloaded (l : List VsockaddrIn) :
    (l.map reloaded).map stored = l.map stored := by
  rw [List.map_map]
  rfl

/-- The row of a peer, with the list of its addresses as `rest` behind `a`. -/
def peerRow (nodei : VnodeInfo) (a : VsockaddrIn) (rest : List VsockaddrIn) : PeerRow :=
  ⟨idWord nodei.id, verWord nodei.ver, addrWord a ++ moreWord rest⟩

theorem stmtText_ok {row : PeerRow} (hid : row.id.length ≤ 40) (hver : row.ver.length ≤ 19)
    (haddrs : row.addrs.length ≤ 395) :
    ∃ stmt, stmtText row = .ok stmt ∧ stmt.length < BUF_SZ := by
  have hlen : ([] ++ (stmtParts row).flatten).length < BUF_SZ := by
    have hparts : ((stmtParts row).flatten).length =
        78 + row.id.length + row.ver.length + row.addrs.length := by
      simp only [stmtParts, List.flatten_cons, List.flatten_nil, List.length_append,
        List.length_nil]
      have h1 : (cstr "insert or replace into '").length = 24 := rfl
      have h2 : VPEER_TB.length = 8 := rfl
      have h3 : (cstr "' ").length = 2 := rfl
      have h4 : (cstr " ('id', 'ver', 'addrs')").length = 23 := rfl
      have h5 : (cstr " values (").length = 9 := rfl
      have h6 : (cstr " '").length = 2 := rfl
      have h7 : (cstr "',").length = 2 := rfl
      have h8 : (cstr "')").length = 2 := rfl
      omega
    rw [List.nil_append, hparts]
    show _ < 1024
    omega
  exact ⟨_, foldlM_sprintf hlen, hlen⟩

theorem avoids_moreWord (l : List VsockaddrIn) : Avoids ['\''.toUInt8] (moreWord l) := by
  intro x hx
  obtain ⟨a, -, hxa⟩ := List.mem_flatMap.mp hx
  rcases List.mem_cons.mp hxa with rfl | hxa
  · decide
  · exact (avoids_addrWord a).of_subset (by simp) x hxa

/-- The callback stores the row of the peer, and every text fits. -/
theorem store_ok {space : NodeSpace} {peer : Vpeer} (hgood : isGood space peer = true)
    (hn : peer.nodei.WellFormed) :
    ∃ a rest stmt, peer.nodei.used = a :: rest ∧ rest.length ≤ 11 ∧
      auxSpaceStoreNodeiCb space peer = .ok (some stmt) ∧
      TextsFit peer.nodei (peerRow peer.nodei a rest) stmt := by
  obtain ⟨a, rest, hused, hrest, haddrs⟩ := addrsText_ok hn
  have hid := length_idWord peer.nodei.id
  have hver := length_verWord peer.nodei.ver
  have ha := length_addrWord a
  have hmore := length_moreWord rest
  have hlist : (addrWord a ++ moreWord rest).length ≤ 395 := by
    rw [List.length_append]
    omega
  obtain ⟨stmt, hstmt, hfit⟩ := @stmtText_ok (peerRow peer.nodei a rest)
    (Nat.le_of_eq hid) hver hlist
  have hstr := vtokenStrlize_ok peer.nodei.id
  have hstr' := vnodeVerStrlize_ok peer.nodei.ver
  simp only [isGood, Bool.and_eq_true, Bool.not_eq_true', decide_eq_false_iff_not] at hgood
  refine ⟨a, rest, stmt, hused, hrest, ?_, ⟨hstr, ?_⟩, ⟨hstr', ?_⟩, ?_, ⟨haddrs, ?_⟩, hstmt, hfit⟩
  · rw [auxSpaceStoreNodeiCb, hgood.2, if_neg (by decide), if_neg hgood.1, haddrs, ok_bind, hstr,
      hstr']
    show (stmtText (peerRow peer.nodei a rest) >>= _) = _
    rw [hstmt, ok_bind]
  · show (idWord peer.nodei.id).length < 64
    omega
  · show (verWord peer.nodei.ver).length < 64
    omega
  · intro b _
    have hb := length_addrWord b
    exact ⟨addrWord b, addrText_ok b, by omega⟩
  · show (addrWord a ++ moreWord rest).length < 512
    omega

/-- The row of a peer is read back into a record of the same node, which is added to the space. -/
theorem loadRow_ok (haton : ∀ ip, inetAton (inetNtoa ip) = some ip) (hn : Storable nodei)
    (hused : nodei.used = a :: rest) (hrest : rest.length ≤ 11) (space : NodeSpace)
    (vars : LoadVars) (now : Int) :
    ∃ d, auxSpaceLoadNodeiCb inetAton vars space (peerRow nodei a rest) now =
        addNode space d .byOther now ∧
      d.WellFormed ∧ d.id = nodei.id ∧ d.used = (a :: rest).map reloaded ∧
      putAddrs nodeRule [] ((a :: rest).map reloaded) = (a :: rest).map reloaded := by
  obtain ⟨ver, hver, -⟩ := vnodeVerUnstrlize_printed nodei.ver vars.ver
  have hid := @vtokenUnstrlize_idWord [0] nodei.id vars.id
  obtain ⟨start, hstart, hsound, hnone, hstartid⟩ :
      ∃ start, vnodeInfoRelaxInit vnodeInfoRelax nodei.id ver 0 = .ok start ∧ start.Sound ∧
        start.naddrs = 0 ∧ start.id = nodei.id :=
    ⟨_, rfl, ⟨fitting_relax, Int.le_refl _, show (0 : Int) ≤ MAX_ADDRS by decide⟩, rfl, rfl⟩
  have hports : ∀ b ∈ a :: rest, b.addr.sin_port ≠ 0 := hused ▸ hn.ports
  have hroom' : start.naddrs + (a :: rest).length ≤ MAX_ADDRS := by
    rw [hnone, List.length_cons]
    show (0 : Int) + ((rest.length + 1 : Nat) : Int) ≤ 12
    omega
  have hmore : rest.length < (addrWord a ++ moreWord rest).length + 1 := by
    have hturns := le_length_moreWord rest
    rw [List.length_append]
    omega
  obtain ⟨d, hload, hd, hdid, hdused⟩ := @loadAddrs_ok inetAton a vars.vaddr rest start _ haton
    hports hsound hroom' hmore
  have hkeep : putAddrs nodeRule [] ((a :: rest).map reloaded) = (a :: rest).map reloaded := by
    rw [← hused]
    have hsorted := sortedAddrs_iff.mpr (sorted_reloaded hn.sorted)
    exact putAddrs_sorted (m := []) (distinct_reloaded hn.distinct) hsorted
  rw [start.used_eq_nil hnone, hkeep] at hdused
  have hwf : d.WellFormed := by
    have hcount : (((a :: rest).map reloaded).length : Int) = d.naddrs := by
      rw [← hdused]
      exact hd.length_used
    have hslots := hd.slots
    have hcapc := hd.naddrs_le
    rw [List.length_map, List.length_cons] at hcount
    exact ⟨by omega, hd.naddrs_le_max, by omega⟩
  refine ⟨d, ?_, hwf, hdid.trans hstartid, hdused, hkeep⟩
  rw [auxSpaceLoadNodeiCb]
  show (vtokenUnstrlize (idWord nodei.id ++ [0]) vars.id >>= _) = _
  rw [hid, ok_bind]
  dsimp only
  show (vnodeVerUnstrlize (verWord nodei.ver ++ [0]) vars.ver >>= _) = _
  rw [hver, ok_bind]
  dsimp only
  rw [hstart, ok_bind]
  show (loadAddrs inetAton _ (addrWord a ++ moreWord rest ++ [0]) vars.vaddr start >>= _) = _
  rw [List.append_assoc]
  show (loadAddrs inetAton ((addrWord a ++ moreWord rest).length + 1) _ _ _ >>= _) = _
  rw [hload, ok_bind]

/-- The row of a peer is loaded into an empty space. -/
theorem load_ok (haton : ∀ ip, inetAton (inetNtoa ip) = some ip) (hn : Storable nodei)
    (hused : nodei.used = a :: rest) (hrest : rest.length ≤ 11) {space : NodeSpace}
    (hempty : space.Empty) (hother : space.myid ≠ nodei.id) (hroom : 0 < space.bucket_sz)
    (vars : LoadVars) (now : Int) :
    ∃ space' q, auxSpaceLoadNodeiCb inetAton vars space (peerRow nodei a rest) now = .ok space' ∧
      space'.peers = [q] ∧ q.nodei.id = nodei.id ∧
      q.nodei.used.map stored = nodei.used.map stored := by
  obtain ⟨d, hload, hwf, hdid, hdused, hkeep⟩ :=
    loadRow_ok haton hn hused hrest space vars now
  obtain ⟨space', q, hadd, hpeers, hqid, hqused⟩ := addNode_empty hempty hroom
    (by rw [hdid]; exact hother) hwf .byOther now
  rw [hdused, hkeep] at hqused
  refine ⟨space', q, hload.trans hadd, hpeers, hqid.trans hdid, ?_⟩
  rw [hqused, map_stored_reloaded, hused]

/-- A good peer whose record is storable is written in a statement that the database takes, with
texts that fit their arrays, and the row is loaded into any empty space with room and another id as
one peer with its id and its addresses, whatever the locals of the loader held. SQLite has to keep
the strings of the statement, and `inet_aton` to read what `inet_ntoa` prints. -/
theorem stored_peer_is_loaded {sqlite : List UInt8 → Option PeerRow}
    (hsql : StoresStrings sqlite) (haton : ∀ ip, inetAton (inetNtoa ip) = some ip)
    {space : NodeSpace} {peer : Vpeer} (hgood : isGood space peer = true)
    (hn : Storable peer.nodei) {load : NodeSpace} (hempty : load.Empty)
    (hother : load.myid ≠ peer.nodei.id) (hroom : 0 < load.bucket_sz) (vars : LoadVars)
    (now : Int) :
    ∃ stmt row, auxSpaceStoreNodeiCb space peer = .ok (some stmt) ∧ sqlite stmt = some row ∧
      TextsFit peer.nodei row stmt ∧
      ∃ load' q, auxSpaceLoadNodeiCb inetAton vars load row now = .ok load' ∧
        load'.peers = [q] ∧ q.nodei.id = peer.nodei.id ∧
        q.nodei.used.map stored = peer.nodei.used.map stored := by
  obtain ⟨a, rest, stmt, hused, hrest, hstore, hfit⟩ := store_ok hgood hn.toWellFormed
  have haddrs : Avoids ['\''.toUInt8] (addrWord a ++ moreWord rest) :=
    ((avoids_addrWord a).of_subset (by simp)).append (avoids_moreWord rest)
  have hver : Avoids ['\''.toUInt8] (verWord peer.nodei.ver) :=
    (avoids_verWord _).of_subset (by simp [separators])
  have hrow : sqlite stmt = some (peerRow peer.nodei a rest) :=
    hsql _ _ (avoids_hexBytes _) hver haddrs hfit.stmt.1
  exact ⟨stmt, _, hstore, hrow, hfit, load_ok haton hn hused hrest hempty hother hroom vars now⟩

/-- The strings that the statement has between quotes behind the names. -/
def quotedStrings (stmt : List UInt8) : Option PeerRow :=
  match stmt.splitOn '\''.toUInt8 with
  | [_, _, _, _, _, _, _, _, _, id, _, ver, _, addrs, _] => some ⟨id, ver, addrs⟩
  | _ => none

theorem storesStrings_quotedStrings : StoresStrings quotedStrings := by
  intro row stmt hid hver haddrs hstmt
  have hquote : ∀ {w : List UInt8}, Avoids ['\''.toUInt8] w → '\''.toUInt8 ∉ w := by
    intro w hw hmem
    exact hw _ hmem (by simp)
  have hparts : stmt = (['\''.toUInt8] : List UInt8).intercalate
      [cstr "insert or replace into ", VPEER_TB, cstr "  (", cstr "id", cstr ", ", cstr "ver",
        cstr ", ", cstr "addrs", cstr ") values ( ", row.id, cstr ", ", row.ver, cstr ", ",
        row.addrs, cstr ")"] := by
    rw [foldlM_sprintf_eq hstmt]
    simp [stmtParts, cstr, VPEER_TB, List.intercalate]
  rw [quotedStrings, hparts, List.splitOn_intercalate _ _ (by simp)]
  intro w hw
  simp only [List.mem_cons, List.not_mem_nil, or_false] at hw
  rcases hw with rfl | rfl | rfl | rfl | rfl | rfl | rfl | rfl | rfl | rfl | rfl | rfl | rfl | rfl |
    rfl
  all_goals first | exact hquote hid | exact hquote hver | exact hquote haddrs | decide

/-- Four decimal numbers, as the bytes of the address. -/
def dottedQuad (host : List UInt8) : Option UInt32 :=
  match host.splitOn '.'.toUInt8 with
  | [x, y, z, w] => some (getU32 ([x, y, z, w].map fun part => UInt8.ofNat (digitsVal part)))
  | _ => none

theorem dottedQuad_inetNtoa (ip : UInt32) : dottedQuad (inetNtoa ip) = some ip := by
  obtain ⟨x, y, z, w, h⟩ : ∃ x y z w, putU32 ip = [x, y, z, w] := ⟨_, _, _, _, rfl⟩
  have hback : getU32 ([x, y, z, w] ++ []) = ip := by rw [← h, getU32_put]
  have hdot : ∀ part ∈ (putU32 ip).map fun b => decimalNat b.toNat, '.'.toUInt8 ∉ part := by
    intro part hpart
    obtain ⟨b, -, rfl⟩ := List.mem_map.mp hpart
    intro hmem
    exact absurd (isDigit_of_mem_decimalNat _ hmem) (by decide)
  have hsplit : (inetNtoa ip).splitOn '.'.toUInt8 =
      (putU32 ip).map fun b => decimalNat b.toNat :=
    List.splitOn_intercalate _ hdot (by rw [h]; simp)
  rw [dottedQuad, hsplit, h]
  simp only [List.map_cons, List.map_nil, digitsVal_decimalNat, UInt8.ofNat_toNat]
  rw [← hback, List.append_nil]

/-- A peer with two addresses, one of a type with all bits above the base type set. -/
def twoAddrPeer : Vpeer where
  conn := vnodeConnSetRaw zeroAddr.addr zeroAddr.addr
  nodei := infoOf (Block.ofList VTOKEN_LEN [1]) 2 ⟨portAddr 1, 0xffffff01⟩ ⟨portAddr 2, 3⟩ zeroAddr
    zeroAddr
  tick_ts := 0
  next_tmo := 2
  ntry_pings := 0
  ntry_probes := 0

/-- An empty space of peers with buckets of ten, for concrete runs. -/
def emptySpace : NodeSpace :=
  nodeSpaceInit zeroAddr.addr 10 100 (Block.ofList VTOKEN_LEN [1]) vnodeVerUnknown

theorem storable_twoAddrPeer : Storable twoAddrPeer.nodei where
  pos := by decide
  le_max := by decide
  stored := by decide
  ports := by decide
  distinct := by decide
  sorted := by
    unfold SortedBy
    decide

theorem stored_peer_is_loaded_two :
    ∃ stmt row, auxSpaceStoreNodeiCb emptySpace twoAddrPeer = .ok (some stmt) ∧
      quotedStrings stmt = some row ∧ TextsFit twoAddrPeer.nodei row stmt ∧
      ∃ load' q, auxSpaceLoadNodeiCb dottedQuad ⟨vnodeVerUnknown, vnodeVerUnknown, zeroAddr⟩
          emptySpace row 0 = .ok load' ∧
        load'.peers = [q] ∧ q.nodei.id = twoAddrPeer.nodei.id ∧
        q.nodei.used.map stored = twoAddrPeer.nodei.used.map stored :=
  stored_peer_is_loaded storesStrings_quotedStrings dottedQuad_inetNtoa (by decide)
    storable_twoAddrPeer (fun _ => rfl) (by decide) (by decide) _ 0

end Vdht.Route
