import Vdht.Hash.Chunks

/-!
# A generator that is used again

`_vhashgen_sha1_reset` starts a new message, but it leaves the cursor where it is. Bytes of an
earlier message for which no result was asked stay in front of the next one: the next hash takes
them in, and counts only its own bytes. Where the cursor is 0 nothing is left, and the hash is that
of a fresh generator.
-/

namespace Vdht.Hash

open Lib

/-- The calls of a generator: `reset`, `input` and `result`. -/
inductive HashOp where
  | reset
  | input (msg : List UInt8)
  | result

/-- A message is asserted to be there. -/
def HashOp.Admitted : HashOp → Prop
  | .input msg => msg ≠ []
  | _ => True

/-- A call on the context of the engine; the digest that a result returns is not looked at here. -/
def hashExec (ctxt : VhashgenCtxtSha1) : HashOp → Res VhashgenCtxtSha1
  | .reset => .ok (vhashgenSha1Reset ctxt)
  | .input msg => vhashgenSha1Input ctxt msg
  | .result => (vhashgenSha1Result ctxt).map Prod.fst

/-- The bytes in front of the cursor. -/
def leftover (ctxt : VhashgenCtxtSha1) : List UInt8 := ctxt.msgbuf.take ctxt.cursor

/-- The cursor is inside the buffer. -/
structure Usable (ctxt : VhashgenCtxtSha1) : Prop where
  size : ctxt.msgbuf.length = 64
  room : ctxt.cursor < 64

variable {ctxt c : VhashgenCtxtSha1} {msg : List UInt8}

theorem usable_init : Usable vhashgenInit := ⟨List.length_replicate, Nat.zero_lt_succ _⟩

theorem Usable.length_leftover (h : Usable ctxt) : (leftover ctxt).length = ctxt.cursor := by
  rw [leftover, List.length_take, h.size, Nat.min_eq_left (Nat.le_of_lt h.room)]

theorem Usable.holds (h : Usable ctxt) : Holds ctxt (ctxt.digest, leftover ctxt) where
  digest := rfl
  cursor := h.length_leftover.symm
  size := h.size
  pending := by rw [h.length_leftover, leftover]

theorem usable_digest (h : ctxt.msgbuf.length = 64) : Usable (auxSha1DigestMsgbuf ctxt) := by
  rw [digestMsgbuf_eq]
  exact ⟨h, Nat.zero_lt_succ _⟩

/-! ## One call -/

theorem countByte_buffer (ctxt : VhashgenCtxtSha1) :
    (countByte ctxt).msgbuf = ctxt.msgbuf ∧ (countByte ctxt).cursor = ctxt.cursor := by
  rw [countByte]
  split <;> exact ⟨rfl, rfl⟩

theorem Usable.inputLoop (h : Usable ctxt) (msg : List UInt8) :
    ∃ c, inputLoop ctxt msg = .ok c ∧ Usable c := by
  induction msg generalizing ctxt with
  | nil => exact ⟨ctxt, rfl, h⟩
  | cons x msg ih =>
    rw [Hash.inputLoop]
    by_cases hoops : ctxt.oops = true
    · rw [if_pos hoops]
      exact ⟨ctxt, rfl, h⟩
    · obtain ⟨stored, hput, hone, -⟩ := h.holds.put (by rw [h.length_leftover]; exact h.room) x
      obtain ⟨hbuf, hcursor⟩ := countByte_buffer stored
      have hlen : stored.cursor = ctxt.cursor + 1 := by
        rw [hone.cursor, List.length_append, h.length_leftover, List.length_singleton]
      rw [if_neg hoops, hput]
      apply ih
      split
      · exact usable_digest (by rw [hbuf, hone.size])
      · rename_i hne
        have hroom := h.room
        exact ⟨by rw [hbuf, hone.size], by omega⟩

theorem Usable.input (h : Usable ctxt) (hmsg : msg ≠ []) :
    ∃ c, vhashgenSha1Input ctxt msg = .ok c ∧ Usable c := by
  rw [vhashgenSha1Input, if_neg (mt List.eq_nil_of_length_eq_zero hmsg)]
  split
  · exact ⟨_, rfl, h.size, h.room⟩
  · exact h.inputLoop msg

/-- The stores of the length stay inside the buffer. -/
theorem putLength_size (h : ctxt.msgbuf.length = 64) :
    ∃ c, putLength ctxt = .ok c ∧ c.msgbuf.length = 64 := by
  have hset : ∀ {buf : List UInt8} {i : Nat} (x : UInt8), buf.length = 64 → i < 64 →
      ∃ buf', setSlot buf i x = .ok buf' ∧ buf'.length = 64 := by
    intro buf i x hbuf hi
    exact ⟨buf.set i x, setSlot_ok (by omega), by rw [List.length_set, hbuf]⟩
  obtain ⟨b₀, h₀, hb⟩ := hset (i := 56) (lenByte ctxt.lenHigh 24) h (by omega)
  obtain ⟨b₁, h₁, hb⟩ := hset (i := 57) (lenByte ctxt.lenHigh 16) hb (by omega)
  obtain ⟨b₂, h₂, hb⟩ := hset (i := 58) (lenByte ctxt.lenHigh 8) hb (by omega)
  obtain ⟨b₃, h₃, hb⟩ := hset (i := 59) (lenByte ctxt.lenHigh 0) hb (by omega)
  obtain ⟨b₄, h₄, hb⟩ := hset (i := 60) (lenByte ctxt.lenLow 24) hb (by omega)
  obtain ⟨b₅, h₅, hb⟩ := hset (i := 61) (lenByte ctxt.lenLow 16) hb (by omega)
  obtain ⟨b₆, h₆, hb⟩ := hset (i := 62) (lenByte ctxt.lenLow 8) hb (by omega)
  obtain ⟨b₇, h₇, hb⟩ := hset (i := 63) (lenByte ctxt.lenLow 0) hb (by omega)
  refine ⟨{ ctxt with msgbuf := b₇ }, ?_, hb⟩
  simp only [putLength, h₀, h₁, h₂, h₃, h₄, h₅, h₆, h₇, ok_bind, pure_eq_ok]

theorem Usable.pads (h : Usable ctxt) :
    ∃ c, auxSha1PaddingMsgbuf ctxt = .ok c ∧ Usable c := by
  have hroom : (leftover ctxt).length < 64 := by
    rw [h.length_leftover]
    exact h.room
  obtain ⟨marked, hput, hone, -⟩ := h.holds.put hroom 0x80
  have hlen : (leftover ctxt ++ [(0x80 : UInt8)]).length = ctxt.cursor + 1 := by
    rw [List.length_append, h.length_leftover, List.length_singleton]
  rw [auxSha1PaddingMsgbuf, hput]
  by_cases hlong : ctxt.cursor > 55
  · obtain ⟨filled, hfill, hfull, -⟩ := hone.fill 64 (by rw [hlen]; exact h.room) (Nat.le_refl _)
    have hblock := (usable_digest hfull.size).holds
    have hzero : (auxSha1DigestMsgbuf filled).cursor = 0 := by rw [digestMsgbuf_eq]
    obtain ⟨ready, hfill', hready, -⟩ := hblock.fill 56
      (by rw [← hblock.cursor, hzero]; exact Nat.zero_le _) (by omega)
    obtain ⟨last, hlast, hsize⟩ := putLength_size hready.size
    refine ⟨_, ?_, usable_digest hsize⟩
    rw [if_pos hlong, ok_bind, hfill, ok_bind, hfill', ok_bind]
    show (putLength ready >>= fun ctxt => pure (auxSha1DigestMsgbuf ctxt)) = _
    rw [hlast]
    rfl
  · have hshort : ctxt.cursor ≤ 55 := Nat.le_of_not_lt hlong
    obtain ⟨ready, hfill, hready, -⟩ := hone.fill 56 (by omega) (by omega)
    obtain ⟨last, hlast, hsize⟩ := putLength_size hready.size
    refine ⟨_, ?_, usable_digest hsize⟩
    rw [if_neg hlong, ok_bind, hfill, ok_bind]
    show (putLength ready >>= fun ctxt => pure (auxSha1DigestMsgbuf ctxt)) = _
    rw [hlast]
    rfl

theorem Usable.result (h : Usable ctxt) :
    ∃ c d, vhashgenSha1Result ctxt = .ok (c, d) ∧ Usable c := by
  rw [vhashgenSha1Result]
  split
  · exact ⟨_, _, rfl, h⟩
  · split
    · exact ⟨_, _, rfl, h⟩
    · obtain ⟨c, hpads, hc⟩ := h.pads
      rw [hpads]
      exact ⟨_, _, rfl, hc.size, hc.room⟩

/-! ## Runs -/

theorem Usable.exec (h : Usable ctxt) {op : HashOp} (hop : op.Admitted) :
    ∃ c, hashExec ctxt op = .ok c ∧ Usable c := by
  cases op with
  | reset => exact ⟨_, rfl, h.size, h.room⟩
  | input msg => exact h.input hop
  | result =>
    obtain ⟨c, d, hresult, hc⟩ := h.result
    exact ⟨c, by rw [hashExec, hresult]; rfl, hc⟩

/-- Whatever was called before, the cursor is inside the buffer. -/
theorem Usable.run (h : Usable ctxt) {ops : List HashOp} (hops : ∀ op ∈ ops, op.Admitted) :
    ∃ c, ops.foldlM hashExec ctxt = .ok c ∧ Usable c := by
  induction ops generalizing ctxt with
  | nil => exact ⟨ctxt, rfl, h⟩
  | cons op ops ih =>
    obtain ⟨hop, hrest⟩ := List.forall_mem_cons.mp hops
    obtain ⟨next, hexec, hnext⟩ := h.exec hop
    obtain ⟨c, hrun, hc⟩ := ih hnext hrest
    exact ⟨c, by rw [List.foldlM_cons, hexec]; exact hrun, hc⟩

/-! ## The next hash -/

/-- The digest over bytes that were left and a message, of which only the message is counted. -/
def chained (left msg : List UInt8) : Digest :=
  ((msg ++ paddingAt (left.length + msg.length) msg.length).foldl (absorb 64 written.compress)
    (initial, left)).1

/-- A hash takes in what is left in front of the cursor. -/
theorem Usable.hash (h : Usable ctxt) (hmsg : msg ≠ []) (hshort : msg.length < 2 ^ 61) :
    ∃ c, vhashgenHash ctxt msg = .ok (c, some (chained (leftover ctxt) msg)) := by
  have hroom : (leftover ctxt).length < 64 := by
    rw [h.length_leftover]
    exact h.room
  have hstart : Feeds (vhashgenSha1Reset ctxt) (initial, leftover ctxt) 0 :=
    ⟨⟨rfl, h.holds.cursor, h.size, h.holds.pending⟩, ⟨rfl, rfl⟩, hroom, rfl, rfl⟩
  obtain ⟨fed, hinput, hfed⟩ := hstart.sha1Input hmsg (by omega)
  rw [Nat.zero_add] at hfed
  obtain ⟨c, hresult⟩ := hfed.result (length_absorb hroom)
  refine ⟨c, ?_⟩
  rw [vhashgenHash, if_neg (mt List.eq_nil_of_length_eq_zero hmsg), hinput, ok_bind, hresult,
    chained, List.foldl_append]

/-- With nothing left, the hash is that of a fresh generator. -/
theorem Usable.hash_clean (h : Usable ctxt) (hcursor : ctxt.cursor = 0) (hmsg : msg ≠ [])
    (hshort : msg.length < 2 ^ 61) :
    (vhashgenHash ctxt msg).map Prod.snd = (vhashgenHash vhashgenInit msg).map Prod.snd := by
  obtain ⟨c, hhash⟩ := h.hash hmsg hshort
  obtain ⟨c', hfresh⟩ := usable_init.hash hmsg hshort
  have hleft : leftover ctxt = leftover vhashgenInit := by rw [leftover, leftover, hcursor]; rfl
  rw [hhash, hfresh, hleft]
  rfl

/-- Whatever calls were made before, a hash covers the bytes that they left in front of the cursor
and its message. Where the cursor is 0 it is, with or without a cookie, the hash of a fresh
generator. -/
theorem hash_after_calls {ops : List HashOp} (hops : ∀ op ∈ ops, op.Admitted) :
    ∃ ctxt, ops.foldlM hashExec vhashgenInit = .ok ctxt ∧
      (ctxt.cursor = 0 → ∀ m cookie : Message,
        (vhashgenHash ctxt m.bytes).map Prod.snd =
            (vhashgenHash vhashgenInit m.bytes).map Prod.snd ∧
          (vhashgenHashWithCookie ctxt m.bytes cookie.bytes).map Prod.snd =
            (vhashgenHashWithCookie vhashgenInit m.bytes cookie.bytes).map Prod.snd) ∧
      ∀ m : Message,
        (vhashgenHash ctxt m.bytes).map Prod.snd =
          .ok (some (chained (leftover ctxt) m.bytes)) := by
  obtain ⟨ctxt, hrun, h⟩ := usable_init.run hops
  refine ⟨ctxt, hrun, fun hcursor m cookie => ⟨?_, ?_⟩, fun m => ?_⟩
  · have hshort := m.short
    exact h.hash_clean hcursor m.nonempty (by omega)
  · have hboth : m.bytes ++ cookie.bytes ≠ [] :=
      List.append_ne_nil_of_left_ne_nil m.nonempty _
    have hlen : (m.bytes ++ cookie.bytes).length < 2 ^ 61 := by
      have hshort := m.short
      have hshort' := cookie.short
      rw [List.length_append]
      omega
    rw [vhashgenHashWithCookie_eq ctxt m.nonempty cookie.nonempty,
      vhashgenHashWithCookie_eq vhashgenInit m.nonempty cookie.nonempty]
    exact h.hash_clean hcursor hboth hlen
  · have hshort := m.short
    obtain ⟨c, hhash⟩ := h.hash m.nonempty (by omega)
    rw [hhash]
    rfl

/-- A message, its result, and then a hash. -/
theorem hash_after_result :
    ∃ ctxt, [HashOp.input [0x61], .result].foldlM hashExec vhashgenInit = .ok ctxt ∧
      ∀ m : Message,
        (vhashgenHash ctxt m.bytes).map Prod.snd =
          (vhashgenHash vhashgenInit m.bytes).map Prod.snd := by
  have hops : ∀ op ∈ [HashOp.input [0x61], .result], op.Admitted := by simp [HashOp.Admitted]
  obtain ⟨ctxt, hrun, hclean, -⟩ := hash_after_calls hops
  have hcursor : ([HashOp.input [0x61], .result].foldlM hashExec vhashgenInit).map
      VhashgenCtxtSha1.cursor = .ok 0 := by decide +kernel
  rw [hrun] at hcursor
  exact ⟨ctxt, hrun, fun m => (hclean (Except.ok.inj hcursor) m m).1⟩

/-- A byte for which no result was asked changes the next hash. -/
theorem hash_after_unfinished_message :
    (hashExec vhashgenInit (.input [0x61]) >>= fun ctxt =>
        (vhashgenHash ctxt [0x62]).map Prod.snd) ≠
      (vhashgenHash vhashgenInit [0x62]).map Prod.snd := by
  decide +kernel

end Vdht.Hash
