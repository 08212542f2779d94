import Vdht.Hash.Compare

/-!
# Messages in parts

`_vhashgen_sha1_input` may be called several times before the result is asked for. What it leaves
does not depend on how the bytes are split among the calls: a call goes on where the loop of the one
before it stopped, also when that call found the engine in error. A hash with a cookie is the hash
of the content with the cookie behind it.
-/

namespace Vdht.Hash

open Lib

variable {ctxt c : VhashgenCtxtSha1} {a b : List UInt8}

/-! ## Two parts -/

/-- An engine in error takes nothing. -/
theorem inputLoop_oops (h : ctxt.oops = true) (msg : List UInt8) : inputLoop ctxt msg = .ok ctxt := by
  cases msg with
  | nil => rfl
  | cons x msg => rw [inputLoop, if_pos h]

theorem inputLoop_append (ctxt : VhashgenCtxtSha1) (a b : List UInt8) :
    inputLoop ctxt (a ++ b) = inputLoop ctxt a >>= fun c => inputLoop c b := by
  induction a generalizing ctxt with
  | nil => rfl
  | cons x a ih =>
    rw [List.cons_append, inputLoop, inputLoop]
    by_cases hoops : ctxt.oops = true
    · rw [if_pos hoops, if_pos hoops, ok_bind, inputLoop_oops hoops]
    · rw [if_neg hoops, if_neg hoops]
      cases putByte ctxt x with
      | error e => rfl
      | ok stored => exact ih _

theorem countByte_done (ctxt : VhashgenCtxtSha1) : (countByte ctxt).done = ctxt.done := by
  rw [countByte]
  split <;> rfl

theorem putByte_done {x : UInt8} (h : putByte ctxt x = .ok c) : c.done = ctxt.done := by
  rw [putByte] at h
  split at h
  · cases h
  · cases h
    rfl

theorem inputLoop_done (h : inputLoop ctxt a = .ok c) : c.done = ctxt.done := by
  induction a generalizing ctxt with
  | nil =>
    cases h
    rfl
  | cons x a ih =>
    rw [inputLoop] at h
    split at h
    · cases h
      rfl
    · split at h
      · cases h
      · rename_i stored hput
        rw [ih h, ← putByte_done hput, ← countByte_done stored]
        split
        · exact (digestMsgbuf_stays _).done
        · rfl

/-- Before the result is asked for, a call is the loop, which takes nothing when there was an error. -/
theorem vhashgenSha1Input_loop (hdone : ctxt.done = false) (hb : b ≠ []) :
    vhashgenSha1Input ctxt b = inputLoop ctxt b := by
  rw [vhashgenSha1Input, if_neg (mt List.eq_nil_of_length_eq_zero hb), hdone, Bool.false_or]
  split
  · rename_i hoops
    rw [inputLoop_oops hoops, ← hdone, ← hoops]
  · rfl

/-- A second call goes on where the first one stopped. -/
theorem vhashgenSha1Input_append (ctxt : VhashgenCtxtSha1) (ha : a ≠ []) (hb : b ≠ []) :
    vhashgenSha1Input ctxt (a ++ b) =
      vhashgenSha1Input ctxt a >>= fun c => vhashgenSha1Input c b := by
  have hab : a ++ b ≠ [] := List.append_ne_nil_of_left_ne_nil ha b
  cases hdone : ctxt.done with
  | true =>
    have hstop : ∀ {l : List UInt8}, l ≠ [] →
        vhashgenSha1Input ctxt l = .ok { ctxt with oops := true } := by
      intro l hl
      rw [vhashgenSha1Input, if_neg (mt List.eq_nil_of_length_eq_zero hl), hdone, Bool.true_or,
        if_pos rfl]
    rw [hstop hab, hstop ha, ok_bind, vhashgenSha1Input,
      if_neg (mt List.eq_nil_of_length_eq_zero hb), Bool.or_true, if_pos rfl]
  | false =>
    rw [vhashgenSha1Input_loop hdone hab, vhashgenSha1Input_loop hdone ha, inputLoop_append]
    cases hloop : inputLoop ctxt a with
    | error e => rfl
    | ok c => exact (vhashgenSha1Input_loop ((inputLoop_done hloop).trans hdone) hb).symm

/-! ## Any number of parts -/

theorem vhashgenSha1Input_flatten (ctxt : VhashgenCtxtSha1) {chunks : List (List UInt8)}
    (hchunks : chunks ≠ []) (hne : ∀ chunk ∈ chunks, chunk ≠ []) :
    chunks.foldlM vhashgenSha1Input ctxt = vhashgenSha1Input ctxt chunks.flatten := by
  induction chunks generalizing ctxt with
  | nil => exact absurd rfl hchunks
  | cons chunk chunks ih =>
    obtain ⟨hchunk, hrest⟩ := List.forall_mem_cons.mp hne
    rw [List.foldlM_cons, List.flatten_cons]
    cases chunks with
    | nil =>
      rw [List.flatten_nil, List.append_nil]
      exact bind_pure _
    | cons next chunks =>
      have hflat : (next :: chunks).flatten ≠ [] := by
        rw [List.flatten_cons]
        exact List.append_ne_nil_of_left_ne_nil (hrest next List.mem_cons_self) _
      rw [vhashgenSha1Input_append ctxt hchunk hflat]
      exact bind_congr fun c => ih c (List.cons_ne_nil _ _) hrest

theorem vhashgenHashWithCookie_eq (ctxt : VhashgenCtxtSha1) (ha : a ≠ []) (hb : b ≠ []) :
    vhashgenHashWithCookie ctxt a b = vhashgenHash ctxt (a ++ b) := by
  have hlen : ∀ {l : List UInt8}, l ≠ [] → l.length ≠ 0 := mt List.eq_nil_of_length_eq_zero
  have hab : a ++ b ≠ [] := List.append_ne_nil_of_left_ne_nil ha b
  rw [vhashgenHashWithCookie, vhashgenHash, if_neg (hlen ha), if_neg (hlen hb), if_neg (hlen hab),
    vhashgenSha1Input_append _ ha hb, bind_assoc]

/-- A content and a cookie, neither of them empty and together of fewer than $2^{28}$ bytes, are
hashed as their concatenation is; and a message that is fed in any parts that are not empty leaves
the engine, from any state, as the whole message does. -/
theorem hashed_in_parts {content cookie : List UInt8} (hcontent : content ≠ [])
    (hcookie : cookie ≠ []) (hlen : (content ++ cookie).length < 2 ^ 28)
    (ctxt : VhashgenCtxtSha1) {chunks : List (List UInt8)} (hchunks : chunks ≠ [])
    (hne : ∀ chunk ∈ chunks, chunk ≠ []) :
    (∃ c d, vhashgenHashWithCookie vhashgenInit content cookie = .ok (c, some d) ∧
        vhashgenHash vhashgenInit (content ++ cookie) = .ok (c, some d)) ∧
      chunks.foldlM vhashgenSha1Input ctxt = vhashgenSha1Input ctxt chunks.flatten := by
  refine ⟨?_, vhashgenSha1Input_flatten ctxt hchunks hne⟩
  have hmsg : content ++ cookie ≠ [] := List.append_ne_nil_of_left_ne_nil hcontent _
  obtain ⟨c, hhash⟩ := vhashgenHash_eq ⟨content ++ cookie, hmsg, by omega⟩
  exact ⟨c, _, by rw [vhashgenHashWithCookie_eq _ hcontent hcookie, hhash], hhash⟩

/-- One byte with one more behind it, and three bytes in two parts. -/
theorem hashed_in_parts_short :
    (∃ c d, vhashgenHashWithCookie vhashgenInit [0x61] [0x62] = .ok (c, some d) ∧
        vhashgenHash vhashgenInit [0x61, 0x62] = .ok (c, some d)) ∧
      [[0x61, 0x62], [0x63]].foldlM vhashgenSha1Input vhashgenInit =
        vhashgenSha1Input vhashgenInit [0x61, 0x62, 0x63] :=
  hashed_in_parts (List.cons_ne_nil _ _) (List.cons_ne_nil _ _) (Nat.lt_of_sub_eq_succ rfl) _
    (List.cons_ne_nil _ _) (by simp)

end Vdht.Hash
