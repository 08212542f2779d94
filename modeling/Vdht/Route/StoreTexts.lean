import Vdht.Route.Store
import Mathlib.Tactic.IntervalCases

/-!
# The texts of a stored peer

Each text is shown to fit its array, and to be read back as what it was printed from. The words of
ids, versions and addresses contain neither of the bytes that separate them in their surroundings.
-/

namespace Vdht.Route

open Vdht.Core NodeId Lib

open Lsctl (AF_INET ntohs htons htons_ntohs)

variable {buf text w m : List UInt8} {cap n : Nat} {b c : UInt8}

/-! ## Printing and scanning -/

theorem sprintf_ok (h : (buf ++ text).length < cap) : sprintf cap buf text = .ok (buf ++ text) :=
  if_pos h

theorem snprintf_ok (h : (buf ++ text).length < cap) :
    snprintf cap buf text = (buf ++ text, true) := if_pos h

theorem foldlM_sprintf {parts : List (List UInt8)} (h : (buf ++ parts.flatten).length < cap) :
    parts.foldlM (sprintf cap) buf = .ok (buf ++ parts.flatten) := by
  induction parts generalizing buf with
  | nil => simp [pure, Except.pure]
  | cons part parts ih =>
    rw [List.flatten_cons, ← List.append_assoc] at h ⊢
    have hpart : (buf ++ part).length < cap := by
      rw [List.length_append] at h
      omega
    rw [List.foldlM_cons, sprintf_ok hpart, ok_bind, ih h]

theorem foldlM_sprintf_eq {cap : Nat} {parts : List (List UInt8)} {out : List UInt8}
    (h : parts.foldlM (sprintf cap) buf = .ok out) : out = buf ++ parts.flatten := by
  induction parts generalizing buf with
  | nil =>
    cases h
    simp
  | cons part parts ih =>
    rw [List.foldlM_cons] at h
    by_cases hfit : (buf ++ part).length < cap
    · rw [sprintf_ok hfit, ok_bind] at h
      rw [ih h, List.flatten_cons, List.append_assoc]
    · rw [sprintf, if_neg hfit] at h
      cases h

/-- The bytes of a text do not end it, and are not those of `seps`. -/
def Avoids (seps text : List UInt8) : Prop := ∀ b ∈ text, b ∉ 0 :: seps

theorem Avoids.append {seps : List UInt8} (hw : Avoids seps w) (hm : Avoids seps m) :
    Avoids seps (w ++ m) := by
  intro b hb
  rcases List.mem_append.mp hb with hb | hb
  · exact hw b hb
  · exact hm b hb

theorem Avoids.of_subset {seps more : List UInt8} (hw : Avoids more w)
    (h : ∀ c ∈ seps, c ∈ more) : Avoids seps w := by
  intro b hb hmem
  apply hw b hb
  rcases List.mem_cons.mp hmem with rfl | hmem
  · exact List.mem_cons_self
  · exact List.mem_cons_of_mem _ (h b hmem)

theorem strchr_hit (hw : Avoids [c] w) : strchr c (w ++ c :: m) = .ok (some (c :: m)) := by
  induction w with
  | nil => exact if_pos rfl
  | cons b w ih =>
    have hb := hw b List.mem_cons_self
    simp only [List.mem_cons, List.not_mem_nil, or_false, not_or] at hb
    rw [List.cons_append, strchr, if_neg hb.2, if_neg hb.1]
    exact ih fun b' hb' => hw b' (List.mem_cons_of_mem _ hb')

theorem strchr_miss (hc : c ≠ 0) (hw : Avoids [c] w) : strchr c (w ++ 0 :: m) = .ok none := by
  induction w with
  | nil => rw [List.nil_append, strchr, if_neg hc.symm, if_pos rfl]
  | cons b w ih =>
    have hb := hw b List.mem_cons_self
    simp only [List.mem_cons, List.not_mem_nil, or_false, not_or] at hb
    rw [List.cons_append, strchr, if_neg hb.2, if_neg hb.1]
    exact ih fun b' hb' => hw b' (List.mem_cons_of_mem _ hb')

theorem copyField_cut (h : w.length < 64) : copyField (w ++ m) m = .ok w := by
  have hlen : (w ++ m).length - m.length = w.length := by
    rw [List.length_append]
    omega
  rw [copyField, hlen, if_pos h, List.take_left]

theorem readLong_decimalNat (hn : n < 2 ^ 32) (hc : isStop c) :
    readLong (decimalNat n ++ c :: m) = .ok (some ((n : Int), c :: m)) := by
  have hnum : Numeral (decimalNat n) n := numeral_decimalNat (by omega)
  rw [readLong, strtol_numeral hnum hc]
  rfl

theorem length_flatMap_le {α : Type} {f : α → List UInt8} {k : Nat}
    (hf : ∀ a, (f a).length ≤ k) (l : List α) : (l.flatMap f).length ≤ k * l.length := by
  induction l with
  | nil => exact Nat.le_refl 0
  | cons a l ih =>
    have ha := hf a
    rw [List.flatMap_cons, List.length_append, List.length_cons, Nat.mul_succ]
    omega

theorem length_decimalNat {k : Nat} (hk : 0 < k) (hn : n < 10 ^ k) :
    (decimalNat n).length ≤ k := by
  rw [decimalNat, List.length_map]
  exact (Nat.length_toDigits_le_iff (by omega) hk).mpr hn

/-- What is looked for in lists of addresses, in addresses and in statements. -/
def separators : List UInt8 := [','.toUInt8, ':'.toUInt8, '\''.toUInt8]

theorem separators_spec : ∀ c ∈ 0 :: separators, isDigit c = false ∧ c ≠ '.'.toUInt8 := by
  decide +kernel

theorem avoids_decimalNat (n : Nat) : Avoids separators (decimalNat n) := by
  intro b hb hmem
  have hdig := isDigit_of_mem_decimalNat b hb
  rw [(separators_spec b hmem).1] at hdig
  cases hdig

/-! ## Ids -/

/-- Two hexadecimal digits. -/
def hexByte (b : UInt8) : List UInt8 := hexNat (b >>> 4).toNat ++ hexNat (b &&& 0x0f).toNat

/-- One digit, which is read back whatever the variable held. -/
theorem hexNat_digit (hn : n < 16) :
    ∃ c, hexNat n = [c] ∧ (∀ val, sscanfHex c val = some (UInt32.ofNat n)) ∧
      c ∉ [0, '\''.toUInt8] := by
  interval_cases n <;> exact ⟨_, rfl, fun _ => rfl, by decide⟩

theorem high_lt (b : UInt8) : (b >>> 4).toNat < 16 := by
  rw [UInt8.toNat_shiftRight]
  have hb := b.toNat_lt
  show b.toNat >>> 4 < 16
  rw [Nat.shiftRight_eq_div_pow]
  omega

theorem low_lt (b : UInt8) : (b &&& 0x0f).toNat < 16 := by
  rw [UInt8.toNat_and]
  exact Nat.lt_of_le_of_lt Nat.and_le_right (by decide)

theorem hexByte_digits (b : UInt8) :
    ∃ c d, hexByte b = [c, d] ∧ (∀ val, sscanfHex c val = some (UInt32.ofNat (b >>> 4).toNat)) ∧
      (∀ val, sscanfHex d val = some (UInt32.ofNat (b &&& 0x0f).toNat)) ∧
      Avoids ['\''.toUInt8] [c, d] := by
  obtain ⟨c, hc, hread, hcplain⟩ := hexNat_digit (high_lt b)
  obtain ⟨d, hd, hread', hdplain⟩ := hexNat_digit (low_lt b)
  refine ⟨c, d, ?_, hread, hread', ?_⟩
  · rw [hexByte, hc, hd]
    rfl
  · intro x hx
    simp only [List.mem_cons, List.not_mem_nil, or_false] at hx
    rcases hx with rfl | rfl
    · exact hcplain
    · exact hdplain

/-- The two halves of a byte make the byte. -/
theorem join_halves (b : UInt8) :
    (UInt32.ofNat (b >>> 4).toNat <<< 4 ||| (0x0f &&& UInt32.ofNat (b &&& 0x0f).toNat)).toUInt8 =
      b := by
  have hall : ∀ n : Fin 256,
      (UInt32.ofNat (UInt8.ofFin n >>> 4).toNat <<< 4 |||
        (0x0f &&& UInt32.ofNat (UInt8.ofFin n &&& 0x0f).toNat)).toUInt8 = UInt8.ofFin n := by
    decide +kernel
  exact hall b.toFin

theorem length_hexBytes (bs : List UInt8) : (bs.flatMap hexByte).length = 2 * bs.length := by
  induction bs with
  | nil => rfl
  | cons b bs ih =>
    obtain ⟨c, d, hcd, -, -, -⟩ := hexByte_digits b
    rw [List.flatMap_cons, List.length_append, ih, hcd, List.length_cons, List.length_cons,
      List.length_cons, List.length_nil]
    omega

theorem avoids_hexBytes (bs : List UInt8) : Avoids ['\''.toUInt8] (bs.flatMap hexByte) := by
  intro x hx
  obtain ⟨b, -, hxb⟩ := List.mem_flatMap.mp hx
  obtain ⟨c, d, hcd, -, -, hplain⟩ := hexByte_digits b
  rw [hcd] at hxb
  exact hplain x hxb

theorem strlizeBytes_ok {bs : List UInt8} (h : buf.length + 2 * bs.length < cap) :
    strlizeBytes cap bs buf = (buf ++ bs.flatMap hexByte, 0) := by
  induction bs generalizing buf with
  | nil => simp [strlizeBytes]
  | cons b bs ih =>
    obtain ⟨c, d, hcd, -, -, -⟩ := hexByte_digits b
    have hlen : (buf ++ hexByte b).length = buf.length + 2 := by rw [List.length_append, hcd]; rfl
    rw [List.length_cons] at h
    have hfit : (buf ++ hexByte b).length < cap := by omega
    have hprint : snprintf cap buf (hexNat (b >>> 4).toNat ++ hexNat (b &&& 0x0f).toNat) =
        (buf ++ hexByte b, true) := snprintf_ok hfit
    rw [strlizeBytes, hprint]
    dsimp only
    rw [ih (by omega), List.flatMap_cons, List.append_assoc]

theorem unstrlizeBytes_hex (bs : List UInt8) (high low : UInt32) :
    unstrlizeBytes bs.length (bs.flatMap hexByte ++ m) high low = .ok (bs, 0) := by
  induction bs generalizing high low with
  | nil => rfl
  | cons b bs ih =>
    obtain ⟨c, d, hcd, hc, hd, -⟩ := hexByte_digits b
    rw [List.flatMap_cons, hcd, List.length_cons, unstrlizeBytes]
    simp only [List.cons_append, List.nil_append, deref, ok_bind, hc, List.tail_cons, hd]
    rw [ih, ok_bind]
    dsimp only
    rw [join_halves]

/-- The text of an id. -/
def idWord (id : Token) : List UInt8 := id.data.flatMap hexByte

theorem length_idWord (id : Token) : (idWord id).length = 40 := by
  rw [idWord, length_hexBytes, id.size]
  rfl

/-- The loop of `vtoken_unstrlize` and `vnonce_unstrlize` over a block of `n` bytes. -/
def unstrlizeBlock (s : List UInt8) (old : Block n) : Res (Block n × Int) :=
  unstrlizeBytes n s 0 0 >>= fun (bs, ret) => .ok (old.overwrite bs, ret)

theorem vtokenUnstrlize_eq : vtokenUnstrlize = unstrlizeBlock (n := VTOKEN_LEN) := rfl

/-- What is printed is read back. -/
theorem unstrlizeBlock_hexBytes (b old : Block n) :
    unstrlizeBlock (b.data.flatMap hexByte ++ m) old = .ok (b, 0) := by
  have hread := unstrlizeBytes_hex (m := m) b.data 0 0
  rw [b.size] at hread
  rw [unstrlizeBlock, hread, ok_bind]
  dsimp only
  rw [Block.overwrite_full]

theorem strlizeBlock_ok {cap : Nat} (b : Block n) (hcap : 2 * n < cap) :
    strlizeBytes cap b.data [] = (b.data.flatMap hexByte, 0) := by
  rw [strlizeBytes_ok (by rw [b.size]; simpa using hcap), List.nil_append]

theorem vtokenStrlize_ok (id : Token) : vtokenStrlize id 64 = (idWord id, 0) :=
  strlizeBlock_ok id (by decide)

theorem vtokenUnstrlize_idWord (id old : Token) :
    vtokenUnstrlize (idWord id ++ m) old = .ok (id, 0) :=
  unstrlizeBlock_hexBytes id old

/-! ## Versions -/

/-- The text of the numbers of a version behind the first. -/
def verTail (bs : List UInt8) : List UInt8 := bs.flatMap fun b => '.'.toUInt8 :: decimalNat b.toNat

theorem length_decimalByte (b : UInt8) : (decimalNat b.toNat).length ≤ 3 :=
  length_decimalNat (by decide) (Nat.lt_trans b.toNat_lt (by decide))

theorem length_verTail (bs : List UInt8) : (verTail bs).length ≤ 4 * bs.length :=
  length_flatMap_le (fun b => Nat.succ_le_succ (length_decimalByte b)) bs

theorem strlizeVer_fits {bs buf : List UInt8} {cap : Nat} (h : (buf ++ verTail bs).length < cap) :
    strlizeVer cap bs buf = (buf ++ verTail bs, 0) := by
  induction bs generalizing buf with
  | nil => simp [strlizeVer, verTail]
  | cons b bs ih =>
    have hsplit : buf ++ verTail (b :: bs) =
        buf ++ cstr "." ++ decimalNat b.toNat ++ verTail bs := by
      rw [verTail, List.flatMap_cons, verTail]
      simp [cstr]
    rw [hsplit] at h ⊢
    rw [List.length_append] at h
    have hfit' : (buf ++ cstr "." ++ decimalNat b.toNat).length < cap := by omega
    rw [List.length_append] at hfit'
    have hfit : (buf ++ cstr ".").length < cap := by omega
    rw [strlizeVer, snprintf_ok hfit]
    dsimp only
    rw [snprintf_ok (by rw [List.length_append]; exact hfit')]
    dsimp only
    exact ih (by rw [List.length_append]; exact h)

/-- The text of a version. -/
def verWord (ver : Token) : List UInt8 :=
  decimalNat (ver.data.headD 0).toNat ++ verTail ((ver.data.take VTOKEN_INTLEN).tail)

theorem length_verWord (ver : Token) : (verWord ver).length ≤ 19 := by
  have hfirst := length_decimalByte (ver.data.headD 0)
  have hrest := length_verTail ((ver.data.take VTOKEN_INTLEN).tail)
  have hfour : ((ver.data.take VTOKEN_INTLEN).tail).length = 4 := by
    rw [List.length_tail, List.length_take, ver.size]
    rfl
  rw [verWord, List.length_append]
  omega

theorem headD_take_ver (ver : Token) :
    (ver.data.take VTOKEN_INTLEN).headD 0 = ver.data.headD 0 := by
  cases ver.data <;> rfl

/-- A buffer with room for the text. -/
theorem vnodeVerStrlize_fits {ver : Token} {cap : Nat} (hcap : (verWord ver).length < cap) :
    vnodeVerStrlize ver cap = (verWord ver, 0) := by
  have hfirst : ([] ++ decimalNat (ver.data.headD 0).toNat).length < cap := by
    rw [verWord, List.length_append] at hcap
    rw [List.nil_append]
    omega
  rw [vnodeVerStrlize, headD_take_ver, snprintf_ok hfirst]
  dsimp only
  rw [List.nil_append]
  exact strlizeVer_fits hcap

theorem vnodeVerStrlize_ok (ver : Token) : vnodeVerStrlize ver 64 = (verWord ver, 0) :=
  vnodeVerStrlize_fits (Nat.lt_of_le_of_lt (length_verWord ver) (by decide))

theorem avoids_verTail (bs : List UInt8) : Avoids separators (verTail bs) := by
  intro x hx
  obtain ⟨b, -, hxb⟩ := List.mem_flatMap.mp hx
  rcases List.mem_cons.mp hxb with rfl | hxb
  · exact fun hmem => (separators_spec _ hmem).2 rfl
  · exact avoids_decimalNat _ x hxb

theorem avoids_verWord (ver : Token) : Avoids separators (verWord ver) :=
  (avoids_decimalNat _).append (avoids_verTail _)

/-! ## Addresses -/

/-- The text of one address. -/
def addrWord (a : VsockaddrIn) : List UInt8 :=
  inetNtoa a.addr.sin_addr ++ ':'.toUInt8 ::
    (decimalNat (ntohs a.addr.sin_port).toNat ++ ':'.toUInt8 :: decimalNat a.type.toNat)

theorem inetNtoa_eq (a : UInt32) : ∃ x y z w : UInt8,
    inetNtoa a = decimalNat x.toNat ++ verTail [y, z, w] := by
  obtain ⟨x, y, z, w, h⟩ : ∃ x y z w, putU32 a = [x, y, z, w] := ⟨_, _, _, _, rfl⟩
  refine ⟨x, y, z, w, ?_⟩
  rw [inetNtoa, h]
  simp [List.intercalate, cstr, verTail]

theorem length_inetNtoa (a : UInt32) : (inetNtoa a).length ≤ 15 := by
  obtain ⟨x, y, z, w, h⟩ := inetNtoa_eq a
  have hx := length_decimalByte x
  have hrest := length_verTail [y, z, w]
  rw [h, List.length_append]
  simp only [List.length_cons, List.length_nil] at hrest
  omega

theorem avoids_inetNtoa (a : UInt32) : Avoids separators (inetNtoa a) := by
  obtain ⟨x, y, z, w, h⟩ := inetNtoa_eq a
  rw [h]
  exact (avoids_decimalNat _).append (avoids_verTail _)

theorem length_decimalPort (x : UInt16) : (decimalNat x.toNat).length ≤ 5 :=
  length_decimalNat (by decide) (Nat.lt_trans x.toNat_lt (by decide))

theorem length_decimalType (x : UInt32) : (decimalNat x.toNat).length ≤ 10 :=
  length_decimalNat (by decide) (Nat.lt_trans x.toNat_lt (by decide))

theorem length_addrWord (a : VsockaddrIn) : (addrWord a).length ≤ 32 := by
  have hip := length_inetNtoa a.addr.sin_addr
  have hport := length_decimalPort (ntohs a.addr.sin_port)
  have htype := length_decimalType a.type
  simp only [addrWord, List.length_append, List.length_cons]
  omega

/-- Of the separators an address has colons only. -/
theorem avoids_addrWord (a : VsockaddrIn) :
    Avoids [','.toUInt8, '\''.toUInt8] (addrWord a) := by
  have hsub : ∀ c ∈ [','.toUInt8, '\''.toUInt8], c ∈ separators := by simp [separators]
  have hcolon : Avoids [','.toUInt8, '\''.toUInt8] [':'.toUInt8] := by
    unfold Avoids
    decide +kernel
  have hport := (avoids_decimalNat (ntohs a.addr.sin_port).toNat).of_subset hsub
  have htype := (avoids_decimalNat a.type.toNat).of_subset hsub
  exact ((avoids_inetNtoa _).of_subset hsub).append
    (hcolon.append (hport.append (hcolon.append htype)))

theorem addrText_ok (a : VsockaddrIn) : addrText a = .ok (addrWord a) := by
  have hip := length_inetNtoa a.addr.sin_addr
  have hport := length_decimalPort (ntohs a.addr.sin_port)
  have htype := length_decimalType a.type
  have hword : inetNtoa a.addr.sin_addr ++ (cstr ":" ++ decimalNat (ntohs a.addr.sin_port).toNat) ++
      (cstr ":" ++ decimalNat a.type.toNat) = addrWord a := by
    rw [addrWord, List.append_assoc]
    rfl
  have hfit : (inetNtoa a.addr.sin_addr ++
      (cstr ":" ++ decimalNat (ntohs a.addr.sin_port).toNat)).length < 64 := by
    have hcolon : (cstr ":").length = 1 := rfl
    simp only [List.length_append, hcolon]
    omega
  have hstr : vsockaddrStrlize a.addr 64 =
      (inetNtoa a.addr.sin_addr ++ (cstr ":" ++ decimalNat (ntohs a.addr.sin_port).toNat), 0) := by
    rw [vsockaddrStrlize, if_neg (by omega), snprintf_ok hfit]
  have hlen := length_addrWord a
  rw [addrText, hstr]
  dsimp only
  rw [← hword] at hlen ⊢
  exact sprintf_ok (by omega)

/-- The address as it is loaded: an `AF_INET` address of the same host, port and type. -/
def reloaded (a : VsockaddrIn) : VsockaddrIn :=
  ⟨⟨AF_INET, a.addr.sin_port, a.addr.sin_addr, Block.zero 8⟩, a.type⟩

/-- An `int` has the bits of the number it was cut from. -/
theorem cut_long (n : Nat) : (Int32.ofInt (n : Int)).toUInt32 = UInt32.ofNat n := by
  apply UInt32.toBitVec_inj.mp
  exact BitVec.ofInt_natCast 32 n

theorem cut_type (x : UInt32) : (Int32.ofInt (x.toNat : Int)).toUInt32 = x := by
  rw [cut_long, UInt32.ofNat_toNat]

theorem cut_port (x : UInt16) : (Int32.ofInt (x.toNat : Int)).toUInt32.toUInt16 = x := by
  rw [cut_long]
  apply UInt16.toNat_inj.mp
  have hx := x.toNat_lt
  rw [UInt32.toNat_toUInt16, UInt32.toNat_ofNat', Nat.mod_eq_of_lt (Nat.lt_trans hx (by decide)),
    Nat.mod_eq_of_lt hx]

theorem ntohs_ne_zero {x : UInt16} (hx : x ≠ 0) : ntohs x ≠ 0 := by
  intro h
  apply hx
  rw [← htons_ntohs x, h]
  rfl

/-- The text of an address is read back, whatever the variable held and the memory holds behind. -/
theorem unstrlize_addrWord {inetAton : List UInt8 → Option UInt32} (a old : VsockaddrIn)
    (haton : inetAton (inetNtoa a.addr.sin_addr) = some a.addr.sin_addr)
    (hport : a.addr.sin_port ≠ 0) :
    auxVsockaddrUnstrlize inetAton (addrWord a ++ 0 :: m) old = .ok (reloaded a, 0) := by
  have hip := length_inetNtoa a.addr.sin_addr
  have hsplit : addrWord a ++ 0 :: m = inetNtoa a.addr.sin_addr ++ ':'.toUInt8 ::
      (decimalNat (ntohs a.addr.sin_port).toNat ++ ':'.toUInt8 ::
        (decimalNat a.type.toNat ++ 0 :: m)) := by
    simp [addrWord]
  have hcolon : Avoids [':'.toUInt8] (inetNtoa a.addr.sin_addr) :=
    (avoids_inetNtoa _).of_subset (by simp [separators])
  have hlong : ((ntohs a.addr.sin_port).toNat) < 2 ^ 32 :=
    Nat.lt_trans (ntohs a.addr.sin_port).toNat_lt (by decide)
  have hconv : vsockaddrConvert inetAton (inetNtoa a.addr.sin_addr) (ntohs a.addr.sin_port) =
      .ok ((reloaded a).addr, 0) := by
    rw [vsockaddrConvert, if_neg (ntohs_ne_zero hport), haton]
    dsimp only
    rw [htons_ntohs]
    rfl
  have hnext : strchr ':'.toUInt8 (':'.toUInt8 :: (decimalNat a.type.toNat ++ 0 :: m)) =
      .ok (some (':'.toUInt8 :: (decimalNat a.type.toNat ++ 0 :: m))) := if_pos rfl
  rw [auxVsockaddrUnstrlize, hsplit, strchr_hit hcolon, ok_bind]
  dsimp only
  rw [copyField_cut (by omega), ok_bind, List.tail_cons, readLong_decimalNat hlong (by decide),
    ok_bind]
  dsimp only
  rw [cut_port, hconv, ok_bind]
  dsimp only
  rw [if_neg (by decide), hnext, ok_bind]
  dsimp only
  rw [List.tail_cons, readLong_decimalNat a.type.toNat_lt (by decide), ok_bind]
  dsimp only
  rw [cut_type]
  rfl

end Vdht.Route
