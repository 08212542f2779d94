import Vdht.Core.Decode
import Vdht.Lsctl.Wire
import Vdht.Route.NodeSpace

/-!
# The database of the node space

`_aux_space_store_nodei_cb` prints a peer into an SQL statement and `_aux_space_load_nodei_cb` reads
a row of the table back and adds the node. Texts are printed into arrays of a fixed size: `sprintf`
does not look at the size, so a text that does not fit is a fault, and `snprintf` cuts it off. A text
that is read lies in memory with a NUL behind it. What a statement stores is up to SQLite, and
`inet_aton` to the C library.
-/

namespace Vdht.Route

open Vdht.Core NodeId Lib

open Lsctl (AF_INET ntohs htons)

/-! ## Texts -/

/-- `sprintf` behind the text that is in the array of `cap` bytes. -/
def sprintf (cap : Nat) (buf text : List UInt8) : Res (List UInt8) :=
  if (buf ++ text).length < cap then .ok (buf ++ text) else .error .bounds

/-- `snprintf` behind the text that is in the array, and whether the text fits. -/
def snprintf (cap : Nat) (buf text : List UInt8) : List UInt8 × Bool :=
  if (buf ++ text).length < cap then (buf ++ text, true)
  else ((buf ++ text).take (cap - 1), false)

/-- The text of `%x`. -/
def hexNat (n : Nat) : List UInt8 := (Nat.toDigits 16 n).map Char.toUInt8

/-- `sscanf(data, "%x", &val)` for a text of one byte, with what `val` holds afterwards; `none` when
0 is returned. A blank or a NUL gives `EOF`, which is not 0. -/
def sscanfHex (c : UInt8) (val : UInt32) : Option UInt32 :=
  if isDigit c then some (c - 48).toUInt32
  else if 97 ≤ c ∧ c ≤ 102 then some (c - 87).toUInt32
  else if 65 ≤ c ∧ c ≤ 70 then some (c - 55).toUInt32
  else if c = 0 ∨ isSpace c then some val
  else none

/-- `strchr`: the memory from the first hit on, `none` for NULL. -/
def strchr (c : UInt8) : List UInt8 → Res (Option (List UInt8))
  | [] => .error .bounds
  | b :: s => if b = c then .ok (some (b :: s)) else if b = 0 then .ok none else strchr c s

/-- `strncpy(field, buf, end - buf)` into a cleared array of 64 bytes. -/
def copyField (buf stop : List UInt8) : Res (List UInt8) :=
  let n := buf.length - stop.length
  if n < 64 then .ok (buf.take n) else .error .bounds

/-- `strtol` with the check of `errno`; `none` when it is set. -/
def readLong (s : List UInt8) : Res (Option (Int × List UInt8)) :=
  match strtol s with
  | none => .error .bounds
  | some r => if r.erange then .ok none else .ok (some (r.val, r.rest))

/-! ## Ids and versions -/

/-- The loop of `vtoken_strlize`. -/
def strlizeBytes (cap : Nat) : List UInt8 → List UInt8 → List UInt8 × Int
  | [], buf => (buf, 0)
  | b :: bs, buf =>
    match snprintf cap buf (hexNat (b >>> 4).toNat ++ hexNat (b &&& 0x0f).toNat) with
    | (buf, true) => strlizeBytes cap bs buf
    | (buf, false) => (buf, -1)

/-- `vtoken_strlize`: the hexadecimal text of an id, as far as it fits into the destination. -/
def vtokenStrlize (token : Token) (cap : Nat) : List UInt8 × Int := strlizeBytes cap token.data []

/-- The loop of `vtoken_unstrlize`: the bytes that are written, with the values the variables hold. -/
def unstrlizeBytes : Nat → List UInt8 → UInt32 → UInt32 → Res (List UInt8 × Int)
  | 0, _, _, _ => .ok ([], 0)
  | n + 1, s, high, low =>
    deref s >>= fun b =>
      match sscanfHex b high with
      | none => .ok ([], -1)
      | some high =>
        deref s.tail >>= fun b =>
          match sscanfHex b low with
          | none => .ok ([], -1)
          | some low =>
            unstrlizeBytes n s.tail.tail high low >>= fun (bs, ret) =>
              .ok ((high <<< 4 ||| (0x0f &&& low)).toUInt8 :: bs, ret)

/-- `vtoken_unstrlize` over what the token held before. -/
def vtokenUnstrlize (s : List UInt8) (token : Token) : Res (Token × Int) :=
  unstrlizeBytes VTOKEN_LEN s 0 0 >>= fun (bs, ret) => .ok (token.overwrite bs, ret)

/-- `VTOKEN_INTLEN`: the length of an id in words of four bytes, which the texts of a version take
for the number of its parts. -/
def VTOKEN_INTLEN : Nat := 5

/-- The loop of `vnodeVer_strlize`. -/
def strlizeVer (cap : Nat) : List UInt8 → List UInt8 → List UInt8 × Int
  | [], buf => (buf, 0)
  | b :: bs, buf =>
    match snprintf cap buf (cstr ".") with
    | (buf, false) => (buf, -1)
    | (buf, true) =>
      match snprintf cap buf (decimalNat b.toNat) with
      | (buf, false) => (buf, -1)
      | (buf, true) => strlizeVer cap bs buf

/-- `vnodeVer_strlize`; the first number is printed unchecked, and `cap` has room for it. -/
def vnodeVerStrlize (ver : Token) (cap : Nat) : List UInt8 × Int :=
  let bytes := ver.data.take VTOKEN_INTLEN
  strlizeVer cap bytes.tail (snprintf cap [] (decimalNat (bytes.headD 0).toNat)).1

/-- The loop of `vnodeVer_unstrlize` over the bytes of the version that are not written yet. -/
def unstrlizeVer : List UInt8 → List UInt8 → Res (List UInt8 × Int)
  | [], s =>
    deref s >>= fun b =>
      if b = 0 then .ok ([], 0)
      else if b ≠ '.'.toUInt8 then .ok ([], -1)
      else
        readLong s.tail >>= fun
          | none => .ok ([], -1)
          | some _ => .error .bounds
  | o :: old, s =>
    deref s >>= fun b =>
      if b = 0 then .ok (o :: old, 0)
      else if b ≠ '.'.toUInt8 then .ok (o :: old, -1)
      else
        readLong s.tail >>= fun
          | none => .ok (o :: old, -1)
          | some (v, s) =>
            unstrlizeVer old s >>= fun (bs, ret) => .ok (UInt8.ofInt v :: bs, ret)

/-- `vnodeVer_unstrlize` over what the version held before. -/
def vnodeVerUnstrlize (s : List UInt8) (ver : Token) : Res (Token × Int) :=
  readLong s >>= fun
    | none => .ok (ver, -1)
    | some (v, s) =>
      unstrlizeVer ver.data.tail s >>= fun (bs, ret) =>
        .ok (ver.overwrite (UInt8.ofInt v :: bs), ret)

/-! ## Addresses -/

/-- `inet_ntoa`: the bytes of the address in memory. -/
def inetNtoa (a : UInt32) : List UInt8 :=
  (cstr ".").intercalate ((putU32 a).map fun b => decimalNat b.toNat)

/-- `vsockaddr_strlize` into a cleared array. -/
def vsockaddrStrlize (addr : SockaddrIn) (cap : Nat) : List UInt8 × Int :=
  let host := inetNtoa addr.sin_addr
  if host.length ≥ cap then ([], -1)
  else
    match snprintf cap host (cstr ":" ++ decimalNat (ntohs addr.sin_port).toNat) with
    | (buf, true) => (buf, 0)
    | (buf, false) => (buf, -1)

section Loading

variable (inetAton : List UInt8 → Option UInt32)

/-- `vsockaddr_convert`: the address of a host in dotted notation and a port. The result says
whether the text was one. -/
def vsockaddrConvert (host : List UInt8) (port : UInt16) : Res (SockaddrIn × Int) :=
  if port = 0 then .error .assertion
  else
    match inetAton host with
    | none => .ok (⟨AF_INET, htons port, 0, Block.zero 8⟩, -1)
    | some a => .ok (⟨AF_INET, htons port, a, Block.zero 8⟩, 0)

/-- `_aux_vsockaddr_unstrlize` over what the address held before. A `long` is cut to an `int`, and
that to the width of a port or taken as a type. -/
def auxVsockaddrUnstrlize (buf : List UInt8) (addr : VsockaddrIn) : Res (VsockaddrIn × Int) :=
  strchr ':'.toUInt8 buf >>= fun
    | none => .ok (addr, -1)
    | some cur =>
      copyField buf cur >>= fun ip =>
        readLong cur.tail >>= fun
          | none => .ok (addr, -1)
          | some (port, stop) =>
            vsockaddrConvert inetAton ip (Int32.ofInt port).toUInt32.toUInt16 >>= fun
              | (a, ret) =>
                if ret < 0 then .ok ({ addr with addr := a }, -1)
                else
                  strchr ':'.toUInt8 stop >>= fun
                    | none => .ok ({ addr with addr := a }, -1)
                    | some stop =>
                      readLong stop.tail >>= fun
                        | none => .ok ({ addr with addr := a }, -1)
                        | some (type, _) => .ok (⟨a, (Int32.ofInt type).toUInt32⟩, 0)

end Loading

/-! ## Storing a peer -/

/-- A row of the table `dht_peer`. -/
structure PeerRow where
  id : List UInt8
  ver : List UInt8
  addrs : List UInt8

/-- `VPEER_TB`: the name of the table in which the peers are kept. -/
def VPEER_TB : List UInt8 := cstr "dht_peer"

/-- The text of one address in an array of 64 bytes. -/
def addrText (a : VsockaddrIn) : Res (List UInt8) :=
  sprintf 64 (vsockaddrStrlize a.addr 64).1 (cstr ":" ++ decimalNat a.type.toNat)

/-- The loop over the addresses behind the first. -/
def moreAddrs : List VsockaddrIn → Nat → List UInt8 → Res (List UInt8)
  | _, 0, buf => .ok buf
  | [], _ + 1, _ => .error .bounds
  | a :: addrs, n + 1, buf =>
    addrText a >>= fun text => sprintf 512 buf (cstr "," ++ text) >>= moreAddrs addrs n

/-- The text of the addresses of a record, joined by commas, in a buffer of 512 bytes. -/
def addrsText (nodei : VnodeInfo) : Res (List UInt8) :=
  match nodei.addrs with
  | [] => .error .bounds
  | a :: addrs =>
    addrText a >>= fun text =>
      sprintf 512 [] text >>= moreAddrs addrs (nodei.naddrs - 1).toNat

/-- What the calls of `sprintf` append to the statement. -/
def stmtParts (row : PeerRow) : List (List UInt8) :=
  [cstr "insert or replace into '" ++ VPEER_TB ++ cstr "' ",
    cstr " ('id', 'ver', 'addrs')",
    cstr " values (",
    cstr " '" ++ row.id ++ cstr "',",
    cstr " '" ++ row.ver ++ cstr "',",
    cstr " '" ++ row.addrs ++ cstr "')"]

/-- The statement that inserts a row, as it is printed piece by piece into a buffer of `BUF_SZ`
bytes. -/
def stmtText (row : PeerRow) : Res (List UInt8) := (stmtParts row).foldlM (sprintf BUF_SZ) []

/-- The statement that `_aux_space_store_nodei_cb` hands to `sqlite3_exec`, `none` for a peer that
is skipped. -/
def auxSpaceStoreNodeiCb (space : NodeSpace) (peer : Vpeer) : Res (Option (List UInt8)) :=
  if vnodeInfoIsFake peer.nodei then .ok none
  else if peer.next_tmo ≥ space.max_next_tmo_unreachable then .ok none
  else
    addrsText peer.nodei >>= fun addrs =>
      stmtText ⟨(vtokenStrlize peer.nodei.id 64).1, (vnodeVerStrlize peer.nodei.ver 64).1, addrs⟩
        >>= fun stmt => .ok (some stmt)

/-! ## Loading a row -/

section Loading

variable (inetAton : List UInt8 → Option UInt32)

/-- The loop over the texts of the addresses; `vaddr` is what the variable holds. -/
def loadAddrs (fuel : Nat) (saddrs : List UInt8) (vaddr : VsockaddrIn) (nodei : VnodeInfo) :
    Res VnodeInfo :=
  match fuel with
  | 0 => .error .fuel
  | fuel + 1 =>
    strchr ','.toUInt8 saddrs >>= fun
      | some pos =>
        copyField saddrs pos >>= fun saddr =>
          auxVsockaddrUnstrlize inetAton (saddr ++ [0]) vaddr >>= fun (vaddr, _) =>
            vnodeInfoAddAddr nodei vaddr.addr vaddr.type >>= fun (nodei, _) =>
              loadAddrs fuel pos.tail vaddr nodei
      | none =>
        auxVsockaddrUnstrlize inetAton saddrs vaddr >>= fun (vaddr, _) =>
          vnodeInfoAddAddr nodei vaddr.addr vaddr.type >>= fun (nodei, _) => .ok nodei

/-- What the local variables of `_aux_space_load_nodei_cb` hold before they are written. -/
structure LoadVars where
  id : Token
  ver : Token
  vaddr : VsockaddrIn

/-- `_aux_space_load_nodei_cb`: a row of the table is read back into a record, from its four texts,
and added to the space as a node that was told by another. -/
def auxSpaceLoadNodeiCb (vars : LoadVars) (space : NodeSpace) (row : PeerRow) (now : Int) :
    Res NodeSpace :=
  vtokenUnstrlize (row.id ++ [0]) vars.id >>= fun (id, _) =>
    vnodeVerUnstrlize (row.ver ++ [0]) vars.ver >>= fun (ver, _) =>
      vnodeInfoRelaxInit vnodeInfoRelax id ver 0 >>= fun nodei =>
        loadAddrs inetAton (row.addrs.length + 1) (row.addrs ++ [0]) vars.vaddr nodei >>=
          fun nodei => addNode space nodei .byOther now

end Loading

end Vdht.Route
