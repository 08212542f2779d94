import Vdht.Core.Tree
import Vdht.Lib.Decimal

/-!
# The bencode encoder

`be_encode`. The buffer ends after `len` bytes; a store behind its end is a fault. `snprintf`
itself stays inside, and its result is compared with the room left. The bytes of a string
node are copied by `memcpy` with no such comparison.
-/

namespace Vdht.Core

open Lib

/-- `ret = snprintf(buf+off, len-off, ..)` followed by `retE(ret >= len-off)`, with `room` bytes
left: the text, or `none` for the return of `-1`. -/
def snprintf (room : Int) (text : List UInt8) : Option (List UInt8) :=
  if room ≤ text.length then none else some text

/-- Follow one part of the output by the next, which finds `len` less the length of the first
part; `none` returns `-1` at once. -/
def andPut (part : Res (Option (List UInt8))) (len : Int)
    (next : Int → Res (Option (List UInt8))) : Res (Option (List UInt8)) :=
  match part with
  | .error e => .error e
  | .ok none => .ok none
  | .ok (some p) =>
    match next (len - p.length) with
    | .error e => .error e
    | .ok none => .ok none
    | .ok (some q) => .ok (some (p ++ q))

/-- `memcpy(buf + off, node->val.s, _len)` -/
def copyOut (s : BeStr) (room : Int) : Res (Option (List UInt8)) :=
  if room < s.len then .error .bounds else .ok (some s.bytes)

mutual

/-- The bytes written to the front of the buffer, `none` for `-1`. -/
def beEncode (node : BeNode) (len : Int) : Res (Option (List UInt8)) :=
  if len ≤ 0 then .error .assertion
  else
    match node with
    | .str s => andPut (.ok (snprintf len (decimal s.len ++ cstr ":"))) len (copyOut s)
    | .int i => .ok (snprintf len (cstr "i" ++ decimal i.toInt ++ cstr "e"))
    | .list l => andPut (.ok (snprintf len (cstr "l"))) len (beEncodeList l)
    | .dict d => andPut (.ok (snprintf len (cstr "d"))) len (beEncodeDict d)
termination_by structural node

/-- The loop over a list and the closing text. -/
def beEncodeList (l : List BeNode) (len : Int) : Res (Option (List UInt8)) :=
  match l with
  | [] => .ok (snprintf len (cstr "e"))
  | node :: l => andPut (beEncode node len) len (beEncodeList l)
termination_by structural l

/-- The loop over a dictionary and the closing text. -/
def beEncodeDict (d : List (BeStr × BeNode)) (len : Int) : Res (Option (List UInt8)) :=
  match d with
  | [] => .ok (snprintf len (cstr "e"))
  | e :: d => andPut (beEncodePair e len) len (beEncodeDict d)
termination_by structural d

/-- One key, printed by `%s`, and its value. -/
def beEncodePair (e : BeStr × BeNode) (len : Int) : Res (Option (List UInt8)) :=
  match e with
  | (key, node) =>
    andPut (.ok (snprintf len (decimal key.len ++ cstr ":" ++ cText key.bytes))) len (beEncode node)
termination_by structural e

end

end Vdht.Core
