import Vdht.Cfg.Item
import Vdht.Core.Tree
import Vdht.Lib.Decimal

/-!
# The configuration parser

`_aux_parse_dict` of `vcfg.c` and what it calls. The cursor is the rest of the text, without the
NUL behind it; a loop that goes on at the NUL reads behind the end of the text, which is a fault.
`none` is the return of `-1` or `NULL`, after which what was built is given up.
-/

namespace Vdht.Cfg

open Vdht.Core Lib

/-- A text of the program: the bytes in front of its NUL. -/
abbrev Text := List UInt8

/-! ## Characters -/

/-- The cases `'a' ... 'z'`, `'A' ... 'Z'` and `'0' ... '9'`. -/
def isWord (c : UInt8) : Bool :=
  ('a'.toUInt8 ≤ c && c ≤ 'z'.toUInt8) || ('A'.toUInt8 ≤ c && c ≤ 'Z'.toUInt8) || isDigit c

/-- The cases `' '` and `'\t'`. -/
def isBlank (c : UInt8) : Bool := c = ' '.toUInt8 || c = '\t'.toUInt8

/-- `strchr(seps, c)`, which also finds the NUL at the end of `seps`. -/
def strchr (seps : Text) (c : UInt8) : Bool := c = 0 || seps.contains c

/-- `while (..) (*cur)++`, with a condition on the character at the cursor. -/
def eatWhile (p : UInt8 → Bool) : Text → Res Text
  | [] => if p 0 then .error .bounds else .ok []
  | c :: cs => if p c then eatWhile p cs else .ok (c :: cs)

/-- `_aux_eat_newline`: blanks, tabs and newlines are skipped. The loop does not stop at the NUL, so
it has to find another character. -/
def auxEatNewline (cur : Text) : Res Text := eatWhile (strchr (cstr " \t\n")) cur

/-- `_aux_eat_blanks`: blanks and tabs are skipped, newlines are not; the loop does not stop at the
NUL either. -/
def auxEatBlanks (cur : Text) : Res Text := eatWhile (strchr (cstr " \t")) cur

/-- `_aux_eat_endings`: as `_aux_eat_newline`, but the loop stops at the NUL. -/
def auxEatEndings (cur : Text) : Res Text :=
  eatWhile (fun c => c ≠ 0 && strchr (cstr " \t\n") c) cur

/-- `_aux_eat_comments`: the rest of the line is skipped, without the newline that ends it. -/
def auxEatComments (cur : Text) : Res Text := eatWhile (fun c => !strchr (cstr "\n") c) cur

/-- The cursor and the result; it stops at a letter, a digit, one of `.({[/` and the NUL. -/
def auxEatDelimiter : Text → Text × Int
  | [] => ([], 0)
  | c :: cs =>
    if isWord c || strchr (cstr ".(\x7b[/") c then (c :: cs, 0)
    else if isBlank c then auxEatDelimiter cs
    else (c :: cs, -1)

/-! ## Keys and values -/

/-- The characters that end a key. -/
def keySeps : Text := cstr ";:\n\x7b\x7d[]()"

/-- The loop of `_aux_create_key`. At the limit the key has at most 31 characters, so its buffer
of 32 bytes is never left. -/
def createKeyLoop (key : Text) (blank : Bool) : Text → Option (Text × Text)
  | [] => some (key, [])
  | c :: cs =>
    if strchr keySeps c then some (key, c :: cs)
    else if isWord c then
      let next := if key ≠ [] ∧ blank = true then key ++ ['_'.toUInt8, c] else key ++ [c]
      let blank := if key ≠ [] ∧ blank = true then false else blank
      if next.length ≥ 30 then none else createKeyLoop next blank cs
    else if isBlank c then
      let blank := if key ≠ [] ∧ blank = false then true else blank
      if key.length ≥ 30 then none else createKeyLoop key blank cs
    else none

/-- `_aux_create_key`: the words up to the separator, joined by underscores, and the text from the
separator on; `none` when a character is in no key or the key reaches its limit. -/
def auxCreateKey (cur : Text) : Option (Text × Text) := createKeyLoop [] false cur

/-- The characters that end a value. -/
def valSeps : Text := cstr ";:\n\x7d])"

/-- The characters of a value. -/
def isVal (c : UInt8) : Bool :=
  isWord c || c = '/'.toUInt8 || c = '.'.toUInt8 || c = '_'.toUInt8

/-- The first loop of `_aux_create_val`, which counts characters but no blanks. -/
def countVal (sz : Nat) : Text → Option Nat
  | [] => some sz
  | c :: cs =>
    if strchr valSeps c then some sz
    else if isVal c then countVal (sz + 1) cs
    else if isBlank c then countVal sz cs
    else none

/-- `val[sz++] = c` in a block of `cap` bytes. -/
def putVal (cap : Nat) (val : Text) (c : UInt8) : Res Text :=
  if val.length < cap then .ok (val ++ [c]) else .error .bounds

/-- The second loop and the final NUL. -/
def writeVal (cap : Nat) (val : Text) (blank : Bool) : Text → Res (Option (Text × Text))
  | [] => if val.length < cap then .ok (some (val, [])) else .error .bounds
  | c :: cs =>
    if strchr valSeps c then
      if val.length < cap then .ok (some (val, c :: cs)) else .error .bounds
    else if isVal c then
      match if blank then putVal cap val '_'.toUInt8 else .ok val with
      | .error e => .error e
      | .ok val =>
        match putVal cap val c with
        | .error e => .error e
        | .ok val => writeVal cap val false cs
    else if isBlank c then
      writeVal cap val (if val ≠ [] ∧ blank = false then true else blank) cs
    else .ok none

/-- `_aux_create_val`: the size is counted first and then the value written into a block of that
size, of which the writing loop knows nothing. -/
def auxCreateVal (cur : Text) : Res (Option (Text × Text)) :=
  match countVal 0 cur with
  | none => .ok none
  | some sz => writeVal (sz + 1) [] false cur

/-! ## The loops -/

/-- `retE((ret < 0))` -/
def orRetE {α β : Type} (x : Res (Option α)) (f : α → Res (Option β)) : Res (Option β) :=
  match x with
  | .error e => .error e
  | .ok none => .ok none
  | .ok (some a) => f a

/-- Go on where a loop has left the cursor. -/
def onCur {β : Type} (cur : Res Text) (f : Text → Res (Option β)) : Res (Option β) :=
  match cur with
  | .error e => .error e
  | .ok cur => f cur

/-- The key of an entry, which is asserted to be there. -/
def onKey {β : Type} (key : Option Text) (f : Text → Res (Option β)) : Res (Option β) :=
  match key with
  | none => .error .assertion
  | some key => f key

/-- `_aux_parse_tuple`, one turn of its loop for each unit of fuel. `none` is the return of `-1`;
the items so far and the text behind the cursor come back. -/
def auxParseTuple (depth fuel : Nat) (t : List VcfgItem) (cur : Text) :
    Res (Option (List VcfgItem × Text)) :=
  match fuel with
  | 0 => .error .fuel
  | fuel + 1 =>
    match cur with
    | [] => .ok (some (t, []))
    | c :: cs =>
      if isWord c then
        orRetE (auxCreateVal (c :: cs)) fun (s, cur) =>
          auxParseTuple depth fuel (t ++ [.str (depth + 1) s]) cur
      else if c = ')'.toUInt8 then onCur (auxEatEndings cs) fun cur => .ok (some (t, cur))
      else if isBlank c then onCur (auxEatBlanks cs) fun cur => auxParseTuple depth fuel t cur
      else if c = '\n'.toUInt8 then
        onCur (auxEatNewline cs) fun cur => auxParseTuple depth fuel t cur
      else .ok none
termination_by structural fuel

mutual

/-- `_aux_parse_list`, which also looks for the key of its members; one turn of its loop for each
unit of fuel. -/
def auxParseList (depth fuel : Nat) (key : Option Text) (l : List VcfgItem) (cur : Text) :
    Res (Option ((Option Text × List VcfgItem) × Text)) :=
  match fuel with
  | 0 => .error .fuel
  | fuel + 1 =>
    match cur with
    | [] => .ok (some ((key, l), []))
    | c :: cs =>
      if c = ';'.toUInt8 then
        onCur (auxEatComments cs) fun cur => auxParseList depth fuel key l cur
      else if c = ':'.toUInt8 then auxParseList depth fuel key l (auxEatDelimiter cs).1
      else if c = '{'.toUInt8 then
        orRetE (auxParseDict (depth + 1) fuel none [] cs) fun (d, cur) =>
          auxParseList depth fuel key (l ++ [.dict (depth + 1) d]) cur
      else if c = '['.toUInt8 then
        orRetE (auxParseList (depth + 1) fuel none [] cs) fun (sub, cur) =>
          auxParseList depth fuel key (l ++ [.list (depth + 1) sub.1 sub.2]) cur
      else if c = '('.toUInt8 then
        orRetE (auxParseTuple (depth + 1) fuel [] cs) fun (t, cur) =>
          auxParseList depth fuel key (l ++ [.tuple (depth + 1) t]) cur
      else if c = ']'.toUInt8 then
        onCur (auxEatEndings cs) fun cur => .ok (some ((key, l), cur))
      else if isWord c then
        match auxCreateKey (c :: cs) with
        | none => .ok none
        | some (name, cur) =>
          match key with
          | none => auxParseList depth fuel (some name) l cur
          | some key => if name = key then auxParseList depth fuel (some key) l cur else .ok none
      else if isBlank c then
        onCur (auxEatBlanks cs) fun cur => auxParseList depth fuel key l cur
      else if c = '\n'.toUInt8 then
        onCur (auxEatNewline cs) fun cur => auxParseList depth fuel key l cur
      else .ok none
termination_by structural fuel

/-- `_aux_parse_dict`, which keeps the key that waits for its value between two turns of the loop.
-/
def auxParseDict (depth fuel : Nat) (key : Option Text) (d : List (Text × VcfgItem))
    (cur : Text) : Res (Option (List (Text × VcfgItem) × Text)) :=
  match fuel with
  | 0 => .error .fuel
  | fuel + 1 =>
    match cur with
    | [] => .ok (some (d, []))
    | c :: cs =>
      if c = ';'.toUInt8 then
        onCur (auxEatComments cs) fun cur => auxParseDict depth fuel key d cur
      else if c = ':'.toUInt8 then
        match key with
        | none => .ok none
        | some key => auxParseDict depth fuel (some key) d (auxEatDelimiter cs).1
      else if c = '{'.toUInt8 then
        onKey key fun key =>
          orRetE (auxParseDict (depth + 1) fuel none [] cs) fun (sub, cur) =>
            auxParseDict depth fuel none (d ++ [(key, .dict (depth + 1) sub)]) cur
      else if c = '['.toUInt8 then
        onKey key fun key =>
          orRetE (auxParseList (depth + 1) fuel none [] cs) fun (sub, cur) =>
            auxParseDict depth fuel none (d ++ [(key, .list (depth + 1) sub.1 sub.2)]) cur
      else if c = '('.toUInt8 then
        onKey key fun key =>
          orRetE (auxParseTuple (depth + 1) fuel [] cs) fun (t, cur) =>
            auxParseDict depth fuel none (d ++ [(key, .tuple (depth + 1) t)]) cur
      else if c = '}'.toUInt8 then
        onCur (auxEatEndings cs) fun cur => .ok (some (d, cur))
      else if isWord c || c = '.'.toUInt8 || c = '/'.toUInt8 then
        match key with
        | some key =>
          orRetE (auxCreateVal (c :: cs)) fun (s, cur) =>
            auxParseDict depth fuel none (d ++ [(key, .str (depth + 1) s)]) cur
        | none =>
          match auxCreateKey (c :: cs) with
          | none => .ok none
          | some (name, cur) => auxParseDict depth fuel (some name) d cur
      else if isBlank c then
        onCur (auxEatBlanks cs) fun cur => auxParseDict depth fuel key d cur
      else if c = '\n'.toUInt8 then
        onCur (auxEatNewline cs) fun cur => auxParseDict depth fuel key d cur
      else .ok none
termination_by structural fuel

end

/-- `_aux_parse_dict` for the outermost dictionary. Every turn of a loop takes at least one
character. -/
def parseConfig (text : Text) : Res (Option VcfgItem) :=
  orRetE (auxParseDict 0 (text.length + 1) none [] text) fun (d, _) => .ok (some (.dict 0 d))

end Vdht.Cfg
