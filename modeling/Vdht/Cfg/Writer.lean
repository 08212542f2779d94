import Vdht.Cfg.Words

/-!
# Configuration texts

The trees a configuration is made of, the item that stands for a tree and the text that is written
for it: one line for each entry of a dictionary and for each member of a list or a tuple. A tree is
built of keys and scalars that can be read back, so there is no tree without a text.
-/

namespace Vdht.Cfg

open Vdht.Core

/-! ## Keys and scalars -/

/-- Words of letters and digits. -/
structure Key where
  first : Text
  rest : List Text
  words : ∀ w ∈ first :: rest, w ≠ [] ∧ ∀ c ∈ w, isWord c = true
  short : (joinWords '_'.toUInt8 first rest).length ≤ 29

/-- The key as the parser keeps it, with underscores between the words. -/
def Key.name (key : Key) : Text := joinWords '_'.toUInt8 key.first key.rest

/-- The key as it stands in the text, with a blank between the words. -/
def Key.written (key : Key) : Text := joinWords ' '.toUInt8 key.first key.rest

/-- The key in front of its value. -/
def Key.tag (key : Key) : Text := key.written ++ [':'.toUInt8, ' '.toUInt8]

/-- A word over the characters of a value; where it stands decides how it may begin. -/
structure Scalar (isHead : UInt8 → Bool) where
  head : UInt8
  tail : Text
  head_ok : isHead head = true
  tail_ok : ∀ c ∈ tail, isVal c = true

/-- The bytes of the scalar, its first one included. -/
def Scalar.text {isHead : UInt8 → Bool} (s : Scalar isHead) : Text := s.head :: s.tail

/-! ## Trees -/

mutual

/-- What is written in brackets. The key of a list stands in front of each of its members, so a
list with a key has a member. -/
inductive Group where
  | tuple (t : List (Scalar isWord))
  | list (l : List Group)
  | keyed (key : Key) (first : Group) (rest : List Group)
  | dict (d : List Entry)

/-- A pair of a dictionary: a key with a scalar, or with a group of its own. -/
inductive Entry where
  | str (key : Key) (s : Scalar isDictHead)
  | group (key : Key) (g : Group)

end

mutual

/-- The item that the parser is to make of the group at this depth. -/
def Group.item (depth : Nat) : Group → VcfgItem
  | .tuple t => .tuple depth (t.map fun s => .str (depth + 1) s.text)
  | .list l => .list depth none (Group.items (depth + 1) l)
  | .keyed key first rest =>
    .list depth (some key.name) (first.item (depth + 1) :: Group.items (depth + 1) rest)
  | .dict d => .dict depth (Entry.pairs (depth + 1) d)

/-- The items of the members of a list, all at the same depth. -/
def Group.items (depth : Nat) : List Group → List VcfgItem
  | [] => []
  | g :: l => g.item depth :: Group.items depth l

/-- The pair that the parser is to make of the entry; the depth of a scalar is that of its
dictionary. -/
def Entry.pair (depth : Nat) : Entry → Text × VcfgItem
  | .str key s => (key.name, .str depth s.text)
  | .group key g => (key.name, g.item depth)

/-- The pairs of a dictionary in the order of the text, with keys that occur twice kept twice. -/
def Entry.pairs (depth : Nat) : List Entry → List (Text × VcfgItem)
  | [] => []
  | e :: d => e.pair depth :: Entry.pairs depth d

end

/-! ## Their text -/

/-- How far the lines at each level are indented. -/
structure Indent where
  text : Nat → Text
  blank : ∀ level, ∀ c ∈ text level, isBlank c = true

/-- A newline and the indentation of the level behind it. -/
def Indent.newline (ind : Indent) (level : Nat) : Text := '\n'.toUInt8 :: ind.text level

/-- The members of a tuple, each on a line of its own. -/
def Scalar.lines (ind : Indent) (level : Nat) (t : List (Scalar isWord)) : Text :=
  t.flatMap fun s => ind.newline level ++ s.text

mutual

/-- `level` is the level of the line the group begins on. -/
def Group.write (ind : Indent) (level : Nat) : Group → Text
  | .tuple t =>
    '('.toUInt8 :: (Scalar.lines ind (level + 1) t ++ (ind.newline level ++ [')'.toUInt8]))
  | .list l =>
    '['.toUInt8 :: (Group.lines ind (level + 1) [] l ++ (ind.newline level ++ [']'.toUInt8]))
  | .keyed key first rest =>
    '['.toUInt8 ::
      (ind.newline (level + 1) ++ (key.tag ++ (first.write ind (level + 1) ++
        (Group.lines ind (level + 1) key.tag rest ++ (ind.newline level ++ [']'.toUInt8])))))
  | .dict d =>
    '{'.toUInt8 :: (Entry.lines ind (level + 1) d ++ (ind.newline level ++ ['}'.toUInt8]))

/-- The members of a list, each on a line of its own and behind its tag. -/
def Group.lines (ind : Indent) (level : Nat) (tag : Text) : List Group → Text
  | [] => []
  | g :: l =>
    ind.newline level ++ (tag ++ (g.write ind level ++ Group.lines ind level tag l))

/-- The text of an entry, with the colon behind its key. -/
def Entry.write (ind : Indent) (level : Nat) : Entry → Text
  | .str key s => key.tag ++ s.text
  | .group key g => key.tag ++ g.write ind level

/-- The entries of a dictionary, each on a line of its own. -/
def Entry.lines (ind : Indent) (level : Nat) : List Entry → Text
  | [] => []
  | e :: d => ind.newline level ++ (e.write ind level ++ Entry.lines ind level d)

end

/-- The text of a configuration. Its first line has no end of line in front of it. -/
def writeConfig (ind : Indent) (d : List Entry) : Text := (Entry.lines ind 0 d).tail

example :
    writeConfig ⟨fun level => List.replicate (2 * level) ' '.toUInt8, fun _ _ hc => by
        rw [List.eq_of_mem_replicate hc]; decide⟩
      [.group ⟨cstr "lsctl", [], by decide +kernel, by decide +kernel⟩ (.dict
        [.str ⟨cstr "unix", [cstr "path"], by decide +kernel, by decide +kernel⟩
          ⟨'/'.toUInt8, cstr "var", by decide +kernel, by decide +kernel⟩])] =
      cstr "lsctl: \x7b\n  unix path: /var\n\x7d" := by
  decide +kernel

end Vdht.Cfg
