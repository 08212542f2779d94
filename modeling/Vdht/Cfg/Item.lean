import Vdht.Def

/-!
# Configuration items

`struct vcfg_item` of `vcfg.h`. Dictionaries are lists of keys and items and arrays are lists, in
the order in which they were filled. A string is its characters, without the final NUL.
-/

namespace Vdht.Cfg

/-- `struct vcfg_item`: the tree of a configuration. Each item keeps the depth at which it was made,
a list also the key that stands in front of its members. -/
inductive VcfgItem where
  | dict (depth : Nat) (d : List (List UInt8 × VcfgItem))
  | list (depth : Nat) (key : Option (List UInt8)) (l : List VcfgItem)
  | tuple (depth : Nat) (t : List VcfgItem)
  | str (depth : Nat) (s : List UInt8)

end Vdht.Cfg
