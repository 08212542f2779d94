import Vdht.Def

/-!
# Object caches

`vmem.c`. A zone is its chunks, in the order in which `alloc` looks at them. Zones are added at
the end and never removed, so an object is where its chunk is: the number of its zone and its place
there. What the objects hold is left out.
-/

namespace Vdht.Mem

/-- The word that stands before each object of a zone. -/
def CHUNK_MAGIC : UInt32 := 0x87654312

/-- The number of objects of a zone, where none was asked for. -/
def VMEM_FIRST_CAPC : Int := 4

/-- `vmem_chunk`: the word before an object, and whether the object is taken. -/
structure VmemChunk where
  magic : UInt32
  taken : Int

/-- `vmem_aux`: zones of `first` objects each, with the number of objects that are taken and the
number of all. -/
structure VmemAux where
  objSz : Int
  used : Int
  capc : Int
  first : Nat
  zones : List (List VmemChunk)

/-- An object by its zone and its place there, which stand for its address. -/
structure Obj where
  zone : Nat
  chunk : Nat
deriving DecidableEq

/-- `none` is the return of `-1`. -/
def vmemAuxInit (objSz firstCapc : Int) : Option VmemAux :=
  if objSz < 0 then none
  else if firstCapc < 0 then none
  else
    some
      { objSz := objSz
        used := 0
        capc := 0
        first := if firstCapc > 0 then firstCapc.toNat else VMEM_FIRST_CAPC.toNat
        zones := [] }

/-- `none` when one of the three blocks is not there; `mallocs` says whether they are.

The counters and the number of bytes, `first` times the size of a chunk with its object, are `int`s
in the program. They are not bounded here, so this is `_aux_extend` for a cache whose zones are
shorter than `2 ^ 31` bytes and that has returned fewer than `2 ^ 31 - first` objects. -/
def auxExtend (mallocs : Bool) (aux : VmemAux) : Res (Option VmemAux) :=
  if aux.used < aux.capc then .error .assertion
  else if !mallocs then .ok none
  else
    .ok (some { aux with
      zones := aux.zones ++ [List.replicate aux.first ⟨CHUNK_MAGIC, 0⟩]
      capc := aux.capc + aux.first })

/-- The inner loop of `vmem_aux_alloc`: the first chunk that is not taken, taken now. -/
def searchZone : List VmemChunk → Option (Nat × List VmemChunk)
  | [] => none
  | c :: zone =>
    if c.taken = 0 then some (0, { c with taken := 1 } :: zone)
    else (searchZone zone).map fun (i, zone) => (i + 1, c :: zone)

/-- The loop of `vmem_aux_alloc`: the first object that is free, zone after zone, counts as taken
from now on. -/
def searchZones : List (List VmemChunk) → Option (Obj × List (List VmemChunk))
  | [] => none
  | zone :: zones =>
    match searchZone zone with
    | some (i, zone) => some (⟨0, i⟩, zone :: zones)
    | none => (searchZones zones).map fun (obj, zones) => (⟨obj.zone + 1, obj.chunk⟩, zone :: zones)

/-- The head of `vmem_aux_alloc`: one more zone is allocated where all the objects are taken.
`malloc` may refuse it. -/
def extendIfUsedUp (mallocs : Bool) (aux : VmemAux) : Res (Option VmemAux) :=
  if aux.used ≥ aux.capc then auxExtend mallocs aux else .ok (some aux)

/-- `none` is `NULL`. -/
def vmemAuxAlloc (mallocs : Bool) (aux : VmemAux) : Res (Option (VmemAux × Obj)) :=
  match extendIfUsedUp mallocs aux with
  | .error e => .error e
  | .ok none => .ok none
  | .ok (some aux) =>
    match searchZones aux.zones with
    | none => .error .assertion
    | some (obj, zones) => .ok (some ({ aux with zones := zones, used := aux.used + 1 }, obj))

/-- What stands before the object, where the zones have it. -/
def chunkAt (zones : List (List VmemChunk)) (obj : Obj) : Option VmemChunk :=
  zones[obj.zone]?.bind fun zone => zone[obj.chunk]?

/-- The zones with what stands before an object replaced. -/
def setChunk (zones : List (List VmemChunk)) (obj : Obj) (c : VmemChunk) :
    List (List VmemChunk) :=
  zones.modify obj.zone fun zone => zone.set obj.chunk c

/-- `obj` is not `NULL`. The second assertion assigns: `vassert((chunk->taken = 1))` stores 1 and
finds it true. -/
def vmemAuxFree (aux : VmemAux) (obj : Obj) : Res VmemAux :=
  match chunkAt aux.zones obj with
  | none => .error .bounds
  | some chunk =>
    if chunk.magic ≠ CHUNK_MAGIC then .error .assertion
    else
      let chunk : VmemChunk := { chunk with taken := 1 }
      if chunk.taken = 0 then .error .assertion
      else
        .ok { aux with
          zones := setChunk aux.zones obj { chunk with taken := 0 }
          used := aux.used - 1 }

end Vdht.Mem
