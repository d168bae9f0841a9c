import XKernel.Lib.BTreeMap
/-!
# Memory areas of an address space (`memspace`, `vma.rs`)

Addresses are `Nat`; `AddrRange` panics on a range that ends above `usize::MAX`, so
a range here ends below `2 ^ 64`. Page and file offsets are `u64` with wrapping
addition. A runtime reference is its kind and, for a private file mapping, the
offset function of its anonymous object; the page-table work of a runtime is not
part of the area set.
-/

namespace XKernel.Vma

open XKernel.Lib

/-- `PAGE_SIZE_4K`. -/
def pageSize4K : Nat := 4096

def isAligned4k (n : Nat) : Bool := n % pageSize4K == 0

inductive KError where
  | alreadyExists
  | noMemory
  | badAddress
  | invalidInput
  deriving DecidableEq, Repr

/-! ## Attributes of an area -/

structure MappingFlags where
  bits : Nat
  deriving DecidableEq, Repr

inductive PageSize where
  | size4K
  | size2M
  | size1G
  deriving DecidableEq, Repr

structure VmObjectId where
  raw : UInt64
  deriving DecidableEq, Repr

structure AnonLineageId where
  raw : UInt64
  deriving DecidableEq, Repr

inductive VmBackingKind where
  | linear
  | anonymousShared (object : VmObjectId)
  | anonymousPrivate (object : VmObjectId)
  | fileShared (object : VmObjectId)
  | filePrivate (fileObject anonObject : VmObjectId) (anonLineage : AnonLineageId)
  deriving DecidableEq, Repr

structure VmBackingInfo where
  kind : VmBackingKind
  pageSize : PageSize
  deriving DecidableEq, Repr

inductive VmInheritance where
  | copy
  | dontCopy
  | wipeOnFork
  deriving DecidableEq, Repr

structure FileMappingInfo where
  offset : UInt64
  inode : UInt64
  path : Option String
  deriving DecidableEq, Repr

inductive VmRuntimeKind where
  | linear
  | anonShared
  | anonPrivate
  | fileShared
  | filePrivate
  deriving DecidableEq, Repr

structure VmRuntimeRef where
  kind : VmRuntimeKind
  privateAnonOffsetFor : Nat → Option UInt64

/-! ## One area -/

/-- `start` and `stop` are the bounds of `range`. -/
structure VmArea where
  start : Nat
  stop : Nat
  perm : MappingFlags
  mayPerm : MappingFlags
  inheritance : VmInheritance
  backing : VmBackingInfo
  pageOffset : UInt64
  file : Option FileMappingInfo
  runtime : Option VmRuntimeRef

def checkedAdd (a b : UInt64) : Option UInt64 := if a.toNat + b.toNat < 2 ^ 64 then some (a + b) else none

def checkedMul (a b : UInt64) : Option UInt64 := if a.toNat * b.toNat < 2 ^ 64 then some (a * b) else none

namespace VmArea

variable (a : VmArea)

def size : Nat := a.stop - a.start

def contains (addr : Nat) : Bool := a.start ≤ addr && addr < a.stop

/-- Pages between two addresses, as `((to - from) / PAGE_SIZE_4K) as u64`. -/
def deltaPages (lo hi : Nat) : UInt64 := .ofNat ((hi - lo) / pageSize4K)

def shiftedFileMapping (delta : UInt64) : Option FileMappingInfo :=
  a.file.map fun f => { f with offset := f.offset + delta * .ofNat pageSize4K }

def new (start size : Nat) (flags maxFlags : MappingFlags) (backing : VmBackingInfo) (pageOffset : UInt64)
    (file : Option FileMappingInfo) : VmArea where
  start
  stop := start + size
  perm := flags
  mayPerm := maxFlags
  inheritance := .copy
  backing
  pageOffset
  file
  runtime := none

def pageIndexFor (addr : Nat) : UInt64 := a.pageOffset + deltaPages a.start addr

def fileOffsetFor (addr : Nat) : Option UInt64 :=
  a.file.map fun f => f.offset + .ofNat (addr - a.start)

def setEnd (newEnd : Nat) : VmArea := { a with stop := newEnd }

def setFlags (flags : MappingFlags) : VmArea := { a with perm := flags }

/-- The area that is left in place, and the new area from `pos` on. -/
def split (pos : Nat) : VmArea × Option VmArea :=
  if a.start < pos ∧ pos < a.stop then
    let delta := deltaPages a.start pos
    ({ a with stop := pos },
      some { a with start := pos, pageOffset := a.pageOffset + delta, file := a.shiftedFileMapping delta })
  else (a, none)

def privateAnonOffsetFor (addr : Nat) : Option UInt64 :=
  match a.backing.kind with
  | .filePrivate .. =>
    match a.runtime with
    | some r => if r.kind = .filePrivate then r.privateAnonOffsetFor addr else none
    | none => none
  | .anonymousPrivate _ =>
    if addr < a.start then none
    else (checkedMul a.pageOffset (.ofNat pageSize4K)).bind (checkedAdd · (.ofNat (addr - a.start)))
  | _ => none

def nextPageOffset : Option UInt64 :=
  if !isAligned4k a.size then none else checkedAdd a.pageOffset (.ofNat (a.size / pageSize4K))

def fileMappingContiguousWith (next : VmArea) : Bool :=
  match a.file, next.file with
  | none, none => true
  | some left, some right =>
    left.inode == right.inode && left.path == right.path &&
      checkedAdd left.offset (.ofNat a.size) == some right.offset
  | _, _ => false

def hasSameKnownRuntimeKind (next : VmArea) : Bool :=
  match a.runtime, next.runtime with
  | some left, some right => left.kind == right.kind
  | _, _ => false

def isFilePrivate : Bool :=
  match a.backing.kind with
  | .filePrivate .. => true
  | _ => false

def canMergeWith (next : VmArea) : Bool :=
  a.stop == next.start && a.perm == next.perm && a.mayPerm == next.mayPerm && a.inheritance == next.inheritance &&
    a.backing == next.backing && a.nextPageOffset == some next.pageOffset &&
    (!a.isFilePrivate ||
      match (a.privateAnonOffsetFor a.start).bind (checkedAdd · (.ofNat a.size)) with
      | some offset => next.privateAnonOffsetFor next.start == some offset
      | none => false) &&
    a.fileMappingContiguousWith next && a.hasSameKnownRuntimeKind next

end VmArea

/-! ## The set -/

/-- The areas by their start addresses. -/
structure VmAreaSet where
  areas : BTreeMap Nat VmArea

namespace VmAreaSet

variable (s : VmAreaSet)

def find (addr : Nat) : Option VmArea := do
  let (_, candidate) ← s.areas.lastUpTo addr
  if candidate.contains addr then some candidate else none

def overlaps (start stop : Nat) : Bool :=
  (match s.areas.lastBelow stop with
    | some (_, area) => decide (start < area.stop)
    | none => false) ||
  match s.areas.firstFrom start with
  | some (_, area) => decide (area.start < stop)
  | none => false

def tryInsert (area : VmArea) : Except KError Unit × VmAreaSet :=
  if s.overlaps area.start area.stop then (.error .alreadyExists, s)
  else (.ok (), ⟨s.areas.insert area.start area⟩)

/-- The left neighbour takes the area over if `canMerge` accepts the two. -/
def mergeLeft (start : Nat) (current : VmArea) (canMerge : VmArea → VmArea → Bool) : Nat × VmAreaSet :=
  match s.areas.lastBelow start with
  | some (leftStart, left) =>
    if left.stop == current.start && canMerge left current then
      (leftStart, ⟨(s.areas.remove start).modify leftStart (·.setEnd current.stop)⟩)
    else (start, s)
  | none => (start, s)

/-- The area at `start` takes over its right neighbour. -/
def mergeRight (start : Nat) (current : VmArea) (canMerge : VmArea → VmArea → Bool) : VmAreaSet :=
  match s.areas.firstFrom current.stop with
  | some (rightStart, right) =>
    if right.start == current.stop && canMerge current right then
      ⟨(s.areas.remove rightStart).modify start (·.setEnd right.stop)⟩
    else s
  | none => s

def mergeAdjacentWhere (start : Nat) (canMerge : VmArea → VmArea → Bool) : Option Nat × VmAreaSet :=
  match s.areas.get? start with
  | none => (none, s)
  | some current =>
    let (currentStart, s') := s.mergeLeft start current canMerge
    match s'.areas.get? currentStart with
    | none => (none, s')
    | some current' => (some currentStart, s'.mergeRight currentStart current' canMerge)

def mergeAdjacent (start : Nat) : Option Nat × VmAreaSet := s.mergeAdjacentWhere start VmArea.canMergeWith

/-- The part of `unmap` for the last area that starts below the range. -/
def unmapBefore (start stop : Nat) : VmAreaSet :=
  match s.areas.lastBelow start with
  | none => s
  | some (beforeStart, before) =>
    if start < before.stop then
      let (before', splitRight) :=
        if before.stop ≤ stop then (before.setEnd start, none)
        else ((before.split stop).1.setEnd start, (before.split stop).2)
      let areas₁ := s.areas.modify beforeStart fun _ => before'
      let areas₂ := if before'.size = 0 then areas₁.remove beforeStart else areas₁
      match splitRight with
      | some right => ⟨areas₂.insert right.start right⟩
      | none => ⟨areas₂⟩
    else s

/-- The part of `unmap` for the first area that starts in the range or behind it. -/
def unmapAfter (start stop : Nat) : VmAreaSet :=
  match s.areas.firstFrom start with
  | none => s
  | some (afterStart, after) =>
    if afterStart < stop then
      let delta := VmArea.deltaPages afterStart stop
      let newArea := { after with
        start := stop
        pageOffset := after.pageOffset + delta
        file := after.shiftedFileMapping delta }
      if stop < after.stop then ⟨(s.areas.remove afterStart).insert stop newArea⟩ else ⟨s.areas.remove afterStart⟩
    else s

def unmap (start size : Nat) : VmAreaSet :=
  if size = 0 then s
  else
    let stop := start + size
    let kept : VmAreaSet := ⟨s.areas.retain fun _ area => !(start ≤ area.start && area.stop ≤ stop)⟩
    (kept.unmapBefore start stop).unmapAfter start stop

/-- What the loop of `protect` makes of one area: the area left in place, and the areas to insert. `none` is a
failed `unwrap`. The `break` at an area behind the range leaves that area and all later ones as they are. -/
def protectArea (start size : Nat) (flags : MappingFlags) (areaStart : Nat) (area : VmArea) :
    Option (VmArea × List (Nat × VmArea)) :=
  let stop := start + size
  if stop ≤ areaStart then some (area, [])
  else if area.stop ≤ start then some (area, [])
  else if start ≤ areaStart ∧ area.stop ≤ stop then some (area.setFlags flags, [])
  else if areaStart < start ∧ stop < area.stop then do
    let right ← (area.split stop).2
    let left := (area.split stop).1.setEnd start
    let delta := VmArea.deltaPages areaStart start
    let middle := { VmArea.new start size flags left.mayPerm left.backing (left.pageOffset + delta)
        (left.shiftedFileMapping delta) with
      inheritance := left.inheritance
      runtime := left.runtime }
    some (left, [(right.start, right), (middle.start, middle)])
  else if stop < area.stop then do
    let right ← (area.split stop).2
    some ((area.split stop).1.setFlags flags, [(right.start, right)])
  else do
    let right ← (area.split start).2
    some ((area.split start).1, [(right.start, right.setFlags flags)])

def protect (start size : Nat) (flags : MappingFlags) : Option VmAreaSet :=
  if size = 0 then some s
  else do
    let changes ← s.areas.entries.mapM fun e => protectArea start size flags e.1 e.2
    let inPlace := s.areas.mapValues fun k area => ((protectArea start size flags k area).map (·.1)).getD area
    some ⟨inPlace.insertAll (changes.flatMap (·.2))⟩

/-- `none` where `expect` or the assertion fails. -/
def extend (start additional : Nat) : Option VmAreaSet :=
  if additional = 0 then some s
  else do
    let area ← s.areas.get? start
    -- `area.end().wrapping_add(additional)`
    let newEnd := (area.stop + additional) % 2 ^ 64
    if !isAligned4k additional then none
    else some ⟨s.areas.modify start (·.setEnd newEnd)⟩

end VmAreaSet
end XKernel.Vma
