import Mathlib
/-!
# The buddy page allocator (`alloc-engine`, `buddy_alloc.rs`)

`ps` is the const parameter `PAGE_SIZE`; addresses are absolute. A free list is
the list of the addresses linked in it, front first, and `header` is the `order`
word of the `FreeNode` a free chunk carries at its address. `usize` arithmetic is
on `Nat`: `add_region` checks that a region ends below `2 ^ 64`, so no address the
allocator computes for a region overflows.
-/

namespace XKernel.Buddy

def maxOrder : Nat := 20

def maxRegions : Nat := 64

def inlineBitmapWords : Nat := 4

def wordBits : Nat := 64

/-- `size_of::<FreeNode>()`: two link words and the order. -/
def freeNodeSize : Nat := 24

def orderPages (order : Nat) : Nat := 2 ^ order

def orderSize (ps order : Nat) : Nat := orderPages order * ps

/-- `order..=MAX_ORDER`. -/
def orders (order : Nat) : List Nat := List.range' order (maxOrder + 1 - order)

/-- `count.next_power_of_two().trailing_zeros()`. -/
def orderFor (count : Nat) : Nat := if count ≤ 1 then 0 else (count - 1).log2 + 1

/-- `is_power_of_two`. -/
def isPowerOfTwo (n : Nat) : Bool := n != 0 && 2 ^ n.log2 == n

inductive AllocError where
  | invalidInput
  | alreadyInitialized
  | memoryOverlap
  | noMemory
  | notAllocated
  | notInitialized
  | notFound
  deriving DecidableEq, Repr

/-! ## The free-head bitmap -/

/-- The bitmap words, kept inline or in the reserved prefix of the region. -/
structure FreeHeadBitmap where
  word : Nat → BitVec 64

namespace FreeHeadBitmap

def set (b : FreeHeadBitmap) (page : Nat) (isFreeHead : Bool) : FreeHeadBitmap :=
  let index := page / wordBits
  let mask : BitVec 64 := 1#64 <<< (page % wordBits)
  let word := if isFreeHead then b.word index ||| mask else b.word index &&& ~~~mask
  ⟨Function.update b.word index word⟩

def contains (b : FreeHeadBitmap) (page : Nat) : Bool :=
  b.word (page / wordBits) &&& (1#64 <<< (page % wordBits)) != 0

end FreeHeadBitmap

/-! ## Regions -/

structure Region where
  regionStart : Nat
  heapStart : Nat
  totalPages : Nat
  freePages : Nat
  freeLists : Nat → List Nat
  freeHeads : FreeHeadBitmap
  header : Nat → Nat

namespace Region

variable (ps : Nat) (r : Region)

def heapEnd : Nat := r.heapStart + r.totalPages * ps

variable (addr order : Nat)

def contains : Bool := r.heapStart ≤ addr && addr < r.heapEnd ps

def isFree : Bool :=
  r.contains ps addr && addr % ps == 0 && r.freeHeads.contains ((addr - r.heapStart) / ps) && r.header addr == order

def pushFree : Region :=
  { r with
    header := Function.update r.header addr order
    freeLists := Function.update r.freeLists order (addr :: r.freeLists order)
    freeHeads := r.freeHeads.set ((addr - r.heapStart) / ps) true
    freePages := r.freePages + orderPages order }

def removeFree : Region :=
  { r with
    freeLists := Function.update r.freeLists order ((r.freeLists order).erase addr)
    freeHeads := r.freeHeads.set ((addr - r.heapStart) / ps) false
    freePages := r.freePages - orderPages order }

/-- The front of a free list is unlinked exactly as `remove_free` unlinks it. -/
def popFree : Option (Nat × Region) :=
  match r.freeLists order with
  | [] => none
  | addr :: rest =>
    some (addr, { r with
      freeLists := Function.update r.freeLists order rest
      freeHeads := r.freeHeads.set ((addr - r.heapStart) / ps) false
      freePages := r.freePages - orderPages order })

/-- The loop of `split_towards`, by recursion on `src_order`. -/
def splitTowards (ps target order : Nat) : Nat → Nat → Region → Region
  | 0, _, r => r
  | src + 1, addr, r =>
    if order < src + 1 then
      let right := addr + orderSize ps src
      if right ≤ target then splitTowards ps target order src right (r.pushFree ps addr src)
      else splitTowards ps target order src addr (r.pushFree ps right src)
    else r

def allocOrder : Option (Nat × Region) := do
  let src ← (orders order).find? fun i => !(r.freeLists i).isEmpty
  let (addr, r') ← r.popFree ps src
  some (addr, splitTowards ps addr order src addr r')

def allocAt (target order : Nat) : Option (Nat × Region) :=
  if !r.contains ps target || target % orderSize ps order != 0 then none
  else (orders order).findSome? fun src =>
    -- `target & !(size - 1)`: the chunk of order `src` around the target
    let addr := target - target % orderSize ps src
    if r.isFree ps addr src then some (target, splitTowards ps target order src addr (r.removeFree ps addr src))
    else none

def allocAligned (alignPages : Nat) : Option (Nat × Region) :=
  if alignPages ≤ orderPages order then r.allocOrder ps order
  else (orders order).findSome? fun src => do
    let addr ← (r.freeLists src).find? fun addr => addr % (alignPages * ps) == 0
    some (addr, splitTowards ps addr order src addr (r.removeFree ps addr src))

/-- The merge loop of `deallocate_pages`; `n` counts the orders left below `MAX_ORDER`. -/
def coalesce (ps : Nat) : Nat → Region → Nat → Nat → Region × Nat × Nat
  | 0, r, addr, order => (r, addr, order)
  | n + 1, r, addr, order =>
    let buddy := addr ^^^ orderSize ps order
    if r.isFree ps buddy order then coalesce ps n (r.removeFree ps buddy order) (min addr buddy) (order + 1)
    else (r, addr, order)

/-- `deallocate_pages` on the region that contains the address. -/
def deallocate : Region :=
  let (r', addr', order') := coalesce ps (maxOrder - order) r addr order
  r'.pushFree ps addr' order'

/-- The order the chunking loop of `add_region` settles on, searched from `MAX_ORDER` down. -/
def chunkOrder (ps heapStart totalPages offset : Nat) : Nat → Nat
  | 0 => 0
  | order + 1 =>
    if orderPages (order + 1) ≤ totalPages - offset ∧
        (heapStart + offset * ps) % orderSize ps (order + 1) = 0 then order + 1
    else chunkOrder ps heapStart totalPages offset order

/-- The chunking loop of `add_region`; every round advances `offset`, so `total_pages` rounds are enough. -/
def chunks (ps : Nat) : Nat → Nat → Region → Region
  | 0, _, r => r
  | n + 1, offset, r =>
    if offset < r.totalPages then
      let order := chunkOrder ps r.heapStart r.totalPages offset maxOrder
      chunks ps n (offset + orderPages order) (r.pushFree ps (r.heapStart + offset * ps) order)
    else r

end Region

/-! ## The allocator -/

/-- `regions[..region_count]`, all of them `Some`. -/
structure BuddyAllocator where
  regions : List Region

/-- The first region on which `f` succeeds, with that region updated. -/
def firstRegion (f : Region → Option (Nat × Region)) : List Region → Option (Nat × List Region)
  | [] => none
  | r :: rs =>
    match f r with
    | some (addr, r') => some (addr, r' :: rs)
    | none => (firstRegion f rs).map fun (addr, rs') => (addr, r :: rs')

/-- `find_region_mut` followed by a change of the region found. -/
def modifyRegion (p : Region → Bool) (f : Region → Region) : List Region → List Region
  | [] => []
  | r :: rs => if p r then f r :: rs else r :: modifyRegion p f rs

/-- `div_ceil`. -/
def divCeil (a b : Nat) : Nat := (a + b - 1) / b

namespace BuddyAllocator

def empty : BuddyAllocator := ⟨[]⟩

variable (ps : Nat) (a : BuddyAllocator)

/-- Pages reserved for the bitmap of a region of `registered_pages` pages. -/
def metadataPages (registeredPages : Nat) : Nat :=
  if registeredPages ≤ inlineBitmapWords * wordBits then 0 else divCeil (divCeil registeredPages 8) ps

variable (mem : Nat → Nat) (base : Nat)

/-- The region `add_region` builds from a checked range; `mem` is what its storage holds in the `order` words. -/
def newRegion (registeredPages : Nat) : Region :=
  let metadata := metadataPages ps registeredPages
  let totalPages := registeredPages - metadata
  Region.chunks ps totalPages 0
    { regionStart := base
      heapStart := base + metadata * ps
      totalPages
      freePages := 0
      freeLists := fun _ => []
      freeHeads := ⟨fun _ => 0⟩
      header := mem }

def addRegion (size : Nat) :
    Except AllocError BuddyAllocator :=
  if maxRegions ≤ a.regions.length then .error .noMemory
  else if !isPowerOfTwo ps || ps < freeNodeSize || base == 0 || size < ps || base % ps != 0 then
    .error .invalidInput
  else
    let heapSize := size - size % ps
    let regionEnd := base + heapSize
    -- `base.checked_add(heap_size)`
    if 2 ^ 64 ≤ regionEnd then .error .invalidInput
    else if a.regions.any fun r => base < r.heapEnd ps && r.regionStart < regionEnd then .error .memoryOverlap
    else .ok ⟨a.regions ++ [newRegion ps mem base (heapSize / ps)]⟩

/-- `reset` discards every region also when the new one is refused. -/
def initRegion (size : Nat) : Except AllocError Unit × BuddyAllocator :=
  match addRegion ps empty mem base size with
  | .ok a => (.ok (), a)
  | .error e => (.error e, empty)

def allocatePages (count alignPow2 : Nat) :
    Except AllocError (Nat × BuddyAllocator) :=
  if count = 0 then .error .invalidInput
  else
    let align := if alignPow2 = 0 then ps else alignPow2
    if !isPowerOfTwo align || align < ps then .error .invalidInput
    else
      let order := orderFor count
      if maxOrder < order then .error .invalidInput
      else
        match firstRegion (fun r => r.allocAligned ps order (align / ps)) a.regions with
        | some (addr, regions) => .ok (addr, ⟨regions⟩)
        | none => .error .noMemory

def allocatePagesAt (count alignPow2 : Nat) :
    Except AllocError (Nat × BuddyAllocator) :=
  if count = 0 then .error .invalidInput
  else
    let align := if alignPow2 = 0 then ps else alignPow2
    if base % align != 0 then .error .invalidInput
    else
      let order := orderFor count
      if maxOrder < order then .error .invalidInput
      else
        match firstRegion (fun r => r.allocAt ps base order) a.regions with
        | some (addr, regions) => .ok (addr, ⟨regions⟩)
        | none => .error .noMemory

/-- `none` where the code panics: `push_free` indexes `free_lists[order]`, which ends at `MAX_ORDER`. -/
def deallocatePages (addr count : Nat) : Option BuddyAllocator :=
  if count = 0 then some a
  else if !a.regions.any (·.contains ps addr) then some a
  else
    let order := orderFor count
    if maxOrder < order then none
    else some ⟨modifyRegion (·.contains ps addr) (·.deallocate ps addr order) a.regions⟩

end BuddyAllocator

/-! ## Splitting a byte range into chunks -/

/-- `trailing_zeros` of a word of `n` bits. -/
def trailingZeros : Nat → Nat → Nat
  | 0, _ => 0
  | n + 1, x => if x % 2 = 1 then 0 else trailingZeros n (x / 2) + 1

/-- The chunks `split_to_chunks` yields, `(address, order)`; every chunk has at least one page, so the
number of pages bounds the rounds. -/
def chunksFrom (ps : Nat) : Nat → Nat → Nat → List (Nat × Nat)
  | 0, _, _ => []
  | n + 1, addr, size =>
    if size = 0 then []
    else
      let maxOrd := trailingZeros wordBits addr - trailingZeros wordBits ps
      let maxBySize := (size / ps).log2
      let order := min maxOrd maxBySize
      let chunkBytes := orderPages order * ps
      (addr, order) :: chunksFrom ps n (addr + chunkBytes) (size - chunkBytes)

/-- `none` where the assertions on page alignment fail. -/
def splitToChunks (ps addr size : Nat) : Option (List (Nat × Nat)) :=
  if addr % ps != 0 || size % ps != 0 then none else some (chunksFrom ps (size / ps) addr size)

end XKernel.Buddy
