import XKernel.Lib.Runs
import XKernel.Mm.BuddyAlloc
import XKernel.Mm.Pcp
/-!
# Page requests of many callers on many CPUs

`alloc_pages` and `dealloc_pages` hold no lock between looking at the cache of a CPU
and filling or draining one, so a step here is one critical section: a look that
finds nothing changes nothing, and the second section may run on another CPU. What
callers hold is a list of blocks with the pages each of them took out of the pool.
-/

namespace XKernel.Kalloc

open XKernel.Lib XKernel.Buddy

/-! ## State and steps -/

/-- A block in a caller's hands: `pages` is the `num_pages` of the request, `taken` what left the pool for it. -/
structure Block where
  addr : Nat
  pages : Nat
  taken : Nat
  dma : Bool
  deriving DecidableEq, Repr

structure State where
  palloc : BuddyAllocator
  /-- The cache of a CPU for blocks of a number of pages. -/
  cache : Nat × Nat → List Nat
  live : List Block

def State.init : State := ⟨.empty, fun _ => [], []⟩

inductive Op where
  | addRegion (mem : Nat → Nat) (base size : Nat)
  | tryAlloc (cpu numPages : Nat)
  | fillCache (cpu numPages : Nat)
  | allocSlow (numPages alignPow2 : Nat)
  | allocPagesAt (va numPages alignPow2 : Nat)
  | allocDmaPages (numPages alignPow2 : Nat)
  | tryFree (cpu va numPages : Nat)
  | drainCache (cpu va numPages : Nat)
  | deallocSlow (va numPages : Nat)
  | deallocDmaPages (va numPages : Nat)

/-- `1..=PCP_MAX_PAGES`. -/
def pcpServes (numPages : Nat) : Prop := 1 ≤ numPages ∧ numPages ≤ pcpMaxPages

instance (numPages : Nat) : Decidable (pcpServes numPages) := inferInstanceAs (Decidable (_ ∧ _))

variable (ncpu ps : Nat) (s : State)

def State.hand (addr pages taken : Nat) (dma : Bool) : State :=
  { s with live := ⟨addr, pages, taken, dma⟩ :: s.live }

/-- Whether a block is the one that a caller gives back. -/
def Block.is (va numPages : Nat) (dma : Bool) (b : Block) : Bool := b.addr == va && b.pages == numPages && b.dma == dma

def State.drop (va numPages : Nat) (dma : Bool) : State :=
  { s with live := s.live.eraseP (Block.is va numPages dma) }

/-- A request that the buddy allocator answers; `2 ^ ⌈log₂ num_pages⌉` pages leave the pool. -/
def State.fromBuddy (numPages : Nat) (dma : Bool) : Except AllocError (Nat × BuddyAllocator) → State
  | .ok (addr, palloc) => { s with palloc }.hand addr numPages (2 ^ orderFor numPages) dma
  | .error _ => s

def step : Op → Option State
  | .addRegion mem base size =>
    match s.palloc.addRegion ps mem base size with
    | .ok palloc => some { s with palloc }
    | .error _ => some s
  | .tryAlloc cpu n =>
    match tryPop (s.cache (cpu, n)) with
    | some (addr, addrs) => some ({ s with cache := Function.update s.cache (cpu, n) addrs }.hand addr n n false)
    | none => some s
  | .fillCache cpu n => do
    let (res, palloc, addrs) ← cacheAlloc ps n s.palloc (s.cache (cpu, n))
    let s' := { s with palloc, cache := Function.update s.cache (cpu, n) addrs }
    match res with
    | .ok addr => some (s'.hand addr n n false)
    | .error _ => some s'
  | .allocSlow n align => some (s.fromBuddy n false (s.palloc.allocatePages ps n align))
  | .allocPagesAt va n align => some (s.fromBuddy n false (s.palloc.allocatePagesAt ps va n align))
  | .allocDmaPages n align => some (s.fromBuddy n true (s.palloc.allocatePages ps n align))
  | .tryFree cpu va n =>
    match tryPush n (s.cache (cpu, n)) va with
    | some addrs => some ({ s with cache := Function.update s.cache (cpu, n) addrs }.drop va n false)
    | none => some s
  | .drainCache cpu va n => do
    let (palloc, addrs) ← cacheDealloc ps n s.palloc (s.cache (cpu, n)) va
    some ({ s with palloc, cache := Function.update s.cache (cpu, n) addrs }.drop va n false)
  | .deallocSlow va n => do some ({ s with palloc := ← s.palloc.deallocatePages ps va n }.drop va n false)
  | .deallocDmaPages va n => do some ({ s with palloc := ← s.palloc.deallocatePages ps va n }.drop va n true)

/-- The branches of `alloc_pages` and `dealloc_pages`, and matched calls: a caller gives back a block that it
holds, with the page count of the request. The DMA range check gives a block back at once, so it is a
`deallocDmaPages` after an `allocDmaPages`. -/
def Matched : Op → Prop
  | .addRegion .. | .allocPagesAt .. | .allocDmaPages .. => True
  | .tryAlloc cpu n | .fillCache cpu n => cpu < ncpu ∧ pcpServes n
  | .allocSlow n align => ¬ (pcpServes n ∧ align ≤ ps)
  | .tryFree cpu va n | .drainCache cpu va n => cpu < ncpu ∧ pcpServes n ∧ s.live.any (Block.is va n false) = true
  | .deallocSlow va n => ¬ pcpServes n ∧ s.live.any (Block.is va n false) = true
  | .deallocDmaPages va n => s.live.any (Block.is va n true) = true

instance (ncpu ps : Nat) (s : State) (op : Op) : Decidable (Matched ncpu ps s op) :=
  match op with
  | .addRegion .. | .allocPagesAt .. | .allocDmaPages .. => .isTrue trivial
  | .tryAlloc cpu n | .fillCache cpu n => inferInstanceAs (Decidable (cpu < ncpu ∧ pcpServes n))
  | .allocSlow n align => inferInstanceAs (Decidable (¬ (pcpServes n ∧ align ≤ ps)))
  | .tryFree cpu va n | .drainCache cpu va n =>
    inferInstanceAs (Decidable (cpu < ncpu ∧ pcpServes n ∧ s.live.any (Block.is va n false) = true))
  | .deallocSlow va n => inferInstanceAs (Decidable (¬ pcpServes n ∧ s.live.any (Block.is va n false) = true))
  | .deallocDmaPages va n => inferInstanceAs (Decidable (s.live.any (Block.is va n true) = true))

/-- Where one of the blocks ends and another begins, both are in one region. -/
def Seamless (nrPages : Nat) (a : BuddyAllocator) (addrs : List Nat) : Prop :=
  ∀ b ∈ addrs, ∀ c ∈ addrs, b + blockBytes ps nrPages = c →
    (a.regions.any fun r => r.contains ps b && r.contains ps c) = true

instance (ps nrPages : Nat) (a : BuddyAllocator) (addrs : List Nat) : Decidable (Seamless ps nrPages a addrs) :=
  inferInstanceAs (Decidable (∀ b ∈ addrs, ∀ c ∈ addrs, _ → _))

/-! ## Conservation of pages -/

/-- Whether the buddy pool has the page of `x` free, as a number. -/
def freeAt (a : BuddyAllocator) (x : Nat) : Nat := if a.regions.any (·.covers ps x) then 1 else 0

/-- The caches of all CPUs. -/
def cacheKeys : Finset (Nat × Nat) := Finset.range ncpu ×ˢ Finset.Icc 1 pcpMaxPages

/-- How many parked blocks cover `x`. -/
def State.parkedAt (x : Nat) : Nat :=
  ∑ k ∈ cacheKeys ncpu, Cover.total x (Cover.blocks (blockBytes ps k.2) (s.cache k))

/-- How many blocks in callers' hands cover `x`. -/
def State.lentAt (x : Nat) : Nat :=
  Cover.total x (s.live.map fun b => (b.addr, b.taken * ps))

/-- What a later request can get: free in the pool, or parked in a cache. -/
def State.availableAt (x : Nat) : Nat := freeAt ps s.palloc x + s.parkedAt ncpu ps x

/-- Every heap page is available once or belongs to one caller, and nothing else is handed out. -/
def Conserved : Prop :=
  ∀ x, s.availableAt ncpu ps x + s.lentAt ps x = if s.palloc.regions.any (·.contains ps x) then 1 else 0

/-- A page of a heap that no caller holds and no request can get. -/
def Lost (x : Nat) : Prop :=
  s.palloc.regions.any (·.contains ps x) = true ∧ s.availableAt ncpu ps x = 0 ∧ s.lentAt ps x = 0

instance (ncpu ps : Nat) (s : State) (x : Nat) : Decidable (Lost ncpu ps s x) := inferInstanceAs (Decidable (_ ∧ _ ∧ _))

end XKernel.Kalloc
