import XKernel.Mm.Buddy
/-!
# The global page allocator (`kalloc`, `lib.rs` and `pcp.rs`)

Requests of one to four pages with page alignment go through a per-CPU page set:
one stack of block addresses for each block size, filled in bulk from the buddy
allocator and drained to it in bulk. All other requests go to the buddy allocator
directly. A stack is a list, top first. Usage counters and the readiness flags
carry no page and are left out.
-/

namespace XKernel.Kalloc

open XKernel.Buddy

/-- `PCP_MAX_PAGES`. -/
def pcpMaxPages : Nat := 4

variable (ps nrPages : Nat) (palloc : BuddyAllocator)

/-- The capacities `C1` to `C4` of the caches of blocks of `nrPages` pages. -/
def capacity : Nat := if nrPages = 1 then 12 else 6

/-- `COUNT * 2 / 3`: the blocks of one refill, and what a drain pops. -/
def batch : Nat := capacity nrPages * 2 / 3

def blockBytes : Nat := nrPages * ps

/-! ## Giving page ranges back -/

/-- `deallocate_pages(chunk_addr, 1 << order)` for every chunk. -/
def deallocateChunks (chunks : List (Nat × Nat)) : Option BuddyAllocator :=
  chunks.foldlM (fun a (c : Nat × Nat) => a.deallocatePages ps c.1 (2 ^ c.2)) palloc

/-- A byte range goes back in maximal chunks. -/
def deallocateRange (addr size : Nat) : Option BuddyAllocator := do
  deallocateChunks ps palloc (← splitToChunks ps addr size)

def returnSlack (blockAddr pages : Nat) : Option BuddyAllocator :=
  let slackPages := 2 ^ orderFor pages - pages
  if slackPages = 0 then some palloc
  else deallocateRange ps palloc (blockAddr + pages * ps) (slackPages * ps)

/-! ## One cache -/

def tryPop : List Nat → Option (Nat × List Nat)
  | [] => none
  | addr :: addrs => some (addr, addrs)

/-- `none` is the `Err` of a full cache. -/
def tryPush (addrs : List Nat) (addr : Nat) : Option (List Nat) :=
  if capacity nrPages ≤ addrs.length then none else some (addr :: addrs)

/-- A failed push is dropped, as `let _ = self.try_push(addr)` drops it. -/
def pushAll (addrs : List Nat) (new : List Nat) : List Nat :=
  new.foldl (fun l addr => (tryPush nrPages l addr).getD l) addrs

/-- The per-block requests of `refill`; the batch stops at the first failure. -/
def refillBlocks (ps nrPages : Nat) : Nat → BuddyAllocator → List Nat → Option (BuddyAllocator × List Nat)
  | 0, palloc, addrs => some (palloc, addrs)
  | n + 1, palloc, addrs =>
    match palloc.allocatePages ps nrPages ps with
    | .error _ => some (palloc, addrs)
    | .ok (addr, palloc') => do
      let palloc'' ← returnSlack ps palloc' addr nrPages
      refillBlocks ps nrPages n palloc'' (pushAll nrPages addrs [addr])

/-- The caller's block, the allocator and the cache after a refill. -/
def refill (addrs : List Nat) :
    Option (Except AllocError Nat × BuddyAllocator × List Nat) :=
  let totalPages := batch nrPages * nrPages
  match palloc.allocatePages ps totalPages ps with
  | .ok (base, palloc') => do
    let palloc'' ← returnSlack ps palloc' base totalPages
    let blocks := (List.range' 1 (batch nrPages - 1)).map fun i => base + i * blockBytes ps nrPages
    some (.ok base, palloc'', pushAll nrPages addrs blocks)
  | .error _ =>
    match palloc.allocatePages ps nrPages ps with
    | .error e => some (.error e, palloc, addrs)
    | .ok (base, palloc') => do
      let palloc'' ← returnSlack ps palloc' base nrPages
      let (palloc₃, addrs') ← refillBlocks ps nrPages (batch nrPages - 1) palloc'' addrs
      some (.ok base, palloc₃, addrs')

/-- `PerCpuPages::alloc`: the cache is looked at again before it is filled. -/
def cacheAlloc (addrs : List Nat) :
    Option (Except AllocError Nat × BuddyAllocator × List Nat) :=
  match tryPop addrs with
  | some (addr, addrs') => some (.ok addr, palloc, addrs')
  | none => refill ps nrPages palloc addrs

/-- The merge loop of `drain` over sorted addresses, from a range `[start, stop)`. -/
def mergeFrom (blkBytes start stop : Nat) : List Nat → List (Nat × Nat)
  | [] => [(start, stop)]
  | a :: as =>
    if a = stop then mergeFrom blkBytes start (a + blkBytes) as
    else (start, stop) :: mergeFrom blkBytes a (a + blkBytes) as

def mergeRanges (blkBytes : Nat) : List Nat → List (Nat × Nat)
  | [] => []
  | a :: as => mergeFrom blkBytes a (a + blkBytes) as

def deallocateRanges (ranges : List (Nat × Nat)) : Option BuddyAllocator :=
  ranges.foldlM (fun a (r : Nat × Nat) => deallocateRange ps a r.1 (r.2 - r.1)) palloc

/-- The freed block and the blocks `drain` pops. -/
def drained (freeAddr : Nat) (addrs : List Nat) : List Nat := freeAddr :: addrs.take (batch nrPages)

def drain (addrs : List Nat) (freeAddr : Nat) :
    Option (BuddyAllocator × List Nat) := do
  let sorted := (drained nrPages freeAddr addrs).insertionSort (· ≤ ·)
  let palloc' ← deallocateRanges ps palloc (mergeRanges (blockBytes ps nrPages) sorted)
  some (palloc', addrs.drop (batch nrPages))

/-- `PerCpuPages::dealloc`. -/
def cacheDealloc (addrs : List Nat) (addr : Nat) :
    Option (BuddyAllocator × List Nat) :=
  match tryPush nrPages addrs addr with
  | some addrs' => some (palloc, addrs')
  | none => drain ps nrPages palloc addrs addr

end XKernel.Kalloc
