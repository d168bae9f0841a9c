import XKernel.Lib.Bytes
/-!
# Pipes: one locked attempt

The state of a pipe and the sections that run under its mutex: the bodies of `read`,
`read_iter`, `write`, `splice_read`, `splice_write`, `splice_to` and `resize`. A destination
iterator and a splice callback are functions that answer as they like; the contract of
`IovSink` is that a copy reports no more bytes than it was given.
-/

namespace XKernel.Fs.Pipe

open XKernel.Lib List

def pageSize4k : Nat := 4096
def ringBufferInitSize : Nat := 65536
def pipeMaxSize : Nat := 1024 * 1024
def pipeBuf : Nat := 4096

inductive KError
  | wouldBlock
  | io
  | brokenPipe
  | invalidInput
  | operationNotPermitted
  | resourceBusy
  | ioWaitInterrupted
  | other (code : Nat)
  deriving DecidableEq, Repr

/-- The mutex-protected state, without the counters that only `open` reads. -/
structure PipeState where
  buffer : Bytes
  capacity : Nat
  readers : Nat
  writers : Nat
  deriving DecidableEq, Repr

/-- What a destination iterator reports for a copy. -/
abbrev Sink := (src : Bytes) → Except KError { n : Nat // n ≤ src.length }

/-- What happens outside the pipe during an attempt: where the ring buffer wraps, and the
answers of the destination iterator and of the splice callbacks. -/
structure Env where
  wrap : Nat
  headSink : Sink
  tailSink : Sink
  writeFn : Bytes → Except KError Nat
  readFn : (count : Nat) → { staged : Bytes // staged.length = count } × Except KError Nat

namespace PipeState

variable (s : PipeState)

def available : Nat := s.capacity - s.buffer.length

/-- `as_slices`, when the first slice has `wrap` bytes. -/
def asSlices (wrap : Nat) : Bytes × Bytes := (s.buffer.take wrap, s.buffer.drop wrap)

/-- `buffer.drain(..count)`. -/
def drain (count : Nat) : PipeState := { s with buffer := s.buffer.drop count }

/-- The bytes of `dst[..count]` behind the copy, for a `dst` of length `len`. -/
def copyPrefix (wrap len : Nat) : Bytes :=
  let count := min len s.buffer.length
  if count = 0 then []
  else
    let (head, tail) := s.asSlices wrap
    let headLen := min count head.length
    let tailLen := count - headLen
    if tailLen ≠ 0 then head.take headLen ++ tail.take tailLen else head.take headLen

def writeFrom (src : Bytes) : PipeState := { s with buffer := s.buffer ++ src }

end PipeState

/-- What a section under the lock leaves: the state, the closure's result, and the bytes that
went to the caller's destination or came from its source. -/
structure Section where
  state : PipeState
  /-- The error is the closure's own; `WouldBlock` makes the caller wait. -/
  result : Except KError (Except KError Nat)
  taken : Bytes
  given : Bytes

/-- `IovIterDest::copy_to_iter` with `count` bytes of budget. -/
def copyToIter (count : Nat) (sink : Sink) (src : Bytes) : Except KError Nat :=
  if min src.length count = 0 then .ok 0 else (sink (src.take count)).map Subtype.val

namespace PipeState

variable (s : PipeState)

/-- The bytes that are copied out, and the state without them. -/
def readInto (wrap len : Nat) : Bytes × PipeState :=
  (s.copyPrefix wrap len, s.drain (min len s.buffer.length))

/-- The result, the bytes that the iterator has taken, and the state. -/
def readToIter (env : Env) (iterCount : Nat) : Except KError Nat × Bytes × PipeState :=
  let count := min iterCount s.buffer.length
  if count = 0 then (.ok 0, [], s)
  else
    let (head, tail) := s.asSlices env.wrap
    let headLen := min count head.length
    match copyToIter iterCount env.headSink (head.take headLen) with
    | .error error => (.error error, [], s)
    | .ok headRead =>
      if headRead < headLen then (.ok headRead, head.take headRead, s.drain headRead)
      else
        let tailLen := count - headLen
        if tailLen = 0 then (.ok headRead, head.take headRead, s.drain headRead)
        else
          match copyToIter (iterCount - headRead) env.tailSink (tail.take tailLen) with
          | .ok tailRead =>
            (.ok (headRead + tailRead), head.take headRead ++ tail.take tailRead, s.drain (headRead + tailRead))
          | .error error =>
            -- what has been copied before the fault is not discarded
            if headRead ≠ 0 then (.ok headRead, head.take headRead, s.drain headRead) else (.error error, [], s)

/-- The closure of `read_with`, behind the read itself. -/
def readWith (read : Except KError Nat × Bytes × PipeState) : Section :=
  match read with
  | (.error error, taken, state) => ⟨state, .error error, taken, []⟩
  | (.ok n, taken, state) =>
    if n > 0 then ⟨state, .ok (.ok n), taken, []⟩
    else if state.writers = 0 then ⟨state, .ok (.ok 0), taken, []⟩
    else ⟨state, .error .wouldBlock, taken, []⟩

def read (env : Env) (len : Nat) : Section :=
  readWith (.ok (min len s.buffer.length), s.readInto env.wrap len)

def readIter (env : Env) (iterCount : Nat) : Section := readWith (s.readToIter env iterCount)

/-- The closure of `write`, which has written `writtenTotal` bytes of `buf` before. The second
part is the new total. -/
def write (nonblocking requestIsAtomic : Bool) (buf : Bytes) (writtenTotal : Nat) : Section × Nat :=
  if s.readers = 0 then
    -- SIGPIPE is best effort
    if writtenTotal > 0 then (⟨s, .ok (.ok writtenTotal), [], []⟩, writtenTotal)
    else (⟨s, .error .brokenPipe, [], []⟩, writtenTotal)
  else if requestIsAtomic ∧ writtenTotal = 0 ∧ s.available < buf.length then
    (⟨s, .error .wouldBlock, [], []⟩, writtenTotal)
  else
    let count := min s.available (buf.length - writtenTotal)
    let src := (buf.drop writtenTotal).take count
    let state := s.writeFrom src
    if count > 0 then
      let total := writtenTotal + count
      if total = buf.length ∨ nonblocking then (⟨state, .ok (.ok total), [], src⟩, total)
      else (⟨state, .error .wouldBlock, [], src⟩, total)
    else (⟨state, .error .wouldBlock, [], src⟩, writtenTotal)

/-- The closure of `splice_read` with a scratch buffer of `scratch` bytes. -/
def spliceRead (env : Env) (scratch : Nat) : Section :=
  let count := min scratch s.buffer.length
  if count = 0 then
    if s.writers = 0 then ⟨s, .ok (.ok 0), [], []⟩ else ⟨s, .error .wouldBlock, [], []⟩
  else
    let staged := s.copyPrefix env.wrap count
    match env.writeFn staged with
    | .ok written =>
      if written > count then ⟨s, .ok (.error .io), [], []⟩
      else ⟨s.drain written, .ok (.ok written), staged.take written, []⟩
    | .error error => ⟨s, .ok (.error error), [], []⟩

/-- The closure of `splice_write`. -/
def spliceWrite (env : Env) (scratch : Nat) : Section :=
  if s.readers = 0 then ⟨s, .ok (.error .brokenPipe), [], []⟩
  else
    let count := min scratch s.available
    if count = 0 then ⟨s, .error .wouldBlock, [], []⟩
    else
      let (staged, result) := env.readFn count
      match result with
      | .ok read =>
        if read > count then ⟨s, .ok (.error .io), [], []⟩
        else ⟨s.writeFrom (staged.val.take read), .ok (.ok read), [], staged.val.take read⟩
      | .error error => ⟨s, .ok (.error error), [], []⟩

/-- The closure of `splice_to`, with the bytes that it moves. -/
def spliceTo (source target : PipeState) (len : Nat) : Except KError Nat × Bytes × PipeState × PipeState :=
  if target.readers = 0 then (.error .brokenPipe, [], source, target)
  else if source.buffer = [] ∧ source.writers = 0 then (.ok 0, [], source, target)
  else
    let count := min (min len source.buffer.length) target.available
    if count = 0 then (.error .wouldBlock, [], source, target)
    else (.ok count, source.buffer.take count, source.drain count, target.writeFrom (source.buffer.take count))

/-- The size that `resize` rounds to. -/
def resizeTo (newSize : Nat) : Except KError Nat :=
  if newSize + (pageSize4k - 1) ≥ 2 ^ 64 then .error .invalidInput
  else
    let pages := (max ((newSize + (pageSize4k - 1)) / pageSize4k) 1).nextPowerOfTwo
    if pages ≥ 2 ^ 64 then .error .invalidInput
    else if pages * pageSize4k ≥ 2 ^ 64 then .error .invalidInput
    else if pages * pageSize4k > pipeMaxSize then .error .operationNotPermitted
    else .ok (pages * pageSize4k)

def resize (newSize : Nat) : Except KError PipeState :=
  match resizeTo newSize with
  | .error error => .error error
  | .ok newSize =>
    if newSize = s.capacity then .ok s
    else if newSize < s.buffer.length then .error .resourceBusy
    else .ok { s with capacity := newSize }

end PipeState

/-- A pipe without files. -/
def alloc : PipeState := ⟨[], ringBufferInitSize, 0, 0⟩

/-! ## The ring buffer as one list -/

/-- The first slice and a part of the second one are a part of the whole. -/
theorem take_slices (l : Bytes) (w t : Nat) : l.take w ++ (l.drop w).take t = l.take ((l.take w).length + t) := by
  rw [length_take]
  rcases Nat.le_total w l.length with h | h
  · rw [min_eq_left h, take_add]
  · rw [min_eq_right h, take_add, take_of_length_le h, take_of_length_le (le_refl l.length),
      drop_of_length_le h, drop_of_length_le (le_refl l.length)]

theorem take_first_slice {l : Bytes} {w n : Nat} (h : n ≤ (l.take w).length) : (l.take w).take n = l.take n := by
  rw [length_take] at h
  rw [take_take, min_eq_left (by omega)]

theorem PipeState.copyPrefix_eq (s : PipeState) (wrap len : Nat) : s.copyPrefix wrap len = s.buffer.take len := by
  unfold PipeState.copyPrefix
  dsimp only [PipeState.asSlices]
  split
  · rename_i hzero
    rcases Nat.min_eq_zero_iff.1 hzero with h | h
    · rw [h, take_zero]
    · rw [eq_nil_of_length_eq_zero h, take_nil]
  have hmin : s.buffer.take len = s.buffer.take (min len s.buffer.length) := by
    rw [← take_take, take_length]
  rw [hmin]
  split
  · have hhead : min (min len s.buffer.length) (s.buffer.take wrap).length = (s.buffer.take wrap).length :=
      min_eq_right (by omega)
    rw [hhead, take_length, take_slices]
    congr 1
    omega
  · have hhead : min (min len s.buffer.length) (s.buffer.take wrap).length = min len s.buffer.length := by omega
    rw [hhead, take_first_slice (by omega)]

theorem copyToIter_le {count n : Nat} {sink : Sink} {src : Bytes} (h : copyToIter count sink src = .ok n) :
    n ≤ src.length := by
  unfold copyToIter at h
  split at h
  · cases h
    exact Nat.zero_le _
  · cases hs : sink (src.take count) with
    | error =>
      rw [hs] at h
      cases h
    | ok r =>
      rw [hs] at h
      cases h
      exact r.2.trans (length_take_le' _ _)

/-! ## What a section does -/

/-- A section takes bytes from the front of the buffer and puts bytes for which there is room
behind it. -/
structure Fair (s : PipeState) (c : Section) : Prop where
  moves : ∃ n, c.taken = s.buffer.take n ∧ c.state = { s with buffer := s.buffer.drop n ++ c.given }
  room : c.given.length ≤ s.available

/-- The result of a section is the number of bytes that it moved, and a section without such
a result moved none. -/
def Counts (c : Section) : Prop :=
  (∃ n, c.result = .ok (.ok n) ∧ n = c.taken.length + c.given.length) ∨
    ((∀ n, c.result ≠ .ok (.ok n)) ∧ c.taken = [] ∧ c.given = [])

theorem fair_idle (s : PipeState) (result : Except KError (Except KError Nat)) : Fair s ⟨s, result, [], []⟩ :=
  ⟨⟨0, by simp⟩, Nat.zero_le _⟩

theorem counts_idle {s : PipeState} {result : Except KError (Except KError Nat)}
    (h : ∀ n, result = .ok (.ok n) → n = 0) :
    Counts ⟨s, result, [], []⟩ := by
  by_cases hn : ∃ n, result = .ok (.ok n)
  · obtain ⟨n, hn⟩ := hn
    exact .inl ⟨n, hn, h n hn⟩
  · exact .inr ⟨fun n hn' => hn ⟨n, hn'⟩, rfl, rfl⟩

namespace PipeState

variable (s : PipeState) (env : Env)

theorem fair_drain (n : Nat) (result : Except KError (Except KError Nat)) :
    Fair s ⟨s.drain n, result, s.buffer.take n, []⟩ :=
  ⟨⟨n, rfl, by rw [append_nil]; rfl⟩, Nat.zero_le _⟩

theorem fair_writeFrom {src : Bytes} (h : src.length ≤ s.available) (result : Except KError (Except KError Nat)) :
    Fair s ⟨s.writeFrom src, result, [], src⟩ :=
  ⟨⟨0, by simp [writeFrom]⟩, h⟩

/-- The iterator takes the bytes that leave the buffer. -/
theorem readToIter_spec (iterCount : Nat) :
    (∃ n, s.readToIter env iterCount = (.ok n, s.buffer.take n, s.drain n) ∧ n ≤ s.buffer.length) ∨
      ∃ error, s.readToIter env iterCount = (.error error, [], s) := by
  unfold readToIter
  dsimp only [asSlices]
  split
  · exact .inl ⟨0, by simp [drain], Nat.zero_le _⟩
  split
  · rename_i error _
    exact .inr ⟨error, rfl⟩
  rename_i headRead hhead
  have hle := copyToIter_le hhead
  rw [length_take] at hle
  have htake : (s.buffer.take env.wrap).take headRead = s.buffer.take headRead := take_first_slice (by omega)
  have hdone : (Except.ok headRead, (s.buffer.take env.wrap).take headRead, s.drain headRead) =
      ((.ok headRead, s.buffer.take headRead, s.drain headRead) : Except KError Nat × Bytes × PipeState) := by
    rw [htake]
  split
  · exact .inl ⟨headRead, hdone, by omega⟩
  split
  · exact .inl ⟨headRead, hdone, by omega⟩
  rename_i hfull htail
  -- the second slice begins where the first one ends
  have hall : headRead = (s.buffer.take env.wrap).length := by omega
  split
  · rename_i tailRead hread
    have hread := copyToIter_le hread
    rw [length_take, length_drop] at hread
    refine .inl ⟨headRead + tailRead, ?_, by omega⟩
    congr 2
    rw [hall, take_length, take_slices]
  · split
    · exact .inl ⟨headRead, hdone, by omega⟩
    · exact .inr ⟨_, rfl⟩

theorem readWith_spec {n : Nat} (hn : n ≤ s.buffer.length) :
    Fair s (readWith (.ok n, s.buffer.take n, s.drain n)) ∧ Counts (readWith (.ok n, s.buffer.take n, s.drain n)) ∧
      (readWith (.ok n, s.buffer.take n, s.drain n)).given = [] := by
  have hlen : (s.buffer.take n).length = n := by
    rw [length_take]
    omega
  unfold readWith
  dsimp only
  split
  · exact ⟨s.fair_drain n _, .inl ⟨n, rfl, by simp [hlen]⟩, rfl⟩
  · obtain rfl : n = 0 := by omega
    split
    · exact ⟨s.fair_drain 0 _, .inl ⟨0, rfl, by simp⟩, rfl⟩
    · exact ⟨s.fair_drain 0 _, .inr ⟨nofun, by simp, rfl⟩, rfl⟩

theorem read_spec (len : Nat) : Fair s (s.read env len) ∧ Counts (s.read env len) ∧ (s.read env len).given = [] := by
  have heq : s.read env len =
      readWith (.ok (min len s.buffer.length), s.buffer.take (min len s.buffer.length),
        s.drain (min len s.buffer.length)) := by
    rw [read, readInto, copyPrefix_eq, ← take_take, take_length]
  rw [heq]
  exact s.readWith_spec (Nat.min_le_right len s.buffer.length)

theorem readIter_spec (iterCount : Nat) :
    Fair s (s.readIter env iterCount) ∧ Counts (s.readIter env iterCount) ∧ (s.readIter env iterCount).given = [] := by
  unfold readIter
  rcases s.readToIter_spec env iterCount with ⟨n, heq, hn⟩ | ⟨error, heq⟩
  · rw [heq]
    exact s.readWith_spec hn
  · rw [heq]
    exact ⟨fair_idle s _, counts_idle nofun, rfl⟩

theorem spliceRead_spec (scratch : Nat) :
    Fair s (s.spliceRead env scratch) ∧ Counts (s.spliceRead env scratch) ∧ (s.spliceRead env scratch).given = [] := by
  unfold spliceRead
  dsimp only
  split
  · split
    · exact ⟨fair_idle s _, counts_idle (fun n h => by cases h; rfl), rfl⟩
    · exact ⟨fair_idle s _, counts_idle nofun, rfl⟩
  split
  · rename_i written _
    split
    · exact ⟨fair_idle s _, counts_idle nofun, rfl⟩
    · rw [copyPrefix_eq, take_take, min_eq_left (by omega)]
      refine ⟨s.fair_drain written _, .inl ⟨written, rfl, ?_⟩, rfl⟩
      simp only [length_take, length_nil]
      omega
  · exact ⟨fair_idle s _, counts_idle nofun, rfl⟩

theorem spliceWrite_spec (scratch : Nat) :
    Fair s (s.spliceWrite env scratch) ∧ Counts (s.spliceWrite env scratch) ∧
      (s.spliceWrite env scratch).taken = [] := by
  unfold spliceWrite
  dsimp only
  split
  · exact ⟨fair_idle s _, counts_idle nofun, rfl⟩
  split
  · exact ⟨fair_idle s _, counts_idle nofun, rfl⟩
  split
  · rename_i read _
    split
    · exact ⟨fair_idle s _, counts_idle nofun, rfl⟩
    · have hstaged := (env.readFn (min scratch s.available)).1.2
      have hlen : ((env.readFn (min scratch s.available)).1.val.take read).length = read := by
        rw [length_take, hstaged]
        omega
      have hroom : ((env.readFn (min scratch s.available)).1.val.take read).length ≤ s.available := by omega
      exact ⟨s.fair_writeFrom hroom _, .inl ⟨read, rfl, by simp [hlen]⟩, rfl⟩
  · exact ⟨fair_idle s _, counts_idle nofun, rfl⟩

/-- An attempt of `write` appends the next bytes of the buffer. It returns the new total, or
nothing has been written, or the caller goes on with the new total. -/
theorem write_spec {nonblocking requestIsAtomic : Bool} {buf : Bytes} {total : Nat} {w : Section × Nat}
    (hw : s.write nonblocking requestIsAtomic buf total = w) (htotal : total < buf.length) :
    ∃ n, n ≤ buf.length - total ∧ w.2 = total + n ∧ w.1.given = (buf.drop total).take n ∧ w.1.taken = [] ∧ Fair s w.1 ∧
      (requestIsAtomic = true → total = 0 → n = 0 ∨ n = buf.length) ∧
      (w.1.result = .ok (.ok (total + n)) ∨
        (∃ error, w.1.result = .error error ∧ error ≠ .wouldBlock ∧ total + n = 0) ∨
        w.1.result = .error .wouldBlock ∧ total + n < buf.length) := by
  subst hw
  unfold write
  split
  · split
    · exact ⟨0, Nat.zero_le _, rfl, rfl, rfl, fair_idle s _, fun _ _ => .inl rfl, .inl rfl⟩
    · exact ⟨0, Nat.zero_le _, rfl, rfl, rfl, fair_idle s _, fun _ _ => .inl rfl,
        .inr (.inl ⟨_, rfl, by decide, by omega⟩)⟩
  split
  · exact ⟨0, Nat.zero_le _, rfl, rfl, rfl, fair_idle s _, fun _ _ => .inl rfl, .inr (.inr ⟨rfl, htotal⟩)⟩
  rename_i hatomic
  dsimp only
  have hroom : ((buf.drop total).take (min s.available (buf.length - total))).length ≤ s.available := by
    rw [length_take]
    omega
  have hwhole : requestIsAtomic = true → total = 0 →
      min s.available (buf.length - total) = 0 ∨ min s.available (buf.length - total) = buf.length := by
    intro hreq hzero
    have : ¬ s.available < buf.length := fun hlt => hatomic ⟨hreq, hzero, hlt⟩
    omega
  split
  · split
    · exact ⟨_, Nat.min_le_right _ _, rfl, rfl, rfl, s.fair_writeFrom hroom _, hwhole, .inl rfl⟩
    · rename_i hmore
      refine ⟨_, Nat.min_le_right _ _, rfl, rfl, rfl, s.fair_writeFrom hroom _, hwhole, .inr (.inr ⟨rfl, ?_⟩)⟩
      omega
  · exact ⟨_, Nat.min_le_right _ _, by dsimp only; omega, rfl, rfl, s.fair_writeFrom hroom _, hwhole,
      .inr (.inr ⟨rfl, by omega⟩)⟩

/-- `splice_to` moves the same bytes out of the one pipe and into the other. -/
theorem spliceTo_spec (source target : PipeState) (len : Nat) :
    ∃ n result, spliceTo source target len =
      (result, source.buffer.take n, source.drain n, target.writeFrom (source.buffer.take n)) ∧
      (source.buffer.take n).length ≤ target.available ∧
      ((result = .ok (source.buffer.take n).length) ∨ (∃ error, result = .error error) ∧ n = 0) := by
  unfold spliceTo
  have hidle : source.drain 0 = source ∧ target.writeFrom (source.buffer.take 0) = target := by simp [drain, writeFrom]
  split
  · exact ⟨0, _, by rw [hidle.1, hidle.2, take_zero], by simp, .inr ⟨⟨_, rfl⟩, rfl⟩⟩
  split
  · exact ⟨0, _, by rw [hidle.1, hidle.2, take_zero], by simp, .inl (by simp)⟩
  dsimp only
  split
  · exact ⟨0, _, by rw [hidle.1, hidle.2, take_zero], by simp, .inr ⟨⟨_, rfl⟩, rfl⟩⟩
  · refine ⟨_, _, rfl, by rw [length_take]; omega, .inl ?_⟩
    rw [length_take]
    congr 1
    omega

/-- The sizes a pipe can have. -/
def CapacityOk (capacity : Nat) : Prop := (∃ k, capacity = 2 ^ k * pageSize4k) ∧ capacity ≤ pipeMaxSize

theorem resizeTo_spec {newSize size : Nat} (h : resizeTo newSize = .ok size) : CapacityOk size := by
  unfold resizeTo at h
  split at h
  · cases h
  dsimp only at h
  split at h
  · cases h
  split at h
  · cases h
  split at h
  · cases h
  · cases h
    obtain ⟨k, hk⟩ := Nat.isPowerOfTwo_nextPowerOfTwo (max ((newSize + (pageSize4k - 1)) / pageSize4k) 1)
    exact ⟨⟨k, by rw [hk]⟩, by omega⟩

theorem resize_spec {newSize : Nat} {s' : PipeState} (h : s.resize newSize = .ok s') :
    s' = s ∨ ∃ size, CapacityOk size ∧ s.buffer.length ≤ size ∧ s' = { s with capacity := size } := by
  unfold resize at h
  split at h
  · cases h
  rename_i size hsize
  split at h
  · cases h
    exact .inl rfl
  split at h
  · cases h
  · cases h
    exact .inr ⟨size, resizeTo_spec hsize, by omega, rfl⟩

end PipeState

end XKernel.Fs.Pipe
