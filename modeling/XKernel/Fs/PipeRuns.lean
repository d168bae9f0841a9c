import XKernel.Fs.Pipe
import XKernel.Lib.Runs
/-!
# Pipes: all interleavings

Any number of pipes and of calls in progress. A call makes one locked attempt after the other
until it returns; between two attempts anything may happen. Beside each pipe stand the bytes
that it has accepted and those that it has delivered, beside each call the pieces it took or
gave.
-/

namespace XKernel.Fs.Pipe

open XKernel.Lib List Option

/-- A pipe with its two streams. -/
structure Record where
  state : PipeState
  accepted : Bytes
  delivered : Bytes
  deriving DecidableEq, Repr

inductive Call
  | read (pipe len : Nat)
  | readIter (pipe count : Nat)
  | write (pipe : Nat) (requestIsAtomic : Bool) (buf : Bytes)
  | spliceRead (pipe scratch : Nat)
  | spliceWrite (pipe scratch : Nat)
  | spliceTo (source destination len : Nat)
  deriving DecidableEq, Repr

variable (pipe : Nat) (stream : Bytes) (p : Pending) (bytes : Bytes)

/-- `pipe_write`: a write from one buffer. -/
def pipeWrite (buf : Bytes) : Call := .write pipe (buf.length ≤ pipeBuf) buf

/-- A part of a pipe's stream. -/
structure Piece where
  pipe : Nat
  offset : Nat
  bytes : Bytes
  deriving DecidableEq, Repr

/-- A call in progress. -/
structure Pending where
  call : Call
  nonblocking : Bool
  writtenTotal : Nat
  taken : List Piece
  given : List Piece
  deriving DecidableEq, Repr

structure Returned where
  call : Call
  result : Except KError Nat
  taken : List Piece
  given : List Piece

structure Pipes where
  pipes : List Record
  calls : List Pending
  returned : List Returned

inductive PipeOp
  | alloc
  /-- `add_access` and `remove_access`: the counts of the open ends change. -/
  | access (pipe readers writers : Nat)
  | resize (pipe newSize : Nat)
  | start (call : Call) (nonblocking : Bool)
  | attempt (k : Nat) (env : Env)
  /-- The wait ends with an interruption or a failed registration. -/
  | giveUp (k : Nat) (error : KError)

/-- The returns before the first attempt. -/
def Call.early : Call → Option (Except KError Nat)
  | .read _ len => if len = 0 then some (.ok 0) else none
  | .readIter _ count => if count = 0 then some (.ok 0) else none
  | .write _ _ buf => if buf = [] then some (.ok 0) else none
  | .spliceRead _ scratch => if scratch = 0 then some (.ok 0) else none
  | .spliceWrite _ scratch => if scratch = 0 then some (.ok 0) else none
  | .spliceTo source destination len =>
    if len = 0 then some (.ok 0) else if source = destination then some (.error .invalidInput) else none

/-- What the call returns for the result of its wait: a write reports what it has written. -/
def Pending.answer (result : Except KError Nat) : Except KError Nat :=
  match p.call, result with
  | .write _ _ _, .error error => if p.writtenTotal ≠ 0 then .ok p.writtenTotal else .error error
  | _, result => result

def Pending.returns (result : Except KError Nat) : Returned := ⟨p.call, p.answer result, p.taken, p.given⟩

/-- The piece of a stream that is appended next, when it is not empty. -/
def piece : List Piece := if bytes = [] then [] else [⟨pipe, stream.length, bytes⟩]

/-- The pipe behind a section. -/
def Record.after (r : Record) (c : Section) : Record := ⟨c.state, r.accepted ++ c.given, r.delivered ++ c.taken⟩

/-- The call behind a section on the pipe `r`. -/
def Pending.after (pipe : Nat) (r : Record) (c : Section) (writtenTotal : Nat) : Pending :=
  { p with
    writtenTotal
    taken := p.taken ++ piece pipe r.delivered c.taken
    given := p.given ++ piece pipe r.accepted c.given }

namespace Pipes

variable (s : Pipes)

/-- The closure's result decides: the call returns, or waits for the next attempt. -/
def settle (k : Nat) (p : Pending) : Except KError (Except KError Nat) → Pipes
  | .ok result => { s with calls := s.calls.eraseIdx k, returned := s.returned ++ [p.returns result] }
  | .error error =>
    if error = .wouldBlock ∧ p.nonblocking = false then { s with calls := s.calls.set k p }
    else { s with calls := s.calls.eraseIdx k, returned := s.returned ++ [p.returns (.error error)] }

/-- A section of call `p` on one pipe. -/
def enter (k pipe : Nat) (p : Pending) (body : PipeState → Section × Nat) : Option Pipes :=
  s.pipes[pipe]?.map fun r =>
    let c := (body r.state).1
    { s with pipes := s.pipes.set pipe (r.after c) }.settle k (p.after pipe r c (body r.state).2) c.result

/-- The section of `splice_to`, under both locks. -/
def enterTwo (k source destination len : Nat) (p : Pending) : Option Pipes :=
  s.pipes[source]?.bind fun r => s.pipes[destination]?.map fun t =>
    let (result, bytes, state, target) := PipeState.spliceTo r.state t.state len
    let p := { p with
      taken := p.taken ++ piece source r.delivered bytes
      given := p.given ++ piece destination t.accepted bytes }
    { s with
      pipes := (s.pipes.set source ⟨state, r.accepted, r.delivered ++ bytes⟩).set destination
        ⟨target, t.accepted ++ bytes, t.delivered⟩ }.settle k p (result.map .ok)

/-- One attempt of the call at place `k`. -/
def attempt (k : Nat) (p : Pending) (env : Env) : Option Pipes :=
  match p.call with
  | .read pipe len => s.enter k pipe p fun state => (state.read env len, p.writtenTotal)
  | .readIter pipe count => s.enter k pipe p fun state => (state.readIter env count, p.writtenTotal)
  | .write pipe requestIsAtomic buf =>
      s.enter k pipe p fun state => state.write p.nonblocking requestIsAtomic buf p.writtenTotal
  | .spliceRead pipe scratch => s.enter k pipe p fun state => (state.spliceRead env scratch, p.writtenTotal)
  | .spliceWrite pipe scratch => s.enter k pipe p fun state => (state.spliceWrite env scratch, p.writtenTotal)
  | .spliceTo source destination len => s.enterTwo k source destination len p

/-- `none`: there is no such pipe or call. -/
def step : PipeOp → Option Pipes
  | .alloc => some { s with pipes := s.pipes ++ [⟨alloc, [], []⟩] }
  | .access pipe readers writers => s.pipes[pipe]?.map fun r =>
    { s with pipes := s.pipes.set pipe { r with state := { r.state with readers, writers } } }
  | .resize pipe newSize => s.pipes[pipe]?.map fun r =>
    match r.state.resize newSize with
    | .ok state => { s with pipes := s.pipes.set pipe { r with state } }
    | .error _ => s
  | .start call nonblocking =>
    match call.early with
    | some result => some { s with returned := s.returned ++ [⟨call, result, [], []⟩] }
    | none => some { s with calls := s.calls ++ [⟨call, nonblocking, 0, [], []⟩] }
  | .attempt k env => s.calls[k]?.bind fun p => s.attempt k p env
  | .giveUp k error => s.calls[k]?.map fun p =>
    { s with calls := s.calls.eraseIdx k, returned := s.returned ++ [p.returns (.error error)] }

end Pipes

/-! ## Streams -/

/-- What the pipe has accepted is what it has delivered and what it holds. -/
structure Record.Sound (r : Record) : Prop where
  streams : r.accepted = r.delivered ++ r.state.buffer
  within : r.state.buffer.length ≤ r.state.capacity
  capacity : PipeState.CapacityOk r.state.capacity

/-- Both streams are continued. -/
structure Record.Continues (r r' : Record) : Prop where
  accepted : r.accepted <+: r'.accepted
  delivered : r.delivered <+: r'.delivered

theorem Record.Continues.refl (r : Record) : r.Continues r := ⟨prefix_rfl, prefix_rfl⟩

theorem alloc_sound : Record.Sound ⟨alloc, [], []⟩ :=
  ⟨rfl, Nat.zero_le _, ⟨4, rfl⟩, by decide⟩

variable {r : Record}

/-- A fair section keeps a sound pipe sound. -/
theorem Record.Sound.after (hr : r.Sound) {c : Section} (hc : Fair r.state c) : (r.after c).Sound := by
  obtain ⟨⟨n, htaken, hstate⟩, hroom⟩ := hc
  have hwithin := hr.within
  rw [PipeState.available] at hroom
  unfold Record.after
  refine ⟨?_, ?_, ?_⟩
  · dsimp only
    rw [hr.streams, htaken, hstate, append_assoc, append_assoc]
    congr 1
    rw [← append_assoc, take_append_drop]
  · rw [hstate]
    simp only [length_append, length_drop]
    omega
  · rw [hstate]
    exact hr.capacity

/-! ## Pieces -/

def bytesOf (pieces : List Piece) : Bytes := (pieces.map Piece.bytes).flatten

@[simp]
theorem bytesOf_nil : bytesOf [] = [] := rfl

@[simp]
theorem bytesOf_append (a b : List Piece) : bytesOf (a ++ b) = bytesOf a ++ bytesOf b := by
  simp [bytesOf]

@[simp]
theorem bytesOf_piece : bytesOf (piece pipe stream bytes) = bytes := by
  unfold piece
  split
  · rename_i h
    simp [h]
  · simp [bytesOf]

@[simp]
theorem piece_nil : piece pipe stream [] = [] := rfl

/-- The piece is the part of the stream at its offset. -/
def Piece.In (x : Piece) (stream : Bytes) : Prop := (stream.drop x.offset).take x.bytes.length = x.bytes

theorem Piece.In.mono {x : Piece} {stream stream' : Bytes} (h : x.In stream) (hs : stream <+: stream') :
    x.In stream' := by
  obtain ⟨rest, rfl⟩ := hs
  have hlen := congrArg length h
  rw [length_take] at hlen
  unfold Piece.In
  rw [drop_append, take_append_of_le_length (by omega)]
  exact h

theorem in_append : Piece.In ⟨pipe, stream.length, bytes⟩ (stream ++ bytes) := by
  simp [Piece.In]

/-- The pieces of a call lie in the streams of their pipes. -/
structure Placed (pipes : List Record) (taken given : List Piece) : Prop where
  taken : ∀ x ∈ taken, ∃ r, pipes[x.pipe]? = some r ∧ x.In r.delivered
  given : ∀ x ∈ given, ∃ r, pipes[x.pipe]? = some r ∧ x.In r.accepted

/-- No pipe is lost, and its streams are continued. -/
def Grows (pipes pipes' : List Record) : Prop :=
  ∀ (i : Nat) (r : Record), pipes[i]? = some r → ∃ r', pipes'[i]? = some r' ∧ r.Continues r'

variable {pipes pipes' : List Record}

theorem placed_nil (pipes : List Record) : Placed pipes [] [] := ⟨by simp, by simp⟩

theorem Placed.grow {taken given : List Piece} (h : Placed pipes taken given) (hg : Grows pipes pipes') :
    Placed pipes' taken given := by
  refine ⟨fun x hx => ?_, fun x hx => ?_⟩
  · obtain ⟨r, hr, hin⟩ := h.taken x hx
    obtain ⟨r', hr', hc⟩ := hg _ r hr
    exact ⟨r', hr', hin.mono hc.delivered⟩
  · obtain ⟨r, hr, hin⟩ := h.given x hx
    obtain ⟨r', hr', hc⟩ := hg _ r hr
    exact ⟨r', hr', hin.mono hc.accepted⟩

theorem Placed.append {taken given taken' given' : List Piece} (h : Placed pipes taken given)
    (h' : Placed pipes taken' given') : Placed pipes (taken ++ taken') (given ++ given') :=
  ⟨forall_mem_append.2 ⟨h.taken, h'.taken⟩, forall_mem_append.2 ⟨h.given, h'.given⟩⟩

theorem mem_piece {pipe : Nat} {stream bytes : Bytes} {x : Piece} (h : x ∈ piece pipe stream bytes) :
    x = ⟨pipe, stream.length, bytes⟩ := by
  unfold piece at h
  split at h
  · simp at h
  · exact mem_singleton.1 h

theorem grows_set {i : Nat} {r' : Record} (hr : pipes[i]? = some r) (hc : r.Continues r') :
    Grows pipes (pipes.set i r') := by
  intro j q hq
  by_cases hi : i = j
  · subst hi
    cases hr.symm.trans hq
    have hlt := (List.getElem?_eq_some_iff.1 hr).1
    exact ⟨r', by rw [getElem?_set_self hlt], hc⟩
  · exact ⟨q, by rw [getElem?_set_ne hi, hq], .refl q⟩

/-- The pieces of a section on one pipe. -/
theorem placed_after {i : Nat} (hr : pipes[i]? = some r) (c : Section) :
    Placed (pipes.set i (r.after c)) (piece i r.delivered c.taken) (piece i r.accepted c.given) := by
  have hset := List.getElem?_set_self (a := r.after c) (List.getElem?_eq_some_iff.1 hr).1
  refine ⟨fun x hx => ?_, fun x hx => ?_⟩
  · obtain rfl := mem_piece hx
    exact ⟨r.after c, hset, in_append i r.delivered c.taken⟩
  · obtain rfl := mem_piece hx
    exact ⟨r.after c, hset, in_append i r.accepted c.given⟩

/-! ## Calls -/

def Call.Takes : Call → Prop
  | .read .. | .readIter .. | .spliceRead .. | .spliceTo .. => True
  | .write .. | .spliceWrite .. => False

def Call.Gives : Call → Prop
  | .write .. | .spliceWrite .. | .spliceTo .. => True
  | .read .. | .readIter .. | .spliceRead .. => False

/-- A write accepts its buffer from the start; an atomic one accepts all of it in one piece, or
nothing. -/
def Call.InOrder : Call → List Piece → Prop
  | .write pipe requestIsAtomic buf, given =>
    bytesOf given <+: buf ∧ (requestIsAtomic = true → given = [] ∨ ∃ offset, given = [⟨pipe, offset, buf⟩])
  | _, _ => True

/-- A call that waits: only a write has moved bytes, and an atomic one has not. -/
def Pending.Ok : Prop :=
  p.taken = [] ∧
    match p.call with
    | .write _ requestIsAtomic buf =>
      p.writtenTotal < buf.length ∧ bytesOf p.given = buf.take p.writtenTotal ∧ (p.writtenTotal = 0 → p.given = []) ∧
        (requestIsAtomic = true → p.writtenTotal = 0)
    | .spliceTo source destination _ => source ≠ destination ∧ p.given = []
    | _ => p.given = []

/-- A call that has returned: the result counts what it took or gave. -/
structure Returned.Ok (r : Returned) : Prop where
  counts : ∀ n, r.result = .ok n →
    (r.call.Takes → n = (bytesOf r.taken).length) ∧ (r.call.Gives → n = (bytesOf r.given).length)
  failed : ∀ error, r.result = .error error → r.taken = [] ∧ r.given = []
  inOrder : r.call.InOrder r.given

namespace Pipes

/-- The invariant of all runs. -/
structure Good (s : Pipes) : Prop where
  pipes : ∀ r ∈ s.pipes, r.Sound
  calls : ∀ p ∈ s.calls, p.Ok ∧ Placed s.pipes p.taken p.given
  returned : ∀ r ∈ s.returned, r.Ok ∧ Placed s.pipes r.taken r.given

variable {s s' : Pipes}

/-- The pipes go on, and the calls stay. -/
theorem Good.grow (h : Good s) (hg : Grows s.pipes pipes) (hpipes : ∀ r ∈ pipes, r.Sound) : Good { s with pipes } := by
  refine ⟨hpipes, fun p hp => ?_, fun r hr => ?_⟩
  · obtain ⟨hok, hplaced⟩ := h.calls p hp
    exact ⟨hok, hplaced.grow hg⟩
  · obtain ⟨hok, hplaced⟩ := h.returned r hr
    exact ⟨hok, hplaced.grow hg⟩

theorem forall_mem_set {α : Type} {P : α → Prop} {l : List α} {i : Nat} {a : α} (hl : ∀ x ∈ l, P x) (ha : P a) :
    ∀ x ∈ l.set i a, P x := by
  intro x hx
  rcases mem_or_eq_of_mem_set hx with hx | rfl
  · exact hl x hx
  · exact ha

variable {k : Nat}

theorem Good.returns (h : Good s) {r : Returned} (hr : r.Ok) (hplaced : Placed s.pipes r.taken r.given) :
    Good { s with calls := s.calls.eraseIdx k, returned := s.returned ++ [r] } := by
  refine ⟨h.pipes, fun q hq => h.calls q (mem_of_mem_eraseIdx hq), ?_⟩
  rw [forall_mem_append]
  exact ⟨h.returned, by simpa using ⟨hr, hplaced⟩⟩

/-- What a call has to show for the result of its section. -/
structure Settles (p : Pending) (result : Except KError (Except KError Nat)) : Prop where
  waits : result = .error .wouldBlock → p.nonblocking = false → p.Ok
  ok : ∀ r, result = .ok r → (p.returns r).Ok
  error : ∀ e, result = .error e → (p.returns (.error e)).Ok

variable {p : Pending}

theorem Good.settle (h : Good s) {result : Except KError (Except KError Nat)}
    (hplaced : Placed s.pipes p.taken p.given) (hp : Settles p result) : Good (s.settle k p result) := by
  unfold Pipes.settle
  split
  · rename_i r
    exact h.returns (hp.ok r rfl) hplaced
  · rename_i e
    split
    · rename_i hblock
      obtain ⟨rfl, hnonblocking⟩ := hblock
      exact ⟨h.pipes, forall_mem_set h.calls ⟨hp.waits rfl hnonblocking, hplaced⟩, h.returned⟩
    · exact h.returns (hp.error e rfl) hplaced

variable {pipe : Nat}

/-- A fair section on one pipe, before the call is settled. -/
theorem Good.after (h : Good s) {r : Record} {c : Section} (hr : s.pipes[pipe]? = some r) (hc : Fair r.state c) :
    Grows s.pipes (s.pipes.set pipe (r.after c)) ∧ Good { s with pipes := s.pipes.set pipe (r.after c) } := by
  have hsound := h.pipes r (mem_of_getElem? hr)
  have hgrows : Grows _ (s.pipes.set pipe (r.after c)) := grows_set hr ⟨prefix_append _ _, prefix_append _ _⟩
  exact ⟨hgrows, h.grow hgrows (forall_mem_set h.pipes (hsound.after hc))⟩

theorem Good.enter (h : Good s) {k : Nat} {body : PipeState → Section × Nat}
    (hp : Placed s.pipes p.taken p.given) (hs : s.enter k pipe p body = some s')
    (hbody : ∀ state, Fair state (body state).1)
    (hsettles : ∀ r, Settles (p.after pipe r (body r.state).1 (body r.state).2) (body r.state).1.result) : Good s' := by
  obtain ⟨r, hr, rfl⟩ := map_eq_some_iff.1 hs
  obtain ⟨hgrows, hgood⟩ := h.after hr (hbody r.state)
  exact hgood.settle ((hp.grow hgrows).append (placed_after hr _)) (hsettles r)

/-! ## One attempt -/

/-- Any other call than a write has moved nothing. -/
theorem ok_iff (hwrite : ∀ q a b, p.call ≠ .write q a b) :
    p.Ok ↔ p.taken = [] ∧ p.given = [] ∧ ∀ a b n, p.call = .spliceTo a b n → a ≠ b := by
  unfold Pending.Ok
  cases hcall : p.call with
  | write q a b => exact absurd hcall (hwrite q a b)
  | _ => simp [and_comm]

/-- A section that moves bytes in one direction and counts them. The call had moved none. -/
theorem settles_counted {total : Nat} {r : Record} {c : Section} (hc : Counts c)
    (hwrite : ∀ q a b, p.call ≠ .write q a b) (hok : p.Ok)
    (hdirection : (p.call.Takes → c.given = []) ∧ (p.call.Gives → c.taken = [])) :
    Settles (p.after pipe r c total) c.result := by
  obtain ⟨htaken, hgiven, hdistinct⟩ := (ok_iff hwrite).1 hok
  have hinOrder : ∀ given, p.call.InOrder given := by
    intro given
    cases hcall : p.call with
    | write q a b => exact absurd hcall (hwrite q a b)
    | _ => trivial
  have hanswer : ∀ result, ((p.after pipe r c total).answer result) = result := by
    intro result
    unfold Pending.answer
    split
    · rename_i hcall
      exact absurd hcall (hwrite _ _ _)
    · rfl
  rcases hc with ⟨n, hresult, hn⟩ | ⟨hno, htaken', hgiven'⟩
  · refine ⟨fun h => by simp [hresult] at h, fun r' hr' => ?_, fun e he => by simp [hresult] at he⟩
    rw [hresult] at hr'
    cases hr'
    refine ⟨fun m hm => ?_, fun e he => ?_, hinOrder _⟩
    · rw [Pending.returns, hanswer] at hm
      cases hm
      refine ⟨fun ht => ?_, fun hg => ?_⟩
      · have := hdirection.1 ht
        simp [Pending.returns, Pending.after, htaken, hn, this]
      · have := hdirection.2 hg
        simp [Pending.returns, Pending.after, hgiven, hn, this]
    · rw [Pending.returns, hanswer] at he
      cases he
  · have hsame : (p.after pipe r c total).taken = [] ∧ (p.after pipe r c total).given = [] := by
      simp [Pending.after, htaken, hgiven, htaken', hgiven']
    have hreturn : ∀ e, ((p.after pipe r c total).returns (.error e)).Ok := by
      intro e
      refine ⟨fun m hm => ?_, fun _ _ => hsame, hinOrder _⟩
      rw [Pending.returns, hanswer] at hm
      cases hm
    refine ⟨fun _ _ => (ok_iff (p := p.after pipe r c total) hwrite).2 ⟨hsame.1, hsame.2, hdistinct⟩, fun r' hr' => ?_,
      fun e _ => hreturn e⟩
    cases r' with
    | ok n => exact absurd hr' (hno n)
    | error e => exact hreturn e

variable {result : Except KError Nat} {requestIsAtomic : Bool}

/-- A write that returns with all of its total. -/
theorem write_returned {buf : Bytes}
    (hcall : p.call = .write pipe requestIsAtomic buf) (hresult : result = .ok p.writtenTotal ∨ ∃ e, result = .error e)
    (htaken : p.taken = []) (hle : p.writtenTotal ≤ buf.length) (hgiven : bytesOf p.given = buf.take p.writtenTotal)
    (hnone : p.writtenTotal = 0 → p.given = [])
    (hatomic : requestIsAtomic = true → p.given = [] ∨ ∃ offset, p.given = [⟨pipe, offset, buf⟩]) :
    (p.returns result).Ok := by
  have hlength : (bytesOf p.given).length = p.writtenTotal := by
    rw [hgiven, length_take]
    omega
  have hanswer : p.answer result = .ok p.writtenTotal ∨ p.writtenTotal = 0 ∧ ∃ e, p.answer result = .error e := by
    rcases hresult with rfl | ⟨e, rfl⟩
    · exact .inl (by simp [Pending.answer])
    · by_cases hzero : p.writtenTotal = 0
      · exact .inr ⟨hzero, e, by simp [Pending.answer, hcall, hzero]⟩
      · exact .inl (by simp [Pending.answer, hcall, hzero])
  refine ⟨fun n hn => ?_, fun e he => ?_, ?_⟩
  · have hcall' : (p.returns result).call = .write pipe requestIsAtomic buf := hcall
    rw [hcall']
    rcases hanswer with ha | ⟨-, e, ha⟩
    · cases ha.symm.trans hn
      exact ⟨False.elim, fun _ => hlength.symm⟩
    · cases ha.symm.trans hn
  · rcases hanswer with ha | ⟨hzero, -⟩
    · cases ha.symm.trans he
    · exact ⟨htaken, hnone hzero⟩
  · have hcall' : (p.returns result).call = .write pipe requestIsAtomic buf := hcall
    rw [hcall']
    refine ⟨?_, hatomic⟩
    rw [show (p.returns result).given = p.given from rfl, hgiven]
    exact take_prefix _ _

theorem settles_write {buf : Bytes} {r : Record} {w : Section × Nat} (hok : p.Ok)
    (hcall : p.call = .write pipe requestIsAtomic buf)
    (hw : r.state.write p.nonblocking requestIsAtomic buf p.writtenTotal = w) :
    Settles (p.after pipe r w.1 w.2) w.1.result := by
  obtain ⟨htaken, hok⟩ := hok
  rw [hcall] at hok
  obtain ⟨hlt, hgiven, hnone, hatomic⟩ := hok
  obtain ⟨n, hn, htotal, hgiven', htaken', -, hwhole, hresult⟩ := r.state.write_spec hw hlt
  obtain ⟨c, total⟩ := w
  dsimp only at *
  subst htotal
  have htakenAfter : (p.after pipe r c (p.writtenTotal + n)).taken = [] := by
    simp [Pending.after, htaken, htaken']
  have hgivenAfter : bytesOf (p.after pipe r c (p.writtenTotal + n)).given = buf.take (p.writtenTotal + n) := by
    simp [Pending.after, hgiven, hgiven', take_add]
  have hnoneAfter : p.writtenTotal + n = 0 → (p.after pipe r c (p.writtenTotal + n)).given = [] := by
    intro hzero
    obtain ⟨hp, rfl⟩ : p.writtenTotal = 0 ∧ n = 0 := by omega
    simp [Pending.after, hnone hp, hgiven']
  have hatomicAfter : requestIsAtomic = true → (p.after pipe r c (p.writtenTotal + n)).given = [] ∨
      ∃ offset, (p.after pipe r c (p.writtenTotal + n)).given = [⟨pipe, offset, buf⟩] := by
    intro hreq
    have hzero := hatomic hreq
    rcases hwhole hreq hzero with rfl | rfl
    · exact .inl (hnoneAfter (by omega))
    · have hne : buf ≠ [] := by
        rintro rfl
        simp at hlt
      refine .inr ⟨r.accepted.length, ?_⟩
      simp [Pending.after, hnone hzero, hgiven', hzero, piece, hne]
  have hreturned : ∀ result, (result = .ok (p.writtenTotal + n) ∨ ∃ e, result = .error e) →
      ((p.after pipe r c (p.writtenTotal + n)).returns result).Ok := by
    intro result hres
    have hle : p.writtenTotal + n ≤ buf.length := by omega
    exact write_returned hcall hres htakenAfter hle hgivenAfter hnoneAfter hatomicAfter
  refine ⟨fun hblock _ => ?_, fun result hres => ?_, fun e _ => hreturned _ (.inr ⟨e, rfl⟩)⟩
  · have hmore : p.writtenTotal + n < buf.length := by
      rcases hresult with h | ⟨e, h, hne, -⟩ | ⟨-, h⟩
      · cases hblock.symm.trans h
      · cases hblock.symm.trans h
        exact absurd rfl hne
      · exact h
    refine ⟨htakenAfter, ?_⟩
    rw [show (p.after pipe r c (p.writtenTotal + n)).call = .write pipe requestIsAtomic buf from hcall]
    refine ⟨hmore, hgivenAfter, hnoneAfter, fun hreq => ?_⟩
    rw [show (p.after pipe r c (p.writtenTotal + n)).writtenTotal = p.writtenTotal + n from rfl]
    have := hatomic hreq
    have := hwhole hreq this
    omega
  · rcases hresult with h | ⟨e, h, -⟩ | ⟨h, -⟩
    · cases hres.symm.trans h
      exact hreturned _ (.inl rfl)
    · cases hres.symm.trans h
    · cases hres.symm.trans h

/-- The section of `splice_to`. -/
theorem Good.enterTwo (h : Good s) {k source destination len : Nat} (hok : p.Ok)
    (hcall : p.call = .spliceTo source destination len) (hs : s.enterTwo k source destination len p = some s') :
    Good s' := by
  obtain ⟨htaken, hgiven⟩ := hok
  rw [hcall] at hgiven
  obtain ⟨hne, hgiven⟩ := hgiven
  obtain ⟨r, hr, hs⟩ := bind_eq_some_iff.1 hs
  obtain ⟨t, ht, rfl⟩ := map_eq_some_iff.1 hs
  obtain ⟨n, result, hsplice, hroom, hresult⟩ := PipeState.spliceTo_spec r.state t.state len
  rw [hsplice]
  dsimp only
  -- each side is a section of its own pipe
  let out : Section := ⟨r.state.drain n, .error .io, r.state.buffer.take n, []⟩
  let into : Section := ⟨t.state.writeFrom (r.state.buffer.take n), .error .io, [], r.state.buffer.take n⟩
  have houtEq : (⟨r.state.drain n, r.accepted, r.delivered ++ r.state.buffer.take n⟩ : Record) = r.after out := by
    simp [Record.after, out]
  have hinEq :
      (⟨t.state.writeFrom (r.state.buffer.take n), t.accepted ++ r.state.buffer.take n, t.delivered⟩ : Record) =
      t.after into := by simp [Record.after, into]
  rw [houtEq, hinEq]
  obtain ⟨hgrows, hgood⟩ := h.after hr (r.state.fair_drain n _ : Fair r.state out)
  have ht' : (s.pipes.set source (r.after out))[destination]? = some t := by rw [getElem?_set_ne hne, ht]
  obtain ⟨hgrows', hgood'⟩ := hgood.after ht' (t.state.fair_writeFrom hroom _ : Fair t.state into)
  have hout := (placed_after hr out).grow hgrows'
  have hin := placed_after ht' into
  rw [htaken, hgiven, nil_append, nil_append]
  refine hgood'.settle ⟨hout.taken, hin.given⟩ ?_
  rcases hresult with rfl | ⟨⟨e, rfl⟩, rfl⟩
  · refine ⟨nofun, ?_, nofun⟩
    rintro _ ⟨⟩
    refine ⟨fun m hm => ?_, fun e he => ?_, ?_⟩
    · simp only [hcall] at hm
      cases hm
      simp [Pending.returns]
    · simp only [hcall] at he
      cases he
    · simp only [hcall]
      trivial
  · refine ⟨fun _ _ => ⟨rfl, ?_⟩, nofun, fun e _ => ⟨fun m hm => ?_, fun _ _ => ⟨rfl, rfl⟩, ?_⟩⟩
    · rw [hcall]
      exact ⟨hne, rfl⟩
    · simp only [hcall] at hm
      cases hm
    · simp only [hcall]
      trivial

/-- An attempt that moves bytes in one direction and counts them. -/
theorem Good.counted {f : PipeState → Section} (h : Good s) (hp : p ∈ s.calls) (hwrite : ∀ q a b, p.call ≠ .write q a b)
    (hf : ∀ state, Fair state (f state) ∧ Counts (f state) ∧
      (p.call.Takes → (f state).given = []) ∧ (p.call.Gives → (f state).taken = []))
    (hs : s.enter k pipe p (fun state => (f state, p.writtenTotal)) = some s') : Good s' := by
  obtain ⟨hok, hplaced⟩ := h.calls p hp
  exact h.enter hplaced hs (fun state => (hf state).1) fun r => settles_counted (hf r.state).2.1 hwrite hok
    (hf r.state).2.2

theorem Good.attempt (h : Good s) {env : Env} (hp : p ∈ s.calls) (hs : s.attempt k p env = some s') :
    Good s' := by
  obtain ⟨hok, hplaced⟩ := h.calls p hp
  unfold Pipes.attempt at hs
  cases hcall : p.call with rw [hcall] at hs
  | write pipe requestIsAtomic buf =>
    have hlt : p.writtenTotal < buf.length := by
      have := hok.2
      rw [hcall] at this
      exact this.1
    refine h.enter hplaced hs (fun state => ?_) (fun r => settles_write hok hcall rfl)
    obtain ⟨_, -, -, -, -, hfair, -⟩ := state.write_spec rfl hlt
    exact hfair
  | spliceTo =>
    exact h.enterTwo hok hcall hs
  | read pipe len =>
    refine h.counted hp (by simp [hcall]) (fun state => ?_) hs
    obtain ⟨hfair, hcounts, hnone⟩ := state.read_spec env len
    exact ⟨hfair, hcounts, fun _ => hnone, by simp [hcall, Call.Gives]⟩
  | readIter pipe count =>
    refine h.counted hp (by simp [hcall]) (fun state => ?_) hs
    obtain ⟨hfair, hcounts, hnone⟩ := state.readIter_spec env count
    exact ⟨hfair, hcounts, fun _ => hnone, by simp [hcall, Call.Gives]⟩
  | spliceRead pipe scratch =>
    refine h.counted hp (by simp [hcall]) (fun state => ?_) hs
    obtain ⟨hfair, hcounts, hnone⟩ := state.spliceRead_spec env scratch
    exact ⟨hfair, hcounts, fun _ => hnone, by simp [hcall, Call.Gives]⟩
  | spliceWrite pipe scratch =>
    refine h.counted hp (by simp [hcall]) (fun state => ?_) hs
    obtain ⟨hfair, hcounts, hnone⟩ := state.spliceWrite_spec env scratch
    exact ⟨hfair, hcounts, by simp [hcall, Call.Takes], fun _ => hnone⟩

theorem givesUp_ok (hok : p.Ok) (error : KError) : (p.returns (.error error)).Ok := by
  cases hcall : p.call with
  | write =>
    obtain ⟨htaken, hok⟩ := hok
    rw [hcall] at hok
    obtain ⟨hlt, hgiven, hnone, hatomic⟩ := hok
    exact write_returned hcall (.inr ⟨error, rfl⟩) htaken hlt.le hgiven hnone fun hreq => .inl (hnone (hatomic hreq))
  | _ =>
    obtain ⟨htaken, hgiven, -⟩ := (ok_iff (by simp [hcall])).1 hok
    refine ⟨fun n hn => ?_, fun _ _ => ⟨htaken, hgiven⟩, ?_⟩
    · simp only [Pending.returns, Pending.answer, hcall] at hn
      cases hn
    · simp only [Pending.returns, hcall]
      trivial

theorem early_ok {call : Call} (h : call.early = some result) :
    Returned.Ok ⟨call, result, [], []⟩ := by
  have hzero : result = .ok 0 ∨ ∃ e, result = .error e := by
    cases call <;> simp only [Call.early] at h <;> grind
  refine ⟨fun n hn => ?_, fun _ _ => ⟨rfl, rfl⟩, ?_⟩
  · subst hn
    rcases hzero with h0 | ⟨e, h0⟩
    · cases h0
      exact ⟨fun _ => rfl, fun _ => rfl⟩
    · cases h0
  · cases call with
    | write => exact ⟨ nil_prefix, fun _ => .inl rfl⟩
    | _ => trivial

theorem start_ok {call : Call} (h : call.early = none) (nonblocking : Bool) :
    Pending.Ok ⟨call, nonblocking, 0, [], []⟩ := by
  refine ⟨rfl, ?_⟩
  cases call with
  | write pipe requestIsAtomic buf =>
    have hne : buf ≠ [] := by simpa [Call.early] using h
    exact ⟨length_pos_of_ne_nil hne, rfl, fun _ => rfl, fun _ => rfl⟩
  | spliceTo =>
    refine ⟨?_, rfl⟩
    rintro rfl
    simp only [Call.early] at h
    split at h <;> cases h
  | _ => rfl

theorem Good.step {op : PipeOp} (h : Good s) (hs : s.step op = some s') : Good s' := by
  cases op with
  | alloc =>
    cases hs
    refine h.grow (fun i r hr => ⟨r, ?_, .refl r⟩) (forall_mem_append.2 ⟨h.pipes, by simpa using alloc_sound⟩)
    rw [List.getElem?_append_left (List.getElem?_eq_some_iff.1 hr).1, hr]
  | access =>
    obtain ⟨r, hr, rfl⟩ := map_eq_some_iff.1 hs
    have hsound := h.pipes r (mem_of_getElem? hr)
    exact h.grow (grows_set hr ⟨prefix_rfl, prefix_rfl⟩)
      (forall_mem_set h.pipes ⟨hsound.streams, hsound.within, hsound.capacity⟩)
  | resize =>
    obtain ⟨r, hr, rfl⟩ := map_eq_some_iff.1 hs
    have hsound := h.pipes r (mem_of_getElem? hr)
    split
    · rename_i state hstate
      refine h.grow (grows_set hr ⟨prefix_rfl, prefix_rfl⟩) (forall_mem_set h.pipes ?_)
      rcases r.state.resize_spec hstate with rfl | ⟨size, hsize, hle, rfl⟩
      · exact hsound
      · exact ⟨hsound.streams, hle, hsize⟩
    · exact h
  | start call nonblocking =>
    simp only [Pipes.step] at hs
    split at hs
    · rename_i result hearly
      cases hs
      refine ⟨h.pipes, h.calls, forall_mem_append.2 ⟨h.returned, ?_⟩⟩
      simpa using ⟨early_ok hearly, placed_nil s.pipes⟩
    · rename_i hearly
      cases hs
      refine ⟨h.pipes, forall_mem_append.2 ⟨h.calls, ?_⟩, h.returned⟩
      simpa using ⟨start_ok hearly nonblocking, placed_nil s.pipes⟩
  | attempt =>
    obtain ⟨p, hp, hs⟩ := bind_eq_some_iff.1 hs
    exact h.attempt (mem_of_getElem? hp) hs
  | giveUp k error =>
    obtain ⟨p, hp, rfl⟩ := map_eq_some_iff.1 hs
    obtain ⟨hok, hplaced⟩ := h.calls p (mem_of_getElem? hp)
    exact h.returns (givesUp_ok hok error) hplaced

/-- No pipes and no calls. -/
def new : Pipes := ⟨[], [], []⟩

theorem new_good : Good new := ⟨by simp [new], by simp [new], by simp [new]⟩

/-- After every run of attempts over any pipes: a pipe has accepted what it has delivered and
what it holds, which is within its capacity, a power of two of pages; every call that has
returned reports the bytes it took or gave, which lie in the streams of their pipes; a write
gives its buffer in order, and one that is small enough in one piece or not at all. -/
theorem run_pipes (s : Pipes) (hrun : Run step (fun _ _ => True) new s) :
    (∀ r ∈ s.pipes, r.accepted = r.delivered ++ r.state.buffer ∧ r.state.buffer.length ≤ r.state.capacity ∧
      (∃ k, r.state.capacity = 2 ^ k * pageSize4k) ∧ r.state.capacity ≤ pipeMaxSize) ∧
    (∀ c ∈ s.returned, Placed s.pipes c.taken c.given ∧
      (∀ n, c.result = .ok n →
        (c.call.Takes → n = (bytesOf c.taken).length) ∧ (c.call.Gives → n = (bytesOf c.given).length)) ∧
      ∀ error, c.result = .error error → c.taken = [] ∧ c.given = []) ∧
    ∀ pipe buf, buf.length ≤ pipeBuf →
      (∀ p ∈ s.calls, p.call = pipeWrite pipe buf → p.given = []) ∧
      ∀ c ∈ s.returned, c.call = pipeWrite pipe buf → c.given = [] ∨ ∃ offset, c.given = [⟨pipe, offset, buf⟩] := by
  have h := hrun.inv Good new_good fun _ _ _ h _ hs => h.step hs
  refine ⟨fun r hr => ?_, fun c hc => ?_, fun pipe buf hbuf => ⟨fun p hp hcall => ?_, fun c hc hcall => ?_⟩⟩
  · obtain ⟨hstreams, hwithin, hpower, hmax⟩ := h.pipes r hr
    exact ⟨hstreams, hwithin, hpower, hmax⟩
  · obtain ⟨hok, hplaced⟩ := h.returned c hc
    exact ⟨hplaced, hok.counts, hok.failed⟩
  · have hok := (h.calls p hp).1.2
    rw [hcall] at hok
    exact hok.2.2.1 (hok.2.2.2 (by simp [hbuf]))
  · have hok := (h.returned c hc).1.inOrder
    rw [hcall] at hok
    exact hok.2 (by simp [hbuf])

/-- The ring wraps behind its first byte, and the destination faults there. -/
def sampleEnv : Env where
  wrap := 1
  headSink src := .ok ⟨src.length, le_rfl⟩
  tailSink _ := .error (.other 14)
  writeFn staged := .ok staged.length
  readFn count := (⟨List.replicate count 0, List.length_replicate⟩, .ok count)

def sampleOps : List PipeOp :=
  [.alloc, .alloc, .access 0 1 1, .access 1 1 1, .start (pipeWrite 0 [1, 2, 3]) false, .attempt 0 sampleEnv,
    .start (.readIter 0 8) false, .attempt 0 sampleEnv, .start (.spliceTo 0 1 8) true, .attempt 0 sampleEnv]

theorem run_pipes_sample : ∃ s, Run step (fun _ _ => True) new s ∧
    s.pipes.map Record.delivered = [[1, 2, 3], []] ∧ s.pipes.map (fun r => r.state.buffer) = [[], [2, 3]] ∧
    s.returned.map (fun c => c.result.toOption) = [some 3, some 1, some 2] ∧
    (∀ r ∈ s.pipes, r.accepted = r.delivered ++ r.state.buffer) ∧
    ∀ c ∈ s.returned, c.call = pipeWrite 0 [1, 2, 3] → c.given = [] ∨ ∃ offset, c.given = [⟨0, offset, [1, 2, 3]⟩] := by
  obtain ⟨s, hrun, hdelivered, hbuffers, hresults⟩ : ∃ s, Run step (fun _ _ => True) new s ∧
      s.pipes.map Record.delivered = [[1, 2, 3], []] ∧ s.pipes.map (fun r => r.state.buffer) = [[], [2, 3]] ∧
      s.returned.map (fun c => c.result.toOption) = [some 3, some 1, some 2] :=
        Run.exists_of_exec sampleOps (by decide +kernel)
  obtain ⟨hpipes, -, hatomic⟩ := run_pipes s hrun
  exact ⟨s, hrun, hdelivered, hbuffers, hresults, fun r hr => (hpipes r hr).1, (hatomic 0 [1, 2, 3] (by decide)).2⟩

end Pipes

end XKernel.Fs.Pipe
