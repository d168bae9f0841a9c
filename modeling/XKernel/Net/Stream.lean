import XKernel.Lib.Result
/-!
# Sending on a Unix stream

`StreamTransport::send` runs a closure in rounds until all bytes are in the ring of the peer. The count of the
bytes sent lives in the closure. What ends the call outside of it (a signal, the send timeout, a failed
registration of the waker), and a fault in reading the source, does not know of the count.
-/

namespace XKernel.Net

open Lib List

inductive KError
  | invalidInput | brokenPipe | notConnected | badAddress | noBufferSpace | wouldBlock | timedOut | interrupted
    | noMemory
  deriving DecidableEq

inductive EnqueueError
  | consumerClosed | quotaExceeded

/-- What the closure finds in a round. -/
structure Round where
  txClosed : Bool
  /-- The two checks under `tx_order`. -/
  closed : Bool
  closedLater : Bool
  /-- The lengths of the vacant slices of the ring. -/
  left : Nat
  right : Nat
  /-- What `src.read` does for each of them: it fails, or gives at most so many bytes. -/
  readLeft : Option Nat
  readRight : Option Nat
  /-- How `enqueue_record` fails. -/
  rejection : Option EnqueueError

/-- What comes between two rounds: `stop` is a signal before a poll, a failed registration between the two calls of
the closure in a poll, or the timeout after them. -/
inductive Event
  | round (r : Round)
  | stop (error : KError)

/-- The options of a call. `nonblocking` of the socket is read for the closure and once more for `poll_io`. -/
structure Call where
  hasTarget : Bool
  connected : Bool
  nonBlocking : Bool
  nonBlockingAgain : Bool

/-- The variables of the closure, with what it has put into the ring. -/
structure Send where
  src : List UInt8
  ancillary : Bool
  total : Nat
  published : List UInt8

def finishSendOnError (total : Nat) (error : KError) : Except KError Nat :=
  if total > 0 then .ok total else .error error

def read (gives : Option Nat) (len : Nat) (src : List UInt8) : Except KError (List UInt8 × List UInt8) :=
  match gives with
  | none => .error .badAddress
  | some n => .ok (src.splitAt (min n len))

/-- The bytes of a round, and those left in the source. -/
def Round.readSlices (r : Round) (src : List UInt8) : Except KError (List UInt8 × List UInt8) := do
  let (bytes, src) ← read r.readLeft r.left src
  if bytes.length ≥ r.left then
    let (more, src) ← read r.readRight r.right src
    return (bytes ++ more, src)
  return (bytes, src)

/-- The closure. -/
def operation (c : Call) (size : Nat) (r : Round) (s : Send) : Except KError Nat × Send :=
  if r.txClosed then (finishSendOnError s.total .brokenPipe, s)
  else if ¬ c.connected then (.error .notConnected, s)
  else if r.closed then (finishSendOnError s.total .brokenPipe, s)
  else
    match r.readSlices s.src with
    | .error e => (.error e, s)
    | .ok (bytes, src) =>
      if r.closedLater then (finishSendOnError s.total .brokenPipe, s)
      else
        let pending := bytes ≠ [] ∧ s.ancillary
        match if pending then r.rejection else none with
        | some .consumerClosed => (finishSendOnError s.total .brokenPipe, s)
        | some .quotaExceeded => (finishSendOnError s.total .noBufferSpace, s)
        | none =>
          let total := s.total + bytes.length
          (if total = size ∨ (c.nonBlocking ∧ total > 0) then .ok total else .error .wouldBlock,
            ⟨src, s.ancillary && !pending, total, s.published ++ bytes⟩)

/-- `poll_io` under the timeout: `none` as long as the call waits. -/
def pollIo (c : Call) (size : Nat) : List Event → Send → Option (Except KError Nat) × Send
  | [], s => (none, s)
  | .stop e :: _, s => (some (.error e), s)
  | .round r :: events, s =>
    let o := operation c size r s
    if o.1 = .error .wouldBlock ∧ ¬ (c.nonBlocking || c.nonBlockingAgain) then pollIo c size events o.2
    else (some o.1, o.2)

def send (c : Call) (ancillary : Bool) (source : List UInt8) (events : List Event) :
    Option (Except KError Nat) × Send :=
  let s := ⟨source, ancillary, 0, []⟩
  if c.hasTarget then (some (.error .invalidInput), s) else pollIo c source.length events s

/-- The caller learns what was published. -/
def Reports (source : List UInt8) : Option (Except KError Nat) × Send → Prop
  | (none, _) => True
  | (some (.ok n), s) => n ≤ source.length ∧ s.published = source.take n
  | (some (.error _), s) => s.published = []

/-- The exits of the closure that leave out the count. -/
def Round.Unaware (r : Round) (c : Call) (src : List UInt8) : Prop :=
  r.txClosed = false ∧ (c.connected = false ∨ r.closed = false ∧ r.readSlices src = .error .badAddress)

/-- The bytes of a round that comes as far as the ring. -/
def Round.published (r : Round) (c : Call) (s : Send) : Option (List UInt8) :=
  match r.readSlices s.src with
  | .error _ => none
  | .ok (bytes, _) =>
    if r.txClosed || !c.connected || r.closed || r.closedLater ||
      (bytes ≠ [] && s.ancillary && r.rejection.isSome) then none else some bytes

/-- What does not know of the count ends the call after bytes have been published. The socket can become
non-blocking between the two reads of the flag. -/
def Loses (c : Call) (size : Nat) : List Event → Send → Prop
  | [], _ => False
  | .stop _ :: _, s => 0 < s.total
  | .round r :: events, s =>
    r.Unaware c s.src ∧ 0 < s.total ∨
      ∃ bytes, r.published c s = some bytes ∧ s.total + bytes.length ≠ size ∧ c.nonBlocking = false ∧
        if c.nonBlockingAgain then 0 < s.total + bytes.length else Loses c size events (operation c size r s).2

/-- The published bytes are the first ones of the source, and counted. -/
structure Sent (source : List UInt8) (s : Send) : Prop where
  split : source = s.published ++ s.src
  total : s.total = s.published.length

section

variable {c : Call} {s : Send} {source : List UInt8} (size : Nat)

theorem read_cases (gives : Option Nat) (len : Nat) (src : List UInt8) :
    read gives len src = .error .badAddress ∨ ∃ bytes rest, read gives len src = .ok (bytes, rest) ∧
      src = bytes ++ rest := by
  cases gives with
  | none => exact .inl rfl
  | some n => exact .inr ⟨_, _, congrArg Except.ok (splitAt_eq ..), (take_append_drop ..).symm⟩

theorem readSlices_cases (r : Round) (src : List UInt8) :
    r.readSlices src = .error .badAddress ∨ ∃ bytes rest, r.readSlices src = .ok (bytes, rest) ∧
      src = bytes ++ rest := by
  unfold Round.readSlices
  rcases read_cases r.readLeft r.left src with h | ⟨bytes, rest, h, rfl⟩
  · rw [h]
    exact .inl rfl
  · rw [h, ok_bind]
    by_cases hlen : bytes.length ≥ r.left
    · simp only [if_pos hlen]
      rcases read_cases r.readRight r.right rest with h | ⟨more, rest, h, rfl⟩
      · rw [h]
        exact .inl rfl
      · rw [h]
        exact .inr ⟨_, rest, rfl, (append_assoc ..).symm⟩
    · exact .inr ⟨bytes, rest, if_neg hlen, rfl⟩

theorem Sent.reports_error (h : Sent source s) (e : KError) : Reports source (some (.error e), s) ↔ ¬ 0 < s.total := by
  rw [Reports, h.total, length_pos_iff, not_not]

theorem Sent.reports_ok (h : Sent source s) : Reports source (some (.ok s.total), s) := by
  rw [Reports, h.split, h.total, take_left, length_append]
  exact ⟨Nat.le_add_right .., rfl⟩

/-- Every other exit of the closure turns the count into the result. -/
theorem Sent.finish {e : KError} (h : Sent source s) (he : e ≠ .wouldBlock) :
    finishSendOnError s.total e ≠ .error .wouldBlock ∧ Reports source (some (finishSendOnError s.total e), s) := by
  unfold finishSendOnError
  split_ifs with ht
  · exact ⟨by rintro ⟨⟩, h.reports_ok⟩
  · exact ⟨fun heq => he (Except.error.inj heq), (h.reports_error e).2 ht⟩

/-- A round leaves out the count, turns it into the result, or puts bytes into the ring. -/
theorem operation_spec (c : Call) (r : Round) (s : Send) :
    (r.Unaware c s.src ∧ r.published c s = none ∧ ∃ e ≠ .wouldBlock, operation c size r s = (.error e, s)) ∨
    ¬ r.Unaware c s.src ∧
      ((r.published c s = none ∧
          ∃ e ∈ [.brokenPipe, .noBufferSpace], operation c size r s = (finishSendOnError s.total e, s)) ∨
        ∃ bytes rest a, s.src = bytes ++ rest ∧ r.published c s = some bytes ∧ operation c size r s =
          (if s.total + bytes.length = size ∨ (c.nonBlocking ∧ s.total + bytes.length > 0)
            then .ok (s.total + bytes.length)
            else .error .wouldBlock, ⟨rest, a, s.total + bytes.length, s.published ++ bytes⟩)) := by
  unfold operation Round.published Round.Unaware
  rcases readSlices_cases r s.src with h | ⟨bytes, rest, h, heq⟩ <;> simp only [h]
  · cases r.txClosed <;> cases c.connected <;> cases r.closed <;> simp
  · cases r.txClosed <;> cases c.connected <;> cases r.closed <;> cases r.closedLater <;> simp
    cases bytes <;> cases s.ancillary <;> rcases r.rejection with _ | (_ | _) <;> simp [heq]

theorem pollIo_reports (hs : Sent source s) (events : List Event) :
    Reports source (pollIo c size events s) ↔ ¬ Loses c size events s := by
  induction events generalizing s with
  | nil => exact iff_of_true trivial id
  | cons event events ih =>
    cases event with
    | stop e => exact hs.reports_error e
    | round r =>
      rw [pollIo, Loses]
      rcases operation_spec size c r s with
        ⟨hr, hp, e, he, ho⟩ | ⟨hr, ⟨hp, e, he, ho⟩ | ⟨bytes, rest, a, heq, hp, ho⟩⟩
      · simp [ho, he, hr, hp, hs.reports_error]
      · have h := hs.finish (show e ≠ .wouldBlock by rintro rfl; simp at he)
        simp [ho, hr, hp, h]
      · have hs' : Sent source ⟨rest, a, s.total + bytes.length, s.published ++ bytes⟩ :=
          ⟨by rw [append_assoc, ← heq, ← hs.split], by rw [length_append, hs.total]⟩
        simp only [ho, hr, hp, Option.some.injEq, false_and, false_or, exists_eq_left']
        have ih := ih hs'
        have hok := hs'.reports_ok
        have herr := hs'.reports_error .wouldBlock
        cases c.nonBlocking <;> cases c.nonBlockingAgain <;> grind

end

/-- A send reports what it has published exactly if nothing that does not know of the count ends it after bytes have
been published. -/
theorem send_reports_iff (c : Call) (ancillary : Bool) (source : List UInt8) (events : List Event) :
    Reports source (send c ancillary source events) ↔
      (c.hasTarget = false → ¬ Loses c source.length events ⟨source, ancillary, 0, []⟩) := by
  have hs : Sent source ⟨source, ancillary, 0, []⟩ := ⟨rfl, rfl⟩
  unfold send
  cases c.hasTarget with
  | true => exact iff_of_true rfl (by rintro ⟨⟩)
  | false => simpa using pollIo_reports source.length hs events

/-- The first call of the closure fills a ring of one byte, the second one finds it full, and the timeout follows. -/
theorem send_timedOut :
    let o := send ⟨false, true, false, false⟩ false [1, 2]
      [.round ⟨false, false, false, 1, 0, some 1, some 0, none⟩,
        .round ⟨false, false, false, 0, 0, some 0, some 0, none⟩, .stop .timedOut]
    o.1 = some (.error .timedOut) ∧ o.2.published = [1] := by
  decide

end XKernel.Net
