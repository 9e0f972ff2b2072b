import Mathlib.Algebra.BigOperators.Group.Finset.Piecewise
import Mathlib.Algebra.Order.BigOperators.Group.Finset
import VideoStorage.Library.Concurrent
import VideoStorage.Library.TransitionSystem

/-!
# Packets on their way to the muxer

The encoders of an output send their packets to the muxer through one queue. The muxer
starts when all encoders are open, and until then each sends to a queue of its own. At its
start the muxer takes what is in these queues, one queue after the other, drops each when
it is empty, and says at the end that it has started. An encoder that finds its own queue
dropped waits for that, for 64 rounds at most. A demuxer whose stream is copied sends to the
muxer from the beginning. A source of packets ends with an empty packet, and the muxer ends
when it has had one from every source.

In every order of these steps a packet arrives once at most and no packet overtakes another
of its source (`packets_kept`). A packet that is sent after the last look into a queue and
before the queue is dropped is lost, and nobody is told (`late_packet_lost`). Where that does
not happen, no wait runs out and the muxer is not stopped, every packet arrives: the muxer
does not end before it has had all of them.
-/

set_option autoImplicit false

namespace VideoStorage.Media

open TransitionSystem Concurrent

variable {α : Type}

/-- Where a source of packets is in `send_to_mux`. -/
inductive SendPoint (α : Type) where
  | between
  | sending (packet : α)
  /-- The muxer had not started. -/
  | early (packet : α)
  /-- The queue of the source is gone, and that many rounds are left. -/
  | retrying (packet : α) (rounds : Nat)
  | late (packet : α)

/-- The packet that the source is about to send. -/
def SendPoint.held : SendPoint α → List α
  | between => []
  | sending packet | early packet | retrying packet _ | late packet => [packet]

/-- An encoder, or a demuxer whose stream is copied. -/
structure PacketSource (α : Type) where
  isCopy : Bool
  point : SendPoint α
  /-- What is in the source's own queue. A copied stream does not use it. -/
  pre : List α
  preReceiver : Bool
  /-- The packets so far. -/
  encoded : List α

def PacketSource.new (isCopy : Bool) : PacketSource α := ⟨isCopy, .between, [], true, []⟩

/-- Where `mux_task_start` is. -/
inductive Starter (α : Type) where
  | waiting
  | draining (k : Nat)
  | forwarding (k : Nat) (packet : α)
  | closing (k : Nat)
  | started
  | failed

namespace Starter

/-- The muxer has been started as a thread. -/
def spawned : Starter α → Bool
  | waiting | failed => false
  | _ => true

/-- The packet of a source that is on its way from one queue to the other. -/
def held (i : Nat) : Starter α → List α
  | forwarding k packet => if k = i then [packet] else []
  | _ => []

/-- The queue of a source has been dropped. -/
def passed (i : Nat) : Starter α → Bool
  | waiting => false
  | draining k | forwarding k _ | closing k => i < k
  | started | failed => true

end Starter

structure MuxShared (α : Type) where
  queue : List (Nat × α)
  /-- The muxer has not ended. -/
  receiver : Bool
  isStarted : Bool
  starter : Starter α
  received : List (Nat × α)
  nbDone : Nat

/-- The capacity of the queue of the muxer. -/
def queueBound : Nat := 8

/-- The capacity of the queue of a source. -/
def preBound : Nat := 65536

/-- How often a source looks whether the muxer has started. -/
def retryRounds : Nat := 64

namespace MuxShared

/-- `pkt_sender.send`: none while the queue is full. -/
def send (shared : MuxShared α) (i : Nat) (packet : α) : Option (MuxShared α) :=
  if shared.receiver then
    if shared.queue.length < queueBound then
      some { shared with queue := shared.queue ++ [(i, packet)] }
    else none
  else some shared

/-- The muxer ends. -/
def ended (shared : MuxShared α) : MuxShared α := { shared with queue := [], receiver := false }

end MuxShared

/-- The next step of `send_to_mux`. -/
def sourceStep (i : Nat) (shared : MuxShared α) (source : PacketSource α) (_ : Unit) :
    Option (MuxShared α × PacketSource α) :=
  match source.point with
  | .between => none
  | .sending packet =>
      if source.isCopy || shared.isStarted then
        some (shared, { source with point := .late packet })
      else some (shared, { source with point := .early packet })
  | .early packet =>
      if source.preReceiver then
        if source.pre.length < preBound then
          some (shared, { source with point := .between, pre := source.pre ++ [packet] })
        else none
      else some (shared, { source with point := .retrying packet retryRounds })
  | .retrying _ 0 => some (shared, { source with point := .between })
  | .retrying packet (rounds + 1) =>
      if shared.isStarted then some (shared, { source with point := .late packet })
      else some (shared, { source with point := .retrying packet rounds })
  | .late packet =>
      (shared.send i packet).map fun shared => (shared, { source with point := .between })

def encodeStep (shared : MuxShared α) (source : PacketSource α) (packet : α) :
    Option (MuxShared α × PacketSource α) :=
  match source.point with
  | .between =>
      some (shared, { source with
        point := .sending packet, encoded := source.encoded ++ [packet] })
  | _ => none

/-- A step of `mux_task_start` at the queue of source `k`. -/
def starterStep (k : Nat) (shared : MuxShared α) (source : PacketSource α) (_ : Unit) :
    Option (MuxShared α × PacketSource α) :=
  match shared.starter with
  | .draining _ =>
      match source.pre with
      | packet :: rest =>
          some ({ shared with starter := .forwarding k packet }, { source with pre := rest })
      | [] => some ({ shared with starter := .closing k }, source)
  | .forwarding _ packet =>
      (shared.send k packet).map fun shared => ({ shared with starter := .draining k }, source)
  | .closing _ =>
      some ({ shared with starter := .draining (k + 1) },
        { source with pre := [], preReceiver := false })
  | _ => none

abbrev MuxSystem (α : Type) := Concurrent (MuxShared α) (PacketSource α)

inductive MuxAction (α : Type) where
  /-- A source has a packet to send. -/
  | encode (i : Nat) (packet : α)
  | send (i : Nat)
  /-- All encoders are open, and the header is written or not. -/
  | start (written : Bool)
  | starter
  /-- The muxer takes a packet. It goes on, unless the packet cannot be written. -/
  | receive (written : Bool)
  /-- The muxer is stopped, or all its senders are gone. -/
  | stop

namespace MuxSystem

/-- `send_to_mux`, `mux_task_start`, and the loop of the muxer. -/
def step (isEnd : α → Bool) : TransitionSystem (MuxSystem α) (MuxAction α)
  | s, .encode i packet => s.act encodeStep i packet
  | s, .send i => s.act (sourceStep i) i ()
  | s, .start written =>
      match s.shared.starter with
      | .waiting =>
          if written then some { s with shared := { s.shared with starter := .draining 0 } }
          else
            some ⟨{ s.shared.ended with starter := .failed },
              s.processes.map fun source => { source with pre := [], preReceiver := false }⟩
      | _ => none
  | s, .starter =>
      match s.shared.starter with
      | .draining k =>
          if k < s.processes.length then s.act (starterStep k) k ()
          else some { s with shared := { s.shared with isStarted := true, starter := .started } }
      | .forwarding k _ | .closing k => s.act (starterStep k) k ()
      | _ => none
  | s, .receive written =>
      if s.shared.starter.spawned && s.shared.receiver then
        match s.shared.queue with
        | (i, packet) :: queue =>
            let nbDone := s.shared.nbDone + (isEnd packet).toNat
            let shared :=
              { s.shared with queue, nbDone, received := s.shared.received ++ [(i, packet)] }
            let goesOn := if isEnd packet then nbDone != s.processes.length else written
            some { s with shared := if goesOn then shared else shared.ended }
        | [] => none
      else none
  | s, .stop =>
      if s.shared.starter.spawned then some { s with shared := s.shared.ended } else none

/-- An output with encoders and copied streams. -/
def start (kinds : List Bool) : MuxSystem α where
  shared := ⟨[], true, false, .waiting, [], 0⟩
  processes := kinds.map PacketSource.new

/-- No packet is sent between the last look into a queue and its end, no source gives up or
goes on after its end, the header and the packets can be written, and the muxer is not
stopped and not left by its senders. -/
def careful (isEnd : α → Bool) (s : MuxSystem α) : MuxAction α → Bool
  | .encode i _ => (s.processes[i]?).all fun source => source.encoded.all fun packet => !isEnd packet
  | .send i => (s.processes[i]?).all fun source => !(source.point matches .retrying _ 0)
  | .start written | .receive written => written
  | .starter =>
      match s.shared.starter with
      | .closing k => (s.processes[k]?).all fun source => source.pre.isEmpty
      | _ => true
  | .stop => false

end MuxSystem

/-! ## The packets of a source -/

/-- The packets of one source, in their order. -/
def ofSource (i : Nat) (packets : List (Nat × α)) : List α :=
  packets.filterMap fun entry => if entry.1 = i then some entry.2 else none

@[simp] theorem ofSource_nil (i : Nat) : ofSource i ([] : List (Nat × α)) = [] := rfl

theorem ofSource_cons (i : Nat) (entry : Nat × α) (packets : List (Nat × α)) :
    ofSource i (entry :: packets) =
      (if entry.1 = i then [entry.2] else []) ++ ofSource i packets := by
  unfold ofSource
  rw [List.filterMap_cons]
  split <;> rename_i same
  · split at same
    · cases same
    · rw [if_neg ‹_›, List.nil_append]
  · split at same
    · cases same
      rw [if_pos ‹_›, List.singleton_append]
    · cases same

theorem ofSource_append (i : Nat) (packets more : List (Nat × α)) :
    ofSource i (packets ++ more) = ofSource i packets ++ ofSource i more :=
  List.filterMap_append

@[simp] theorem ofSource_self (i : Nat) (packet : α) : ofSource i [(i, packet)] = [packet] := by
  rw [ofSource_cons, if_pos rfl, ofSource_nil, List.append_nil]

theorem ofSource_other {i k : Nat} (other : k ≠ i) (packet : α) :
    ofSource i [(k, packet)] = [] := by
  rw [ofSource_cons, if_neg other, ofSource_nil, List.append_nil]

/-- The packets of a source that have arrived or are still to arrive, the first one first. -/
def onTheWay (shared : MuxShared α) (i : Nat) (source : PacketSource α) : List α :=
  ofSource i shared.received ++ ofSource i shared.queue ++ shared.starter.held i ++ source.pre ++
    source.point.held

/-- What is so of a source, wherever the packets go. -/
structure PacketSource.Tidy (shared : MuxShared α) (i : Nat) (source : PacketSource α) :
    Prop where
  dropped : shared.starter.passed i = true → source.preReceiver = false
  closed : source.preReceiver = false → source.pre = []
  copied : source.isCopy = true → source.pre = [] ∧ shared.starter.held i = []
  early : ∀ packet, source.point = .early packet → source.isCopy = false
  late : ∀ packet, source.point = .late packet → source.isCopy = true ∨ shared.isStarted = true

/-- What is so in every run: the muxer is said to have started when its start is at the end. -/
structure MuxSystem.Tidy (s : MuxSystem α) : Prop where
  started : s.shared.isStarted = true → s.shared.starter = .started
  sources : ∀ i (source : PacketSource α), s.processes[i]? = some source →
    source.Tidy s.shared i

/-- What a step does to the packets of a source: nothing, one more is encoded, or some are
lost. These are lost carelessly, or because the muxer has ended then. -/
inductive Flow (isEnd : α → Bool) (careful receiver : Bool) (way encoded : List α) :
    List α → List α → Prop where
  | keep : Flow isEnd careful receiver way encoded way encoded
  | encode (packet : α) (goesOn : careful = true → ∀ other ∈ encoded, isEnd other = false) :
      Flow isEnd careful receiver way encoded (way ++ [packet]) (encoded ++ [packet])
  | lose {fewer : List α} (lost : fewer.Sublist way) (reason : careful = false ∨ receiver = false) :
      Flow isEnd careful receiver way encoded fewer encoded

/-- A step at source `i` leaves the others as they are. -/
structure MuxShared.Elsewhere (i : Nat) (shared next : MuxShared α) : Prop where
  received : next.received = shared.received
  receiver : next.receiver = shared.receiver
  nbDone : next.nbDone = shared.nbDone
  isStarted : next.isStarted = shared.isStarted
  tags : ∀ entry ∈ next.queue, entry ∈ shared.queue ∨ entry.1 = i
  queue : ∀ j, j ≠ i → ofSource j next.queue = ofSource j shared.queue
  held : ∀ j, j ≠ i → next.starter.held j = shared.starter.held j
  passed : ∀ j, j ≠ i → next.starter.passed j = shared.starter.passed j

namespace MuxShared

variable {shared next : MuxShared α} {i : Nat} {packet : α}

theorem Elsewhere.refl (i : Nat) (shared : MuxShared α) : shared.Elsewhere i shared :=
  ⟨rfl, rfl, rfl, rfl, fun _ member => .inl member, fun _ _ => rfl, fun _ _ => rfl, fun _ _ => rfl⟩

theorem Elsewhere.onTheWay (elsewhere : shared.Elsewhere i next) {j : Nat} (other : j ≠ i)
    (source : PacketSource α) : onTheWay next j source = onTheWay shared j source := by
  unfold Media.onTheWay
  rw [elsewhere.received, elsewhere.queue j other, elsewhere.held j other]

theorem Elsewhere.tidy (elsewhere : shared.Elsewhere i next) {j : Nat} (other : j ≠ i)
    {source : PacketSource α} (tidy : source.Tidy shared j) : source.Tidy next j where
  dropped passed := tidy.dropped (elsewhere.passed j other ▸ passed)
  closed := tidy.closed
  copied isCopy := by
    rw [elsewhere.held j other]
    exact tidy.copied isCopy
  early := tidy.early
  late packet point := by
    rw [elsewhere.isStarted]
    exact tidy.late packet point

theorem send_cases (sent : shared.send i packet = some next) :
    shared.receiver = true ∧ next = { shared with queue := shared.queue ++ [(i, packet)] } ∨
      shared.receiver = false ∧ next = shared := by
  unfold send at sent
  split at sent
  · rename_i open'
    split at sent
    · cases sent
      exact .inl ⟨open', rfl⟩
    · cases sent
  · rename_i gone
    cases sent
    exact .inr ⟨Bool.eq_false_iff.mpr gone, rfl⟩

theorem elsewhere_send (sent : shared.send i packet = some next) : shared.Elsewhere i next := by
  rcases send_cases sent with ⟨-, rfl⟩ | ⟨-, rfl⟩
  · refine ⟨rfl, rfl, rfl, rfl, fun entry member => ?_, fun j other => ?_, fun _ _ => rfl,
      fun _ _ => rfl⟩
    · exact (List.mem_append.mp member).imp_right fun new =>
        congrArg Prod.fst (List.mem_singleton.mp new)
    · rw [ofSource_append, ofSource_other (Ne.symm other), List.append_nil]
  · exact .refl i _

end MuxShared

/-! ## One step -/

section Step

variable {shared next : MuxShared α} {source source' : PacketSource α} {i : Nat} {packet : α}
  {isEnd : α → Bool} {careful : Bool}

theorem encodeStep_cases (tidy : source.Tidy shared i)
    (moved : encodeStep shared source packet = some (next, source')) :
    next = shared ∧ source'.Tidy shared i ∧ source'.encoded = source.encoded ++ [packet] ∧
      onTheWay shared i source' = onTheWay shared i source ++ [packet] := by
  unfold encodeStep at moved
  split at moved
  · rename_i point
    cases moved
    refine ⟨rfl, ⟨tidy.dropped, tidy.closed, tidy.copied, nofun, nofun⟩, rfl, ?_⟩
    simp only [onTheWay, point, SendPoint.held, List.append_nil]
  · cases moved

/-- A source sends to the queue of the muxer. Nothing of it is in its own queue or in the hand
of the start then, so the packet goes behind those before it. -/
theorem late_cases (tidy : source.Tidy shared i)
    (started : shared.isStarted = true → shared.starter = .started)
    (point : source.point = .late packet) (sent : shared.send i packet = some next) :
    PacketSource.Tidy next i { source with point := .between } ∧
      Flow isEnd careful shared.receiver (onTheWay shared i source) source.encoded
        (onTheWay next i { source with point := .between }) source.encoded := by
  obtain ⟨isCopy, point', pre, preReceiver, encoded⟩ := source
  dsimp only at point
  subst point
  have behind : pre = [] ∧ shared.starter.held i = [] := by
    rcases tidy.late packet rfl with copied | isStarted
    · exact tidy.copied copied
    · have done := started isStarted
      exact ⟨tidy.closed (tidy.dropped (by rw [done]; rfl)), by rw [done]; rfl⟩
  obtain ⟨rfl, held⟩ := behind
  rcases MuxShared.send_cases sent with ⟨-, rfl⟩ | ⟨gone, rfl⟩
  · refine ⟨⟨tidy.dropped, tidy.closed, tidy.copied, nofun, nofun⟩, ?_⟩
    have same : onTheWay { shared with queue := shared.queue ++ [(i, packet)] } i
          ⟨isCopy, .between, [], preReceiver, encoded⟩ =
        onTheWay shared i ⟨isCopy, .late packet, [], preReceiver, encoded⟩ := by
      simp only [onTheWay, SendPoint.held, held, ofSource_append, ofSource_self, List.append_nil,
        List.append_assoc]
    rw [same]
    exact .keep
  · refine ⟨⟨tidy.dropped, tidy.closed, tidy.copied, nofun, nofun⟩, .lose ?_ (.inr gone)⟩
    simp only [onTheWay, SendPoint.held, List.append_nil]
    exact List.sublist_append_left _ _

/-- What a source does in `send_to_mux`. Its packet stays where it is in the order. -/
theorem sourceStep_cases (tidy : source.Tidy shared i)
    (started : shared.isStarted = true → shared.starter = .started)
    (given : careful = true → ∀ packet, source.point ≠ .retrying packet 0)
    (moved : sourceStep i shared source () = some (next, source')) :
    shared.Elsewhere i next ∧ next.starter = shared.starter ∧ source'.Tidy next i ∧
      source'.encoded = source.encoded ∧
      Flow isEnd careful shared.receiver (onTheWay shared i source) source.encoded
        (onTheWay next i source') source'.encoded := by
  obtain ⟨isCopy, point, pre, preReceiver, encoded⟩ := source
  cases point with
  | between => cases moved
  | sending packet =>
      simp only [sourceStep] at moved
      split at moved
      · rename_i direct
        cases moved
        rw [Bool.or_eq_true] at direct
        exact ⟨.refl i shared, rfl,
          ⟨tidy.dropped, tidy.closed, tidy.copied, nofun, fun _ _ => direct⟩, rfl, .keep⟩
      · rename_i direct
        cases moved
        rw [Bool.or_eq_true, not_or] at direct
        exact ⟨.refl i shared, rfl, ⟨tidy.dropped, tidy.closed, tidy.copied,
          fun _ _ => Bool.eq_false_iff.mpr direct.1, nofun⟩, rfl, .keep⟩
  | early packet =>
      have encoder : isCopy = false := tidy.early packet rfl
      simp only [sourceStep] at moved
      split at moved
      · rename_i open'
        split at moved
        · cases moved
          refine ⟨.refl i shared, rfl,
            ⟨tidy.dropped, fun closed => ?_, fun copied => ?_, nofun, nofun⟩, rfl, ?_⟩
          · rw [open'] at closed
            cases closed
          · rw [encoder] at copied
            cases copied
          · have same : onTheWay shared i ⟨isCopy, .between, pre ++ [packet], preReceiver, encoded⟩ =
                onTheWay shared i ⟨isCopy, .early packet, pre, preReceiver, encoded⟩ := by
              simp only [onTheWay, SendPoint.held, List.append_assoc, List.append_nil]
            rw [same]
            exact .keep
        · cases moved
      · cases moved
        exact ⟨.refl i shared, rfl, ⟨tidy.dropped, tidy.closed, tidy.copied, nofun, nofun⟩, rfl,
          .keep⟩
  | retrying packet rounds =>
      cases rounds with
      | zero =>
          cases moved
          refine ⟨.refl i shared, rfl, ⟨tidy.dropped, tidy.closed, tidy.copied, nofun, nofun⟩, rfl,
            .lose ?_ (.inl ?_)⟩
          · simp only [onTheWay, SendPoint.held, List.append_nil]
            exact List.sublist_append_left _ _
          · cases careful with
            | false => rfl
            | true => exact absurd rfl (given rfl packet)
      | succ rounds =>
          simp only [sourceStep] at moved
          split at moved
          · rename_i isStarted
            cases moved
            exact ⟨.refl i shared, rfl, ⟨tidy.dropped, tidy.closed, tidy.copied, nofun,
              fun _ _ => .inr isStarted⟩, rfl, .keep⟩
          · cases moved
            exact ⟨.refl i shared, rfl, ⟨tidy.dropped, tidy.closed, tidy.copied, nofun, nofun⟩, rfl,
              .keep⟩
  | late packet =>
      obtain ⟨shared', sent, here⟩ := Option.map_eq_some_iff.mp moved
      cases here
      obtain ⟨tidy', flow⟩ := late_cases tidy started rfl sent
      have same : next.starter = shared.starter := by
        rcases MuxShared.send_cases sent with ⟨-, rfl⟩ | ⟨-, rfl⟩ <;> rfl
      exact ⟨MuxShared.elsewhere_send sent, same, tidy', rfl, flow⟩

/-- What the start of the muxer does at the queue of source `i`. -/
theorem starterStep_cases (tidy : source.Tidy shared i)
    (here : shared.starter = .draining i ∨ (∃ packet, shared.starter = .forwarding i packet) ∨
      shared.starter = .closing i)
    (empty : careful = true → shared.starter = .closing i → source.pre = [])
    (moved : starterStep i shared source () = some (next, source')) :
    shared.Elsewhere i next ∧ source'.Tidy next i ∧
      Flow isEnd careful shared.receiver (onTheWay shared i source) source.encoded
        (onTheWay next i source') source'.encoded := by
  obtain ⟨queue, receiver, isStarted, starter, received, nbDone⟩ := shared
  obtain ⟨isCopy, point, pre, preReceiver, encoded⟩ := source
  have old : ∀ entry ∈ queue, entry ∈ queue ∨ entry.1 = i := fun _ member => .inl member
  obtain rfl | ⟨packet, rfl⟩ | rfl := here
  · cases pre with
    | nil =>
        cases moved
        exact ⟨⟨rfl, rfl, rfl, rfl, old, fun _ _ => rfl, fun _ _ => rfl, fun _ _ => rfl⟩,
          ⟨tidy.dropped, tidy.closed, tidy.copied, tidy.early, tidy.late⟩, .keep⟩
    | cons packet rest =>
        cases moved
        have encoder : isCopy ≠ true := fun copied => by cases (tidy.copied copied).1
        have open' : preReceiver ≠ false := fun closed => by cases tidy.closed closed
        refine ⟨⟨rfl, rfl, rfl, rfl, old, fun _ _ => rfl, fun j other => if_neg (Ne.symm other),
            fun _ _ => rfl⟩,
          ⟨tidy.dropped, fun closed => absurd closed open', fun copied => absurd copied encoder,
            tidy.early, tidy.late⟩, ?_⟩
        have same : onTheWay ⟨queue, receiver, isStarted, .forwarding i packet, received, nbDone⟩ i
              ⟨isCopy, point, rest, preReceiver, encoded⟩ =
            onTheWay ⟨queue, receiver, isStarted, .draining i, received, nbDone⟩ i
              ⟨isCopy, point, packet :: rest, preReceiver, encoded⟩ := by
          simp only [onTheWay, Starter.held, if_true, List.append_assoc, List.nil_append,
            List.cons_append]
        rw [same]
        exact .keep
  · obtain ⟨shared', sent, rfl, rfl⟩ : ∃ shared' : MuxShared α,
        MuxShared.send ⟨queue, receiver, isStarted, .forwarding i packet, received, nbDone⟩ i packet =
          some shared' ∧ { shared' with starter := .draining i } = next ∧
          ⟨isCopy, point, pre, preReceiver, encoded⟩ = source' := by
      obtain ⟨shared', sent, same⟩ := Option.map_eq_some_iff.mp moved
      exact ⟨shared', sent, (Prod.mk.inj same).1, (Prod.mk.inj same).2⟩
    have elsewhere := MuxShared.elsewhere_send sent
    have away : ∀ j, j ≠ i → ([] : List α) = Starter.held j (.forwarding i packet) := fun j other =>
      (if_neg (Ne.symm other)).symm
    rcases MuxShared.send_cases sent with ⟨-, rfl⟩ | ⟨gone, rfl⟩
    · refine ⟨⟨rfl, rfl, rfl, rfl, elsewhere.tags, elsewhere.queue, away, fun _ _ => rfl⟩,
        ⟨tidy.dropped, tidy.closed, fun copied => ⟨(tidy.copied copied).1, rfl⟩, tidy.early,
          tidy.late⟩, ?_⟩
      have same : onTheWay ⟨queue ++ [(i, packet)], receiver, isStarted, .draining i, received, nbDone⟩
            i ⟨isCopy, point, pre, preReceiver, encoded⟩ =
          onTheWay ⟨queue, receiver, isStarted, .forwarding i packet, received, nbDone⟩ i
            ⟨isCopy, point, pre, preReceiver, encoded⟩ := by
        simp only [onTheWay, Starter.held, if_true, ofSource_append, ofSource_self,
          List.append_nil, List.append_assoc]
      exact same ▸ .keep
    · refine ⟨⟨rfl, rfl, rfl, rfl, old, fun _ _ => rfl, away, fun _ _ => rfl⟩,
        ⟨tidy.dropped, tidy.closed, fun copied => ⟨(tidy.copied copied).1, rfl⟩, tidy.early,
          tidy.late⟩, .lose ?_ (.inr gone)⟩
      refine List.Sublist.append_right (List.Sublist.append_right ?_ _) _
      exact List.Sublist.append_left (List.nil_sublist _) _
  · cases moved
    refine ⟨⟨rfl, rfl, rfl, rfl, old, fun _ _ => rfl, fun _ _ => rfl, fun j other => ?_⟩,
      ⟨fun _ => rfl, fun _ => rfl, fun copied => ⟨rfl, (tidy.copied copied).2⟩, tidy.early,
        tidy.late⟩, ?_⟩
    · refine decide_eq_decide.mpr ⟨fun below => ?_, fun below => Nat.lt_succ_of_lt below⟩
      exact Nat.lt_of_le_of_ne (Nat.le_of_lt_succ below) other
    · cases careful with
      | true =>
          obtain rfl : pre = [] := empty rfl rfl
          exact .keep
      | false =>
          refine .lose (List.Sublist.append_right ?_ _) (.inl rfl)
          exact List.Sublist.append_left (List.nil_sublist _) _

end Step

/-! ## A step of the system -/

namespace MuxSystem

variable {isEnd : α → Bool} {s t : MuxSystem α} {action : MuxAction α}

/-- What a step does to the muxer: it takes a packet, and ends carefully only with the last of
the ends. Or it takes none, and runs on or is stopped carelessly. -/
inductive Arrivals (isEnd : α → Bool) (careful : Bool) (s t : MuxSystem α) : Prop where
  | none (received : t.shared.received = s.shared.received)
      (nbDone : t.shared.nbDone = s.shared.nbDone)
      (receiver : t.shared.receiver = s.shared.receiver ∨ careful = false)
      (tags : ∀ entry ∈ t.shared.queue, entry ∈ s.shared.queue ∨ entry.1 < s.processes.length)
  | one {i : Nat} {packet : α} {queue : List (Nat × α)} (runs : s.shared.receiver = true)
      (head : s.shared.queue = (i, packet) :: queue)
      (received : t.shared.received = s.shared.received ++ [(i, packet)])
      (nbDone : t.shared.nbDone = s.shared.nbDone + (isEnd packet).toNat)
      (tags : ∀ entry ∈ t.shared.queue, entry ∈ queue)
      (ends : t.shared.receiver = true ∨
        (careful = true → t.shared.nbDone = s.processes.length))

/-- What a step keeps: the state stays tidy, and every source has its packets, or one more, or
fewer. -/
structure Steps (isEnd : α → Bool) (careful : Bool) (s t : MuxSystem α) : Prop where
  tidy : t.Tidy
  length : t.processes.length = s.processes.length
  arrivals : Arrivals isEnd careful s t
  flow : ∀ i source', t.processes[i]? = some source' → ∃ source, s.processes[i]? = some source ∧
    Flow isEnd careful t.shared.receiver (onTheWay s.shared i source) source.encoded
      (onTheWay t.shared i source') source'.encoded

/-- A step at one source. -/
theorem steps_at {careful : Bool} {i : Nat} {source source' : PacketSource α}
    {next : MuxShared α} (tidy : s.Tidy) (found : s.processes[i]? = some source)
    (elsewhere : s.shared.Elsewhere i next)
    (started : next.isStarted = true → next.starter = .started) (tidy' : source'.Tidy next i)
    (flow : Flow isEnd careful s.shared.receiver (onTheWay s.shared i source) source.encoded
      (onTheWay next i source') source'.encoded) :
    Steps isEnd careful s ⟨next, s.processes.set i source'⟩ := by
  refine ⟨⟨started, fun j other there => ?_⟩, List.length_set,
    .none elsewhere.received elsewhere.nbDone (.inl elsewhere.receiver) fun entry member => ?_,
    fun j other there => ?_⟩
  · by_cases same : j = i
    · subst same
      obtain rfl : source' = other := by
        rw [List.getElem?_set_self (List.getElem?_eq_some_iff.mp found).1] at there
        exact Option.some.inj there
      exact tidy'
    · rw [List.getElem?_set_ne (Ne.symm same)] at there
      exact elsewhere.tidy same (tidy.sources j other there)
  · refine (elsewhere.tags entry member).imp_right fun here => ?_
    exact here ▸ (List.getElem?_eq_some_iff.mp found).1
  · by_cases same : j = i
    · subst same
      obtain rfl : source' = other := by
        rw [List.getElem?_set_self (List.getElem?_eq_some_iff.mp found).1] at there
        exact Option.some.inj there
      exact ⟨source, found, elsewhere.receiver ▸ flow⟩
    · rw [List.getElem?_set_ne (Ne.symm same)] at there
      refine ⟨other, there, ?_⟩
      rw [elsewhere.onTheWay same]
      exact .keep

/-- A step of the start of the muxer at its queue. -/
theorem steps_starter {k : Nat} (tidy : s.Tidy)
    (here : s.shared.starter = .draining k ∨ (∃ packet, s.shared.starter = .forwarding k packet) ∨
      s.shared.starter = .closing k)
    (moved : s.act (starterStep k) k () = some t) : Steps isEnd (careful isEnd s .starter) s t := by
  obtain ⟨source, source', next, found, acted, rfl⟩ := act_eq_some moved
  have empty : careful isEnd s .starter = true → s.shared.starter = .closing k →
      source.pre = [] := by
    intro given closing
    simp only [careful, closing, found, Option.all_some, List.isEmpty_iff] at given
    exact given
  obtain ⟨elsewhere, tidy', flow⟩ :=
    starterStep_cases (tidy.sources k source found) here empty acted
  refine steps_at tidy found elsewhere (fun started => ?_) tidy' flow
  have done := tidy.started (elsewhere.isStarted ▸ started)
  rcases here with draining | ⟨_, forwarding⟩ | closing
  · rw [draining] at done
    cases done
  · rw [forwarding] at done
    cases done
  · rw [closing] at done
    cases done

/-- The muxer takes the packet at the head of its queue, and goes on or ends. -/
theorem receive_cases {written : Bool} (moved : step isEnd s (.receive written) = some t) :
    ∃ i packet queue next, s.shared.receiver = true ∧ s.shared.queue = (i, packet) :: queue ∧
      next = { s.shared with
        queue, nbDone := s.shared.nbDone + (isEnd packet).toNat,
        received := s.shared.received ++ [(i, packet)] } ∧
      (t = ⟨next, s.processes⟩ ∨ t = ⟨next.ended, s.processes⟩ ∧
        (written = true → isEnd packet = true ∧ next.nbDone = s.processes.length)) := by
  simp only [step] at moved
  split at moved
  · rename_i runs
    split at moved
    · rename_i i packet queue head
      refine ⟨i, packet, queue, _, (Bool.and_eq_true_iff.mp runs).2, head, rfl, ?_⟩
      rw [← Option.some.inj moved]
      cases marker : isEnd packet with
      | true =>
          by_cases all : s.shared.nbDone + 1 = s.processes.length
          · refine .inr ⟨?_, fun _ => ⟨rfl, all⟩⟩
            simp [all]
          · refine .inl ?_
            simp [all]
      | false =>
          cases written with
          | true => exact .inl rfl
          | false => exact .inr ⟨rfl, nofun⟩
    · cases moved
  · cases moved

/-- When the muxer takes a packet or ends, the sources are where they were. -/
theorem tidy_shared {next : MuxShared α} (tidy : s.Tidy)
    (starter : next.starter = s.shared.starter) (isStarted : next.isStarted = s.shared.isStarted) :
    Tidy ⟨next, s.processes⟩ where
  started here := starter ▸ tidy.started (isStarted ▸ here)
  sources i source found := by
    have before := tidy.sources i source found
    refine ⟨fun passed => ?_, before.closed, fun copied => ?_, before.early, fun packet point => ?_⟩
    · exact before.dropped (starter ▸ passed)
    · rw [starter]
      exact before.copied copied
    · rw [isStarted]
      exact before.late packet point

theorem onTheWay_receive {i : Nat} {packet : α} {queue : List (Nat × α)} {shared : MuxShared α}
    {nbDone : Nat} (head : shared.queue = (i, packet) :: queue) (j : Nat) (source : PacketSource α) :
    onTheWay { shared with queue, nbDone, received := shared.received ++ [(i, packet)] } j source =
      onTheWay shared j source := by
  unfold onTheWay
  rw [head, ofSource_append, ofSource_cons j (i, packet) queue, ofSource_cons j (i, packet) [],
    ofSource_nil, List.append_nil, List.append_assoc (ofSource j shared.received)]

theorem onTheWay_ended (shared : MuxShared α) (i : Nat) (source : PacketSource α) :
    (onTheWay shared.ended i source).Sublist (onTheWay shared i source) := by
  refine List.Sublist.append_right (List.Sublist.append_right (List.Sublist.append_right ?_ _) _) _
  exact List.Sublist.append_left (List.nil_sublist _) _

/-- The header is written, and the start of the muxer turns to the queues. -/
theorem steps_written (tidy : s.Tidy) (waiting : s.shared.starter = .waiting)
    (before : s.shared.isStarted = false) {careful : Bool} :
    Steps isEnd careful s ⟨{ s.shared with starter := .draining 0 }, s.processes⟩ := by
  refine ⟨⟨fun started => ?_, fun i source found => ?_⟩, rfl,
    .none rfl rfl (.inl rfl) fun _ member => .inl member, fun i source found => ?_⟩
  · exact absurd (started.symm.trans before) nofun
  · have here := tidy.sources i source found
    have first : Starter.passed i (.draining 0 : Starter α) = false :=
      decide_eq_false (Nat.not_lt_zero i)
    exact ⟨fun passed => absurd (first.symm.trans passed) nofun, here.closed,
      fun copied => ⟨(here.copied copied).1, rfl⟩, here.early, here.late⟩
  · refine ⟨source, found, ?_⟩
    have same : onTheWay { s.shared with starter := .draining 0 } i source =
        onTheWay s.shared i source := by
      simp only [onTheWay, waiting, Starter.held]
    rw [same]
    exact .keep

/-- The header is not written, and the queues are dropped as they are. -/
theorem steps_unwritten (tidy : s.Tidy) (waiting : s.shared.starter = .waiting)
    (before : s.shared.isStarted = false) :
    Steps isEnd false s ⟨{ s.shared.ended with starter := .failed },
      s.processes.map fun source => { source with pre := [], preReceiver := false }⟩ := by
  refine ⟨⟨fun started => ?_, fun i source found => ?_⟩, List.length_map _,
    .none rfl rfl (.inr rfl) nofun, fun i source found => ?_⟩
  · exact absurd (started.symm.trans before) nofun
  · rw [List.getElem?_map] at found
    obtain ⟨old, there, rfl⟩ := Option.map_eq_some_iff.mp found
    have here := tidy.sources i old there
    exact ⟨fun _ => rfl, fun _ => rfl, fun _ => ⟨rfl, rfl⟩, here.early, here.late⟩
  · rw [List.getElem?_map] at found
    obtain ⟨old, there, rfl⟩ := Option.map_eq_some_iff.mp found
    refine ⟨old, there, .lose ?_ (.inl rfl)⟩
    simp only [onTheWay, waiting, Starter.held, MuxShared.ended, ofSource_nil, List.append_nil]
    exact List.Sublist.append_right
      ((List.sublist_append_left _ _).trans (List.sublist_append_left _ _)) _

/-- The start has passed every queue. -/
theorem steps_started (tidy : s.Tidy) {k : Nat} (draining : s.shared.starter = .draining k)
    (last : ¬ k < s.processes.length) {careful : Bool} :
    Steps isEnd careful s
      ⟨{ s.shared with isStarted := true, starter := .started }, s.processes⟩ := by
  refine ⟨⟨fun _ => rfl, fun i source found => ?_⟩, rfl,
    .none rfl rfl (.inl rfl) fun _ member => .inl member, fun i source found => ?_⟩
  · have here := tidy.sources i source found
    have below := (List.getElem?_eq_some_iff.mp found).1
    have passed : s.shared.starter.passed i = true := by
      rw [draining]
      exact decide_eq_true (Nat.lt_of_lt_of_le below (Nat.le_of_not_lt last))
    exact ⟨fun _ => here.dropped passed, here.closed, fun copied => ⟨(here.copied copied).1, rfl⟩,
      here.early, fun packet point => .inr rfl⟩
  · refine ⟨source, found, ?_⟩
    have same : onTheWay { s.shared with isStarted := true, starter := .started } i source =
        onTheWay s.shared i source := by
      simp only [onTheWay, draining, Starter.held]
    rw [same]
    exact .keep

/-- The muxer takes a packet, and runs on or ends. -/
theorem steps_receive (tidy : s.Tidy) {written : Bool}
    (moved : step isEnd s (.receive written) = some t) :
    Steps isEnd (careful isEnd s (.receive written)) s t := by
  obtain ⟨i, packet, queue, next, runs, head, rfl, goes | ⟨ends, all⟩⟩ := receive_cases moved
  · subst goes
    refine ⟨tidy_shared tidy rfl rfl, rfl,
      .one runs head rfl rfl (fun _ member => member) (.inl runs),
      fun j source found => ⟨source, found, ?_⟩⟩
    rw [onTheWay_receive head]
    exact .keep
  · subst ends
    refine ⟨tidy_shared tidy rfl rfl, rfl,
      .one runs head rfl rfl nofun (.inr fun given => (all given).2),
      fun j source found => ⟨source, found, .lose ?_ (.inr rfl)⟩⟩
    exact (onTheWay_ended _ j source).trans (onTheWay_receive head j source ▸ .refl _)

/-- **What one step does.** -/
theorem steps_of_step (tidy : s.Tidy) (moved : step isEnd s action = some t) :
    Steps isEnd (careful isEnd s action) s t := by
  cases action with
  | encode i packet =>
      obtain ⟨source, source', next, found, acted, rfl⟩ := act_eq_some moved
      obtain ⟨rfl, tidy', encoded, way⟩ := encodeStep_cases (tidy.sources i source found) acted
      refine steps_at tidy found (.refl i _) tidy.started tidy' ?_
      rw [encoded, way]
      refine .encode packet fun given other member => ?_
      simp only [careful, found, Option.all_some, List.all_eq_true, Bool.not_eq_true'] at given
      exact given other member
  | send i =>
      obtain ⟨source, source', next, found, acted, rfl⟩ := act_eq_some moved
      have given : careful isEnd s (.send i) = true →
          ∀ packet, source.point ≠ .retrying packet 0 := by
        intro given packet point
        simp [careful, found, point] at given
      obtain ⟨elsewhere, starter, tidy', -, flow⟩ :=
        sourceStep_cases (tidy.sources i source found) tidy.started given acted
      refine steps_at tidy found elsewhere (fun started => ?_) tidy' flow
      exact starter.trans (tidy.started (elsewhere.isStarted ▸ started))
  | start written =>
      simp only [step] at moved
      split at moved
      · rename_i waiting
        have before : s.shared.isStarted = false := by
          cases started : s.shared.isStarted with
          | false => rfl
          | true =>
              have done := tidy.started started
              rw [waiting] at done
              cases done
        cases written with
        | true =>
            cases moved
            exact steps_written tidy waiting before
        | false =>
            cases moved
            exact steps_unwritten tidy waiting before
      · cases moved
  | starter =>
      simp only [step] at moved
      split at moved
      · rename_i k draining
        split at moved
        · exact steps_starter tidy (.inl draining) moved
        · rename_i last
          cases moved
          exact steps_started tidy draining last
      · rename_i k packet forwarding
        exact steps_starter tidy (.inr (.inl ⟨packet, forwarding⟩)) moved
      · rename_i k closing
        exact steps_starter tidy (.inr (.inr closing)) moved
      · cases moved
  | receive written => exact steps_receive tidy moved
  | stop =>
      simp only [step] at moved
      split at moved
      · cases moved
        exact ⟨tidy_shared tidy rfl rfl, rfl, .none rfl rfl (.inr rfl) nofun, fun i source found =>
          ⟨source, found, .lose (onTheWay_ended _ i source) (.inl rfl)⟩⟩
      · cases moved

end MuxSystem

/-! ## The ends of the sources -/

section Ends

variable {isEnd : α → Bool}

theorem countP_ofSource_cons (i : Nat) (entry : Nat × α) (packets : List (Nat × α)) :
    (ofSource i (entry :: packets)).countP isEnd =
      (ofSource i packets).countP isEnd + if entry.1 = i then (isEnd entry.2).toNat else 0 := by
  rw [ofSource_cons, List.countP_append, Nat.add_comm]
  split
  · rw [List.countP_singleton]
    cases isEnd entry.2 <;> rfl
  · rfl

/-- Every packet is counted at its source. -/
theorem sum_countP_ofSource {n : Nat} {packets : List (Nat × α)}
    (tags : ∀ entry ∈ packets, entry.1 < n) :
    ∑ i ∈ Finset.range n, (ofSource i packets).countP isEnd =
      packets.countP fun entry => isEnd entry.2 := by
  induction packets with
  | nil => exact Finset.sum_eq_zero fun _ _ => rfl
  | cons entry rest ih =>
      have below := tags entry List.mem_cons_self
      have later := ih fun other member => tags other (List.mem_cons_of_mem _ member)
      have here : ∑ i ∈ Finset.range n, (if entry.1 = i then (isEnd entry.2).toNat else 0) =
          (isEnd entry.2).toNat := by
        rw [Finset.sum_ite_eq, if_pos (Finset.mem_range.mpr below)]
      simp only [countP_ofSource_cons, Finset.sum_add_distrib, later, here, List.countP_cons]
      cases isEnd entry.2 <;> rfl

/-- A source ends once. -/
theorem countP_le_one {encoded : List α}
    (last : ∀ packet ∈ encoded.dropLast, isEnd packet = false) : encoded.countP isEnd ≤ 1 := by
  rcases List.eq_nil_or_concat encoded with rfl | ⟨before, packet, rfl⟩
  · exact Nat.zero_le 1
  · rw [List.concat_eq_append, List.dropLast_concat] at last
    have none : before.countP isEnd = 0 :=
      List.countP_eq_zero.mpr fun other member => Bool.eq_false_iff.mp (last other member)
    rw [List.concat_eq_append, List.countP_append, none, Nat.zero_add]
    exact List.countP_le_length

/-- What has arrived with the end is all. -/
theorem eq_of_prefix_of_end {arrived encoded : List α} (starts : arrived <+: encoded)
    (last : ∀ packet ∈ encoded.dropLast, isEnd packet = false)
    (ended : ∃ packet ∈ arrived, isEnd packet = true) : arrived = encoded := by
  obtain ⟨rest, rfl⟩ := starts
  obtain ⟨packet, member, here⟩ := ended
  rcases rest with _ | ⟨next, rest⟩
  · exact (List.append_nil arrived).symm
  · have early := last packet (by
      rw [List.dropLast_append_of_ne_nil (List.cons_ne_nil next rest)]
      exact List.mem_append_left _ member)
    rw [here] at early
    cases early

end Ends

namespace MuxSystem

variable {isEnd : α → Bool} {s t : MuxSystem α} {action : MuxAction α}

theorem prefix_of_received (shared : MuxShared α) (i : Nat) (source : PacketSource α) :
    ofSource i shared.received <+: onTheWay shared i source := by
  simp only [onTheWay, List.append_assoc]
  exact List.prefix_append _ _

/-- All that was encoded has arrived or is on its way, and the muxer runs until it has had the
end of every source. -/
structure Complete (isEnd : α → Bool) (s : MuxSystem α) : Prop where
  tidy : s.Tidy
  whole : ∀ i (source : PacketSource α), s.processes[i]? = some source →
    onTheWay s.shared i source = source.encoded
  last : ∀ (i : Nat) (source : PacketSource α), s.processes[i]? = some source →
    ∀ packet ∈ source.encoded.dropLast, isEnd packet = false
  nbDone : s.shared.nbDone = s.shared.received.countP fun entry => isEnd entry.2
  arrived : ∀ entry ∈ s.shared.received, entry.1 < s.processes.length
  queued : ∀ entry ∈ s.shared.queue, entry.1 < s.processes.length
  ended : s.shared.receiver = false → ∀ i (source : PacketSource α),
    s.processes[i]? = some source → ofSource i s.shared.received = source.encoded ∧
      ∃ packet ∈ source.encoded, isEnd packet = true

/-- The muxer has had as many ends as there are sources, so it has had everything. -/
theorem all_arrived {received : List (Nat × α)} {encoded : Nat → List α} {n : Nat}
    (tags : ∀ entry ∈ received, entry.1 < n)
    (starts : ∀ i < n, ofSource i received <+: encoded i)
    (last : ∀ i < n, ∀ packet ∈ (encoded i).dropLast, isEnd packet = false)
    (count : (received.countP fun entry => isEnd entry.2) = n) (i : Nat) (below : i < n) :
    ofSource i received = encoded i ∧ ∃ packet ∈ encoded i, isEnd packet = true := by
  have once : ∀ j ∈ Finset.range n, (ofSource j received).countP isEnd ≤ 1 := fun j member =>
    have small := Finset.mem_range.mp member
    Nat.le_trans (starts j small).sublist.countP_le (countP_le_one (last j small))
  have total : ∑ j ∈ Finset.range n, (ofSource j received).countP isEnd =
      ∑ _j ∈ Finset.range n, 1 := by
    rw [sum_countP_ofSource tags, count, ← Finset.card_eq_sum_ones, Finset.card_range]
  have one := (Finset.sum_eq_sum_iff_of_le once).mp total i (Finset.mem_range.mpr below)
  obtain ⟨packet, member, here⟩ := List.countP_pos_iff.mp (one ▸ Nat.one_pos)
  exact ⟨eq_of_prefix_of_end (starts i below) (last i below) ⟨packet, member, here⟩, packet,
    (starts i below).subset member, here⟩

/-- The end of a source stays its last packet, wherever the packets go. -/
theorem Steps.last (steps : Steps isEnd true s t) (inv : s.Complete isEnd) (i : Nat)
    (source' : PacketSource α) (found' : t.processes[i]? = some source') :
    ∀ packet ∈ source'.encoded.dropLast, isEnd packet = false := by
  obtain ⟨source, found, flows⟩ := steps.flow i source' found'
  generalize source'.encoded = encoded' at flows ⊢
  generalize onTheWay t.shared i source' = way' at flows
  cases flows with
  | keep => exact inv.last i source found
  | encode packet goesOn =>
      rw [List.dropLast_concat]
      exact goesOn rfl
  | lose _ _ => exact inv.last i source found

theorem Steps.arrived (steps : Steps isEnd true s t) (inv : s.Complete isEnd) :
    ∀ entry ∈ t.shared.received, entry.1 < t.processes.length := by
  rw [steps.length]
  cases steps.arrivals with
  | none received _ _ _ => exact received ▸ inv.arrived
  | one _ head received _ _ _ =>
      rw [received]
      intro entry member
      rcases List.mem_append.mp member with old | new
      · exact inv.arrived entry old
      · exact inv.queued entry (head ▸ List.mem_singleton.mp new ▸ List.mem_cons_self)

theorem Steps.queued (steps : Steps isEnd true s t) (inv : s.Complete isEnd) :
    ∀ entry ∈ t.shared.queue, entry.1 < t.processes.length := by
  rw [steps.length]
  intro entry member
  cases steps.arrivals with
  | none _ _ _ tags => exact (tags entry member).elim (inv.queued entry) id
  | one _ head _ _ tags _ =>
      exact inv.queued entry (head ▸ List.mem_cons_of_mem _ (tags entry member))

theorem Steps.nbDone (steps : Steps isEnd true s t) (inv : s.Complete isEnd) :
    t.shared.nbDone = t.shared.received.countP fun entry => isEnd entry.2 := by
  cases steps.arrivals with
  | none received nbDone _ _ => rw [nbDone, received, inv.nbDone]
  | @one _ packet _ _ _ received nbDone _ _ =>
      rw [nbDone, received, List.countP_append, inv.nbDone, List.countP_singleton]
      cases isEnd packet <;> rfl

/-- The muxer ends with the last of the ends, and has had everything then. -/
theorem Steps.all_received (steps : Steps isEnd true s t) (inv : s.Complete isEnd)
    {k : Nat} {packet : α} {queue : List (Nat × α)} (head : s.shared.queue = (k, packet) :: queue)
    (received : t.shared.received = s.shared.received ++ [(k, packet)])
    (all : t.shared.nbDone = s.processes.length) (i : Nat) (source' : PacketSource α)
    (found' : t.processes[i]? = some source') :
    ofSource i t.shared.received = source'.encoded ∧
      ∃ packet ∈ source'.encoded, isEnd packet = true := by
  have count : (t.shared.received.countP fun entry => isEnd entry.2) = t.processes.length := by
    rw [← steps.nbDone inv, steps.length, all]
  have starts : ∀ j < t.processes.length, ofSource j t.shared.received <+:
      t.processes[j]?.elim [] PacketSource.encoded := by
    intro j below
    have there := List.getElem?_eq_getElem below
    obtain ⟨source, found, flows⟩ := steps.flow j _ there
    have before : ofSource j t.shared.received <+: source.encoded := by
      have here := prefix_of_received { s.shared with
        queue, received := s.shared.received ++ [(k, packet)] } j source
      rw [onTheWay_receive head, inv.whole j source found] at here
      rw [received]
      exact here
    rw [there, Option.elim_some]
    generalize onTheWay t.shared j t.processes[j] = way', t.processes[j].encoded = encoded'
      at flows
    cases flows with
    | keep => exact before
    | encode _ _ => exact before.trans (List.prefix_append _ _)
    | lose _ _ => exact before
  have last : ∀ j < t.processes.length, ∀ other ∈
      (t.processes[j]?.elim [] PacketSource.encoded).dropLast, isEnd other = false := by
    intro j below
    have there := List.getElem?_eq_getElem below
    rw [there]
    exact steps.last inv j _ there
  have here := all_arrived (steps.arrived inv) starts last count i
    (List.getElem?_eq_some_iff.mp found').1
  rw [found'] at here
  exact here

theorem Steps.ended (steps : Steps isEnd true s t) (inv : s.Complete isEnd)
    (gone : t.shared.receiver = false) (i : Nat) (source' : PacketSource α)
    (found' : t.processes[i]? = some source') :
    ofSource i t.shared.received = source'.encoded ∧
      ∃ packet ∈ source'.encoded, isEnd packet = true := by
  cases steps.arrivals with
  | none received _ receiver _ =>
      have before : s.shared.receiver = false := by
        rcases receiver with same | careless
        · exact same ▸ gone
        · cases careless
      obtain ⟨source, found, flows⟩ := steps.flow i source' found'
      obtain ⟨all, packet, member, here⟩ := inv.ended before i source found
      rw [received, all]
      generalize onTheWay t.shared i source' = way', source'.encoded = encoded' at flows
      cases flows with
      | keep => exact ⟨rfl, packet, member, here⟩
      | encode _ goesOn =>
          rw [goesOn rfl packet member] at here
          cases here
      | lose _ _ => exact ⟨rfl, packet, member, here⟩
  | one _ head received _ _ ends =>
      rcases ends with runs | all
      · rw [runs] at gone
        cases gone
      · exact steps.all_received inv head received (all rfl) i source' found'

/-- While the muxer runs, nothing is lost, and when it has ended, nothing is left to lose. -/
theorem Steps.whole (steps : Steps isEnd true s t) (inv : s.Complete isEnd) (i : Nat)
    (source' : PacketSource α) (found' : t.processes[i]? = some source') :
    onTheWay t.shared i source' = source'.encoded := by
  have arrives : t.shared.receiver = false →
      source'.encoded.Sublist (onTheWay t.shared i source') := fun gone =>
    (steps.ended inv gone i source' found').1 ▸ (prefix_of_received t.shared i source').sublist
  obtain ⟨source, found, flows⟩ := steps.flow i source' found'
  have before := inv.whole i source found
  generalize onTheWay t.shared i source' = way', source'.encoded = encoded' at flows arrives ⊢
  cases flows with
  | keep => exact before
  | encode packet _ => rw [before]
  | lose lost reason =>
      rcases reason with careless | gone
      · cases careless
      · exact (before ▸ lost).antisymm (arrives gone)

theorem complete_step (inv : s.Complete isEnd) (given : careful isEnd s action = true)
    (moved : step isEnd s action = some t) : t.Complete isEnd := by
  have steps := steps_of_step inv.tidy moved
  rw [given] at steps
  exact ⟨steps.tidy, steps.whole inv, steps.last inv, steps.nbDone inv, steps.arrived inv,
    steps.queued inv, steps.ended inv⟩

theorem tidy_start (kinds : List Bool) : Tidy (start kinds : MuxSystem α) where
  started := nofun
  sources i source found := by
    obtain ⟨isCopy, -, rfl⟩ := Option.map_eq_some_iff.mp (List.getElem?_map.symm.trans found)
    exact ⟨nofun, fun _ => rfl, fun _ => ⟨rfl, rfl⟩, nofun, nofun⟩

theorem new_of_start {kinds : List Bool} {i : Nat} {source : PacketSource α}
    (found : (start kinds : MuxSystem α).processes[i]? = some source) :
    source.encoded = [] ∧ onTheWay (start kinds : MuxSystem α).shared i source = [] := by
  obtain ⟨isCopy, -, rfl⟩ := Option.map_eq_some_iff.mp (List.getElem?_map.symm.trans found)
  exact ⟨rfl, rfl⟩

theorem complete_start (kinds : List Bool) : Complete isEnd (start kinds : MuxSystem α) where
  tidy := tidy_start kinds
  whole i source found := (new_of_start found).2.trans (new_of_start found).1.symm
  last i source found := by
    rw [(new_of_start found).1]
    nofun
  nbDone := rfl
  arrived := nofun
  queued := nofun
  ended := nofun

/-- No packet of a source is there twice or overtakes another. -/
structure InOrder (s : MuxSystem α) : Prop where
  tidy : s.Tidy
  order : ∀ i (source : PacketSource α), s.processes[i]? = some source →
    (onTheWay s.shared i source).Sublist source.encoded

theorem inOrder_step (inv : s.InOrder) (moved : step isEnd s action = some t) : t.InOrder := by
  obtain ⟨tidy, -, -, flow⟩ := steps_of_step inv.tidy moved
  refine ⟨tidy, fun i source' found' => ?_⟩
  obtain ⟨source, found, flows⟩ := flow i source' found'
  have before := inv.order i source found
  generalize onTheWay t.shared i source' = way', source'.encoded = encoded' at flows ⊢
  cases flows with
  | keep => exact before
  | encode packet _ => exact before.append_right [packet]
  | lose lost _ => exact lost.trans before

/-- **Packets arrive in their order, and carefully all of them.** In every run what has arrived
of a source and what is still on its way are packets of it in their order, each once. In a
careful run they are all its packets, and when the muxer has ended, all have arrived. -/
theorem packets_kept {kinds : List Bool} :
    (Reachable (step isEnd) (start kinds) s → ∀ i source, s.processes[i]? = some source →
      (ofSource i s.shared.received ++ ofSource i s.shared.queue ++ s.shared.starter.held i ++
        source.pre ++ source.point.held).Sublist source.encoded) ∧
    (Run (step isEnd) (careful isEnd) (start kinds) s →
      ∀ i source, s.processes[i]? = some source →
        ofSource i s.shared.received ++ ofSource i s.shared.queue ++ s.shared.starter.held i ++
          source.pre ++ source.point.held = source.encoded ∧
        (s.shared.receiver = false → ofSource i s.shared.received = source.encoded)) := by
  constructor
  · intro run
    have start' : (start kinds : MuxSystem α).InOrder := by
      refine ⟨tidy_start kinds, fun i source found => ?_⟩
      rw [(new_of_start found).2]
      exact List.nil_sublist _
    exact (run.invariant start' fun inv _ moved => inOrder_step inv moved).order
  · intro run i source found
    have complete := run.invariant (complete_start kinds) complete_step
    exact ⟨complete.whole i source found, fun gone => (complete.ended gone i source found).1⟩

/-- An encoder sends before the muxer starts, and a copied stream sends all along. -/
def twoSources : List (MuxAction Nat) :=
  [.encode 0 5, .send 0, .send 0, .encode 1 7, .send 1, .send 1, .start true, .starter, .starter,
    .receive true, .starter, .starter, .encode 0 0, .send 0, .send 0, .starter, .starter, .starter,
    .send 0, .send 0, .receive true, .encode 1 0, .send 1, .send 1, .receive true,
    .receive true]

/-- A packet that is sent between the last look into its queue and the end of the queue. -/
def latePacket : List (MuxAction Nat) :=
  [.start true, .starter, .encode 0 5, .send 0, .send 0, .starter, .starter, .encode 0 0, .send 0,
    .send 0, .receive true]

/-- The end of the encoder waits until the muxer has started, and all arrive. With a late packet
the rest arrives in its order. -/
theorem packets_kept_twoSources :
    (∃ s : MuxSystem Nat, s.shared.receiver = false ∧ ∀ i source, s.processes[i]? = some source →
      ofSource i s.shared.received = source.encoded) ∧
    ∃ s : MuxSystem Nat, s.shared.received = [(0, 0)] ∧ ∀ i source, s.processes[i]? = some source →
      (ofSource i s.shared.received ++ ofSource i s.shared.queue ++ s.shared.starter.held i ++
        source.pre ++ source.point.held).Sublist source.encoded := by
  have ran : ∃ s, exec (step (· == 0)) (careful (· == 0)) (start [false, true]) twoSources = some s ∧
      s.shared.receiver = false := ⟨_, rfl, rfl⟩
  obtain ⟨s, ran, gone⟩ := ran
  have late : ∃ s, exec (step (· == 0)) anything (start [false]) latePacket = some s ∧
      s.shared.received = [(0, 0)] := ⟨_, rfl, rfl⟩
  obtain ⟨s', late, arrived⟩ := late
  exact ⟨⟨s, gone, fun i source found => (packets_kept.2 (run_of_exec ran) i source found).2 gone⟩,
    s', arrived, packets_kept.1 (run_of_exec late)⟩

/-- The muxer ends as it does when it has had everything, and the packet is not there. -/
theorem late_packet_lost : ∃ s source, exec (step (· == 0)) anything (start [false]) latePacket =
      some s ∧ s.processes[0]? = some source ∧ source.encoded = [5, 0] ∧
    s.shared.nbDone = 1 ∧ ofSource 0 s.shared.received = [0] :=
  ⟨_, _, rfl, rfl, rfl, rfl, rfl⟩

end MuxSystem

end VideoStorage.Media
