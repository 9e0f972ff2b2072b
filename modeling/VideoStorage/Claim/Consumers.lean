import VideoStorage.Library.Concurrent
import VideoStorage.Library.TransitionSystem
import VideoStorage.Claim.TokenBucket

/-!
# Concurrent consumers of one token bucket

Calls of `try_consume_atomic` share one bucket and interleave at their accesses
to its atomics. What they are granted should never exceed the initial tokens and
the elapsed time at the refill rate.

A call computes its refill from the time of the last refill, and only later
compares and exchanges the tokens. The exchange does not notice that another
call has added a refill meanwhile, or that the time of the last refill was set
back (`two_calls_credit_one_millisecond`). Where no exchange adds a refill that
was computed from an outdated time of the last refill, the bound holds in every
run (`granted_le_rate`).
-/

set_option autoImplicit false

namespace VideoStorage.Claim

open TransitionSystem Concurrent RustStd

/-! ## One call -/

/-- Where a call stands, with the variables it has loaded. A call that is past
its exchange remembers whether the exchange added a refill. -/
inductive Point where
  | loadRate
  | loadLast (refillRateMicro : UInt64)
  | loadTokens (refillRateMicro lastMs : UInt64) (retries : Nat)
  | exchange (refillRateMicro lastMs : UInt64) (retries : Nat) (currentTokens : UInt64)
  | storeLast (refilled : Bool) (result : Except UInt64 Unit)
  | returned (refilled : Bool) (result : Except UInt64 Unit)

/-- A call of `try_consume_atomic`. -/
structure ConsumeCall where
  amountMicro : UInt64
  nowMs : UInt64
  point : Point

namespace ConsumeCall

/-- `updated_tokens`. -/
def updatedTokens (call : ConsumeCall) (refillRateMicro lastMs currentTokens : UInt64) : UInt64 :=
  let elapsedMs := saturatingSub call.nowMs lastMs
  saturatingAdd currentTokens (TokenBucketInner.calculateNewTokens elapsedMs refillRateMicro)

/-- `TokenBucketInner::try_consume_atomic`, one access to the bucket at a
time. -/
def tryConsumeAtomic (bucket : TokenBucketInner) (call : ConsumeCall) (spurious : Bool) :
    Option (TokenBucketInner × ConsumeCall) :=
  match call.point with
  | .loadRate => some (bucket, { call with point := .loadLast bucket.refillRateMicro })
  | .loadLast rate => some (bucket, { call with point := .loadTokens rate bucket.lastRefillMs 0 })
  | .loadTokens rate lastMs retries =>
      if 10 < retries then some (bucket, { call with point := .returned false (.error 1) })
      else some (bucket, { call with point := .exchange rate lastMs retries bucket.tokensMicro })
  | .exchange rate lastMs retries currentTokens =>
      let updated := call.updatedTokens rate lastMs currentTokens
      if updated < call.amountMicro then
        -- The result of this exchange is ignored.
        let (tokens, exchanged) :=
          compareExchangeWeak bucket.tokensMicro currentTokens updated spurious
        let wait := TokenBucketInner.waitMs (call.amountMicro - updated) rate
        some ({ bucket with tokensMicro := tokens },
          { call with point := .storeLast (exchanged && decide (lastMs < call.nowMs)) (.error wait) })
      else
        let (tokens, exchanged) := compareExchangeWeak bucket.tokensMicro currentTokens
          (updated - call.amountMicro) spurious
        let bucket := { bucket with tokensMicro := tokens }
        if exchanged then
          some (bucket, { call with point := .storeLast (decide (lastMs < call.nowMs)) (.ok ()) })
        else some (bucket, { call with point := .loadTokens rate lastMs (retries + 1) })
  | .storeLast refilled result =>
      some ({ bucket with lastRefillMs := call.nowMs },
        { call with point := .returned refilled result })
  | .returned .. => none

/-- The call's exchange has added a refill, for the time up to its `now_ms`. -/
def refilled (call : ConsumeCall) : Bool :=
  match call.point with
  | .storeLast refilled _ | .returned refilled _ => refilled
  | _ => false

/-- The tokens the call has taken out of the bucket. -/
def taken (call : ConsumeCall) : Nat :=
  match call.point with
  | .storeLast _ (.ok ()) | .returned _ (.ok ()) => call.amountMicro.toNat
  | _ => 0

/-- The tokens of a call that has returned `Ok`. -/
def granted (call : ConsumeCall) : Nat :=
  match call.point with
  | .returned _ (.ok ()) => call.amountMicro.toNat
  | _ => 0

theorem granted_le_taken (call : ConsumeCall) : call.granted ≤ call.taken := by
  unfold granted taken
  split <;> simp_all

/-- A rate the call has loaded is the rate of the bucket. -/
def LoadedRate (rate : UInt64) (call : ConsumeCall) : Prop :=
  match call.point with
  | .loadLast loaded | .loadTokens loaded _ _ | .exchange loaded _ _ _ => loaded = rate
  | _ => True

/-- The call is about to exchange the tokens, and will succeed. -/
def Exchanges (bucket : TokenBucketInner) (call : ConsumeCall) (spurious : Bool)
    (rate lastMs : UInt64) : Prop :=
  spurious = false ∧ ∃ retries, call.point = .exchange rate lastMs retries bucket.tokensMicro

/-- A step of a call leaves the rate and the reading of the clock, and what it
loads as the rate is the rate. -/
structure CallFrame (bucket : TokenBucketInner) (call : ConsumeCall) (bucket' : TokenBucketInner)
    (call' : ConsumeCall) : Prop where
  rate : bucket'.refillRateMicro = bucket.refillRateMicro
  nowMs : call'.nowMs = call.nowMs
  loaded : call.LoadedRate bucket.refillRateMicro → call'.LoadedRate bucket.refillRateMicro

/-- What a step of a call does to the tokens: nothing, or an exchange that adds
at most the refill of the call and takes its tokens. -/
inductive TokenStep (bucket : TokenBucketInner) (call : ConsumeCall) (spurious : Bool)
    (bucket' : TokenBucketInner) (call' : ConsumeCall) : Prop where
  | quiet (tokens : bucket'.tokensMicro = bucket.tokensMicro) (taken : call'.taken = call.taken)
      (refilled : call'.refilled = call.refilled)
  | exchange {rate lastMs : UInt64} (exchanges : call.Exchanges bucket spurious rate lastMs)
      (untouched : call.refilled = false ∧ call.taken = 0)
      (refilled : call'.refilled = decide (lastMs < call.nowMs))
      (tokens : bucket'.tokensMicro.toNat + call'.taken ≤
        (call.updatedTokens rate lastMs bucket.tokensMicro).toNat)

theorem exchanged_of_compareExchangeWeak {cell current new result : UInt64} {spurious : Bool}
    (ran : compareExchangeWeak cell current new spurious = (result, true)) :
    spurious = false ∧ current = cell ∧ result = new := by
  unfold compareExchangeWeak at ran
  split at ran
  · rename_i succeeds
    cases ran
    exact ⟨succeeds.2, succeeds.1.symm, rfl⟩
  · cases ran

theorem kept_of_compareExchangeWeak {cell current new result : UInt64} {spurious : Bool}
    (ran : compareExchangeWeak cell current new spurious = (result, false)) : result = cell := by
  unfold compareExchangeWeak at ran
  split at ran <;> cases ran
  rfl

theorem tryConsumeAtomic_cases {bucket bucket' : TokenBucketInner} {call call' : ConsumeCall}
    {spurious : Bool} (step : tryConsumeAtomic bucket call spurious = some (bucket', call')) :
    CallFrame bucket call bucket' call' ∧ TokenStep bucket call spurious bucket' call' := by
  unfold tryConsumeAtomic at step
  cases point : call.point with
  | loadRate =>
      simp only [point, Option.some.injEq, Prod.mk.injEq] at step
      obtain ⟨rfl, rfl⟩ := step
      exact ⟨⟨rfl, rfl, fun _ => rfl⟩,
        .quiet rfl (by simp [taken, point]) (by simp [refilled, point])⟩
  | loadLast rate =>
      simp only [point, Option.some.injEq, Prod.mk.injEq] at step
      obtain ⟨rfl, rfl⟩ := step
      exact ⟨⟨rfl, rfl, by simp [LoadedRate, point]⟩,
        .quiet rfl (by simp [taken, point]) (by simp [refilled, point])⟩
  | loadTokens rate lastMs retries =>
      simp only [point] at step
      split at step
      all_goals
        simp only [Option.some.injEq, Prod.mk.injEq] at step
        obtain ⟨rfl, rfl⟩ := step
        exact ⟨⟨rfl, rfl, by simp [LoadedRate, point]⟩,
          .quiet rfl (by simp [taken, point]) (by simp [refilled, point])⟩
  | exchange rate lastMs retries currentTokens =>
      have untouched : call.refilled = false ∧ call.taken = 0 := by simp [refilled, taken, point]
      simp only [point] at step
      split at step
      · cases ran : compareExchangeWeak bucket.tokensMicro currentTokens
          (call.updatedTokens rate lastMs currentTokens) spurious with
        | mk result exchanged =>
            simp only [ran, Option.some.injEq, Prod.mk.injEq] at step
            obtain ⟨rfl, rfl⟩ := step
            refine ⟨⟨rfl, rfl, fun _ => trivial⟩, ?_⟩
            cases exchanged with
            | true =>
                obtain ⟨works, rfl, rfl⟩ := exchanged_of_compareExchangeWeak ran
                exact .exchange ⟨works, retries, point⟩ untouched rfl (Nat.le_refl _)
            | false =>
                refine .quiet (kept_of_compareExchangeWeak ran) untouched.2.symm ?_
                rw [untouched.1]
                rfl
      · rename_i enough
        cases ran : compareExchangeWeak bucket.tokensMicro currentTokens
          (call.updatedTokens rate lastMs currentTokens - call.amountMicro) spurious with
        | mk result exchanged =>
            simp only [ran] at step
            cases exchanged with
            | true =>
                simp only [if_true, Option.some.injEq, Prod.mk.injEq] at step
                obtain ⟨rfl, rfl⟩ := step
                obtain ⟨works, rfl, rfl⟩ := exchanged_of_compareExchangeWeak ran
                have le := UInt64.not_lt.mp enough
                refine ⟨⟨rfl, rfl, fun _ => trivial⟩,
                  .exchange ⟨works, retries, point⟩ untouched rfl ?_⟩
                rw [UInt64.toNat_sub_of_le _ _ le]
                exact Nat.le_of_eq (Nat.sub_add_cancel le)
            | false =>
                simp only [Bool.false_eq_true, if_false, Option.some.injEq, Prod.mk.injEq] at step
                obtain ⟨rfl, rfl⟩ := step
                exact ⟨⟨rfl, rfl, by simp [LoadedRate, point]⟩,
                  .quiet (kept_of_compareExchangeWeak ran) untouched.2.symm untouched.1.symm⟩
  | storeLast refilled' result =>
      simp only [point, Option.some.injEq, Prod.mk.injEq] at step
      obtain ⟨rfl, rfl⟩ := step
      exact ⟨⟨rfl, rfl, fun _ => trivial⟩,
        .quiet rfl (by cases result <;> simp [taken, point]) (by simp [refilled, point])⟩
  | returned refilled' result => simp [point] at step

/-- The refill of a call covers the time since the refill it has loaded. -/
theorem updatedTokens_le (call : ConsumeCall) (rate lastMs currentTokens : UInt64) :
    1000 * (call.updatedTokens rate lastMs currentTokens).toNat ≤
      1000 * currentTokens.toNat + rate.toNat * (call.nowMs.toNat - lastMs.toNat) := by
  have added := toNat_saturatingAdd_le currentTokens
    (TokenBucketInner.calculateNewTokens (saturatingSub call.nowMs lastMs) rate)
  have refill := TokenBucketInner.calculateNewTokens_le (saturatingSub call.nowMs lastMs) rate
  rw [toNat_saturatingSub] at refill
  calc 1000 * (call.updatedTokens rate lastMs currentTokens).toNat
      ≤ 1000 * (currentTokens.toNat + (TokenBucketInner.calculateNewTokens
          (saturatingSub call.nowMs lastMs) rate).toNat) := Nat.mul_le_mul_left _ added
    _ ≤ 1000 * currentTokens.toNat + rate.toNat * (call.nowMs.toNat - lastMs.toNat) := by omega

end ConsumeCall

/-! ## Any number of calls -/

structure SharedBucket where
  bucket : TokenBucketInner
  /-- Milliseconds since the creation of the bucket. -/
  clockMs : Nat

/-- A bucket and the calls on it, running and returned. -/
abbrev Consumers := Concurrent SharedBucket ConsumeCall

inductive ConsumerAction where
  /-- The clock advances. -/
  | advance (ms : Nat)
  /-- A task reads the clock and calls `try_consume_atomic`. -/
  | call (amountMicro : UInt64)
  /-- A call takes its next step; its exchange may fail spuriously. -/
  | proceed (i : Nat) (spurious : Bool)

namespace Consumers

def callStep (shared : SharedBucket) (call : ConsumeCall) (spurious : Bool) :
    Option (SharedBucket × ConsumeCall) := do
  let (bucket, call) ← call.tryConsumeAtomic shared.bucket spurious
  some ({ shared with bucket }, call)

def step : TransitionSystem Consumers ConsumerAction
  | s, .advance ms =>
      some { s with shared := { s.shared with clockMs := s.shared.clockMs + ms } }
  | s, .call amountMicro =>
      some (s.spawn ⟨amountMicro, UInt64.ofNat s.shared.clockMs, .loadRate⟩)
  | s, .proceed i spurious => s.act callStep i spurious

/-- A new bucket, on which nobody has called. -/
def start (initialMicro rateMicro : UInt64) : Consumers where
  shared := { bucket := ⟨initialMicro, rateMicro, 0⟩, clockMs := 0 }
  processes := []

/-- The total of all calls that have returned `Ok`. -/
def grantedMicro (s : Consumers) : Nat := total ConsumeCall.granted s.processes

def takenMicro (s : Consumers) : Nat := total ConsumeCall.taken s.processes

theorem grantedMicro_le_takenMicro (s : Consumers) : s.grantedMicro ≤ s.takenMicro :=
  total_le_total ConsumeCall.granted_le_taken s.processes

/-- The condition under which the bound holds: the call of an exchange that adds a
refill has loaded a time of the last refill that is not before the clock reading
of any call that has added one. -/
def refillsFresh (s : Consumers) : ConsumerAction → Bool
  | .proceed i false =>
      match s.processes[i]? with
      | some ⟨_, nowMs, .exchange _ lastMs _ currentTokens⟩ =>
          s.shared.bucket.tokensMicro != currentTokens || decide (nowMs ≤ lastMs) ||
            s.processes.all fun other => !other.refilled || decide (other.nowMs ≤ lastMs)
      | _ => true
  | _ => true

/-! ## The balance of the bucket -/

/-- Refills have been added for the time up to `credited`, which is no later than
the clock readings of the calls that added them. -/
def CreditedTo (processes : List ConsumeCall) (credited : Nat) : Prop :=
  ∀ ms, (∀ call ∈ processes, call.refilled = true → call.nowMs.toNat ≤ ms) → credited ≤ ms

theorem creditedTo_set {processes : List ConsumeCall} {i : Nat} {call call' : ConsumeCall}
    {credited : Nat} (found : processes[i]? = some call) (now : call'.nowMs = call.nowMs)
    (refilled : call'.refilled = call.refilled) (before : CreditedTo processes credited) :
    CreditedTo (processes.set i call') credited := by
  intro ms bound
  apply before
  intro other member
  rcases mem_set_or_eq found call' member with kept | rfl
  · exact bound other kept
  · have moved := bound call' (mem_set_self found call')
    rwa [now, refilled] at moved

theorem creditedTo_spawn {processes : List ConsumeCall} {credited : Nat} (call : ConsumeCall)
    (before : CreditedTo processes credited) : CreditedTo (processes ++ [call]) credited :=
  fun ms bound => before ms fun other member => bound other (List.mem_append_left _ member)

/-- The tokens in the bucket and the tokens taken come from the initial tokens and
the credited time. -/
structure Balanced (initialMicro rateMicro : UInt64) (s : Consumers) : Prop where
  rate : s.shared.bucket.refillRateMicro = rateMicro
  loaded : ∀ call ∈ s.processes, call.LoadedRate rateMicro
  clock : ∀ call ∈ s.processes, call.nowMs.toNat ≤ s.shared.clockMs
  balance : ∃ credited ≤ s.shared.clockMs, CreditedTo s.processes credited ∧
    1000 * (s.shared.bucket.tokensMicro.toNat + s.takenMicro) ≤
      1000 * initialMicro.toNat + rateMicro.toNat * credited

variable {initialMicro rateMicro : UInt64}

theorem balanced_start : Balanced initialMicro rateMicro (start initialMicro rateMicro) where
  rate := rfl
  loaded := by simp [start]
  clock := by simp [start]
  balance := ⟨0, Nat.le_refl _, fun _ _ => Nat.zero_le _, Nat.le_refl _⟩

/-- What the condition says of an exchange that is about to succeed: it adds no
refill, or every refill so far is for the time before the one it has loaded. -/
theorem fresh_of_refillsFresh {s : Consumers} {i : Nat} {spurious : Bool} {call : ConsumeCall}
    {rate lastMs : UInt64} (allowed : refillsFresh s (.proceed i spurious) = true)
    (found : s.processes[i]? = some call)
    (exchanges : call.Exchanges s.shared.bucket spurious rate lastMs) :
    call.nowMs ≤ lastMs ∨
      ∀ other ∈ s.processes, other.refilled = true → other.nowMs.toNat ≤ lastMs.toNat := by
  obtain ⟨rfl, retries, point⟩ := exchanges
  obtain ⟨amountMicro, nowMs, _⟩ := call
  subst point
  simp only [refillsFresh, found, bne_self_eq_false, Bool.false_or, Bool.or_eq_true,
    decide_eq_true_eq, List.all_eq_true, Bool.not_eq_true'] at allowed
  refine allowed.imp_right fun all other member refilled => ?_
  rcases all other member with none | early
  · exact absurd refilled (by simp [none])
  · exact early

/-- The accounting of one exchange: the refill is for the time since `lastMs`,
and with it the balance holds up to `later`. -/
theorem balance_exchange {tokens tokens' taken taken' amount credited nowMs lastMs later : Nat}
    {initial rate updated : Nat}
    (balance : 1000 * (tokens + taken) ≤ 1000 * initial + rate * credited)
    (refill : 1000 * updated ≤ 1000 * tokens + rate * (nowMs - lastMs))
    (exchanged : tokens' + amount ≤ updated) (total : taken' = taken + amount)
    (fresh : credited + (nowMs - lastMs) ≤ later) :
    1000 * (tokens' + taken') ≤ 1000 * initial + rate * later := by
  have credit : rate * credited + rate * (nowMs - lastMs) ≤ rate * later := by
    rw [← Nat.mul_add]
    exact Nat.mul_le_mul_left _ fresh
  omega

/-- A step of a call keeps the balance. -/
theorem balanced_proceed {s : Consumers} {i : Nat} {spurious : Bool} {call call' : ConsumeCall}
    {bucket' : TokenBucketInner} (inv : Balanced initialMicro rateMicro s)
    (found : s.processes[i]? = some call)
    (allowed : refillsFresh s (.proceed i spurious) = true)
    (step : call.tryConsumeAtomic s.shared.bucket spurious = some (bucket', call')) :
    Balanced initialMicro rateMicro
      ⟨{ s.shared with bucket := bucket' }, s.processes.set i call'⟩ := by
  have member := List.mem_of_getElem? found
  have onTime := inv.clock call member
  obtain ⟨frame, tokenStep⟩ := ConsumeCall.tryConsumeAtomic_cases step
  have now := frame.nowMs
  have loaded := frame.loaded (inv.rate ▸ inv.loaded call member)
  have changed := total_set_add (f := ConsumeCall.taken) found call'
  obtain ⟨credited, past, creditedTo, balance⟩ := inv.balance
  refine ⟨frame.rate.trans inv.rate, forall_set inv.loaded (inv.rate ▸ loaded),
    forall_set inv.clock (now ▸ onTime), ?_⟩
  cases tokenStep with
  | quiet tokens taken refilled =>
      refine ⟨credited, past, creditedTo_set found now refilled creditedTo, ?_⟩
      simp only [takenMicro, tokens] at balance ⊢
      omega
  | @exchange rate' lastMs exchanges untouched refilled tokens =>
      have rateLoaded : rate' = rateMicro := by
        obtain ⟨-, retries, point⟩ := exchanges
        simpa only [ConsumeCall.LoadedRate, point] using inv.loaded call member
      subst rateLoaded
      have refill := call.updatedTokens_le rate' lastMs s.shared.bucket.tokensMicro
      have taken : total ConsumeCall.taken (s.processes.set i call') =
          s.takenMicro + call'.taken := by
        rw [untouched.2] at changed
        exact changed
      rcases Nat.lt_or_ge lastMs.toNat call.nowMs.toNat with adds | idle
      · have early : credited ≤ lastMs.toNat := by
          rcases fresh_of_refillsFresh allowed found exchanges with late | fresh
          · exact absurd adds (Nat.not_lt.mpr late)
          · exact creditedTo _ fresh
        refine ⟨call.nowMs.toNat, onTime, fun ms bound => ?_,
          balance_exchange balance refill tokens taken (by omega)⟩
        have mine := bound call' (mem_set_self found call')
        rw [refilled, now] at mine
        exact mine (decide_eq_true adds)
      · have none : call'.refilled = call.refilled := by
          rw [refilled, untouched.1]
          exact decide_eq_false (Nat.not_lt.mpr idle)
        exact ⟨credited, past, creditedTo_set found now none creditedTo,
          balance_exchange balance refill tokens taken (by omega)⟩

theorem balanced_step {s t : Consumers} {action : ConsumerAction}
    (inv : Balanced initialMicro rateMicro s) (allowed : refillsFresh s action = true)
    (moved : step s action = some t) : Balanced initialMicro rateMicro t := by
  cases action with
  | advance ms =>
      cases moved
      obtain ⟨credited, past, creditedTo, balance⟩ := inv.balance
      exact ⟨inv.rate, inv.loaded,
        fun call member => Nat.le_trans (inv.clock call member) (Nat.le_add_right ..),
        credited, Nat.le_trans past (Nat.le_add_right ..), creditedTo, balance⟩
  | call amountMicro =>
      cases moved
      obtain ⟨credited, past, creditedTo, balance⟩ := inv.balance
      refine ⟨inv.rate, forall_spawn inv.loaded trivial, forall_spawn inv.clock ?_,
        credited, past, creditedTo_spawn _ creditedTo, ?_⟩
      · exact Nat.le_trans (Nat.le_of_eq UInt64.toNat_ofNat') (Nat.mod_le ..)
      · rw [takenMicro, spawn, total_spawn]
        exact balance
  | proceed i spurious =>
      obtain ⟨call, call', shared', found, ran, rfl⟩ := act_eq_some moved
      obtain ⟨⟨bucket', _⟩, consumed, here⟩ := Option.bind_eq_some_iff.mp ran
      cases here
      exact balanced_proceed inv found allowed consumed

/-- **No over-grant.** Where no exchange adds a refill from an outdated time of the
last refill, the tokens granted by any time are at most the initial tokens and
that time at the refill rate. -/
theorem granted_le_rate {s : Consumers} (run : Run step refillsFresh (start initialMicro rateMicro) s) :
    s.grantedMicro ≤ initialMicro.toNat + rateMicro.toNat * s.shared.clockMs / 1000 := by
  obtain ⟨credited, past, -, balance⟩ := (run.invariant balanced_start balanced_step).balance
  have granted := s.grantedMicro_le_takenMicro
  have elapsed : rateMicro.toNat * credited ≤ rateMicro.toNat * s.shared.clockMs :=
    Nat.mul_le_mul_left _ past
  omega

/-- Call `i` runs up to its exchange. -/
def upToExchange (i : Nat) : List ConsumerAction :=
  [.proceed i false, .proceed i false, .proceed i false]

/-- Two calls for one micro-token, a millisecond each after the other. -/
def oneEachMillisecond : List ConsumerAction :=
  [.advance 1, .call 1] ++ upToExchange 0 ++ [.proceed 0 false, .proceed 0 false] ++
    [.advance 1, .call 1] ++ upToExchange 1 ++ [.proceed 1 false, .proceed 1 false]

theorem granted_le_rate_twice :
    ∃ s, exec step refillsFresh (start 0 1000) oneEachMillisecond = some s ∧
      s.grantedMicro = 2 ∧ s.grantedMicro ≤ 0 + 1000 * s.shared.clockMs / 1000 :=
  ⟨_, rfl, rfl, granted_le_rate
    (@run_of_exec _ _ step refillsFresh (start 0 1000) _ oneEachMillisecond rfl)⟩

/-- Two calls that load the time of the last refill before either stores it are
each granted the micro-token of the same millisecond. -/
theorem two_calls_credit_one_millisecond :
    ∃ s, exec step anything (start 0 1000)
        ([.advance 1, .call 1, .call 1] ++ upToExchange 0 ++ upToExchange 1 ++
          [.proceed 0 false, .proceed 1 false, .proceed 0 false, .proceed 1 false]) = some s ∧
      s.grantedMicro = 2 ∧ ¬ s.grantedMicro ≤ 0 + 1000 * s.shared.clockMs / 1000 :=
  ⟨_, rfl, rfl, by decide⟩

end Consumers
end VideoStorage.Claim
