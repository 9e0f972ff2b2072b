import VideoStorage.Claim.BucketStore
import VideoStorage.Claim.Consumers

/-!
# One call on a token bucket

`try_consume_atomic` for a caller that nobody interferes with: the bucket
afterwards and the result. Its exchange may still fail spuriously, each time it
is tried. The interleaved call of `Consumers` takes the same way when it runs
alone (`steps_alone`).

In a debug build a product that does not fit in 64 bits panics. All products of a
call fit exactly when the refill does (`consumeFits_iff`): the formula for a long
time since the last refill divides first, but the seconds times the rate still
overflow within the life of a token.
-/

set_option autoImplicit false

namespace VideoStorage.Claim

open RustStd

namespace TokenBucketInner

/-! ## The call -/

/-- The bucket after an exchange and the store of the time. -/
def refilledTo (bucket : TokenBucketInner) (tokensMicro nowMs : UInt64) : TokenBucketInner :=
  { bucket with tokensMicro, lastRefillMs := nowMs }

/-- The loop of `try_consume_atomic` with so many exchanges left to try, the last
of which is number 0. -/
def consumeLoop (bucket : TokenBucketInner) (amountMicro nowMs newTokensMicro : UInt64)
    (spurious : Nat → Bool) : Nat → TokenBucketInner × Except UInt64 Unit
  | 0 => (bucket, .error 1)
  | left + 1 =>
      let currentTokens := bucket.tokensMicro
      let updatedTokens := saturatingAdd currentTokens newTokensMicro
      if updatedTokens < amountMicro then
        let wait := waitMs (amountMicro - updatedTokens) bucket.refillRateMicro
        -- The result of this exchange is ignored.
        let (tokens, _) :=
          compareExchangeWeak bucket.tokensMicro currentTokens updatedTokens (spurious left)
        (bucket.refilledTo tokens nowMs, .error wait)
      else
        let (tokens, exchanged) := compareExchangeWeak bucket.tokensMicro currentTokens
          (updatedTokens - amountMicro) (spurious left)
        if exchanged then (bucket.refilledTo tokens nowMs, .ok ())
        else consumeLoop bucket amountMicro nowMs newTokensMicro spurious left

/-- The number of exchanges that are tried: `retries` is not above 10. -/
def maxExchanges : Nat := 11

/-- The tokens that a call at a time adds. -/
def refill (bucket : TokenBucketInner) (nowMs : UInt64) : UInt64 :=
  calculateNewTokens (saturatingSub nowMs bucket.lastRefillMs) bucket.refillRateMicro

/-- `TokenBucketInner::try_consume_atomic`, for one caller. -/
def tryConsumeAtomic (bucket : TokenBucketInner) (amountMicro nowMs : UInt64)
    (spurious : Nat → Bool) : TokenBucketInner × Except UInt64 Unit :=
  consumeLoop bucket amountMicro nowMs (bucket.refill nowMs) spurious maxExchanges

/-- The bucket holds enough for a call at a time. -/
def Suffices (bucket : TokenBucketInner) (amountMicro nowMs : UInt64) : Prop :=
  amountMicro ≤ saturatingAdd bucket.tokensMicro (bucket.refill nowMs)

instance (bucket : TokenBucketInner) (amountMicro nowMs : UInt64) :
    Decidable (bucket.Suffices amountMicro nowMs) :=
  inferInstanceAs (Decidable (amountMicro ≤ saturatingAdd _ _))

/-- What a call does. -/
inductive Consumed (bucket : TokenBucketInner) (amountMicro nowMs : UInt64)
    (spurious : Nat → Bool) : TokenBucketInner × Except UInt64 Unit → Prop where
  /-- Every exchange has failed. -/
  | gaveUp (enough : bucket.Suffices amountMicro nowMs)
      (fails : ∀ i < maxExchanges, spurious i = true) :
      Consumed bucket amountMicro nowMs spurious (bucket, .error 1)
  | granted (enough : bucket.Suffices amountMicro nowMs)
      (works : ∃ i < maxExchanges, spurious i = false) :
      Consumed bucket amountMicro nowMs spurious
        (bucket.refilledTo
          (saturatingAdd bucket.tokensMicro (bucket.refill nowMs) - amountMicro) nowMs, .ok ())
  /-- There are not enough tokens, and the refill is added. -/
  | refused (wait : UInt64) (lacks : ¬ bucket.Suffices amountMicro nowMs)
      (works : spurious 10 = false) :
      Consumed bucket amountMicro nowMs spurious
        (bucket.refilledTo (saturatingAdd bucket.tokensMicro (bucket.refill nowMs)) nowMs,
          .error wait)
  /-- There are not enough tokens, and the refill is lost. -/
  | lost (wait : UInt64) (lacks : ¬ bucket.Suffices amountMicro nowMs)
      (fails : spurious 10 = true) :
      Consumed bucket amountMicro nowMs spurious
        (bucket.refilledTo bucket.tokensMicro nowMs, .error wait)

section Loop

variable {bucket : TokenBucketInner} {amountMicro newTokensMicro : UInt64} (nowMs : UInt64)
  (spurious : Nat → Bool) (left : Nat)

/-- Without enough tokens the loop ends at once. -/
theorem consumeLoop_of_lacks
    (lacks : ¬ amountMicro ≤ saturatingAdd bucket.tokensMicro newTokensMicro) :
    bucket.consumeLoop amountMicro nowMs newTokensMicro spurious (left + 1) =
      (bucket.refilledTo
        (if spurious left then bucket.tokensMicro
          else saturatingAdd bucket.tokensMicro newTokensMicro) nowMs,
        .error (waitMs (amountMicro - saturatingAdd bucket.tokensMicro newTokensMicro)
          bucket.refillRateMicro)) := by
  rw [consumeLoop, if_pos (UInt64.not_le.mp lacks), compareExchangeWeak_self]
  cases spurious left <;> rfl

/-- With enough tokens it ends at the first exchange that works. -/
theorem consumeLoop_of_enough
    (enough : amountMicro ≤ saturatingAdd bucket.tokensMicro newTokensMicro) :
    bucket.consumeLoop amountMicro nowMs newTokensMicro spurious (left + 1) =
      if spurious left then
        bucket.consumeLoop amountMicro nowMs newTokensMicro spurious left
      else
        (bucket.refilledTo (saturatingAdd bucket.tokensMicro newTokensMicro - amountMicro) nowMs,
          .ok ()) := by
  rw [consumeLoop, if_neg (UInt64.not_lt.mpr enough), compareExchangeWeak_self]
  cases spurious left <;> rfl

theorem consumeLoop_cases
    (enough : amountMicro ≤ saturatingAdd bucket.tokensMicro newTokensMicro) :
    ((∀ i < left, spurious i = true) ∧
        bucket.consumeLoop amountMicro nowMs newTokensMicro spurious left = (bucket, .error 1)) ∨
      ((∃ i < left, spurious i = false) ∧
        bucket.consumeLoop amountMicro nowMs newTokensMicro spurious left =
          (bucket.refilledTo (saturatingAdd bucket.tokensMicro newTokensMicro - amountMicro) nowMs,
            .ok ())) := by
  induction left with
  | zero => exact .inl ⟨nofun, rfl⟩
  | succ left ih =>
      rw [consumeLoop_of_enough nowMs spurious left enough]
      cases here : spurious left with
      | false => exact .inr ⟨⟨left, Nat.lt_succ_self left, here⟩, rfl⟩
      | true =>
          rcases ih with ⟨fails, loop⟩ | ⟨⟨i, less, works⟩, loop⟩
          · refine .inl ⟨fun i less => ?_, loop⟩
            rcases Nat.lt_succ_iff_lt_or_eq.mp less with before | rfl
            · exact fails i before
            · exact here
          · exact .inr ⟨⟨i, Nat.lt_succ_of_lt less, works⟩, loop⟩

end Loop

theorem tryConsumeAtomic_cases (bucket : TokenBucketInner) (amountMicro nowMs : UInt64)
    (spurious : Nat → Bool) :
    Consumed bucket amountMicro nowMs spurious
      (bucket.tryConsumeAtomic amountMicro nowMs spurious) := by
  by_cases enough : bucket.Suffices amountMicro nowMs
  · rcases consumeLoop_cases nowMs spurious maxExchanges enough with
      ⟨fails, loop⟩ | ⟨works, loop⟩
    · rw [tryConsumeAtomic, loop]
      exact .gaveUp enough fails
    · rw [tryConsumeAtomic, loop]
      exact .granted enough works
  · rw [tryConsumeAtomic, maxExchanges, consumeLoop_of_lacks nowMs spurious 10 enough]
    cases here : spurious 10 with
    | false => exact .refused _ enough here
    | true => exact .lost _ enough here

end TokenBucketInner

/-! ## The interleaved call, alone -/

namespace ConsumeCall

/-- A step of a call that runs alone. -/
def Step (before after : TokenBucketInner × ConsumeCall) : Prop :=
  ∃ spurious, tryConsumeAtomic before.1 before.2 spurious = some after

/-- The exchange of a call that runs alone. -/
theorem exchange_alone (bucket : TokenBucketInner) (amountMicro nowMs : UInt64) (tried : Nat)
    (spurious : Bool) : ∃ refilled,
      tryConsumeAtomic bucket ⟨amountMicro, nowMs, .exchange bucket.refillRateMicro
          bucket.lastRefillMs tried bucket.tokensMicro⟩ spurious =
        if bucket.Suffices amountMicro nowMs then
          if spurious then
            some (bucket, ⟨amountMicro, nowMs, .loadTokens bucket.refillRateMicro
              bucket.lastRefillMs (tried + 1)⟩)
          else
            some (bucket.refilledTo
                (saturatingAdd bucket.tokensMicro (bucket.refill nowMs) - amountMicro)
                bucket.lastRefillMs,
              ⟨amountMicro, nowMs, .storeLast refilled (.ok ())⟩)
        else
          some (bucket.refilledTo
              (if spurious then bucket.tokensMicro
                else saturatingAdd bucket.tokensMicro (bucket.refill nowMs))
              bucket.lastRefillMs,
            ⟨amountMicro, nowMs, .storeLast refilled (.error (TokenBucketInner.waitMs
              (amountMicro - saturatingAdd bucket.tokensMicro (bucket.refill nowMs))
              bucket.refillRateMicro))⟩) := by
  refine ⟨!spurious && decide (bucket.lastRefillMs < nowMs), ?_⟩
  unfold tryConsumeAtomic
  simp only [compareExchangeWeak_self]
  by_cases enough : bucket.Suffices amountMicro nowMs
  · rw [if_pos enough]
    refine (if_neg (UInt64.not_lt.mpr enough)).trans ?_
    cases spurious <;> rfl
  · rw [if_neg enough]
    refine (if_pos (UInt64.not_le.mp enough)).trans ?_
    cases spurious <;> rfl

/-- **A call that runs alone** ends as `TokenBucketInner.tryConsumeAtomic` says. -/
theorem steps_alone (bucket : TokenBucketInner) (amountMicro nowMs : UInt64)
    (spurious : Nat → Bool) : ∃ refilled,
      Relation.ReflTransGen Step (bucket, ⟨amountMicro, nowMs, .loadRate⟩)
        ((bucket.tryConsumeAtomic amountMicro nowMs spurious).1, ⟨amountMicro, nowMs,
          .returned refilled (bucket.tryConsumeAtomic amountMicro nowMs spurious).2⟩) := by
  -- From the load of the tokens on, by induction on the exchanges that are left.
  have loop : ∀ left tried, tried + left = TokenBucketInner.maxExchanges → ∃ refilled,
      Relation.ReflTransGen Step
        (bucket, ⟨amountMicro, nowMs,
          .loadTokens bucket.refillRateMicro bucket.lastRefillMs tried⟩)
        ((bucket.consumeLoop amountMicro nowMs (bucket.refill nowMs) spurious left).1,
          ⟨amountMicro, nowMs, .returned refilled
            (bucket.consumeLoop amountMicro nowMs (bucket.refill nowMs) spurious left).2⟩) := by
    intro left
    induction left with
    | zero =>
        rintro _ rfl
        exact ⟨false, .single ⟨false, rfl⟩⟩
    | succ left ih =>
        intro tried all
        have few : ¬ 10 < tried := by
          rw [TokenBucketInner.maxExchanges] at all
          omega
        have load : Step
            (bucket, ⟨amountMicro, nowMs,
              .loadTokens bucket.refillRateMicro bucket.lastRefillMs tried⟩)
            (bucket, ⟨amountMicro, nowMs,
              .exchange bucket.refillRateMicro bucket.lastRefillMs tried bucket.tokensMicro⟩) :=
          ⟨false, by simp only [tryConsumeAtomic, if_neg few]⟩
        obtain ⟨refilled, exchange⟩ :=
          exchange_alone bucket amountMicro nowMs tried (spurious left)
        by_cases enough : bucket.Suffices amountMicro nowMs
        · rw [if_pos enough] at exchange
          rw [TokenBucketInner.consumeLoop_of_enough nowMs spurious left enough]
          cases fails : spurious left with
          | false =>
              rw [fails] at exchange
              exact ⟨_, .head load (.head ⟨_, exchange⟩ (.single ⟨false, rfl⟩))⟩
          | true =>
              rw [fails] at exchange
              obtain ⟨refilled, more⟩ := ih (tried + 1) (by omega)
              exact ⟨refilled, .head load (.head ⟨_, exchange⟩ more)⟩
        · rw [if_neg enough] at exchange
          rw [TokenBucketInner.consumeLoop_of_lacks nowMs spurious left enough]
          exact ⟨_, .head load (.head ⟨_, exchange⟩ (.single ⟨false, rfl⟩))⟩
  obtain ⟨refilled, ends⟩ := loop TokenBucketInner.maxExchanges 0 (Nat.zero_add _)
  exact ⟨refilled, .head ⟨false, rfl⟩ (.head ⟨false, rfl⟩ ends)⟩

end ConsumeCall

/-! ## A debug build -/

namespace TokenBucketInner

variable {ε : Type}

/-- Multiplication, checked in a debug build. -/
def mulU64 (a b : UInt64) : Checked ε UInt64 :=
  if UInt64.size ≤ a.toNat * b.toNat then .error .panic else .ok (a * b)

/-- `calculate_new_tokens` in a debug build. -/
def calculateNewTokensChecked (elapsedMs refillRateMicro : UInt64) : Checked ε UInt64 :=
  if elapsedMs = 0 ∨ refillRateMicro = 0 then pure 0
  else if 1000000 < elapsedMs then mulU64 (elapsedMs / 1000) refillRateMicro
  else do
    let product ← mulU64 elapsedMs refillRateMicro
    pure (product / 1000)

/-- `wait_ms` in a debug build. -/
def waitMsChecked (neededMicro refillRateMicro : UInt64) : Checked ε UInt64 :=
  if 0 < refillRateMicro then do
    let product ← mulU64 neededMicro 1000
    pure (max (product / refillRateMicro) 1)
  else pure 1000

/-- `consumeLoop` in a debug build. -/
def consumeLoopChecked (bucket : TokenBucketInner) (amountMicro nowMs newTokensMicro : UInt64)
    (spurious : Nat → Bool) : Nat → Checked ε (TokenBucketInner × Except UInt64 Unit)
  | 0 => pure (bucket, .error 1)
  | left + 1 => do
      let currentTokens := bucket.tokensMicro
      let updatedTokens := saturatingAdd currentTokens newTokensMicro
      if updatedTokens < amountMicro then
        let wait ← waitMsChecked (amountMicro - updatedTokens) bucket.refillRateMicro
        let (tokens, _) :=
          compareExchangeWeak bucket.tokensMicro currentTokens updatedTokens (spurious left)
        pure (bucket.refilledTo tokens nowMs, .error wait)
      else
        let (tokens, exchanged) := compareExchangeWeak bucket.tokensMicro currentTokens
          (updatedTokens - amountMicro) (spurious left)
        if exchanged then pure (bucket.refilledTo tokens nowMs, .ok ())
        else consumeLoopChecked bucket amountMicro nowMs newTokensMicro spurious left

/-- One turn of the loop of `consume`. -/
def consumeOnce (bucket : TokenBucketInner) (amount nowMs : UInt64) (spurious : Nat → Bool) :
    TokenBucketInner × Except UInt64 Unit :=
  if bucket.refillRateMicro = 0 then (bucket, .ok ())
  else bucket.tryConsumeAtomic (amount * UInt64.ofNat microUnits) nowMs spurious

/-- One turn of the loop of `consume` in a debug build. -/
def consumeOnceChecked (bucket : TokenBucketInner) (amount nowMs : UInt64)
    (spurious : Nat → Bool) : Checked ε (TokenBucketInner × Except UInt64 Unit) :=
  if bucket.refillRateMicro = 0 then pure (bucket, .ok ())
  else do
    let amountMicro ← mulU64 amount (UInt64.ofNat microUnits)
    let newTokensMicro ← calculateNewTokensChecked (saturatingSub nowMs bucket.lastRefillMs)
      bucket.refillRateMicro
    consumeLoopChecked bucket amountMicro nowMs newTokensMicro spurious maxExchanges

/-- All products of a call fit in 64 bits: a debug build does not panic, and gives
what a release build gives. -/
def ConsumeFits (bucket : TokenBucketInner) (amount nowMs : UInt64) : Prop :=
  ∀ spurious, consumeOnceChecked (ε := Empty) bucket amount nowMs spurious =
    .ok (bucket.consumeOnce amount nowMs spurious)

theorem mulU64_of_lt {a b : UInt64} (fits : a.toNat * b.toNat < UInt64.size) :
    mulU64 (ε := ε) a b = .ok (a * b) :=
  if_neg (Nat.not_le.mpr fits)

/-- The refill fits when the whole seconds at the rate do. -/
theorem calculateNewTokensChecked_of_fits {elapsedMs refillRateMicro : UInt64}
    (small : refillRateMicro.toNat ≤ 128000000 * 65535)
    (fits : elapsedMs.toNat / 1000 * refillRateMicro.toNat < UInt64.size) :
    calculateNewTokensChecked (ε := ε) elapsedMs refillRateMicro =
      .ok (calculateNewTokens elapsedMs refillRateMicro) := by
  unfold calculateNewTokensChecked calculateNewTokens
  split
  · rfl
  · split
    · exact mulU64_of_lt (by rwa [UInt64.toNat_div])
    · rename_i short
      have few : elapsedMs.toNat ≤ 1000000 := UInt64.not_lt.mp short
      have whole : elapsedMs.toNat * refillRateMicro.toNat < UInt64.size :=
        Nat.lt_of_le_of_lt (Nat.mul_le_mul few small) (by decide)
      rw [mulU64_of_lt whole]
      rfl

theorem waitMsChecked_of_fits {neededMicro : UInt64} (refillRateMicro : UInt64)
    (fits : neededMicro.toNat * 1000 < UInt64.size) :
    waitMsChecked (ε := ε) neededMicro refillRateMicro =
      .ok (waitMs neededMicro refillRateMicro) := by
  unfold waitMsChecked waitMs
  split
  · rw [mulU64_of_lt fits]
    rfl
  · rfl

/-- The loop of a debug build, when a thousand times the amount fits. -/
theorem consumeLoopChecked_of_fits (bucket : TokenBucketInner) {amountMicro : UInt64}
    (nowMs newTokensMicro : UInt64) (spurious : Nat → Bool) (left : Nat)
    (fits : amountMicro.toNat * 1000 < UInt64.size) :
    consumeLoopChecked (ε := ε) bucket amountMicro nowMs newTokensMicro spurious left =
      .ok (bucket.consumeLoop amountMicro nowMs newTokensMicro spurious left) := by
  induction left with
  | zero => rfl
  | succ left ih =>
      rw [consumeLoopChecked, consumeLoop]
      dsimp only
      split
      · rename_i lacks
        have needed : (amountMicro - saturatingAdd bucket.tokensMicro newTokensMicro).toNat * 1000 <
            UInt64.size := by
          rw [UInt64.toNat_sub_of_le _ _ (UInt64.le_of_lt lacks)]
          exact Nat.lt_of_le_of_lt (Nat.mul_le_mul_right _ (Nat.sub_le ..)) fits
        rw [waitMsChecked_of_fits _ needed]
        rfl
      · split
        · rfl
        · exact ih

/-- The refill rate of a bucket that `create_bucket` makes. -/
def rateMicro (maxKbps : UInt16) : UInt64 :=
  (new (BucketStore.tokenRate maxKbps) (BucketStore.tokenRate maxKbps)).refillRateMicro

/-- A kilobit a second is 128 bytes a second. -/
theorem tokenRate_eq (maxKbps : UInt16) : BucketStore.tokenRate maxKbps = 128 * maxKbps.toNat := by
  unfold BucketStore.tokenRate
  split
  · omega
  · rename_i none
    have zero : maxKbps.toNat = 0 := Nat.eq_zero_of_not_pos none
    rw [zero]

theorem toNat_rateMicro (maxKbps : UInt16) :
    (rateMicro maxKbps).toNat = 128000000 * maxKbps.toNat := by
  have few := maxKbps.toNat_lt
  have fits : 128 * maxKbps.toNat * microUnits < UInt64.size := by
    rw [microUnits, UInt64.size]
    omega
  rw [rateMicro, new, tokenRate_eq, UInt64.toNat_ofNat_of_lt' fits, microUnits]
  omega

/-- More seconds than that at the rate overflow. -/
theorem refillOverflows_of_lt {elapsedMs refillRateMicro : UInt64} {maxKbps : UInt16}
    (rate : refillRateMicro.toNat = 128000000 * maxKbps.toNat)
    (many : 144115188075 < elapsedMs.toNat / 1000 * maxKbps.toNat) :
    calculateNewTokensChecked (ε := ε) elapsedMs refillRateMicro = .error .panic := by
  have few := maxKbps.toNat_lt
  have long : 1000000 < elapsedMs.toNat := by
    by_contra short
    have seconds : elapsedMs.toNat / 1000 ≤ 1000 := by omega
    have least := Nat.mul_le_mul seconds (Nat.le_of_lt_succ few)
    omega
  have overflows : UInt64.size ≤ (elapsedMs / 1000).toNat * refillRateMicro.toNat := by
    have quotient : (elapsedMs / 1000).toNat = elapsedMs.toNat / 1000 := UInt64.toNat_div ..
    rw [quotient, rate, Nat.mul_left_comm, UInt64.size]
    omega
  have runs : ¬ (elapsedMs = 0 ∨ refillRateMicro = 0) := by
    rintro (rfl | rfl)
    · exact absurd long (by decide)
    · rw [UInt64.toNat_zero, Nat.mul_zero] at overflows
      exact absurd overflows (by decide)
  have late : 1000000 < elapsedMs := long
  rw [calculateNewTokensChecked, if_neg runs, if_pos late, mulU64, if_pos overflows]

/-- **All products of a call fit** exactly when the whole seconds since the last
refill, times the bandwidth, are at most 2^64 / 128000000. -/
theorem consumeFits_iff {bucket : TokenBucketInner} {maxKbps : UInt16} {amount : UInt64}
    (nowMs : UInt64) (rate : bucket.refillRateMicro = rateMicro maxKbps)
    (chunk : amount.toNat ≤ 8388608) :
    bucket.ConsumeFits amount nowMs ↔
      (saturatingSub nowMs bucket.lastRefillMs).toNat / 1000 * maxKbps.toNat ≤ 144115188075 := by
  have rateNat := toNat_rateMicro maxKbps
  rw [← rate] at rateNat
  by_cases unlimited : bucket.refillRateMicro = 0
  · have none : maxKbps.toNat = 0 := by
      rw [unlimited] at rateNat
      change 0 = _ at rateNat
      omega
    rw [none]
    refine iff_of_true (fun spurious => ?_) (Nat.zero_le _)
    rw [consumeOnceChecked, if_pos unlimited, consumeOnce, if_pos unlimited]
    rfl
  · have micro : (UInt64.ofNat microUnits).toNat = 1000000 := rfl
    have size : UInt64.size = 18446744073709551616 := rfl
    have cost : amount.toNat * (UInt64.ofNat microUnits).toNat < UInt64.size := by
      rw [micro, size]
      omega
    have loopFits : (amount * UInt64.ofNat microUnits).toNat * 1000 < UInt64.size := by
      rw [UInt64.toNat_mul, Nat.mod_eq_of_lt cost, micro, size]
      omega
    constructor
    · intro fits
      by_contra many
      have overflows := refillOverflows_of_lt (ε := Empty) rateNat (Nat.not_le.mp many)
      have panics := fits fun _ => false
      rw [consumeOnceChecked, if_neg unlimited, mulU64_of_lt cost, bind_ok, overflows] at panics
      cases panics
    · intro few spurious
      have fits : (saturatingSub nowMs bucket.lastRefillMs).toNat / 1000 *
          bucket.refillRateMicro.toNat < UInt64.size := by
        rw [rateNat, Nat.mul_left_comm, size]
        omega
      have small : bucket.refillRateMicro.toNat ≤ 128000000 * 65535 := by
        rw [rateNat]
        exact Nat.mul_le_mul_left _ (Nat.le_of_lt_succ maxKbps.toNat_lt)
      rw [consumeOnceChecked, if_neg unlimited, mulU64_of_lt cost, bind_ok,
        calculateNewTokensChecked_of_fits small fits, bind_ok,
        consumeLoopChecked_of_fits _ _ _ _ _ loopFits, consumeOnce, if_neg unlimited]
      rfl

theorem consumeFits_iff_hour :
    ConsumeFits ⟨0, 512000000000, 0⟩ 8388608 3600000 ↔
      (saturatingSub 3600000 0).toNat / 1000 * (4000 : UInt16).toNat ≤ 144115188075 :=
  consumeFits_iff 3600000 (by decide) (by decide)

/-- A token with the largest bandwidth, whose bucket is not used for 25 days. The
token has not expired and clean-up does not find the bucket idle, for its clock
readings are the time since the reading itself. The refill wraps around. -/
theorem idle_bucket_overflows : ∃ bucket : ClaimBucket,
    (BucketStore.empty.createBucket ⟨List.replicate 28 0, rfl⟩
        ⟨⟨0, 65535, 0, []⟩, 2199058⟩ 0).2.cells = [bucket] ∧
      bucket.isExpired 2199057 = false ∧ bucket.isIdle 0 BucketStore.idleThresholdMs = false ∧
      bucket.bucket.refill 2199057000 = 1589650448384 ∧
      ¬ bucket.bucket.ConsumeFits 1 2199057000 := by
  refine ⟨_, rfl, rfl, rfl, rfl, fun fits => ?_⟩
  have panics := fits fun _ => false
  cases panics

end TokenBucketInner

end VideoStorage.Claim
