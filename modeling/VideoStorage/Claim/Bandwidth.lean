import Mathlib.Algebra.GroupWithZero.Nat
import VideoStorage.Claim.Consume

/-!
# What one caller gets out of a token bucket

A caller asks a bucket for tokens at times that do not decrease.

The tokens in the bucket and the tokens granted should be the initial ones and
the refill up to the time of the last refill. A call loses credit when it stores
the time of a refill that it did not add, or that the formula for long times cut
off. The balance is exact after a run if and only if no call of the run has lost
credit (`conserved_iff`).

Credit that is not used is kept without limit: a bucket has no capacity. So what
is granted in a window is bounded by the bandwidth since the bucket was created,
less what was granted before the window (`granted_in_window`), and not by the
bandwidth within the window (`idle_credit_exceeds_window`).
-/

set_option autoImplicit false

namespace VideoStorage.Claim

open RustStd TransitionSystem TokenBucketInner

/-! ## The balance -/

/-- A bucket with one caller. -/
structure Caller where
  bucket : TokenBucketInner
  /-- The time of the last call. -/
  nowMs : UInt64
  /-- The total of the calls that returned `Ok`. -/
  grantedMicro : Nat

/-- A call of `try_consume_atomic`. -/
structure TryConsume where
  amountMicro : UInt64
  nowMs : UInt64
  spurious : Nat → Bool

namespace Caller

/-- The tokens that a result grants. -/
def grant (amountMicro : UInt64) : Except UInt64 Unit → Nat
  | .ok () => amountMicro.toNat
  | .error _ => 0

def step : TransitionSystem Caller TryConsume := fun s call =>
  if s.nowMs ≤ call.nowMs then
    let (bucket, result) := s.bucket.tryConsumeAtomic call.amountMicro call.nowMs call.spurious
    some ⟨bucket, call.nowMs, s.grantedMicro + grant call.amountMicro result⟩
  else none

/-- A new bucket. -/
def start (initialMicro rateMicro : UInt64) : Caller := ⟨⟨initialMicro, rateMicro, 0⟩, 0, 0⟩

/-- The tokens in the bucket and the tokens granted are the initial ones and the
refill for the time up to the last one. -/
def Conserved (initialMicro : UInt64) (s : Caller) : Prop :=
  s.bucket.tokensMicro.toNat + s.grantedMicro =
    initialMicro.toNat + s.bucket.refillRateMicro.toNat * s.bucket.lastRefillMs.toNat / 1000

/-- The formula for long times drops no rest, and its product does not overflow. -/
def refillsExactly (elapsedMs refillRateMicro : UInt64) : Bool :=
  (decide (elapsedMs.toNat ≤ 1000000) || decide (elapsedMs.toNat % 1000 = 0)) &&
    decide (elapsedMs.toNat / 1000 * refillRateMicro.toNat < UInt64.size)

/-- The call does not lose credit: it changes nothing, or it adds an exact refill. -/
def keepsCredit (s : Caller) (call : TryConsume) : Bool :=
  let elapsedMs := saturatingSub call.nowMs s.bucket.lastRefillMs
  if s.bucket.Suffices call.amountMicro call.nowMs then
    (List.range maxExchanges).all call.spurious ||
      refillsExactly elapsedMs s.bucket.refillRateMicro
  else
    decide (elapsedMs = 0) ||
      !call.spurious 10 && refillsExactly elapsedMs s.bucket.refillRateMicro

/-- The refill does not saturate the counter. -/
def unsaturated (s : Caller) (call : TryConsume) : Bool :=
  decide (s.bucket.tokensMicro.toNat + (s.bucket.refill call.nowMs).toNat < UInt64.size)

/-- The condition under which no credit is lost. -/
def creditSafe (s : Caller) (call : TryConsume) : Bool := unsaturated s call && keepsCredit s call

end Caller

theorem toNat_saturatingAdd_of_lt {a b : UInt64} (fits : a.toNat + b.toNat < UInt64.size) :
    (saturatingAdd a b).toNat = a.toNat + b.toNat := by
  have least : min (a.toNat + b.toNat) (UInt64.size - 1) = a.toNat + b.toNat :=
    Nat.min_eq_left (Nat.le_sub_one_of_lt fits)
  rw [saturatingAdd, least, UInt64.toNat_ofNat_of_lt' fits]

/-- **The refill is exact** exactly when the formula for long times drops no rest
and does not overflow. -/
theorem refillsExactly_iff (elapsedMs : UInt64) {refillRateMicro : UInt64} {maxKbps : UInt16}
    (rate : refillRateMicro.toNat = 128000000 * maxKbps.toNat) (limited : 0 < maxKbps.toNat) :
    1000 * (calculateNewTokens elapsedMs refillRateMicro).toNat =
        refillRateMicro.toNat * elapsedMs.toNat ↔
      Caller.refillsExactly elapsedMs refillRateMicro = true := by
  have few := maxKbps.toNat_lt
  have size : UInt64.size = 18446744073709551616 := rfl
  have positive : 0 < refillRateMicro.toNat := by omega
  have whole : 1000 * (elapsedMs.toNat / 1000 * refillRateMicro.toNat) =
      refillRateMicro.toNat * (elapsedMs.toNat - elapsedMs.toNat % 1000) := by
    rw [← Nat.mul_assoc, Nat.mul_comm refillRateMicro.toNat]
    congr 1
    omega
  rw [Caller.refillsExactly, Bool.and_eq_true, Bool.or_eq_true, decide_eq_true_eq,
    decide_eq_true_eq, decide_eq_true_eq]
  unfold calculateNewTokens
  split
  · rename_i nothing
    have zero : elapsedMs.toNat = 0 := by
      rcases nothing with rfl | rfl
      · rfl
      · exact absurd positive (Nat.lt_irrefl 0)
    rw [zero, Nat.zero_div, Nat.zero_mul]
    exact iff_of_true rfl ⟨.inl (Nat.zero_le _), by decide⟩
  · split
    · rename_i long
      have late : 1000000 < elapsedMs.toNat := long
      have quotient : (elapsedMs / 1000).toNat = elapsedMs.toNat / 1000 := UInt64.toNat_div ..
      have wraps := Nat.mod_lt (elapsedMs.toNat / 1000 * refillRateMicro.toNat)
        (show 0 < 2 ^ 64 by decide)
      rw [or_iff_right (Nat.not_le.mpr late), UInt64.toNat_mul, quotient]
      constructor
      · intro exact'
        have most := Nat.mod_le (elapsedMs.toNat / 1000 * refillRateMicro.toNat) (2 ^ 64)
        have noRest : elapsedMs.toNat % 1000 = 0 := by
          by_contra rest
          have less := Nat.mul_lt_mul_of_pos_left
            (show elapsedMs.toNat - elapsedMs.toNat % 1000 < elapsedMs.toNat by omega) positive
          omega
        rw [noRest, Nat.sub_zero] at whole
        exact ⟨noRest, by omega⟩
      · rintro ⟨noRest, fits⟩
        rw [Nat.mod_eq_of_lt fits, whole, noRest, Nat.sub_zero]
    · rename_i short
      have early : elapsedMs.toNat ≤ 1000000 := UInt64.not_lt.mp short
      have product : elapsedMs.toNat * refillRateMicro.toNat < 2 ^ 64 := by
        have most := Nat.mul_le_mul early (show refillRateMicro.toNat ≤ 128000000 * 65535 by omega)
        omega
      have quotient : (elapsedMs * refillRateMicro / 1000).toNat =
          elapsedMs.toNat * refillRateMicro.toNat / 1000 := by
        rw [UInt64.toNat_div, UInt64.toNat_mul, Nat.mod_eq_of_lt product]
        rfl
      have less : elapsedMs.toNat / 1000 * refillRateMicro.toNat ≤
          elapsedMs.toNat * refillRateMicro.toNat := Nat.mul_le_mul_right _ (Nat.div_le_self ..)
      refine iff_of_true ?_ ⟨.inl early, by omega⟩
      rw [quotient, rate, Nat.mul_comm elapsedMs.toNat, Nat.mul_assoc]
      omega

/-- A rate counts millionths a second, and a time the thousandths of one. -/
theorem rateMicro_mul_elapsed (maxKbps : UInt16) (nowMs lastMs : UInt64) :
    (rateMicro maxKbps).toNat * (saturatingSub nowMs lastMs).toNat =
      1000 * (128000 * maxKbps.toNat * nowMs.toNat - 128000 * maxKbps.toNat * lastMs.toNat) := by
  rw [toNat_rateMicro, toNat_saturatingSub, ← Nat.mul_sub, show 128000000 = 1000 * 128000 from rfl]
  ac_rfl

namespace Caller

/-- The tokens in the bucket and the tokens granted fall short of the initial ones
and the refill by so many. -/
def Short (initialMicro : UInt64) (maxKbps : UInt16) (short : Nat) (s : Caller) : Prop :=
  s.bucket.refillRateMicro = rateMicro maxKbps ∧ s.bucket.lastRefillMs ≤ s.nowMs ∧
    s.bucket.tokensMicro.toNat + s.grantedMicro + short =
      initialMicro.toNat + 128000 * maxKbps.toNat * s.bucket.lastRefillMs.toNat

variable {initialMicro : UInt64} {maxKbps : UInt16} {s t : Caller} {call : TryConsume}

/-- At a thousandth of the rate for each millisecond. -/
theorem refillRate_mul_div (rate : s.bucket.refillRateMicro = rateMicro maxKbps) (ms : Nat) :
    s.bucket.refillRateMicro.toNat * ms / 1000 = 128000 * maxKbps.toNat * ms := by
  have thousand : 128000000 * maxKbps.toNat * ms = 128000 * maxKbps.toNat * ms * 1000 := by
    rw [show 128000000 = 128000 * 1000 from rfl]
    ac_rfl
  rw [rate, toNat_rateMicro, thousand, Nat.mul_div_cancel _ (by decide)]

theorem conserved_iff_of_short {short : Nat} (behind : s.Short initialMicro maxKbps short) :
    s.Conserved initialMicro ↔ short = 0 := by
  obtain ⟨rate, _, balance⟩ := behind
  rw [Conserved, refillRate_mul_div rate]
  omega

/-- The balance after the time is stored, when so much was added. -/
theorem Short.store {short added : Nat} {tokens nowMs : UInt64} {granted : Nat}
    (behind : s.Short initialMicro maxKbps short) (later : s.bucket.lastRefillMs ≤ nowMs)
    (sum : tokens.toNat + granted = s.bucket.tokensMicro.toNat + s.grantedMicro + added)
    (most : 1000 * added ≤ s.bucket.refillRateMicro.toNat *
      (saturatingSub nowMs s.bucket.lastRefillMs).toNat) :
    ∃ short', Short initialMicro maxKbps short' ⟨s.bucket.refilledTo tokens nowMs, nowMs, granted⟩ ∧
      short ≤ short' ∧ (short' = short ↔ 1000 * added = s.bucket.refillRateMicro.toNat *
        (saturatingSub nowMs s.bucket.lastRefillMs).toNat) := by
  obtain ⟨rate, _, balance⟩ := behind
  have earlier : s.bucket.lastRefillMs.toNat ≤ nowMs.toNat := later
  have grows : 128000 * maxKbps.toNat * s.bucket.lastRefillMs.toNat ≤
      128000 * maxKbps.toNat * nowMs.toNat := Nat.mul_le_mul_left _ earlier
  rw [rate, rateMicro_mul_elapsed] at most ⊢
  refine ⟨short + (128000 * maxKbps.toNat * nowMs.toNat -
      128000 * maxKbps.toNat * s.bucket.lastRefillMs.toNat) - added,
    ⟨rate, UInt64.le_refl _, ?_⟩, by omega, by omega⟩
  change tokens.toNat + granted + _ = initialMicro.toNat + 128000 * maxKbps.toNat * nowMs.toNat
  omega

theorem keepsCredit_of_gaveUp
    (enough : s.bucket.Suffices call.amountMicro call.nowMs)
    (fails : ∀ i < maxExchanges, call.spurious i = true) : keepsCredit s call = true := by
  have all : (List.range maxExchanges).all call.spurious = true :=
    List.all_eq_true.mpr fun i inside => fails i (List.mem_range.mp inside)
  rw [keepsCredit, if_pos enough, all]
  rfl

theorem keepsCredit_of_granted
    (enough : s.bucket.Suffices call.amountMicro call.nowMs)
    (works : ∃ i < maxExchanges, call.spurious i = false) :
    keepsCredit s call = refillsExactly (saturatingSub call.nowMs s.bucket.lastRefillMs)
      s.bucket.refillRateMicro := by
  have some' : (List.range maxExchanges).all call.spurious = false := by
    obtain ⟨i, less, here⟩ := works
    exact List.all_eq_false.mpr ⟨i, List.mem_range.mpr less, by simp [here]⟩
  rw [keepsCredit, if_pos enough, some', Bool.false_or]

theorem keepsCredit_of_refused
    (lacks : ¬ s.bucket.Suffices call.amountMicro call.nowMs)
    (works : call.spurious 10 = false) :
    keepsCredit s call = refillsExactly (saturatingSub call.nowMs s.bucket.lastRefillMs)
      s.bucket.refillRateMicro := by
  rw [keepsCredit, if_neg lacks, works, Bool.not_false, Bool.true_and]
  by_cases same : saturatingSub call.nowMs s.bucket.lastRefillMs = 0
  · rw [same, refillsExactly, UInt64.toNat_zero, Nat.zero_div, Nat.zero_mul]
    rfl
  · rw [decide_eq_false same, Bool.false_or]

theorem keepsCredit_of_lost
    (lacks : ¬ s.bucket.Suffices call.amountMicro call.nowMs)
    (fails : call.spurious 10 = true) :
    keepsCredit s call = decide (saturatingSub call.nowMs s.bucket.lastRefillMs = 0) := by
  rw [keepsCredit, if_neg lacks, fails, Bool.not_true, Bool.false_and, Bool.or_false]

/-- **What a call does to the balance**: it falls behind exactly when the call
does not keep the credit. -/
theorem Short.step {short : Nat} (behind : s.Short initialMicro maxKbps short)
    (limited : 0 < maxKbps.toNat) (fits : unsaturated s call = true)
    (moved : Caller.step s call = some t) :
    ∃ short', t.Short initialMicro maxKbps short' ∧ short ≤ short' ∧
      (short' = short ↔ keepsCredit s call = true) := by
  have rate := behind.1
  have rateNat := toNat_rateMicro maxKbps
  rw [← rate] at rateNat
  unfold Caller.step at moved
  split at moved
  · rename_i later
    have order : s.bucket.lastRefillMs ≤ call.nowMs := UInt64.le_trans behind.2.1 later
    have room : s.bucket.tokensMicro.toNat + (s.bucket.refill call.nowMs).toNat < UInt64.size :=
      of_decide_eq_true fits
    have total := toNat_saturatingAdd_of_lt room
    have most := calculateNewTokens_le (saturatingSub call.nowMs s.bucket.lastRefillMs)
      s.bucket.refillRateMicro
    have exact' := refillsExactly_iff (saturatingSub call.nowMs s.bucket.lastRefillMs)
      rateNat limited
    have done := tryConsumeAtomic_cases s.bucket call.amountMicro call.nowMs call.spurious
    generalize s.bucket.tryConsumeAtomic call.amountMicro call.nowMs call.spurious = result
      at done moved
    cases done with
    | gaveUp enough fails =>
        cases moved
        exact ⟨short, ⟨rate, order, behind.2.2⟩, Nat.le_refl _,
          iff_of_true rfl (keepsCredit_of_gaveUp enough fails)⟩
    | granted enough works =>
        cases moved
        rw [keepsCredit_of_granted enough works, ← exact']
        refine behind.store order ?_ most
        have covers : call.amountMicro.toNat ≤
            (saturatingAdd s.bucket.tokensMicro (s.bucket.refill call.nowMs)).toNat := enough
        rw [UInt64.toNat_sub_of_le _ _ enough]
        simp only [grant]
        change _ = _ + (s.bucket.refill call.nowMs).toNat
        omega
    | refused wait lacks works =>
        cases moved
        rw [keepsCredit_of_refused lacks works, ← exact']
        refine behind.store order ?_ most
        simp only [grant]
        change _ = _ + (s.bucket.refill call.nowMs).toNat
        omega
    | lost wait lacks fails =>
        cases moved
        rw [keepsCredit_of_lost lacks fails, decide_eq_true_eq]
        have nothing : s.bucket.tokensMicro.toNat + s.grantedMicro =
            s.bucket.tokensMicro.toNat + s.grantedMicro + 0 := rfl
        obtain ⟨short', after, less, same⟩ := behind.store order nothing (Nat.zero_le _)
        refine ⟨short', after, less, same.trans ?_⟩
        rw [Nat.mul_zero, eq_comm, Nat.mul_eq_zero, ← UInt64.toNat_inj]
        exact or_iff_right (by omega)
  · cases moved

theorem start_short (initialMicro : UInt64) (maxKbps : UInt16) :
    (start initialMicro (rateMicro maxKbps)).Short initialMicro maxKbps 0 :=
  ⟨rfl, UInt64.le_refl _, rfl⟩

/-- A run falls behind exactly when one of its calls does. -/
theorem Short.exec {short : Nat} {calls : List TryConsume}
    (behind : s.Short initialMicro maxKbps short) (limited : 0 < maxKbps.toNat)
    (ran : exec Caller.step unsaturated s calls = some t) :
    ∃ short', t.Short initialMicro maxKbps short' ∧ short ≤ short' ∧
      (short' = short ↔ exec Caller.step creditSafe s calls = some t) := by
  induction calls generalizing s short with
  | nil =>
      cases ran
      exact ⟨short, behind, Nat.le_refl _, iff_of_true rfl rfl⟩
  | cons call more ih =>
      unfold TransitionSystem.exec at ran ⊢
      split at ran
      · rename_i fits
        obtain ⟨u, moved, rest⟩ := Option.bind_eq_some_iff.mp ran
        obtain ⟨between, after, first, keeps⟩ := behind.step limited fits moved
        obtain ⟨short', last, second, all⟩ := ih after rest
        refine ⟨short', last, Nat.le_trans first second, ?_⟩
        rw [creditSafe, fits, Bool.true_and]
        cases credit : keepsCredit s call with
        | true =>
            rw [keeps.mpr credit] at all
            rw [if_pos rfl, moved, Option.bind_some]
            exact all
        | false =>
            rw [if_neg Bool.false_ne_true]
            refine iff_of_false (fun same => ?_) (Option.some_ne_none t).symm
            exact Bool.false_ne_true (credit ▸ keeps.mp (by omega))
      · cases ran

/-- **Conservation of tokens**: after a run the balance is exact if and only if no
call of the run has lost credit. -/
theorem conserved_iff {calls : List TryConsume} (limited : 0 < maxKbps.toNat)
    (ran : TransitionSystem.exec step unsaturated (start initialMicro (rateMicro maxKbps)) calls =
      some s) :
    s.Conserved initialMicro ↔
      TransitionSystem.exec step creditSafe (start initialMicro (rateMicro maxKbps)) calls =
        some s := by
  obtain ⟨short, behind, _, exact'⟩ := (start_short initialMicro maxKbps).exec limited ran
  rw [conserved_iff_of_short behind, exact']

theorem conserved_iff_half_second :
    Conserved (rateMicro 1) ⟨⟨128000000, 128000000, 500⟩, 500, 64000000⟩ ↔
      TransitionSystem.exec step creditSafe (start (rateMicro 1) (rateMicro 1))
          [⟨64000000, 500, fun _ => false⟩] =
        some ⟨⟨128000000, 128000000, 500⟩, 500, 64000000⟩ :=
  conserved_iff (by decide) rfl

/-- A call that asks for too much stores the time though its exchange has failed,
and half a second of refill is lost. A call after 1000.001 seconds adds the
refill for 1000 seconds only. -/
theorem stored_time_without_refill :
    (∃ s, TransitionSystem.exec step unsaturated (start (rateMicro 1) (rateMicro 1))
        [⟨200000000, 500, fun _ => true⟩] = some s ∧ ¬ s.Conserved (rateMicro 1)) ∧
      ∃ s, TransitionSystem.exec step unsaturated (start (rateMicro 1) (rateMicro 1))
        [⟨0, 1000001, fun _ => false⟩] = some s ∧ ¬ s.Conserved (rateMicro 1) :=
  ⟨⟨_, rfl, by unfold Conserved; decide⟩, ⟨_, rfl, by unfold Conserved; decide⟩⟩

end Caller

/-! ## Windows -/

/-- A bucket that calls of `consume` use one after the other. -/
structure Consumer where
  bucket : TokenBucketInner
  nowMs : UInt64
  /-- The call that sleeps: its amount, and when it tries again. -/
  sleeping : Option (UInt64 × Nat)
  /-- The calls that have returned: when, and how many bytes they may send. -/
  grants : List (Nat × Nat)
  deriving DecidableEq

/-- What the caller does. -/
inductive ConsumeTurn where
  | consume (amount nowMs : UInt64) (spurious : Nat → Bool)
  /-- The call that sleeps wakes up. -/
  | retry (nowMs : UInt64) (spurious : Nat → Bool)

namespace Consumer

/-- One turn of the loop of `consume`. -/
def turn (s : Consumer) (amount nowMs : UInt64) (spurious : Nat → Bool) : Consumer :=
  let (bucket, result) := s.bucket.consumeOnce amount nowMs spurious
  match result with
  | .ok () => ⟨bucket, nowMs, none, (nowMs.toNat, amount.toNat) :: s.grants⟩
  | .error waitMs => ⟨bucket, nowMs, some (amount, nowMs.toNat + waitMs.toNat), s.grants⟩

def step : TransitionSystem Consumer ConsumeTurn := fun s action =>
  match action, s.sleeping with
  | .consume amount nowMs spurious, none =>
      if s.nowMs ≤ nowMs then some (s.turn amount nowMs spurious) else none
  | .retry nowMs spurious, some (amount, wakeMs) =>
      if s.nowMs ≤ nowMs ∧ wakeMs ≤ nowMs.toNat then some (s.turn amount nowMs spurious) else none
  | _, _ => none

/-- The amount of a call, in micro-tokens, does not wrap around. -/
def fits (_ : Consumer) : ConsumeTurn → Bool
  | .consume amount _ _ => decide (amount.toNat * microUnits < UInt64.size)
  | .retry .. => true

/-- The bucket that `create_bucket` makes. -/
def start (maxKbps : UInt16) : Consumer :=
  ⟨new (BucketStore.tokenRate maxKbps) (BucketStore.tokenRate maxKbps), 0, none, []⟩

/-- The bytes of the calls that returned at such a time. -/
def granted (within : Nat → Bool) (grants : List (Nat × Nat)) : Nat :=
  ((grants.filter fun grant => within grant.1).map Prod.snd).sum

/-- The bytes granted from one time to another. -/
def grantedBetween (s : Consumer) (fromMs toMs : Nat) : Nat :=
  granted (fun ms => decide (fromMs ≤ ms) && decide (ms ≤ toMs)) s.grants

/-- The bytes granted before a time. -/
def grantedBefore (s : Consumer) (ms : Nat) : Nat :=
  granted (fun grantMs => decide (grantMs < ms)) s.grants

theorem granted_cons (within : Nat → Bool) (ms bytes : Nat) (grants : List (Nat × Nat)) :
    granted within ((ms, bytes) :: grants) =
      (if within ms then bytes else 0) + granted within grants := by
  unfold granted
  rw [List.filter_cons]
  cases within ms with
  | false => exact (Nat.zero_add _).symm
  | true => rfl

/-- A window and the time before it are the time up to its end. -/
theorem grantedBetween_add_grantedBefore (s : Consumer) {fromMs toMs : Nat}
    (order : fromMs ≤ toMs) :
    s.grantedBetween fromMs toMs + s.grantedBefore fromMs =
      granted (fun ms => decide (ms ≤ toMs)) s.grants := by
  unfold grantedBetween grantedBefore
  induction s.grants with
  | nil => rfl
  | cons grant more ih =>
      obtain ⟨ms, bytes⟩ := grant
      rw [granted_cons, granted_cons, granted_cons, ← ih]
      simp only [Bool.and_eq_true, decide_eq_true_eq]
      split_ifs <;> omega

/-- What has been granted up to any time is paid for by the initial tokens and the
refill up to that time. -/
structure Paid (maxKbps : UInt16) (s : Consumer) : Prop where
  rate : s.bucket.refillRateMicro = rateMicro maxKbps
  order : s.bucket.lastRefillMs ≤ s.nowMs
  sleeps : ∀ amount wakeMs, s.sleeping = some (amount, wakeMs) →
    amount.toNat * microUnits < UInt64.size
  past : ∀ grant ∈ s.grants, grant.1 ≤ s.nowMs.toNat
  balance : s.bucket.tokensMicro.toNat + 1000000 * granted (fun _ => true) s.grants ≤
    128000000 * maxKbps.toNat + 128000 * maxKbps.toNat * s.bucket.lastRefillMs.toNat
  paid : ∀ ms, 1000000 * granted (fun grantMs => decide (grantMs ≤ ms)) s.grants ≤
    128000000 * maxKbps.toNat + 128000 * maxKbps.toNat * ms

/-- What a call does to the bucket: the tokens and the grant grow by at most the
refill for the time by which the last one moves. -/
structure Refilled (maxKbps : UInt16) (bucket : TokenBucketInner) (amountMicro nowMs : UInt64)
    (after : TokenBucketInner × Except UInt64 Unit) : Prop where
  rate : after.1.refillRateMicro = bucket.refillRateMicro
  last : after.1.lastRefillMs ≤ nowMs
  tokens : after.1.tokensMicro.toNat + Caller.grant amountMicro after.2 +
      128000 * maxKbps.toNat * bucket.lastRefillMs.toNat ≤
    bucket.tokensMicro.toNat + 128000 * maxKbps.toNat * after.1.lastRefillMs.toNat

theorem refilled_of_consumed {maxKbps : UInt16} {bucket : TokenBucketInner}
    {amountMicro nowMs : UInt64} {spurious : Nat → Bool}
    {after : TokenBucketInner × Except UInt64 Unit}
    (rate : bucket.refillRateMicro = rateMicro maxKbps) (later : bucket.lastRefillMs ≤ nowMs)
    (done : Consumed bucket amountMicro nowMs spurious after) :
    Refilled maxKbps bucket amountMicro nowMs after := by
  have earlier : bucket.lastRefillMs.toNat ≤ nowMs.toNat := later
  have grows : 128000 * maxKbps.toNat * bucket.lastRefillMs.toNat ≤
      128000 * maxKbps.toNat * nowMs.toNat := Nat.mul_le_mul_left _ earlier
  have added : (bucket.refill nowMs).toNat + 128000 * maxKbps.toNat * bucket.lastRefillMs.toNat ≤
      128000 * maxKbps.toNat * nowMs.toNat := by
    have most : 1000 * (bucket.refill nowMs).toNat ≤ 1000 * (128000 * maxKbps.toNat * nowMs.toNat -
        128000 * maxKbps.toNat * bucket.lastRefillMs.toNat) := by
      rw [← rateMicro_mul_elapsed, ← rate]
      exact calculateNewTokens_le _ _
    omega
  have total := toNat_saturatingAdd_le bucket.tokensMicro (bucket.refill nowMs)
  cases done with
  | gaveUp => exact ⟨rfl, later, Nat.le_refl _⟩
  | granted enough =>
      refine ⟨rfl, UInt64.le_refl _, ?_⟩
      have covers : amountMicro.toNat ≤
          (saturatingAdd bucket.tokensMicro (bucket.refill nowMs)).toNat := enough
      simp only [refilledTo, Caller.grant]
      rw [UInt64.toNat_sub_of_le _ _ enough]
      omega
  | refused =>
      refine ⟨rfl, UInt64.le_refl _, ?_⟩
      simp only [refilledTo, Caller.grant]
      omega
  | lost =>
      refine ⟨rfl, UInt64.le_refl _, ?_⟩
      simp only [refilledTo, Caller.grant]
      omega

variable {maxKbps : UInt16} {s t : Consumer}

theorem granted_le_granted_all (within : Nat → Bool) (grants : List (Nat × Nat)) :
    granted within grants ≤ granted (fun _ => true) grants := by
  induction grants with
  | nil => exact Nat.le_refl _
  | cons grant more ih =>
      rw [granted_cons, granted_cons, if_pos rfl]
      exact Nat.add_le_add (by split_ifs <;> omega) ih

/-- One turn of `consume` keeps what is granted paid for. -/
theorem Paid.turn {amount nowMs : UInt64} {spurious : Nat → Bool} (inv : s.Paid maxKbps)
    (limited : 0 < maxKbps.toNat) (later : s.nowMs ≤ nowMs)
    (cost : amount.toNat * microUnits < UInt64.size) :
    (s.turn amount nowMs spurious).Paid maxKbps := by
  have runs : s.bucket.refillRateMicro ≠ 0 := by
    intro stopped
    have none := toNat_rateMicro maxKbps
    rw [← inv.rate, stopped, UInt64.toNat_zero] at none
    omega
  have spent : (amount * UInt64.ofNat microUnits).toNat = 1000000 * amount.toNat := by
    rw [UInt64.toNat_mul, Nat.mul_comm 1000000]
    exact Nat.mod_eq_of_lt cost
  have refilled := refilled_of_consumed inv.rate (UInt64.le_trans inv.order later)
    (tryConsumeAtomic_cases s.bucket (amount * UInt64.ofNat microUnits) nowMs spurious)
  have earlier : ∀ grant ∈ s.grants, grant.1 ≤ nowMs.toNat := fun grant inside =>
    Nat.le_trans (inv.past grant inside) later
  have balance := inv.balance
  have tokens := refilled.tokens
  unfold Consumer.turn
  rw [consumeOnce, if_neg runs]
  generalize s.bucket.tryConsumeAtomic (amount * UInt64.ofNat microUnits) nowMs spurious = after
    at refilled tokens
  obtain ⟨bucket, result⟩ := after
  have rate : bucket.refillRateMicro = rateMicro maxKbps := refilled.rate.trans inv.rate
  cases result with
  | error wait =>
      refine ⟨rate, refilled.last, ?_, earlier, ?_, inv.paid⟩
      · intro _ _ same
        cases same
        exact cost
      · simp only [Caller.grant] at tokens
        change bucket.tokensMicro.toNat + 1000000 * granted _ s.grants ≤
          _ + _ * bucket.lastRefillMs.toNat
        omega
  | ok =>
      have whole : bucket.tokensMicro.toNat +
          1000000 * granted (fun _ => true) ((nowMs.toNat, amount.toNat) :: s.grants) ≤
            128000000 * maxKbps.toNat + 128000 * maxKbps.toNat * bucket.lastRefillMs.toNat := by
        simp only [Caller.grant, spent] at tokens
        rw [granted_cons, if_pos rfl]
        omega
      refine ⟨rate, refilled.last, fun _ _ asleep => ?_, ?_, whole, fun ms => ?_⟩
      · cases asleep
      · exact List.forall_mem_cons.mpr ⟨Nat.le_refl _, earlier⟩
      · change 1000000 * granted _ ((nowMs.toNat, amount.toNat) :: s.grants) ≤ _
        by_cases here : nowMs.toNat ≤ ms
        · -- From the time of the grant on, all is granted that the refill so far has paid for.
          have all := granted_le_granted_all (fun grantMs => decide (grantMs ≤ ms))
            ((nowMs.toNat, amount.toNat) :: s.grants)
          have last : bucket.lastRefillMs.toNat ≤ ms := Nat.le_trans refilled.last here
          have grows := Nat.mul_le_mul_left (128000 * maxKbps.toNat) last
          omega
        · rw [granted_cons, if_neg (by simpa using here), Nat.zero_add]
          exact inv.paid ms

theorem Paid.step {action : ConsumeTurn} (inv : s.Paid maxKbps) (limited : 0 < maxKbps.toNat)
    (cost : fits s action = true) (moved : Consumer.step s action = some t) : t.Paid maxKbps := by
  unfold Consumer.step at moved
  split at moved
  · split at moved
    · rename_i later
      cases moved
      exact inv.turn limited later (of_decide_eq_true cost)
    · cases moved
  · rename_i asleep
    split at moved
    · rename_i later
      cases moved
      exact inv.turn limited later.1 (inv.sleeps _ _ asleep)
    · cases moved
  · cases moved

theorem start_paid (maxKbps : UInt16) : (start maxKbps).Paid maxKbps where
  rate := rfl
  order := UInt64.le_refl _
  sleeps := nofun
  past := nofun
  balance := by
    change (rateMicro maxKbps).toNat + 0 ≤ _
    rw [toNat_rateMicro]
    exact Nat.le_add_right ..
  paid _ := Nat.zero_le _

/-- **Windows**: what is granted in a window, and before it, is at most the
allowance of one second and the bandwidth from the creation of the bucket to the
end of the window. -/
theorem granted_in_window {fromMs toMs : Nat} (limited : 0 < maxKbps.toNat)
    (order : fromMs ≤ toMs) (run : Run step fits (start maxKbps) s) :
    s.grantedBetween fromMs toMs + s.grantedBefore fromMs ≤
      128 * maxKbps.toNat + 128 * maxKbps.toNat * toMs / 1000 := by
  have inv : s.Paid maxKbps := run.invariant (start_paid maxKbps)
    fun inv cost moved => inv.step limited cost moved
  have paid := inv.paid toMs
  have thousand : 128000 * maxKbps.toNat * toMs = 1000 * (128 * maxKbps.toNat * toMs) := by
    rw [show 128000 = 1000 * 128 from rfl]
    ac_rfl
  rw [thousand] at paid
  rw [s.grantedBetween_add_grantedBefore order]
  omega

theorem granted_in_window_second : ∃ s, Run step fits (start 8) s ∧
    s.grantedBetween 250 1000 + s.grantedBefore 250 ≤
      128 * (8 : UInt16).toNat + 128 * (8 : UInt16).toNat * 1000 / 1000 := by
  have ran : exec step fits (start 8) [.consume 1000 0 fun _ => false,
      .consume 500 250 fun _ => false, .retry 800 fun _ => false] =
    some ⟨⟨343200000, 1024000000, 800⟩, 800, none, [(800, 500), (0, 1000)]⟩ := by decide
  exact ⟨_, run_of_exec ran, granted_in_window (by decide) (by decide) (run_of_exec ran)⟩

/-- A bucket of 128 bytes a second that is not used for ten seconds grants 1000
bytes at once. A call whose amount wraps around in micro-tokens is granted for
less than a byte. -/
theorem idle_credit_exceeds_window :
    (∃ s, Run step anything (start 1) s ∧
        128 + 128 * (10000 - 10000) / 1000 < s.grantedBetween 10000 10000) ∧
      ∃ s, Run step anything (start 1) s ∧ 128 + 128 * (0 - 0) / 1000 < s.grantedBetween 0 0 :=
  have idle : exec step anything (start 1) [.consume 1000 10000 fun _ => false] =
    some ⟨⟨408000000, 128000000, 10000⟩, 10000, none, [(10000, 1000)]⟩ := rfl
  have wraps : exec step anything (start 1) [.consume 18446744073710 0 fun _ => false] =
    some ⟨⟨127551616, 128000000, 0⟩, 0, none, [(0, 18446744073710)]⟩ := rfl
  ⟨⟨_, run_of_exec idle, by decide⟩, ⟨_, run_of_exec wraps, by decide⟩⟩

end Consumer

end VideoStorage.Claim
