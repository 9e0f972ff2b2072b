import VideoStorage.Claim.Consume

/-!
# A task that waits

A task that is the only one to use a bucket calls `try_consume_atomic` again and
again, each time after the wait it was told. A wait is rounded down, and so is a
refill after a long time, so a call after the wait can be refused again. What is
then missing is less than the refill of a second, after the next call less than
that of a millisecond, and then nothing: the fourth call is granted
(`granted_within_four`), and the loop of `consume` ends.
-/

set_option autoImplicit false

namespace VideoStorage.Claim

open RustStd

namespace TokenBucketInner

/-! ## Calls one after the other -/

/-- No exchange fails spuriously. -/
def steady : Nat → Bool := fun _ => false

/-- `try_consume_atomic` in a debug build. -/
def tryConsumeAtomicChecked {ε : Type} (bucket : TokenBucketInner) (amountMicro nowMs : UInt64)
    (spurious : Nat → Bool) : Checked ε (TokenBucketInner × Except UInt64 Unit) := do
  let newTokensMicro ← calculateNewTokensChecked (saturatingSub nowMs bucket.lastRefillMs)
    bucket.refillRateMicro
  consumeLoopChecked bucket amountMicro nowMs newTokensMicro spurious maxExchanges

/-- The calls of a task at these times, until one is granted. -/
def callsUntilGranted (amountMicro : UInt64) :
    TokenBucketInner → List UInt64 → Option TokenBucketInner
  | _, [] => none
  | bucket, nowMs :: later =>
      match bucket.tryConsumeAtomic amountMicro nowMs steady with
      | (after, .ok ()) => some after
      | (after, .error _) => callsUntilGranted amountMicro after later

/-- `consume`, with the clock readings of its turns. -/
def consume (bucket : TokenBucketInner) (amount : UInt64) (readings : List UInt64) :
    Option TokenBucketInner :=
  if bucket.refillRateMicro = 0 then some bucket
  else callsUntilGranted (amount * UInt64.ofNat microUnits) bucket readings

/-- Until a call is granted, no product of a call overflows, and the next call comes
when the wait is over. -/
def Patient (amountMicro : UInt64) : TokenBucketInner → List UInt64 → Prop
  | _, [] => True
  | bucket, nowMs :: later =>
      bucket.tryConsumeAtomicChecked (ε := Empty) amountMicro nowMs steady ≠ .error .panic ∧
        match bucket.tryConsumeAtomic amountMicro nowMs steady with
        | (_, .ok ()) => True
        | (after, .error waitMs) =>
            (∀ nextMs ∈ later.head?, nowMs.toNat + waitMs.toNat ≤ nextMs.toNat) ∧
              Patient amountMicro after later

/-! ## A refused call -/

theorem mulU64_fits {ε : Type} {a b : UInt64} (fits : mulU64 (ε := ε) a b ≠ .error .panic) :
    a.toNat * b.toNat < UInt64.size :=
  Nat.not_le.mp fun large => fits (if_pos large)

theorem toNat_mul_of_lt {a b : UInt64} (fits : a.toNat * b.toNat < UInt64.size) :
    (a * b).toNat = a.toNat * b.toNat := by
  rw [UInt64.toNat_mul]
  exact Nat.mod_eq_of_lt fits

/-- The refill, when its product fits. -/
theorem calculateNewTokens_of_fits {ε : Type} {elapsedMs refillRateMicro : UInt64} {perMs : Nat}
    (rate : refillRateMicro.toNat = 1000 * perMs)
    (fits : calculateNewTokensChecked (ε := ε) elapsedMs refillRateMicro ≠ .error .panic) :
    calculateNewTokensChecked (ε := ε) elapsedMs refillRateMicro =
        .ok (calculateNewTokens elapsedMs refillRateMicro) ∧
      (calculateNewTokens elapsedMs refillRateMicro).toNat =
        if 1000000 < elapsedMs.toNat then elapsedMs.toNat / 1000 * 1000 * perMs
        else elapsedMs.toNat * perMs := by
  unfold calculateNewTokensChecked at fits ⊢
  unfold calculateNewTokens
  by_cases idle : elapsedMs = 0 ∨ refillRateMicro = 0
  · rw [if_pos idle, if_pos idle]
    refine ⟨rfl, ?_⟩
    rcases idle with rfl | stopped
    · simp
    · have none : perMs = 0 := by
        rw [stopped, UInt64.toNat_zero] at rate
        omega
      simp [none]
  · rw [if_neg idle] at fits ⊢
    rw [if_neg idle]
    by_cases long : 1000000 < elapsedMs
    · have later : 1000000 < elapsedMs.toNat := UInt64.lt_iff_toNat_lt.mp long
      rw [if_pos long] at fits ⊢
      rw [if_pos long, if_pos later]
      have product := mulU64_fits fits
      refine ⟨mulU64_of_lt product, ?_⟩
      rw [toNat_mul_of_lt product, UInt64.toNat_div, rate, Nat.mul_assoc]
      rfl
    · have soon : ¬ 1000000 < elapsedMs.toNat := fun less => long (UInt64.lt_iff_toNat_lt.mpr less)
      rw [if_neg long] at fits ⊢
      rw [if_neg long, if_neg soon]
      have product : elapsedMs.toNat * refillRateMicro.toNat < UInt64.size := by
        refine mulU64_fits (ε := ε) fun panics => fits ?_
        rw [panics]
        rfl
      refine ⟨by rw [mulU64_of_lt product]; rfl, ?_⟩
      rw [UInt64.toNat_div, toNat_mul_of_lt product, rate, Nat.mul_left_comm]
      exact Nat.mul_div_cancel_left _ (by decide)

/-- The wait, when its product fits. -/
theorem toNat_waitMs {ε : Type} {neededMicro refillRateMicro : UInt64} {perMs : Nat}
    (rate : refillRateMicro.toNat = 1000 * perMs) (positive : 0 < perMs)
    (fits : waitMsChecked (ε := ε) neededMicro refillRateMicro ≠ .error .panic) :
    (waitMs neededMicro refillRateMicro).toNat = max (neededMicro.toNat / perMs) 1 := by
  have runs : 0 < refillRateMicro := by
    rw [UInt64.lt_iff_toNat_lt, rate]
    exact Nat.mul_pos (by decide) positive
  have product : neededMicro.toNat * (1000 : UInt64).toNat < UInt64.size := by
    refine mulU64_fits (ε := ε) fun panics => fits ?_
    rw [waitMsChecked, if_pos runs, panics]
    rfl
  rw [waitMs, if_pos runs, UInt64.toNat_max, UInt64.toNat_div, toNat_mul_of_lt product, rate]
  change max (neededMicro.toNat * 1000 / (1000 * perMs)) 1 = _
  rw [Nat.mul_comm _ 1000, Nat.mul_div_mul_left _ _ (by decide)]

/-- A call that is refused: its refill is in the bucket, some tokens are missing,
and the wait is the time in which they come, or a millisecond. -/
structure Refused (amountMicro : UInt64) (perMs : Nat) (bucket : TokenBucketInner)
    (nowMs : UInt64) (after : TokenBucketInner) (waitMs : UInt64) : Prop where
  rate : after.refillRateMicro = bucket.refillRateMicro
  time : after.lastRefillMs = nowMs
  tokens : after.tokensMicro.toNat = bucket.tokensMicro.toNat + (bucket.refill nowMs).toNat
  lacks : after.tokensMicro.toNat < amountMicro.toNat
  wait : waitMs.toNat = max ((amountMicro.toNat - after.tokensMicro.toNat) / perMs) 1
  refill : (bucket.refill nowMs).toNat =
    if 1000000 < nowMs.toNat - bucket.lastRefillMs.toNat then
      (nowMs.toNat - bucket.lastRefillMs.toNat) / 1000 * 1000 * perMs
    else (nowMs.toNat - bucket.lastRefillMs.toNat) * perMs

theorem toNat_saturatingAdd_of_below {a b c : UInt64} (less : saturatingAdd a b < c) :
    (saturatingAdd a b).toNat = a.toNat + b.toNat := by
  have below := UInt64.lt_iff_toNat_lt.mp less
  have top := c.toNat_lt
  have small : min (a.toNat + b.toNat) (UInt64.size - 1) < UInt64.size :=
    Nat.lt_of_le_of_lt (Nat.min_le_right ..) (by decide)
  rw [saturatingAdd, UInt64.toNat_ofNat_of_lt' small] at below ⊢
  rw [show UInt64.size = 18446744073709551616 from rfl] at below ⊢
  omega

/-- A call is granted, or it is refused. -/
theorem granted_or_refused {bucket : TokenBucketInner} {amountMicro nowMs : UInt64} {perMs : Nat}
    (rate : bucket.refillRateMicro.toNat = 1000 * perMs) (positive : 0 < perMs)
    (fits : bucket.tryConsumeAtomicChecked (ε := Empty) amountMicro nowMs steady ≠
      .error .panic) :
    (∃ after, bucket.tryConsumeAtomic amountMicro nowMs steady = (after, .ok ())) ∨
      ∃ after waitMs, bucket.tryConsumeAtomic amountMicro nowMs steady = (after, .error waitMs) ∧
        Refused amountMicro perMs bucket nowMs after waitMs := by
  by_cases enough : bucket.Suffices amountMicro nowMs
  · exact .inl ⟨_, consumeLoop_of_enough nowMs steady 10 enough⟩
  · refine .inr ⟨_, _, consumeLoop_of_lacks nowMs steady 10 enough, ?_⟩
    have lacks := UInt64.not_le.mp enough
    have sum := toNat_saturatingAdd_of_below lacks
    have refillFits : calculateNewTokensChecked (ε := Empty)
        (saturatingSub nowMs bucket.lastRefillMs) bucket.refillRateMicro ≠ .error .panic := by
      intro panics
      rw [tryConsumeAtomicChecked, panics] at fits
      exact fits rfl
    obtain ⟨checked, refill⟩ := calculateNewTokens_of_fits rate refillFits
    rw [toNat_saturatingSub] at refill
    refine ⟨rfl, rfl, sum, UInt64.lt_iff_toNat_lt.mp lacks, ?_, refill⟩
    have waitFits : waitMsChecked (ε := Empty)
        (amountMicro - saturatingAdd bucket.tokensMicro (bucket.refill nowMs))
        bucket.refillRateMicro ≠ .error .panic := by
      intro panics
      refine fits ?_
      rw [tryConsumeAtomicChecked, checked, bind_ok, maxExchanges, consumeLoopChecked]
      change (if saturatingAdd bucket.tokensMicro (bucket.refill nowMs) < amountMicro then _
        else _) = _
      rw [if_pos lacks]
      change waitMsChecked (amountMicro - saturatingAdd bucket.tokensMicro (bucket.refill nowMs))
        _ >>= _ = _
      rw [panics]
      rfl
    rw [toNat_waitMs rate positive waitFits, UInt64.toNat_sub_of_le _ _ (UInt64.le_of_lt lacks)]
    rfl

/-! ## What is missing -/

/-- What is missing after the wait for it: less than the refill of a second, and of a
millisecond when it was less than that of a second before. -/
theorem missing_after_wait {perMs missing missing' : Nat} (elapsedMs : Nat) (positive : 0 < perMs)
    (waited : max (missing / perMs) 1 ≤ elapsedMs)
    (refill : missing' + (if 1000000 < elapsedMs then elapsedMs / 1000 * 1000 * perMs
      else elapsedMs * perMs) = missing) (more : 0 < missing') :
    missing' < 1000 * perMs ∧ (missing < 1000 * perMs → missing' < perMs) ∧ perMs ≤ missing := by
  obtain ⟨quotient, one⟩ := Nat.max_le.mp waited
  have whole := Nat.div_add_mod missing perMs
  have rest := Nat.mod_lt missing positive
  rw [Nat.mul_comm] at whole
  split at refill
  · -- The refill counts whole seconds, a thousand of them or more.
    rename_i long
    have seconds : 1000000 * perMs ≤ elapsedMs / 1000 * 1000 * perMs :=
      Nat.mul_le_mul_right _ (by omega)
    have near : missing / perMs * perMs ≤ (elapsedMs / 1000 * 1000 + 999) * perMs :=
      Nat.mul_le_mul_right _ (by omega)
    rw [Nat.add_mul] at near
    omega
  · have covered : missing / perMs * perMs ≤ elapsedMs * perMs := Nat.mul_le_mul_right _ quotient
    have least : 1 * perMs ≤ elapsedMs * perMs := Nat.mul_le_mul_right _ one
    omega

/-- The tokens that a bucket lacks. -/
def shortfall (amountMicro : UInt64) (bucket : TokenBucketInner) : Nat :=
  amountMicro.toNat - bucket.tokensMicro.toNat

/-- What may be missing when so many calls are enough. -/
def Served (perMs : Nat) : Nat → Nat → Prop
  | 0, _ => False
  | 1, missing => missing < perMs
  | 2, missing => missing < 1000 * perMs
  | _ + 3, _ => True

section Calls

variable {amountMicro : UInt64} {perMs : Nat} {bucket after : TokenBucketInner}
  {nowMs waitMs nextMs : UInt64}

/-- A call after the wait of a refused one, when it is refused as well, brings the task
one call nearer. -/
theorem Refused.again {later : TokenBucketInner} {waitMs' : UInt64} {calls : Nat}
    (positive : 0 < perMs) (refused : Refused amountMicro perMs bucket nowMs after waitMs)
    (waited : nowMs.toNat + waitMs.toNat ≤ nextMs.toNat)
    (refused' : Refused amountMicro perMs after nextMs later waitMs')
    (served : Served perMs (calls + 1) (shortfall amountMicro after)) :
    Served perMs calls (shortfall amountMicro later) := by
  have refill := refused'.refill
  rw [refused.time] at refill
  have wait := refused.wait
  have tokens := refused'.tokens
  have less := refused'.lacks
  obtain ⟨second, millisecond, enough⟩ :
      shortfall amountMicro later < 1000 * perMs ∧
        (shortfall amountMicro after < 1000 * perMs → shortfall amountMicro later < perMs) ∧
        perMs ≤ shortfall amountMicro after := by
    refine missing_after_wait (nextMs.toNat - nowMs.toNat) positive ?_ ?_ ?_
    · rw [shortfall, ← wait]
      omega
    · rw [← refill, shortfall, shortfall]
      omega
    · exact Nat.sub_pos_of_lt less
  match calls, served with
  | 0, served => exact Nat.not_le.mpr served enough
  | 1, served => exact millisecond served
  | 2, _ => exact second
  | _ + 3, _ => trivial

/-- A task that was refused is served in as many calls as what is missing allows. -/
theorem Refused.served {calls : Nat} {later : List UInt64} (positive : 0 < perMs)
    (rate : bucket.refillRateMicro.toNat = 1000 * perMs)
    (refused : Refused amountMicro perMs bucket nowMs after waitMs)
    (waited : ∀ nextMs ∈ later.head?, nowMs.toNat + waitMs.toNat ≤ nextMs.toNat)
    (patient : Patient amountMicro after later) (many : calls ≤ later.length)
    (served : Served perMs calls (shortfall amountMicro after)) :
    (callsUntilGranted amountMicro after (later.take calls)).isSome = true := by
  induction calls generalizing bucket after nowMs waitMs later with
  | zero => exact served.elim
  | succ calls ih =>
      cases later with
      | nil => exact absurd many (Nat.not_succ_le_zero calls)
      | cons nextMs later =>
          have rate' : after.refillRateMicro.toNat = 1000 * perMs := by rw [refused.rate, rate]
          obtain ⟨fits, patient⟩ := patient
          rw [List.take_succ_cons, callsUntilGranted]
          rcases granted_or_refused rate' positive fits with
            ⟨last, granted⟩ | ⟨last, waitMs', again, refused'⟩
          · rw [granted]
            rfl
          · rw [again] at patient ⊢
            exact ih rate' refused' patient.1 patient.2 (Nat.le_of_succ_le_succ many)
              (refused.again positive (waited nextMs rfl) refused' served)

end Calls

/-- **A task that waits is served**: of its calls the fourth is granted at the latest,
and so the loop of `consume` ends. -/
theorem granted_within_four {bucket : TokenBucketInner} {maxKbps : UInt16}
    (limited : 0 < maxKbps.toNat) (rate : bucket.refillRateMicro = rateMicro maxKbps)
    {times : List UInt64} (four : 4 ≤ times.length) :
    (∀ amountMicro, Patient amountMicro bucket times →
      (callsUntilGranted amountMicro bucket (times.take 4)).isSome = true) ∧
    ∀ amount, Patient (amount * UInt64.ofNat microUnits) bucket times →
      (bucket.consume amount (times.take 4)).isSome = true := by
  have rateNat : bucket.refillRateMicro.toNat = 1000 * (128000 * maxKbps.toNat) := by
    rw [rate, toNat_rateMicro, ← Nat.mul_assoc]
  have positive : 0 < 128000 * maxKbps.toNat := Nat.mul_pos (by decide) limited
  have calls : ∀ amountMicro, Patient amountMicro bucket times →
      (callsUntilGranted amountMicro bucket (times.take 4)).isSome = true := by
    intro amountMicro patient
    cases times with
    | nil => exact absurd four (by decide)
    | cons nowMs later =>
        obtain ⟨fits, patient⟩ := patient
        rw [List.take_succ_cons, callsUntilGranted]
        rcases granted_or_refused rateNat positive fits with
          ⟨last, granted⟩ | ⟨last, waitMs, again, refused⟩
        · rw [granted]
          rfl
        · rw [again] at patient ⊢
          exact refused.served positive rateNat patient.1 patient.2
            (Nat.le_of_succ_le_succ four) trivial
  refine ⟨calls, fun amount patient => ?_⟩
  unfold consume
  split
  · rfl
  · exact calls _ patient

/-- An empty bucket at 128 bytes a second. The wait of the first call is rounded down,
the refill after it leaves out 123 ms, the wait for them is rounded down again, and the
fourth call is granted. -/
theorem granted_within_four_calls :
    (callsUntilGranted 192015744005 ⟨0, 128000000, 0⟩
        ([0, 1500123, 1500246, 1500247].take 4)).isSome = true ∧
      callsUntilGranted 192015744005 ⟨0, 128000000, 0⟩ [0, 1500123, 1500246] = none := by
  have rate : TokenBucketInner.refillRateMicro ⟨0, 128000000, 0⟩ = rateMicro 1 := by decide
  have panics : ∀ {x : TokenBucketInner × Except UInt64 Unit},
      (.ok x : Checked Empty _) ≠ .error .panic := fun same => by cases same
  refine ⟨(granted_within_four (by decide) rate (by decide)).1 _ ?_, by decide⟩
  refine And.intro panics (And.intro ?_ (And.intro panics (And.intro ?_ (And.intro panics
    (And.intro ?_ (And.intro panics trivial))))))
  all_goals
    rintro nextMs ⟨⟩
    decide

end TokenBucketInner

end VideoStorage.Claim
