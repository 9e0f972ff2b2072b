import VideoStorage.Library.Bytes

/-!
# The token bucket

A bucket of micro-tokens with a refill rate and the time of the last refill, all
64-bit counters. Products wrap around, as they do in a release build.
-/

set_option autoImplicit false

namespace RustStd

/-- `u64::saturating_add`. -/
def saturatingAdd (a b : UInt64) : UInt64 := UInt64.ofNat (min (a.toNat + b.toNat) (UInt64.size - 1))

/-- `u64::saturating_sub`. -/
def saturatingSub (a b : UInt64) : UInt64 := if b ≤ a then a - b else 0

/-- `AtomicU64::compare_exchange_weak`: the cell afterwards, and whether the
exchange succeeded. It can fail spuriously. -/
def compareExchangeWeak (cell current new : UInt64) (spurious : Bool) : UInt64 × Bool :=
  if cell = current ∧ spurious = false then (new, true) else (cell, false)

/-- Nobody else changes the cell: only a spurious failure can happen. -/
theorem compareExchangeWeak_self (cell new : UInt64) (spurious : Bool) :
    compareExchangeWeak cell cell new spurious =
      if spurious then (cell, false) else (new, true) := by
  cases spurious <;> simp [compareExchangeWeak]

theorem toNat_saturatingAdd_le (a b : UInt64) :
    (saturatingAdd a b).toNat ≤ a.toNat + b.toNat := by
  have small : min (a.toNat + b.toNat) (UInt64.size - 1) < UInt64.size :=
    Nat.lt_of_le_of_lt (Nat.min_le_right ..) (by decide)
  rw [saturatingAdd, UInt64.toNat_ofNat_of_lt' small]
  exact Nat.min_le_left ..

theorem toNat_saturatingSub (a b : UInt64) :
    (saturatingSub a b).toNat = a.toNat - b.toNat := by
  unfold saturatingSub
  split
  · rename_i le
    exact UInt64.toNat_sub_of_le a b le
  · rename_i lt
    exact (Nat.sub_eq_zero_of_le (Nat.le_of_not_le lt)).symm

end RustStd

namespace VideoStorage.Claim

open RustStd

structure TokenBucketInner where
  tokensMicro : UInt64
  /-- Micro-tokens per second. -/
  refillRateMicro : UInt64
  /-- Milliseconds since the creation of the bucket. -/
  lastRefillMs : UInt64
  deriving DecidableEq, Repr

namespace TokenBucketInner

/-- `MICRO_UNITS`. -/
def microUnits : Nat := 1000000

/-- `TokenBucketInner::new`, for rates that a 64-bit float holds exactly. -/
def new (initTokens refillRate : Nat) : TokenBucketInner where
  tokensMicro := UInt64.ofNat (initTokens * microUnits)
  refillRateMicro := UInt64.ofNat (refillRate * microUnits)
  lastRefillMs := 0

/-- `TokenBucketInner::calculate_new_tokens`. -/
def calculateNewTokens (elapsedMs refillRateMicro : UInt64) : UInt64 :=
  if elapsedMs = 0 ∨ refillRateMicro = 0 then 0
  else if 1000000 < elapsedMs then elapsedMs / 1000 * refillRateMicro
  else elapsedMs * refillRateMicro / 1000

/-- A refill never exceeds the elapsed time at the rate, also when the products
wrap around. -/
theorem calculateNewTokens_le (elapsedMs refillRateMicro : UInt64) :
    1000 * (calculateNewTokens elapsedMs refillRateMicro).toNat ≤
      refillRateMicro.toNat * elapsedMs.toNat := by
  unfold calculateNewTokens
  split
  · exact Nat.zero_le _
  · split
    · have wrapped : (elapsedMs / 1000 * refillRateMicro).toNat ≤
          elapsedMs.toNat / 1000 * refillRateMicro.toNat := by
        rw [UInt64.toNat_mul, UInt64.toNat_div]
        exact Nat.mod_le ..
      calc 1000 * (elapsedMs / 1000 * refillRateMicro).toNat
          ≤ 1000 * (elapsedMs.toNat / 1000 * refillRateMicro.toNat) :=
            Nat.mul_le_mul_left _ wrapped
        _ = refillRateMicro.toNat * (1000 * (elapsedMs.toNat / 1000)) := by ac_rfl
        _ ≤ refillRateMicro.toNat * elapsedMs.toNat :=
            Nat.mul_le_mul_left _ (Nat.mul_div_le ..)
    · have wrapped : (elapsedMs * refillRateMicro).toNat ≤
          refillRateMicro.toNat * elapsedMs.toNat := by
        rw [UInt64.toNat_mul, Nat.mul_comm refillRateMicro.toNat]
        exact Nat.mod_le ..
      calc 1000 * (elapsedMs * refillRateMicro / 1000).toNat
          = 1000 * ((elapsedMs * refillRateMicro).toNat / 1000) := by rw [UInt64.toNat_div]; rfl
        _ ≤ (elapsedMs * refillRateMicro).toNat := Nat.mul_div_le ..
        _ ≤ refillRateMicro.toNat * elapsedMs.toNat := wrapped

/-- `wait_ms`: the time the rate needs for the missing tokens. -/
def waitMs (neededMicro refillRateMicro : UInt64) : UInt64 :=
  if 0 < refillRateMicro then max (neededMicro * 1000 / refillRateMicro) 1 else 1000

end TokenBucketInner

end VideoStorage.Claim
