import Invokr.Dispatcher
import Mathlib.Algebra.Order.Group.Unbundled.Int
import Mathlib.Tactic.Positivity

namespace Invokr

namespace Backoff

/-- The delay of the policy over the integers. -/
def exactDelay (policy : RetryPolicy) (attempt : Int) : Int :=
  if policy.backoff = "fixed" then policy.initialDelayMs
  else if policy.backoff = "linear" then policy.initialDelayMs * attempt
  else policy.initialDelayMs * 2 ^ (attempt - 1).toNat

/-- The number is within a quarter of the delay. -/
def Near (n delay : Int) : Prop := 4 * |n - delay| ≤ |delay|

/-- The computation neither overflows nor panics, and its result is as the policy says. -/
def Right (policy : RetryPolicy) (attempt jitter : Int) : Prop :=
  ∃ v, (∀ checks, computeBackoff checks policy attempt jitter = some v) ∧ 0 ≤ v ∧ v ≤ max 0 policy.maxDelayMs ∧
    ∃ n, Near n (exactDelay policy attempt) ∧ v = max 0 (min n policy.maxDelayMs)

def exponential (policy : RetryPolicy) : Prop := policy.backoff ≠ "fixed" ∧ policy.backoff ≠ "linear"

/-- The exponent is cast to 32 bits. -/
def exponent (attempt : Int) : Nat := (attempt - 1).toNat % 2 ^ 32

/-- The delay with its exponent cast. -/
def castDelay (policy : RetryPolicy) (attempt : Int) : Int :=
  if policy.backoff = "fixed" then policy.initialDelayMs
  else if policy.backoff = "linear" then policy.initialDelayMs * attempt
  else policy.initialDelayMs * 2 ^ exponent attempt

/-- Everything the computation comes by is an `i64`, and what the cast loses does not matter. -/
structure Fits (policy : RetryPolicy) (attempt jitter : Int) : Prop where
  bound : 0 ≤ policy.maxDelayMs
  power : exponential policy → exponent attempt < 63
  delay : bigintFits (castDelay policy attempt) = true
  sum : bigintFits (castDelay policy attempt + jitter) = true
  cast : exponential policy → attempt ≤ 2 ^ 32 ∨ policy.initialDelayMs ≤ 0 ∨
    policy.maxDelayMs ≤ castDelay policy attempt + jitter

/-- What `gen_range` may draw for the delay. -/
def Draws (delay jitter : Int) : Prop := |jitter| ≤ max 0 (delay.tdiv 4)

variable {policy : RetryPolicy} {attempt jitter : Int}

theorem exactDelay_cast (first : 1 ≤ attempt) (small : exponential policy → attempt ≤ 2 ^ 32) :
    castDelay policy attempt = exactDelay policy attempt := by
  unfold castDelay exactDelay
  split
  next => rfl
  next hf =>
    split
    next => rfl
    next hl =>
      have le := small ⟨hf, hl⟩
      have same : exponent attempt = (attempt - 1).toNat := by
        unfold exponent
        exact Nat.mod_eq_of_lt (by omega)
      rw [same]

theorem arith_fits {checks : Bool} {n : Int} (h : bigintFits n = true) : arith checks n = some n := by
  simp [arith, h]

theorem arith_checked {n m : Int} (h : arith true n = some m) : bigintFits n = true ∧ m = n := by
  unfold arith at h
  split at h
  next hn => exact ⟨hn, (Option.some.inj h).symm⟩
  next => simp at h

theorem powTwo_checked {n : Nat} {p : Int} (h : powTwo true n = some p) : n < 63 ∧ p = 2 ^ n := by
  unfold powTwo at h
  split at h
  next hn => exact ⟨hn, (Option.some.inj h).symm⟩
  next => simp at h

theorem exponent_max (attempt : Int) : (max (attempt - 1) 0).toNat % 2 ^ 32 = exponent attempt := by
  unfold exponent
  congr 1
  omega

theorem delay_fits {checks : Bool} (power : exponential policy → exponent attempt < 63)
    (fits : bigintFits (castDelay policy attempt) = true) : delay checks policy attempt = some (castDelay policy attempt) := by
  unfold delay
  unfold castDelay at fits ⊢
  split
  next => rfl
  next hf =>
    rw [if_neg hf] at fits
    split
    next hl =>
      rw [if_pos hl] at fits
      exact arith_fits fits
    next hl =>
      rw [if_neg hl] at fits
      rw [exponent_max]
      have hp : powTwo checks (exponent attempt) = some (2 ^ exponent attempt) := by
        simp [powTwo, power ⟨hf, hl⟩]
      rw [hp]
      exact arith_fits fits

theorem delay_checked {d : Int} (small : bigintFits policy.initialDelayMs = true) (h : delay true policy attempt = some d) :
    d = castDelay policy attempt ∧ bigintFits (castDelay policy attempt) = true ∧
      (exponential policy → exponent attempt < 63) := by
  unfold delay at h
  unfold castDelay
  split at h
  next hf =>
    rw [if_pos hf]
    exact ⟨(Option.some.inj h).symm, small, fun he => absurd hf he.1⟩
  next hf =>
    rw [if_neg hf]
    split at h
    next hl =>
      rw [if_pos hl]
      obtain ⟨fits, rfl⟩ := arith_checked h
      exact ⟨rfl, fits, fun he => absurd hl he.2⟩
    next hl =>
      rw [if_neg hl]
      rw [exponent_max] at h
      obtain ⟨p, hp, ha⟩ := Option.bind_eq_some_iff.mp h
      obtain ⟨lt, rfl⟩ := powTwo_checked hp
      obtain ⟨fits, rfl⟩ := arith_checked ha
      exact ⟨rfl, fits, fun _ => lt⟩

theorem drawn {d : Int} (draws : Draws d jitter) :
    (if d.tdiv 4 > 0 then max (-d.tdiv 4) (min (d.tdiv 4) jitter) else 0) = jitter := by
  unfold Draws at draws
  obtain ⟨lo, hi⟩ := abs_le.mp draws
  split <;> omega

theorem computeBackoff_of {checks : Bool} {d : Int} (hd : delay checks policy attempt = some d) (draws : Draws d jitter) :
    computeBackoff checks policy attempt jitter =
      (arith checks (d + jitter)).bind fun n => clampDelay n policy.maxDelayMs := by
  unfold computeBackoff
  rw [hd]
  simp only [Option.bind_eq_bind, Option.bind_some, drawn draws]

theorem near_drawn {d : Int} (draws : Draws d jitter) : Near (d + jitter) d := by
  unfold Near
  unfold Draws at draws
  have hq : 4 * max 0 (d.tdiv 4) ≤ |d| := by
    rcases le_total 0 d with h | h
    · rw [abs_of_nonneg h, Int.tdiv_eq_ediv_of_nonneg h]
      omega
    · have neg : -d.tdiv 4 = (-d) / 4 := by
        rw [← Int.neg_tdiv, Int.tdiv_eq_ediv_of_nonneg (by omega)]
      rw [abs_of_nonpos h]
      omega
  have hs : d + jitter - d = jitter := by omega
  rw [hs]
  omega

theorem clampDelay_of (n : Int) {m : Int} (h : 0 ≤ m) : clampDelay n m = some (max 0 (min n m)) := by
  simp [clampDelay, h]

theorem sum_nonneg {d : Int} (h : 0 ≤ d) (draws : Draws d jitter) : 0 ≤ d + jitter := by
  unfold Draws at draws
  rw [Int.tdiv_eq_ediv_of_nonneg h] at draws
  obtain ⟨lo, _⟩ := abs_le.mp draws
  omega

theorem sum_nonpos {d : Int} (h : d ≤ 0) (draws : Draws d jitter) : d + jitter ≤ 0 := by
  have neg : -d.tdiv 4 = (-d) / 4 := by
    rw [← Int.neg_tdiv, Int.tdiv_eq_ediv_of_nonneg (by omega)]
  unfold Draws at draws
  obtain ⟨_, hi⟩ := abs_le.mp draws
  omega

theorem castDelay_exponential (expo : exponential policy) :
    castDelay policy attempt = policy.initialDelayMs * 2 ^ exponent attempt := by
  simp [castDelay, expo.1, expo.2]

theorem exactDelay_exponential (expo : exponential policy) :
    exactDelay policy attempt = policy.initialDelayMs * 2 ^ (attempt - 1).toNat := by
  simp [exactDelay, expo.1, expo.2]

/-- A delay beyond the cast is beyond every `i64`, and so is what is near to it. -/
theorem beyond_cast (expo : exponential policy) (large : 2 ^ 32 < attempt) (positive : 0 < policy.initialDelayMs)
    (maxFits : bigintFits policy.maxDelayMs = true) {n : Int} (near : Near n (exactDelay policy attempt)) :
    policy.maxDelayMs ≤ n := by
  have grown : (2 : Int) ^ 64 ≤ 2 ^ (attempt - 1).toNat := pow_le_pow_right₀ (by omega) (by omega)
  have exact : 2 ^ 64 ≤ exactDelay policy attempt := by
    rw [exactDelay_exponential expo]
    calc (2 : Int) ^ 64 ≤ 2 ^ (attempt - 1).toNat := grown
      _ = 1 * 2 ^ (attempt - 1).toNat := (one_mul _).symm
      _ ≤ policy.initialDelayMs * 2 ^ (attempt - 1).toNat := Int.mul_le_mul_of_nonneg_right (by omega) (by positivity)
  unfold Near at near
  simp only [bigintFits, Bool.and_eq_true, decide_eq_true_eq] at maxFits
  rw [abs_of_nonneg (by omega : 0 ≤ exactDelay policy attempt)] at near
  have lo := neg_abs_le (n - exactDelay policy attempt)
  omega

/-- The cast loses nothing, or the clamp hides what it loses. -/
theorem near_cast (first : 1 ≤ attempt) (draws : Draws (castDelay policy attempt) jitter) (fits : Fits policy attempt jitter)
    (maxFits : bigintFits policy.maxDelayMs = true) : ∃ n, Near n (exactDelay policy attempt) ∧
      max 0 (min (castDelay policy attempt + jitter) policy.maxDelayMs) = max 0 (min n policy.maxDelayMs) := by
  by_cases lossless : exponential policy → attempt ≤ 2 ^ 32
  · refine ⟨castDelay policy attempt + jitter, ?_, rfl⟩
    rw [← exactDelay_cast first lossless]
    exact near_drawn draws
  · simp only [Classical.not_imp, not_le] at lossless
    obtain ⟨expo, large⟩ := lossless
    have self : Near (exactDelay policy attempt) (exactDelay policy attempt) := by
      simp [Near]
    refine ⟨exactDelay policy attempt, self, ?_⟩
    by_cases positive : 0 < policy.initialDelayMs
    · have le := beyond_cast expo large positive maxFits self
      have reaches : policy.maxDelayMs ≤ castDelay policy attempt + jitter := by
        rcases fits.cast expo with h | h | h
        · omega
        · omega
        · exact h
      omega
    · have exact : exactDelay policy attempt ≤ 0 := by
        rw [exactDelay_exponential expo]
        exact Int.mul_nonpos_of_nonpos_of_nonneg (by omega) (by positivity)
      have cast : castDelay policy attempt ≤ 0 := by
        rw [castDelay_exponential expo]
        exact Int.mul_nonpos_of_nonpos_of_nonneg (by omega) (by positivity)
      have sum := sum_nonpos cast draws
      omega

/-- What the computation returns where everything fits. -/
theorem computeBackoff_fits (fits : Fits policy attempt jitter) (draws : Draws (castDelay policy attempt) jitter) (checks : Bool) :
    computeBackoff checks policy attempt jitter =
      some (max 0 (min (castDelay policy attempt + jitter) policy.maxDelayMs)) := by
  rw [computeBackoff_of (delay_fits fits.power fits.delay) draws, arith_fits fits.sum]
  exact clampDelay_of _ fits.bound

theorem right_iff (first : 1 ≤ attempt) (small : bigintFits policy.initialDelayMs = true)
    (maxFits : bigintFits policy.maxDelayMs = true) (draws : Draws (castDelay policy attempt) jitter) :
    Right policy attempt jitter ↔ Fits policy attempt jitter := by
  constructor
  · rintro ⟨v, computed, _, _, n, near, hv⟩
    have checked := computed true
    cases hd : delay true policy attempt with
    | none => simp [computeBackoff, hd] at checked
    | some d =>
      obtain ⟨rfl, fits, power⟩ := delay_checked small hd
      rw [computeBackoff_of hd draws] at checked
      obtain ⟨m, hm, hc⟩ := Option.bind_eq_some_iff.mp checked
      obtain ⟨sum, rfl⟩ := arith_checked hm
      unfold clampDelay at hc
      split at hc
      next bound =>
        refine ⟨bound, power, fits, sum, fun expo => ?_⟩
        by_contra hn
        simp only [not_or, not_le] at hn
        have le := beyond_cast expo hn.1 hn.2.1 maxFits near
        have cast : 0 ≤ castDelay policy attempt := by
          rw [castDelay_exponential expo]
          exact Int.mul_nonneg (by omega) (by positivity)
        have sum := sum_nonneg cast draws
        have hv' := Option.some.inj hc
        omega
      next => cases hc
  · intro fits
    obtain ⟨n, near, same⟩ := near_cast first draws fits maxFits
    have bound := fits.bound
    refine ⟨_, computeBackoff_fits fits draws, le_max_left _ _, ?_, n, near, same⟩
    omega

theorem draws_zero (d : Int) : Draws d 0 := by
  unfold Draws
  rw [abs_zero]
  exact le_max_left _ _

/-- Without jitter the delay of the next attempt is not shorter. -/
theorem delay_mono (first : 1 ≤ attempt) (start : 0 ≤ policy.initialDelayMs) (fits : Fits policy attempt 0)
    (next : Fits policy (attempt + 1) 0) (checks : Bool) : ∃ v v', computeBackoff checks policy attempt 0 = some v ∧
      computeBackoff checks policy (attempt + 1) 0 = some v' ∧ v ≤ v' := by
  refine ⟨_, _, computeBackoff_fits fits (draws_zero _) checks, computeBackoff_fits next (draws_zero _) checks, ?_⟩
  by_cases lossless : exponential policy → attempt + 1 ≤ 2 ^ 32
  · have grows : castDelay policy attempt ≤ castDelay policy (attempt + 1) := by
      rw [exactDelay_cast first fun he => by have := lossless he; omega, exactDelay_cast (by omega) lossless]
      unfold exactDelay
      split
      next => exact le_refl _
      next =>
        split
        next => exact Int.mul_le_mul_of_nonneg_left (by omega) start
        next => exact Int.mul_le_mul_of_nonneg_left (pow_le_pow_right₀ (by omega) (by omega)) start
    omega
  · simp only [Classical.not_imp, not_le] at lossless
    obtain ⟨expo, large⟩ := lossless
    rcases next.cast expo with h | h | h
    · omega
    · have zero : policy.initialDelayMs = 0 := by omega
      simp only [castDelay_exponential expo, zero, zero_mul]
      omega
    · omega

/-- The delay of a retry is right if and only if everything the computation comes by fits in 64 bits and
the upper bound is not negative; then it does not decrease from one attempt to the next. -/
theorem backoff_delays (first : 1 ≤ attempt) (small : bigintFits policy.initialDelayMs = true)
    (maxFits : bigintFits policy.maxDelayMs = true) (draws : Draws (castDelay policy attempt) jitter) :
    (Right policy attempt jitter ↔ Fits policy attempt jitter) ∧
      (0 ≤ policy.initialDelayMs → Fits policy attempt 0 → Fits policy (attempt + 1) 0 → ∀ checks,
        ∃ v v', computeBackoff checks policy attempt 0 = some v ∧
          computeBackoff checks policy (attempt + 1) 0 = some v' ∧ v ≤ v') :=
  ⟨right_iff first small maxFits draws, delay_mono first⟩

def patient : RetryPolicy := ⟨100, "exponential", 1000, 60000⟩

/-- The default delays overflow before they are clamped. -/
theorem backoff_overflows : ¬∀ policy attempt jitter, 1 ≤ attempt → bigintFits policy.initialDelayMs = true →
    bigintFits policy.maxDelayMs = true → Draws (castDelay policy attempt) jitter → Right policy attempt jitter := by
  intro right
  obtain ⟨v, computed, _⟩ := right patient 55 0 (by omega) (by decide) (by decide) (draws_zero _)
  have overflow : computeBackoff true patient 55 0 = none := by decide +kernel
  rw [computed true] at overflow
  cases overflow

theorem backoff_delays_first : Right patient 1 250 :=
  (backoff_delays (by omega) (by decide) (by decide) (by unfold Draws; decide +kernel)).1.mpr
    ⟨by decide, fun _ => by decide +kernel, by decide +kernel, by decide +kernel, fun _ => Or.inl (by decide)⟩

end Backoff

end Invokr
