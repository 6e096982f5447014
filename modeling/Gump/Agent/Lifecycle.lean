/-
  Agent/Lifecycle.lean --- checks, retry with backoff, and terminal reasons.

  Health is optional.  A check keeps two saturating counters of consecutive
  outcomes and a flag that turns at its thresholds; a retry policy without
  attempts means no retry.
-/
import Mathlib.Algebra.GroupWithZero.Nat
import Gump.Foundation.Words

set_option autoImplicit false

namespace Gump.Agent

open Gump.Foundation

/-- Reason codes of terminal states, transitions and checks. -/
inductive Reason where
  | completed
  | permanentFailure
  | retryScheduled
  | livenessFailed
  | readinessFailed
  | checkTimeout
  | checkSkippedBudget
  | stopSignal
  | checkOk
  deriving DecidableEq, Repr

/-- What a check looks at. -/
inductive CheckKind where
  | process
  | tcp
  | http
  | command
  deriving DecidableEq, Repr

/-- A declared check. -/
structure CheckSpec where
  kind : CheckKind
  target : Option String
  command : Option (List String)
  intervalMs : Nat
  timeoutMs : Nat
  initialDelayMs : Nat
  successThreshold : Nat
  failureThreshold : Nat
  maxOutputBytes : Nat
  deriving DecidableEq, Repr

/-- The process check with its default timing. -/
def CheckSpec.processDefault : CheckSpec where
  kind := .process
  target := none
  command := none
  intervalMs := 1000
  timeoutMs := 500
  initialDelayMs := 0
  successThreshold := 1
  failureThreshold := 1
  maxOutputBytes := 4096

/-- Declared retry policy; without attempts there is no retry. -/
structure RetryPolicy where
  maxAttempts : Nat := 0
  initialBackoffMs : Nat := 1000
  maxBackoffMs : Nat := 5 * 60 * 1000
  jitterPct : Nat := 20
  deriving DecidableEq, Repr

namespace RetryPolicy

/-- Whether a failed attempt may run again at all. -/
def enabled (p : RetryPolicy) : Bool := decide (p.maxAttempts > 0)

/-- Deterministic exponential backoff with bounded jitter after the failure of
attempt `attemptIndex`. -/
def backoffMs (p : RetryPolicy) (attemptIndex jitterSeed : Nat) : Nat :=
  if attemptIndex = 0 then 0
  else
    let exp := min (attemptIndex - 1) 16
    let base := min (saturatingMul p.initialBackoffMs (2 ^ exp)) p.maxBackoffMs
    if p.jitterPct = 0 then base
    else
      let span := saturatingMul base p.jitterPct / 100
      let jitter := if span = 0 then 0 else jitterSeed % saturatingAdd span 1
      saturatingAdd (base - span / 2) jitter

/-- The delay of an attempt before jitter: doubled for each earlier failure, at most
sixteen times, and capped. -/
def baseMs (p : RetryPolicy) (attemptIndex : Nat) : Nat :=
  min (p.initialBackoffMs * 2 ^ min (attemptIndex - 1) 16) p.maxBackoffMs

/-- The width of the jitter around the base delay. -/
def spanMs (p : RetryPolicy) (attemptIndex : Nat) : Nat :=
  min (p.baseMs attemptIndex * p.jitterPct) u64Max / 100

/-- The least delay that the jitter leaves. -/
def lowestMs (p : RetryPolicy) (attemptIndex : Nat) : Nat :=
  p.baseMs attemptIndex - p.baseMs attemptIndex * p.jitterPct / 200

theorem baseMs_mono (p : RetryPolicy) {k k' : Nat} (h : k ≤ k') : p.baseMs k ≤ p.baseMs k' := by
  have hexp : min (k - 1) 16 ≤ min (k' - 1) 16 := by omega
  have hpow : 2 ^ min (k - 1) 16 ≤ 2 ^ min (k' - 1) 16 := Nat.pow_le_pow_right (by decide) hexp
  exact min_le_min_right _ (Nat.mul_le_mul_left _ hpow)

/-- A longer base delay has a higher lower end, since at most half of it is taken off. -/
theorem lowestMs_mono {p : RetryPolicy} (hpct : p.jitterPct ≤ 100) {k k' : Nat} (h : k ≤ k') :
    p.lowestMs k ≤ p.lowestMs k' := by
  obtain ⟨d, hd⟩ := Nat.exists_eq_add_of_le (p.baseMs_mono h)
  have hstep : d * p.jitterPct ≤ d * 100 := Nat.mul_le_mul_left d hpct
  have hbase : p.baseMs k * p.jitterPct ≤ p.baseMs k * 100 := Nat.mul_le_mul_left _ hpct
  simp only [lowestMs, hd, Nat.add_mul]
  omega

/-- One formula covers every branch: the jitter is zero where the span is. -/
theorem backoffMs_eq {p : RetryPolicy} (hmax : p.maxBackoffMs ≤ u64Max) {k : Nat} (hk : 1 ≤ k)
    (seed : Nat) :
    p.backoffMs k seed = min (p.baseMs k - p.spanMs k / 2 + seed % (p.spanMs k + 1)) u64Max := by
  have hbase : min (saturatingMul p.initialBackoffMs (2 ^ min (k - 1) 16)) p.maxBackoffMs =
      p.baseMs k := by
    simp only [saturatingMul, baseMs]
    omega
  have hle : p.baseMs k ≤ u64Max := Nat.le_trans (Nat.min_le_right _ _) hmax
  have hspan : saturatingMul (p.baseMs k) p.jitterPct / 100 = p.spanMs k := rfl
  have hroom : saturatingAdd (p.spanMs k) 1 = p.spanMs k + 1 := by
    apply saturatingAdd_eq
    simp only [spanMs, u64Max]
    omega
  have hk0 : k ≠ 0 := by omega
  simp only [backoffMs, if_neg hk0, hbase, hspan, hroom]
  by_cases hpct : p.jitterPct = 0
  · have hzero : p.spanMs k = 0 := by simp [spanMs, hpct]
    rw [if_pos hpct, hzero]
    omega
  · rw [if_neg hpct]
    by_cases hzero : p.spanMs k = 0
    · rw [if_pos hzero, hzero]
      simp [saturatingAdd, Nat.mod_one]
    · rw [if_neg hzero, saturatingAdd]

/-- Half of the span is at most what the lower end takes off. -/
theorem half_spanMs_le (p : RetryPolicy) (k : Nat) :
    p.spanMs k / 2 ≤ p.baseMs k * p.jitterPct / 200 := by
  simp only [spanMs]
  omega

theorem lowestMs_le_backoffMs {p : RetryPolicy} (hmax : p.maxBackoffMs ≤ u64Max) {k : Nat}
    (hk : 1 ≤ k) (seed : Nat) : p.lowestMs k ≤ p.backoffMs k seed := by
  have hhalf := p.half_spanMs_le k
  have hle : p.baseMs k ≤ u64Max := Nat.le_trans (Nat.min_le_right _ _) hmax
  rw [backoffMs_eq hmax hk, lowestMs]
  omega

/-- The lower end of every retry delay holds and grows with the attempt; the cap holds
exactly for the seeds whose jitter stays within the room above the base delay and half
of the span, or where the cap is the largest word. -/
theorem backoff_bounds_iff (p : RetryPolicy) (k seed : Nat) (hpct : p.jitterPct ≤ 100)
    (hmax : p.maxBackoffMs ≤ u64Max) (hk : 1 ≤ k) :
    (p.lowestMs k ≤ p.backoffMs k seed ∧ p.backoffMs k seed ≤ p.maxBackoffMs ↔
      p.maxBackoffMs = u64Max ∨
        p.baseMs k + seed % (p.spanMs k + 1) ≤ p.maxBackoffMs + p.spanMs k / 2) ∧
    ∀ k', k ≤ k' → p.lowestMs k ≤ p.lowestMs k' := by
  have hlow := lowestMs_le_backoffMs hmax hk seed
  have hhalf := p.half_spanMs_le k
  have hscaled : p.baseMs k * p.jitterPct ≤ p.baseMs k * 100 := Nat.mul_le_mul_left _ hpct
  refine ⟨?_, fun k' h => lowestMs_mono hpct h⟩
  rw [and_iff_right hlow, backoffMs_eq hmax hk]
  omega

/-- The default policy keeps its bounds after the first failure. -/
theorem backoff_bounds_first_failure :
    lowestMs {} 1 ≤ backoffMs {} 1 7 ∧ backoffMs {} 1 7 ≤ 300000 :=
  ((backoff_bounds_iff {} 1 7 (by decide) (by decide) (by decide)).1).mpr (.inr (by decide))

/-- At the cap of the default policy, five minutes, the jitter adds half a minute. -/
theorem backoff_past_cap :
    baseMs {} 10 = 300000 ∧ backoffMs {} 10 60000 = 330000 := by
  decide

end RetryPolicy

/-- The lifecycle contract of an accepted placement. -/
structure LifecycleContract where
  readiness : Option CheckSpec := none
  liveness : Option CheckSpec := none
  completion : Option CheckSpec := none
  retry : RetryPolicy := {}
  declaresPublication : Bool := false
  stopGraceMs : Nat := 0
  deriving DecidableEq, Repr

/-- Why an attempt ended or changed phase. -/
structure TerminalReason where
  code : Reason
  detail : String
  exitCode : Option Int
  attemptIndex : Nat
  deriving DecidableEq, Repr

namespace TerminalReason

def completed (exit : Option Int) : TerminalReason :=
  ⟨.completed, "finite workload completed", exit, 1⟩

def permanent (detail : String) (exit : Option Int) (attemptIndex : Nat) : TerminalReason :=
  ⟨.permanentFailure, detail, exit, attemptIndex⟩

end TerminalReason

/-- Running counters of one check. -/
structure CheckRuntime where
  consecutiveSuccess : Nat := 0
  consecutiveFailure : Nat := 0
  lastRunMs : Nat := 0
  passed : Bool := false
  deriving DecidableEq, Repr

namespace CheckRuntime

/-- Count one outcome. -/
def record (r : CheckRuntime) (ok : Bool) (spec : CheckSpec) : CheckRuntime :=
  if ok then
    let successes := saturatingAdd32 r.consecutiveSuccess 1
    { r with
      consecutiveSuccess := successes
      consecutiveFailure := 0
      passed := if successes ≥ max spec.successThreshold 1 then true else r.passed }
  else
    let failures := saturatingAdd32 r.consecutiveFailure 1
    { r with
      consecutiveFailure := failures
      consecutiveSuccess := 0
      passed := if failures ≥ max spec.failureThreshold 1 then false else r.passed }

/-- Whether the check runs now: after the initial delay, one interval after its
last run. -/
def due (r : CheckRuntime) (nowMs startedMs : Nat) (spec : CheckSpec) : Bool :=
  if nowMs - startedMs < spec.initialDelayMs then false
  else decide (nowMs - r.lastRunMs ≥ spec.intervalMs)

/-- The counters and the flag without the time of the last run. -/
def counters (r : CheckRuntime) : Nat × Nat × Bool :=
  (r.consecutiveSuccess, r.consecutiveFailure, r.passed)

theorem record_failure_le (r : CheckRuntime) (spec : CheckSpec) :
    (r.record false spec).consecutiveFailure ≤ r.consecutiveFailure + 1 :=
  saturatingAdd32_le_add _ _

theorem record_success (r : CheckRuntime) (spec : CheckSpec) :
    (r.record true spec).consecutiveFailure = 0 := rfl

/-- The flag turns off only at the failure threshold. -/
theorem threshold_le_of_passed_turns_off {r : CheckRuntime} {ok : Bool} {spec : CheckSpec}
    (hbefore : r.passed = true) (hafter : (r.record ok spec).passed = false) :
    ok = false ∧ max spec.failureThreshold 1 ≤ (r.record ok spec).consecutiveFailure := by
  cases ok with
  | true => simp [record, hbefore] at hafter
  | false =>
    refine ⟨rfl, ?_⟩
    simp only [record, Bool.false_eq_true, if_false, hbefore] at hafter ⊢
    by_contra hlt
    simp [hlt] at hafter

end CheckRuntime

end Gump.Agent
