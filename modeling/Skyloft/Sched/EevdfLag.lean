import Mathlib.Tactic.LinearCombination
import Mathlib.Tactic.Ring
import Skyloft.Sched.EevdfPick

/-!
# Lag in EEVDF

The average virtual time of a runqueue is a quotient, and three functions round it differently:
`avg_vruntime` divides and rounds down, `vruntime_eligible` multiplies instead, and `place_task`
truncates the lag it inflates.  All of them work on the same two sums, which are those of the tree
and of the task that runs.

* `EevdfSt.avgVruntime_eq` — the average, rounded down.
* `vruntimeEligible_iff` — who is eligible, by the average.
* `placement_preserves_lag` — a task that is placed has the lag it slept with.
* `spawn_half_slice_iff` — the slice of a new task.
-/

namespace Skyloft

open Run Signed Serial

namespace EevdfSt

variable {s : EevdfSt} {t : ℕ} {B : Balancer ℕ}

/-! ## The average -/

/-- The load that the average is taken over. -/
def totalLoad (s : EevdfSt) : ℤ := s.sums.2.toInt

/-- The average virtual time less `min_vruntime`, rounded down. -/
def avgKey (s : EevdfSt) : ℤ := s.sums.1.toInt / s.totalLoad

/-- The load fits the divisor of `div_s64`, and the sum of the keys can be moved to round down. -/
structure AvgFits (s : EevdfSt) : Prop where
  pos : 0 < s.totalLoad
  divisor : s.totalLoad < 2 ^ 31
  bias : s.sums.1.toInt < 0 → Fits 64 (s.sums.1.toInt - (s.totalLoad - 1))

theorem divS64_of_lt {x load : BitVec 64} (hpos : 0 < load.toInt) (hlt : load.toInt < 2 ^ 31) :
    divS64 x load = x.sdiv load := by
  have hnat : (load.toNat : ℤ) = load.toInt := by
    rw [BitVec.toInt_eq_toNat_cond] at hpos ⊢
    split at hpos
    · rw [if_pos (by assumption)]
    · omega
  have hload : (load.setWidth 32).signExtend 64 = load := by
    apply BitVec.eq_of_toInt_eq
    rw [BitVec.toInt_signExtend_of_le (by decide), BitVec.toInt_setWidth, hnat]
    exact Int.bmod_eq_of_le_mul_two (by omega) (by omega)
  rw [divS64, hload]

theorem sums_ne_zero (hpos : 0 < s.totalLoad) : s.sums.2 ≠ 0#64 := by
  intro hz
  rw [totalLoad, hz] at hpos
  exact absurd hpos (by decide)

theorem avgVruntime_eq (h : s.AvgFits) :
    s.avgVruntime = s.rq.minVruntime + (s.avgKey : BitVec 64) := by
  have hdiv := toInt_floorDiv h.pos h.bias
  rw [avgVruntime]
  simp only [if_neg (sums_ne_zero h.pos), divS64_of_lt h.pos h.divisor]
  rw [← intCast_toInt (BitVec.sdiv _ _), hdiv]
  rfl

/-- What is left of the average at a virtual time. -/
theorem sub_avgVruntime (h : s.AvgFits) {v : BitVec 64} (hfit : Fits 64 (s.key v - s.avgKey)) :
    (v - s.avgVruntime).toInt = s.key v - s.avgKey := by
  refine toInt_eq ?_ hfit
  rw [avgVruntime_eq h, Int.cast_sub, key, ahead, intCast_toInt]
  ring

theorem eligible_iff_le_avgKey (h : s.AvgFits) {v : BitVec 64}
    (hfit : Fits 64 (s.key v * s.totalLoad)) :
    s.vruntimeEligible v = true ↔ s.key v ≤ s.avgKey := by
  have hmul : ((v - s.rq.minVruntime) * s.sums.2).toInt = s.key v * s.totalLoad := toInt_mul hfit
  rw [vruntimeEligible, decide_eq_true_iff, hmul, avgKey]
  exact (Int.le_ediv_iff_mul_le h.pos).symm

theorem avgKey_mul_le (h : s.AvgFits) : s.avgKey * s.totalLoad ≤ s.sums.1.toInt :=
  Int.ediv_mul_le _ (ne_of_gt h.pos)

/-- The average fits as the sum does that it is taken of. -/
theorem fits_avgKey (h : s.AvgFits) : Fits 64 s.avgKey := by
  obtain ⟨hlo, hhi⟩ := fits_toInt s.sums.1
  have hpos := h.pos
  by_cases hneg : s.sums.1.toInt < 0
  · have hle : s.sums.1.toInt ≤ s.avgKey := by
      rw [avgKey, Int.le_ediv_iff_mul_le hpos]
      exact mul_le_of_one_le_right (le_of_lt hneg) hpos
    have hlt : s.avgKey < 0 := Int.ediv_neg_of_neg_of_pos hneg hpos
    constructor <;> omega
  · have hnonneg : 0 ≤ s.avgKey := Int.ediv_nonneg (not_lt.mp hneg) (le_of_lt hpos)
    have hle : s.avgKey ≤ s.sums.1.toInt := Int.ediv_le_self _ (not_lt.mp hneg)
    constructor <;> omega

theorem fits_avgKey_mul (h : s.AvgFits) : Fits 64 (s.avgKey * s.totalLoad) := by
  obtain ⟨hlo, hhi⟩ := fits_toInt s.sums.1
  have hpos := h.pos
  have hle := avgKey_mul_le h
  by_cases hneg : s.sums.1.toInt < 0
  · obtain ⟨hbias, -⟩ := h.bias hneg
    have hlt : s.sums.1.toInt < (s.avgKey + 1) * s.totalLoad := Int.lt_ediv_add_one_mul_self _ hpos
    rw [add_mul, one_mul] at hlt
    constructor <;> omega
  · have hnonneg : 0 ≤ s.avgKey * s.totalLoad :=
      mul_nonneg (Int.ediv_nonneg (not_lt.mp hneg) (le_of_lt hpos)) (le_of_lt hpos)
    constructor <;> omega

theorem key_avgVruntime (h : s.AvgFits) : s.key s.avgVruntime = s.avgKey := by
  refine toInt_eq ?_ (fits_avgKey h)
  rw [avgVruntime_eq h]
  ring

/-- The average was rounded down, so a task that is placed at it is eligible. -/
theorem eligible_avgVruntime (h : s.AvgFits) : s.vruntimeEligible s.avgVruntime = true := by
  have hkey := key_avgVruntime h
  refine (eligible_iff_le_avgKey h ?_).mpr ?_
  · rw [hkey]
    exact fits_avgKey_mul h
  · rw [hkey]

/-! ## Placement -/

theorem scaleLoadDown_nonneg (w : BitVec 64) : 0 ≤ (scaleLoadDown w).toInt := by
  rw [scaleLoadDown]
  by_cases hz : w = 0#64
  · rw [if_pos hz]
    decide
  · rw [if_neg hz]
    by_cases hlt : w >>> 10 < 2#64
    · rw [if_pos hlt]
      decide
    · rw [if_neg hlt, BitVec.toInt_eq_toNat_of_lt]
      · exact Int.natCast_nonneg _
      · simp only [BitVec.toNat_ushiftRight, Nat.shiftRight_eq_div_pow]
        omega

/-- Three roundings, of the average before, of the inflated lag and of the average after, come to
one unit at most. -/
theorem inflated_lag {A W w : ℤ} (l : ℤ) (hW : 0 < W) (hw : 0 ≤ w) :
    |(A + (A / W - (l * (W + w)).tdiv W) * w) / (W + w) - (A / W - (l * (W + w)).tdiv W) - l| ≤
      1 := by
  have hdiv : W * (A / W) + A % W = A := Int.mul_ediv_add_emod A W
  have htdiv : W * (l * (W + w)).tdiv W + (l * (W + w)).tmod W = l * (W + w) :=
    Int.mul_tdiv_add_tmod _ _
  have hr : 0 ≤ A % W ∧ A % W < W := ⟨Int.emod_nonneg A (ne_of_gt hW), Int.emod_lt_of_pos A hW⟩
  have hs : -W < (l * (W + w)).tmod W ∧ (l * (W + w)).tmod W < W :=
    ⟨Int.lt_tmod_of_pos _ hW, Int.tmod_lt_of_pos _ hW⟩
  generalize A / W = q at *
  generalize A % W = r at *
  generalize (l * (W + w)).tdiv W = p at *
  generalize (l * (W + w)).tmod W = s at *
  have hsum : A + (q - p) * w = r - s + (W + w) * (q - p + l) := by
    linear_combination -hdiv + htdiv
  rw [hsum, Int.add_mul_ediv_left _ _ (by omega)]
  have hlow : -1 ≤ (r - s) / (W + w) := Int.le_ediv_of_mul_le (by omega) (by omega)
  have hhigh : (r - s) / (W + w) < 2 := Int.ediv_lt_of_lt_mul (by omega) (by omega)
  rw [abs_le]
  constructor <;> omega

/-- `place_task` and then `__enqueue_task`. -/
def placeEnqueue (B : Balancer ℕ) (s : EevdfSt) (t : ℕ) (init : Bool) : EevdfSt :=
  (s.placeTask t init).enqueueTree B t

/-- The virtual time of the task, less `min_vruntime`. -/
def placedKey (s : EevdfSt) (t : ℕ) : ℤ :=
  s.avgKey - ((s.task t).vlag.toInt * (s.totalLoad + (s.weight t).toInt)).tdiv s.totalLoad

/-- The sum of the keys with the task. -/
def placedSum (s : EevdfSt) (t : ℕ) : ℤ := s.sums.1.toInt + s.placedKey t * (s.weight t).toInt

/-- Nothing overflows when the task is placed, and with it the load still fits the divisor of
`div_s64`. -/
structure PlaceFits (s : EevdfSt) (t : ℕ) : Prop where
  pos : 0 < s.totalLoad
  divisor : s.totalLoad + (s.weight t).toInt < 2 ^ 31
  bias : s.sums.1.toInt < 0 → Fits 64 (s.sums.1.toInt - (s.totalLoad - 1))
  inflated : Fits 64 ((s.task t).vlag.toInt * (s.totalLoad + (s.weight t).toInt))
  key : Fits 64 (s.placedKey t)
  sum : Fits 64 (s.placedSum t)
  sumBias : s.placedSum t < 0 →
    Fits 64 (s.placedSum t - (s.totalLoad + (s.weight t).toInt - 1))

section

variable (init : Bool)

theorem PlaceFits.avgFits (h : s.PlaceFits t) : s.AvgFits := by
  have hw : 0 ≤ (s.weight t).toInt := scaleLoadDown_nonneg _
  have hdivisor := h.divisor
  exact ⟨h.pos, by omega, h.bias⟩

theorem PlaceFits.toInt_load (h : s.PlaceFits t) :
    (s.sums.2 + s.weight t).toInt = s.totalLoad + (s.weight t).toInt := by
  have hpos := h.pos
  have hw : 0 ≤ (s.weight t).toInt := scaleLoadDown_nonneg _
  have hdivisor := h.divisor
  exact toInt_add ⟨by rw [totalLoad] at *; omega, by rw [totalLoad] at *; omega⟩

theorem PlaceFits.placeLag (h : s.PlaceFits t) (hnr : s.rq.nrRunning ≠ 0#32) :
    s.placeLag t = (((s.task t).vlag.toInt * (s.totalLoad + (s.weight t).toInt)).tdiv s.totalLoad :
      ℤ) := by
  have hmul : ((s.task t).vlag * (s.sums.2 + s.weight t)).toInt =
      (s.task t).vlag.toInt * (s.totalLoad + (s.weight t).toInt) := by
    rw [← h.toInt_load]
    apply toInt_mul
    rw [h.toInt_load]
    exact h.inflated
  rw [EevdfSt.placeLag, if_neg hnr]
  simp only [if_neg (sums_ne_zero h.pos), divS64_of_lt h.pos h.avgFits.divisor]
  rw [← intCast_toInt (BitVec.sdiv _ _), toInt_sdiv h.pos, hmul]
  rfl

theorem PlaceFits.toInt_placed (h : s.PlaceFits t) (hnr : s.rq.nrRunning ≠ 0#32) :
    (s.avgVruntime - s.placeLag t - s.rq.minVruntime).toInt = s.placedKey t := by
  refine toInt_eq ?_ h.key
  rw [avgVruntime_eq h.avgFits, h.placeLag hnr, placedKey, Int.cast_sub]
  ring

theorem vruntime_placeEnqueue :
    ((placeEnqueue B s t init).task t).vruntime = s.avgVruntime - s.placeLag t := by
  simp [placeEnqueue, enqueueTree, avgVruntimeAdd, placeTask, setTask]

theorem currOnRq_placeEnqueue : (placeEnqueue B s t init).currOnRq = s.currOnRq := by
  have hon : ∀ u, ((placeEnqueue B s t init).task u).onRq = (s.task u).onRq := by
    intro u
    by_cases hu : u = t <;>
      simp [placeEnqueue, enqueueTree, avgVruntimeAdd, placeTask, setTask, hu]
  rw [currOnRq, currOnRq]
  simp only [hon]
  rfl

/-- The task joins the sums; it was not in them, as it was not on the runqueue. -/
theorem sums_placeEnqueue (hoff : (s.task t).onRq = false) :
    (placeEnqueue B s t init).sums =
      (s.sums.1 + (s.avgVruntime - s.placeLag t - s.rq.minVruntime) * s.weight t,
        s.sums.2 + s.weight t) := by
  have hsame : ∀ u, u ≠ t → (placeEnqueue B s t init).task u = s.task u := by
    intro u hu
    simp [placeEnqueue, enqueueTree, avgVruntimeAdd, placeTask, setTask, hu]
  have havg : (placeEnqueue B s t init).rq.avgVruntime = s.rq.avgVruntime +
      (s.avgVruntime - s.placeLag t - s.rq.minVruntime) * s.weight t := by
    simp [placeEnqueue, enqueueTree, avgVruntimeAdd, placeTask, setTask, taskKey, weight]
  have hload : (placeEnqueue B s t init).rq.avgLoad = s.rq.avgLoad + s.weight t := by
    simp [placeEnqueue, enqueueTree, avgVruntimeAdd, placeTask, setTask, weight]
  have hmin : (placeEnqueue B s t init).rq.minVruntime = s.rq.minVruntime := rfl
  rw [sums, sums, currOnRq_placeEnqueue]
  cases hc : s.currOnRq with
  | none => simp only [havg, hload]
  | some u =>
      have hu : u ≠ t := by
        intro hut
        have hon := (Option.filter_eq_some_iff.mp hc).2
        rw [hut, hoff] at hon
        exact Bool.false_ne_true hon
      simp only [havg, hload, taskKey, weight, hsame u hu, hmin]
      exact Prod.ext (add_right_comm _ _ _) (add_right_comm _ _ _)

theorem PlaceFits.placed (h : s.PlaceFits t) (hnr : s.rq.nrRunning ≠ 0#32)
    (hoff : (s.task t).onRq = false) :
    (placeEnqueue B s t init).totalLoad = s.totalLoad + (s.weight t).toInt ∧
      (placeEnqueue B s t init).sums.1.toInt = s.placedSum t := by
  have hsums := sums_placeEnqueue (B := B) init hoff
  constructor
  · rw [totalLoad, hsums]
    exact h.toInt_load
  · rw [hsums]
    refine toInt_eq ?_ h.sum
    rw [placedSum, ← h.toInt_placed hnr, Int.cast_add, Int.cast_mul, intCast_toInt, intCast_toInt,
      intCast_toInt]

theorem PlaceFits.avgFits_placed (h : s.PlaceFits t) (hnr : s.rq.nrRunning ≠ 0#32)
    (hoff : (s.task t).onRq = false) : (placeEnqueue B s t init).AvgFits := by
  obtain ⟨hload, hsum⟩ := h.placed (B := B) init hnr hoff
  have hpos := h.pos
  have hw : 0 ≤ (s.weight t).toInt := scaleLoadDown_nonneg _
  constructor
  · omega
  · rw [hload]
    exact h.divisor
  · rw [hload, hsum]
    exact h.sumBias

/-- The lag with which the task is in the tree, as a number. -/
theorem PlaceFits.lag_eq (h : s.PlaceFits t) (hnr : s.rq.nrRunning ≠ 0#32)
    (hoff : (s.task t).onRq = false) :
    (placeEnqueue B s t init).avgVruntime - ((placeEnqueue B s t init).task t).vruntime =
      ((s.placedSum t / (s.totalLoad + (s.weight t).toInt) - s.placedKey t : ℤ) : BitVec 64) := by
  obtain ⟨hload, hsum⟩ := h.placed (B := B) init hnr hoff
  have hmin : (placeEnqueue B s t init).rq.minVruntime = s.rq.minVruntime := rfl
  rw [avgVruntime_eq (h.avgFits_placed init hnr hoff), vruntime_placeEnqueue, avgKey, hload, hsum, hmin,
    Int.cast_sub, ← h.toInt_placed hnr, intCast_toInt]
  ring

/-- A lag that can be inflated has room for the rounding. -/
theorem fits_of_near {l z n : ℤ} (hn : 2 ≤ n) (hfit : Fits 64 (l * n)) (hz : |z - l| ≤ 1) :
    Fits 64 z := by
  obtain ⟨hlo, hhi⟩ := hfit
  rw [abs_le] at hz
  by_cases hl : 0 ≤ l
  · have hle : l * 2 ≤ l * n := Int.mul_le_mul_of_nonneg_left hn hl
    constructor <;> omega
  · have hle : l * n ≤ l * 2 := Int.mul_le_mul_of_nonpos_left (by omega) hn
    constructor <;> omega

end

end EevdfSt

/-! ## New tasks -/

/-- The slice that a task has left when it has run for nothing yet. -/
def EevdfTask.vslice (x : EevdfTask) : BitVec 64 := x.deadline - x.vruntime

section

variable {B : Balancer ℕ} {s : EevdfSt} {t : ℕ} {now : BitVec 64}

/-- `place_task` puts the deadline a slice after the virtual time, a whole one unless it is told
that the task is new. -/
theorem EevdfSt.vslice_placeTask :
    ((s.placeTask t false).task t).vslice = calcDeltaFair eevdfBaseSlice (s.task t).load := by
  simp [EevdfTask.vslice, EevdfSt.placeTask, EevdfSt.setTask]

/-- `enqueue_task` places the task, whoever placed it before. -/
theorem EevdfSt.vslice_enqueueTask (hcurr : s.rq.curr ≠ some t) :
    ((s.enqueueTask B t now).task t).vslice = calcDeltaFair eevdfBaseSlice (s.task t).load := by
  have hweight : ((s.updateCurr now).2.task t).load = (s.task t).load :=
    (EevdfSt.quiet_updateCurr (B := B) (s := s) now).weight t
  have hplaced := EevdfSt.vslice_placeTask (s := (s.updateCurr now).2) (t := t)
  rw [← hweight, ← hplaced]
  simp [EevdfSt.enqueueTask, hcurr, EevdfTask.vslice, EevdfSt.setOnRq, EevdfSt.enqueueTree,
    EevdfSt.avgVruntimeAdd, EevdfSt.enqueueUpdate, EevdfSt.setTask]

theorem EevdfSt.vslice_spawn (now₁ now₂ : BitVec 64) (hoff : (s.task t).onRq = false)
    (hcurr : s.rq.curr ≠ some t) :
    ((s.spawn B t now₁ now₂).task t).vslice = calcDeltaFair eevdfBaseSlice (s.task t).load := by
  have hq := EevdfSt.quiet_forkTask (B := B) (s := s) (t := t) now₁
  have hoff' : ((s.forkTask t now₁).task t).onRq = false := (hq.onRq t).trans hoff
  have hcurr' : (s.forkTask t now₁).rq.curr ≠ some t := by
    have hsame : (s.forkTask t now₁).rq.curr = s.rq.curr := hq.curr
    rw [hsame]
    exact hcurr
  have hweight : ((s.forkTask t now₁).task t).load = (s.task t).load := hq.weight t
  rw [EevdfSt.spawn, EevdfSt.putTask, hoff', if_neg Bool.false_ne_true,
    EevdfSt.vslice_enqueueTask hcurr', hweight]

end

/-! ## The comments of the source -/

/-- A runqueue with one task on it, and these sums. -/
def sumsAt (avg load : BitVec 64) (x : EevdfTask) : EevdfSt where
  rq := { eevdfInitPercpu with avgVruntime := avg, avgLoad := load, nrRunning := 1#32 }
  task _ := x

/-- **Eligibility without a division.**  While nothing overflows and the load fits the divisor, a
virtual time is eligible exactly when it is not after the average, rounded down; so the average
itself is eligible. -/
theorem vruntimeEligible_iff (s : EevdfSt) (h : s.AvgFits) :
    (∀ v, Fits 64 (s.key v * s.totalLoad) → Fits 64 (s.key v - s.avgKey) →
      (s.vruntimeEligible v = true ↔ (v - s.avgVruntime).toInt ≤ 0)) ∧
    s.vruntimeEligible s.avgVruntime = true := by
  constructor
  · intro v hmul hsub
    rw [EevdfSt.eligible_iff_le_avgKey h hmul, EevdfSt.sub_avgVruntime h hsub]
    omega
  · exact EevdfSt.eligible_avgVruntime h

theorem vruntimeEligible_iff_negative :
    (sumsAt (-3#64) 2#64 eevdfInitTask).vruntimeEligible (-1048576#64 + -2#64) = true := by
  have h : (sumsAt (-3#64) 2#64 eevdfInitTask).AvgFits :=
    ⟨by decide, by decide, fun _ => by decide⟩
  exact ((vruntimeEligible_iff _ h).1 _ (by decide) (by decide)).mpr (by decide)

/-- The divisor of `div_s64` is cut to 32 bits, and a load of `2 ^ 31` is negative there. -/
theorem half_load_not_eligible :
    (sumsAt 2147483648#64 2147483648#64 eevdfInitTask).totalLoad = 2 ^ 31 ∧
    Fits 64 ((sumsAt 2147483648#64 2147483648#64 eevdfInitTask).key (-1048576#64 + 1#64) * 2 ^ 31) ∧
    (sumsAt 2147483648#64 2147483648#64 eevdfInitTask).vruntimeEligible (-1048576#64 + 1#64) =
      true ∧
    ¬ (-1048576#64 + 1#64 -
      (sumsAt 2147483648#64 2147483648#64 eevdfInitTask).avgVruntime).toInt ≤ 0 := by
  decide

/-- **Placement keeps the lag.**  A task that was not on the runqueue is placed and enqueued; its
lag is then what it was stored as, but for one unit. -/
theorem placement_preserves_lag (B : Balancer ℕ) (s : EevdfSt) (t : ℕ) (init : Bool)
    (hnr : s.rq.nrRunning ≠ 0#32) (hoff : (s.task t).onRq = false) (h : s.PlaceFits t) :
    |((EevdfSt.placeEnqueue B s t init).avgVruntime -
        ((EevdfSt.placeEnqueue B s t init).task t).vruntime).toInt - (s.task t).vlag.toInt| ≤ 1 := by
  have hw : 0 ≤ (s.weight t).toInt := EevdfSt.scaleLoadDown_nonneg _
  have hpos := h.pos
  have hnear := EevdfSt.inflated_lag (A := s.sums.1.toInt) (s.task t).vlag.toInt h.pos hw
  have hlag := h.lag_eq (B := B) init hnr hoff
  rw [toInt_eq hlag ?_]
  · exact hnear
  · by_cases htwo : 2 ≤ s.totalLoad + (s.weight t).toInt
    · exact EevdfSt.fits_of_near htwo h.inflated hnear
    · -- with a load of 1 in all, the task has none, and the lag is not rounded at all
      have hone : s.totalLoad = 1 := by omega
      have hzero : (s.weight t).toInt = 0 := by omega
      have hfit := fits_toInt (s.task t).vlag
      simpa [EevdfSt.placedSum, EevdfSt.placedKey, EevdfSt.avgKey, hone, hzero] using hfit

/-- A task that slept behind, with a lag of `-7`. -/
theorem placement_preserves_lag_seven :
    |((EevdfSt.placeEnqueue .plain (sumsAt (-3#64) 2#64 { eevdfInitTask with vlag := -7#64 }) 0
          false).avgVruntime -
        ((EevdfSt.placeEnqueue .plain (sumsAt (-3#64) 2#64 { eevdfInitTask with vlag := -7#64 }) 0
          false).task 0).vruntime).toInt - -7| ≤ 1 :=
  placement_preserves_lag .plain (sumsAt (-3#64) 2#64 { eevdfInitTask with vlag := -7#64 }) 0 false
    (by decide) rfl
    ⟨by decide, by decide, fun _ => by decide, by decide, by decide, by decide, fun _ => by decide⟩

/-- A task whose weight takes the load to `2 ^ 31`, which the divisor does not hold. -/
def heavy : EevdfSt := sumsAt 0#64 2#64 { eevdfInitTask with load := 2199023255552#64, vlag := 2#64 }

theorem heavy_lag_lost :
    heavy.rq.nrRunning ≠ 0#32 ∧ (heavy.task 0).onRq = false ∧ 0 < heavy.totalLoad ∧
    heavy.totalLoad < 2 ^ 31 ∧
    Fits 64 ((heavy.task 0).vlag.toInt * (heavy.totalLoad + (heavy.weight 0).toInt)) ∧
    Fits 64 (heavy.placedKey 0) ∧ Fits 64 (heavy.placedSum 0) ∧
    Fits 64 (heavy.placedSum 0 - (heavy.totalLoad + (heavy.weight 0).toInt - 1)) ∧
    ¬ |((EevdfSt.placeEnqueue .plain heavy 0 false).avgVruntime -
        ((EevdfSt.placeEnqueue .plain heavy 0 false).task 0).vruntime).toInt -
      (heavy.task 0).vlag.toInt| ≤ 1 := by
  decide

/-- **New tasks have a whole slice.**  `place_task` gives a new task half a slice, and
`enqueue_task` places it once more, with a whole one; the two are the same for a weight under which
a slice is nothing. -/
theorem spawn_half_slice_iff (B : Balancer ℕ) (s : EevdfSt) (t : ℕ) (now₁ now₂ : BitVec 64)
    (hoff : (s.task t).onRq = false) (hcurr : s.rq.curr ≠ some t) :
    ((EevdfSt.spawn B s t now₁ now₂).task t).deadline -
        ((EevdfSt.spawn B s t now₁ now₂).task t).vruntime =
      calcDeltaFair eevdfBaseSlice (s.task t).load / 2#64 ↔
    calcDeltaFair eevdfBaseSlice (s.task t).load = 0#64 := by
  have hslice := EevdfSt.vslice_spawn (B := B) now₁ now₂ hoff hcurr
  rw [EevdfTask.vslice] at hslice
  rw [hslice]
  generalize calcDeltaFair eevdfBaseSlice (s.task t).load = slice
  constructor
  · intro h
    have hnat : slice.toNat = slice.toNat / 2 := by
      have hdiv := congrArg BitVec.toNat h
      rwa [BitVec.toNat_udiv] at hdiv
    apply BitVec.eq_of_toNat_eq
    rw [BitVec.toNat_zero]
    omega
  · rintro rfl
    rfl

/-- A weight under which the slice is nothing. -/
theorem spawn_half_slice_heavy :
    ((EevdfSt.spawn .plain (sumsAt 0#64 2#64 { eevdfInitTask with load := 16777216#64 }) 0 0#64
        0#64).task 0).deadline -
      ((EevdfSt.spawn .plain (sumsAt 0#64 2#64 { eevdfInitTask with load := 16777216#64 }) 0 0#64
        0#64).task 0).vruntime = 0#64 :=
  (spawn_half_slice_iff .plain (sumsAt 0#64 2#64 { eevdfInitTask with load := 16777216#64 }) 0 0#64
    0#64 rfl (by decide)).mpr (by decide)

/-- A task with the weight that `sched_init_task` gives it, on an empty runqueue. -/
theorem spawn_whole_slice :
    ((EevdfSt.spawn .plain ⟨eevdfInitPercpu, fun _ => eevdfInitTask⟩ 0 0#64 0#64).task 0).deadline -
        ((EevdfSt.spawn .plain ⟨eevdfInitPercpu, fun _ => eevdfInitTask⟩ 0 0#64
          0#64).task 0).vruntime = 12500#64 ∧
      calcDeltaFair eevdfBaseSlice nice0Load / 2#64 = 6250#64 := by
  decide

end Skyloft
