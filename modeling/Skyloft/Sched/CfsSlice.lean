import Skyloft.Sched.CalcDelta
import Skyloft.Sched.CfsPlacement

/-!
# Slices of a period

`sched_slice` gives each task the part of the scheduling period that its weight has in the load of
the runqueue.  The division never rounds up, so the slices of the tasks fit into one period.

* `slices_le` — the slices of tasks that make up the load.
* `slices_in_period` — so for every runqueue of every run.
* `weighted_division` — the division and the slices.
-/

namespace Skyloft

open Run CfsSt

/-- The division of `sched_slice`, whose result is smaller than the period. -/
theorem calcDelta_share {delta weight load : BitVec 64} (hle : weight.toNat ≤ load.toNat)
    (hpos : 0 < load.toNat) (hlt : load.toNat < 2 ^ 32 - 1) :
    ((calcDelta delta weight load).toNat : ℚ) ≤ delta.toNat * weight.toNat / load.toNat := by
  have hload : (LoadWeight.ofWeight load).weight = load := rfl
  have hfit : exactDelta delta weight (.ofWeight load) < 2 ^ 64 := by
    rw [exactDelta, hload, div_lt_iff₀ (by exact_mod_cast hpos)]
    have hdelta := delta.isLt
    have hprod : delta.toNat * weight.toNat < 2 ^ 64 * load.toNat :=
      Nat.mul_lt_mul_of_lt_of_le hdelta hle hpos
    exact_mod_cast hprod
  have hweight : weight.toNat < 2 ^ 32 := by omega
  have hcached := calcDelta_eq_cached delta weight (.ofWeight load)
  rw [hload] at hcached
  rw [← hcached]
  exact (calcDelta_bounds hweight hpos hlt hfit).le

/-- **The slices of a runqueue.**  The tasks that make up its load share one period. -/
theorem slices_le {q : CfsRq} {ts : List CfsTask}
    (hts : ∀ x ∈ ts, x.onRq = true ∧ 0 < x.load.toNat)
    (hload : q.load.toNat = (ts.map fun x => x.load.toNat).sum) (hlt : q.load.toNat < 2 ^ 32 - 1) :
    (ts.map fun x => (schedSlice q x).toNat).sum ≤ (schedPeriod q.nrRunning).toNat := by
  apply Reciprocal.sum_le hload.symm
  intro x hx
  obtain ⟨hon, hpos⟩ := hts x hx
  have hle : x.load.toNat ≤ q.load.toNat := by
    rw [hload]
    exact List.single_le_sum (fun _ _ => Nat.zero_le _) _ (List.mem_map_of_mem hx)
  rw [schedSlice, if_pos hon]
  exact calcDelta_share hle (by omega) hlt

/-- **Slices fit into the period** of every runqueue, in every run. -/
theorem slices_in_period (B : Balancer ℕ) {es : List SchedEvent} {g : CfsSys}
    (hrun : exec (schedStep (cfs B)) (.start (cfs B)) es = .ok g) (c : ℕ) :
    (((cfs B).members (g.rq c)).map fun t => (schedSlice (g.rq c) (g.task t)).toNat).sum ≤
      (schedPeriod (g.rq c).nrRunning).toNat := by
  have hinv := CfsInv.of_exec hrun
  have hok := hinv.inv.rq c
  have hweight : ∀ t ∈ (cfs B).members (g.rq c), (g.task t).load = nice0Load :=
    fun t ht => hinv.weight t (hinv.inv.live t (hok.onRq t ht))
  have hslices : ((((cfs B).members (g.rq c)).map g.task).map
      fun x => (schedSlice (g.rq c) x).toNat).sum ≤ (schedPeriod (g.rq c).nrRunning).toNat := by
    apply slices_le
    · intro x hx
      obtain ⟨t, ht, rfl⟩ := List.mem_map.mp hx
      refine ⟨hok.onRq t ht, ?_⟩
      rw [hweight t ht]
      decide
    · have hconst : ((cfs B).members (g.rq c)).map ((fun x : CfsTask => x.load.toNat) ∘ g.task) =
          ((cfs B).members (g.rq c)).map fun _ => 1024 :=
        List.map_congr_left fun t ht => congrArg BitVec.toNat (hweight t ht)
      rw [hinv.toNat_load c, List.map_map, hconst, List.map_const',
        List.sum_replicate_nat, Nat.mul_comm]
    · have hle := (hinv.load_le c).2
      have hmax : maxTasks = 32768 := rfl
      omega
  rwa [List.map_map] at hslices

/-- **Weighted division is sound.**  For weights and loads of 32 bits and a quotient of 64, the shift
of `__calc_delta` stays in range, the multiplication is exact, and the result is the quotient up to
a small part of it and one; so the slices of the tasks that make up the load of a runqueue add up to
no more than the period. -/
theorem weighted_division :
    (∀ (delta weight : BitVec 64) (lw : LoadWeight), 0 < weight.toNat → weight.toNat < 2 ^ 32 →
      0 < lw.weight.toNat → lw.weight.toNat < 2 ^ 32 - 1 → exactDelta delta weight lw < 2 ^ 64 →
      CalcDelta delta weight lw) ∧
    ∀ (q : CfsRq) (ts : List CfsTask), (∀ x ∈ ts, x.onRq = true ∧ 0 < x.load.toNat) →
      q.load.toNat = (ts.map fun x => x.load.toNat).sum → q.load.toNat < 2 ^ 32 - 1 →
      (ts.map fun x => (schedSlice q x).toNat).sum ≤ (schedPeriod q.nrRunning).toNat :=
  ⟨fun _ _ _ _ hweight hpos hlt hfit => calcDelta_bounds hweight hpos hlt hfit,
    fun _ _ hts hload hlt => slices_le hts hload hlt⟩

/-- A task on the runqueue, of some weight. -/
def taskOfWeight (w : BitVec 64) : CfsTask := { cfsInitTask with load := w, onRq := true }

theorem weighted_division_thirds :
    CalcDelta 50000 1024 (.ofWeight 3072) ∧
      ([taskOfWeight 1024, taskOfWeight 2048].map fun x =>
        (schedSlice { cfsInitPercpu with load := 3072, nrRunning := 2 } x).toNat).sum ≤ 50000 := by
  have hfit : exactDelta 50000 1024 (.ofWeight 3072) < 2 ^ 64 := by
    change (((50000 : ℕ) : ℚ) * (1024 : ℕ) / (3072 : ℕ) : ℚ) < 2 ^ 64
    norm_num
  exact ⟨weighted_division.1 50000 1024 (.ofWeight 3072) (by decide) (by decide) (by decide)
      (by decide) hfit,
    weighted_division.2 { cfsInitPercpu with load := 3072, nrRunning := 2 }
      [taskOfWeight 1024, taskOfWeight 2048] (by decide) (by decide) (by decide)⟩

end Skyloft
