import Mathlib.Algebra.Order.BigOperators.Group.List
import Skyloft.Lib.Serial
import Skyloft.Lib.Signed
import Skyloft.Sched.EevdfSums

/-!
# The selection of EEVDF

`pick_eevdf` picks, among the tasks that are eligible, the one with the earliest deadline.  The
tree is sorted by the deadlines, and every node has the least virtual time of its subtree; a task
is eligible when its virtual time is early enough, so there is an eligible task in a subtree exactly
when the least virtual time of it is eligible, and the search never has to turn back.  That there
is one at all is because the average is not before the least of what it is taken of.

Deadlines are compared by the sign of the difference of two words, which is an order only while
they are less than `2 ^ 63` apart.

* `EevdfSt.KeysFit` — the sums of the keys fit 64 bits.
* `EevdfSt.naivePick` — a scan of all tasks.
* `EevdfSt.pickEevdf_eq_find?` — the selection on one runqueue.
* `eevdf_selection` — the selection in a run.
* `yields_not_earliest` — a run whose deadlines are half way round.
-/

namespace Skyloft

open Run Signed Serial

namespace EevdfSt

variable {s : EevdfSt}

/-! ## The least virtual time of a subtree -/

/-- One step of `min_vruntime_update`: `__min_vruntime_update` on a child. -/
def takeMin (m : BitVec 64) : Option (BitVec 64) → BitVec 64
  | none => m
  | some v => if 0 < (m - v).toInt then v else m

theorem subtreeMin_node (task : ℕ → EevdfTask) (l r : SearchTree ℕ) (t : ℕ) :
    subtreeMin task (.node l t r) =
      some (takeMin (takeMin (task t).vruntime (subtreeMin task r)) (subtreeMin task l)) := rfl

/-- The virtual times of some tasks are apart as their keys are. -/
def KeyedBy (k : ℕ → ℤ) (task : ℕ → EevdfTask) (ts : List ℕ) : Prop :=
  ∀ t ∈ ts, ∀ u ∈ ts, ahead (task t).vruntime (task u).vruntime = k t - k u

/-- `v` is the virtual time of a task in `ts`, and none has an earlier one. -/
def IsLeast (k : ℕ → ℤ) (task : ℕ → EevdfTask) (ts : List ℕ) (v : BitVec 64) : Prop :=
  ∃ t ∈ ts, v = (task t).vruntime ∧ ∀ u ∈ ts, k t ≤ k u

section

variable {k : ℕ → ℤ} {task : ℕ → EevdfTask} {ts us : List ℕ} {m v : BitVec 64}

theorem IsLeast.congr (h : IsLeast k task ts v) (hmem : ∀ t, t ∈ ts ↔ t ∈ us) :
    IsLeast k task us v := by
  obtain ⟨t, ht, hv, hle⟩ := h
  exact ⟨t, (hmem t).mp ht, hv, fun u hu => hle u ((hmem u).mpr hu)⟩

theorem IsLeast.takeMin (hm : IsLeast k task ts m) (hv : IsLeast k task us v)
    (hk : KeyedBy k task (ts ++ us)) : IsLeast k task (ts ++ us) (takeMin m (some v)) := by
  obtain ⟨a, ha, rfl, hlea⟩ := hm
  obtain ⟨b, hb, rfl, hleb⟩ := hv
  have hdiff := hk a (List.mem_append_left _ ha) b (List.mem_append_right _ hb)
  rw [ahead] at hdiff
  by_cases hlt : 0 < ((task a).vruntime - (task b).vruntime).toInt
  · rw [EevdfSt.takeMin, if_pos hlt]
    refine ⟨b, List.mem_append_right _ hb, rfl, fun u hu => ?_⟩
    rcases List.mem_append.mp hu with hu | hu
    · have := hlea u hu
      omega
    · exact hleb u hu
  · rw [EevdfSt.takeMin, if_neg hlt]
    refine ⟨a, List.mem_append_left _ ha, rfl, fun u hu => ?_⟩
    rcases List.mem_append.mp hu with hu | hu
    · exact hlea u hu
    · have := hleb u hu
      omega

/-- **The augmented value of a node** is the least virtual time of its subtree. -/
theorem subtreeMin_spec {n : SearchTree ℕ} (hk : KeyedBy k task n.inorder) :
    (subtreeMin task n = none ∧ n.inorder = []) ∨
      ∃ v, subtreeMin task n = some v ∧ IsLeast k task n.inorder v := by
  induction n with
  | nil => exact .inl ⟨rfl, rfl⟩
  | node l x r ihl ihr =>
      right
      rw [SearchTree.inorder_node] at hk ⊢
      have hl := ihl fun t ht u hu => hk t (by simp [ht]) u (by simp [hu])
      have hr := ihr fun t ht u hu => hk t (by simp [ht]) u (by simp [hu])
      have hx : IsLeast k task [x] (task x).vruntime :=
        ⟨x, List.mem_singleton_self x, rfl, fun u hu => by rw [List.mem_singleton.mp hu]⟩
      -- the node itself and what is on the right
      have hxr : IsLeast k task (x :: r.inorder) (takeMin (task x).vruntime (subtreeMin task r)) := by
        rcases hr with ⟨hnone, hnil⟩ | ⟨v, hv, hleast⟩
        · rw [hnone, hnil]
          exact hx
        · rw [hv]
          exact hx.takeMin hleast fun t ht u hu =>
            hk t (List.mem_append_right _ ht) u (List.mem_append_right _ hu)
      refine ⟨_, subtreeMin_node task l r x, ?_⟩
      rcases hl with ⟨hnone, hnil⟩ | ⟨v, hv, hleast⟩
      · rw [hnone, hnil]
        exact hxr
      · rw [hv]
        have hmem : ∀ t, t ∈ (x :: r.inorder) ++ l.inorder ↔ t ∈ l.inorder ++ x :: r.inorder := by
          intro t
          rw [List.mem_append, List.mem_append, or_comm]
        refine IsLeast.congr (hxr.takeMin hleast ?_) hmem
        exact fun t ht u hu => hk t ((hmem t).mp ht) u ((hmem u).mp hu)

end

/-! ## Keys -/

/-- The key of a virtual time, as a number. -/
def key (s : EevdfSt) (v : BitVec 64) : ℤ := ahead v s.rq.minVruntime

/-- The load of the tree. -/
def treeLoad (s : EevdfSt) : ℤ := (s.rq.tree.inorder.map fun t => (s.weight t).toInt).sum

/-- The sum of the keys over the tree, by their weights. -/
def keySum (s : EevdfSt) : ℤ :=
  (s.rq.tree.inorder.map fun t => s.key (s.task t).vruntime * (s.weight t).toInt).sum

/-- The sum of the keys fits 64 bits, and so do the products it is compared with. -/
structure KeysFit (s : EevdfSt) : Prop where
  sum : Fits 64 s.keySum
  product : ∀ t ∈ s.rq.tree.inorder, Fits 64 (s.key (s.task t).vruntime * s.treeLoad)

/-- Nothing overflows while every task in the tree is at `min_vruntime`. -/
theorem KeysFit.of_eq_min (h : ∀ t ∈ s.rq.tree.inorder, (s.task t).vruntime = s.rq.minVruntime) :
    s.KeysFit := by
  have hkey : ∀ t ∈ s.rq.tree.inorder, s.key (s.task t).vruntime = 0 := by
    intro t ht
    rw [h t ht, key, ahead_self]
  have hzero : Fits 64 0 := by decide
  constructor
  · have hsum : s.keySum = 0 := by
      refine List.sum_eq_zero ?_
      intro x hx
      obtain ⟨t, ht, rfl⟩ := List.mem_map.mp hx
      rw [hkey t ht, zero_mul]
    rw [hsum]
    exact hzero
  · intro t ht
    rw [hkey t ht, zero_mul]
    exact hzero

/-- Every task in the tree has the weight that `sched_init_task` gave it. -/
def Nice (s : EevdfSt) : Prop := ∀ t ∈ s.rq.tree.inorder, (s.task t).load = nice0Load

/-- `vruntime_eligible` of the virtual time of a task, `task_eligible`. -/
def eligible (s : EevdfSt) (t : ℕ) : Bool := s.vruntimeEligible (s.task t).vruntime

theorem weight_eq (h : s.Nice) {t : ℕ} (ht : t ∈ s.rq.tree.inorder) : (s.weight t).toInt = 2 := by
  rw [weight, h t ht]
  decide

theorem treeLoad_eq (h : s.Nice) : s.treeLoad = 2 * s.rq.tree.inorder.length := by
  have hmap : s.rq.tree.inorder.map (fun t => (s.weight t).toInt) =
      s.rq.tree.inorder.map fun _ => 2 :=
    List.map_congr_left fun t ht => weight_eq h ht
  rw [treeLoad, hmap, List.map_const', List.sum_replicate, nsmul_eq_mul, mul_comm]

/-- The two sums of the runqueue as numbers. -/
theorem toInt_sums (hs : EevdfSums s) (hn : s.Nice) (hk : s.KeysFit)
    (hlen : s.rq.tree.inorder.length ≤ maxTasks) :
    s.rq.avgVruntime.toInt = s.keySum ∧ s.rq.avgLoad.toInt = s.treeLoad := by
  constructor
  · rw [hs.avgVruntime]
    refine toInt_sum (fun t _ => ?_) hk.sum
    rw [Int.cast_mul, intCast_toInt, key, ahead, intCast_toInt, weight]
  · rw [hs.avgLoad]
    refine toInt_sum (fun t _ => ?_) ?_
    · exact (intCast_toInt _).symm
    · have hload := treeLoad_eq hn
      rw [treeLoad] at hload
      rw [hload]
      rw [maxTasks] at hlen
      constructor <;> omega

/-- The keys of the tree are at most `2 ^ 62` from `min_vruntime`. -/
theorem key_bounds (hn : s.Nice) (hk : s.KeysFit) {t : ℕ} (ht : t ∈ s.rq.tree.inorder) :
    -4611686018427387904 ≤ s.key (s.task t).vruntime ∧
      s.key (s.task t).vruntime < 4611686018427387904 := by
  obtain ⟨hlo, hhi⟩ := hk.product t ht
  have hpos : 1 ≤ s.rq.tree.inorder.length := List.length_pos_of_mem ht
  have hload := treeLoad_eq hn
  generalize s.key (s.task t).vruntime = k at hlo hhi ⊢
  generalize s.treeLoad = W at hlo hhi hload
  have hW : 2 ≤ W := by omega
  constructor
  · by_contra hlt
    have hmul : k * W ≤ k * 2 := Int.mul_le_mul_of_nonpos_left (by omega) hW
    omega
  · by_contra hlt
    have hmul : k * 2 ≤ k * W := Int.mul_le_mul_of_nonneg_left hW (by omega)
    omega

theorem keyedBy_key (hn : s.Nice) (hk : s.KeysFit) :
    KeyedBy (fun t => s.key (s.task t).vruntime) s.task s.rq.tree.inorder := by
  intro t ht u hu
  have hbt := key_bounds hn hk ht
  have hbu := key_bounds hn hk hu
  simp only [key] at hbt hbu ⊢
  apply ahead_eq_sub <;> omega

/-- **Eligible** is a task whose key is not behind the average. -/
theorem eligible_iff (hs : EevdfSums s) (hn : s.Nice) (hk : s.KeysFit)
    (hlen : s.rq.tree.inorder.length ≤ maxTasks) (hc : s.rq.curr = none) {t : ℕ}
    (ht : t ∈ s.rq.tree.inorder) :
    s.eligible t = true ↔ s.key (s.task t).vruntime * s.treeLoad ≤ s.keySum := by
  obtain ⟨havg, hload⟩ := toInt_sums hs hn hk hlen
  have hidle : s.currOnRq = none := by simp [currOnRq, hc]
  have hprod : (((s.task t).vruntime - s.rq.minVruntime) * s.rq.avgLoad).toInt =
      s.key (s.task t).vruntime * s.treeLoad := by
    have hfit := hk.product t ht
    rw [← hload] at hfit ⊢
    exact Signed.toInt_mul hfit
  rw [eligible, vruntimeEligible, sums, hidle, decide_eq_true_iff, hprod, havg]

/-- **Somebody is eligible**: the average is not before the least of the keys. -/
theorem exists_eligible (hs : EevdfSums s) (hn : s.Nice) (hk : s.KeysFit)
    (hlen : s.rq.tree.inorder.length ≤ maxTasks) (hc : s.rq.curr = none)
    (hne : s.rq.tree.inorder ≠ []) : ∃ t ∈ s.rq.tree.inorder, s.eligible t = true := by
  rcases subtreeMin_spec (keyedBy_key hn hk) with ⟨-, hnil⟩ | ⟨-, -, t, ht, -, hleast⟩
  · exact absurd hnil hne
  · refine ⟨t, ht, (eligible_iff hs hn hk hlen hc ht).mpr ?_⟩
    rw [treeLoad, keySum, ← List.sum_map_mul_left]
    apply List.sum_le_sum
    intro u hu
    rw [weight_eq hn hu]
    have hle : s.key (s.task t).vruntime ≤ s.key (s.task u).vruntime := hleast u hu
    omega

/-- There is an eligible task in a subtree exactly when its least virtual time is eligible. -/
theorem any_subtreeMin (hs : EevdfSums s) (hn : s.Nice) (hk : s.KeysFit)
    (hlen : s.rq.tree.inorder.length ≤ maxTasks) (hc : s.rq.curr = none) {n : SearchTree ℕ}
    (hsub : n.inorder ⊆ s.rq.tree.inorder) :
    (subtreeMin s.task n).any s.vruntimeEligible = n.inorder.any s.eligible := by
  have hkeyed := keyedBy_key hn hk
  rcases subtreeMin_spec fun t ht u hu => hkeyed t (hsub ht) u (hsub hu) with
    ⟨hnone, hnil⟩ | ⟨v, hv, t, ht, rfl, hleast⟩
  · rw [hnone, hnil]
    rfl
  · rw [hv, Option.any_some]
    change s.eligible t = _
    rw [Bool.eq_iff_iff, List.any_eq_true]
    refine ⟨fun hel => ⟨t, ht, hel⟩, ?_⟩
    rintro ⟨u, hu, hel⟩
    rw [eligible_iff hs hn hk hlen hc (hsub hu)] at hel
    rw [eligible_iff hs hn hk hlen hc (hsub ht)]
    refine le_trans (Int.mul_le_mul_of_nonneg_right (hleast u hu) ?_) hel
    rw [treeLoad_eq hn]
    omega

theorem heapSearch_eq (n : SearchTree ℕ) :
    s.heapSearch n =
      n.prunedSearch s.eligible fun l => (subtreeMin s.task l).any s.vruntimeEligible := by
  induction n with
  | nil => rfl
  | node l t r ihl ihr =>
      rw [heapSearch, SearchTree.prunedSearch, ihl, ihr]
      rfl

/-! ## The selection -/

/-- The deadlines in the tree are less than `2 ^ 63` apart: they lie on one half of the circle. -/
def DeadlinesNear (s : EevdfSt) : Prop :=
  ∃ d : BitVec 64, ∀ t ∈ s.rq.tree.inorder, 0 ≤ ahead (s.task t).deadline d

/-- No task in the tree has an earlier deadline than one in front of it. -/
def Sorted (s : EevdfSt) : Prop :=
  s.rq.tree.inorder.Pairwise fun a b => deadlineLess s.task b a = false

/-- A task is looked at in a scan for the eligible task with the earliest deadline. -/
def scanStep (s : EevdfSt) (best : Option ℕ) (t : ℕ) : Option ℕ :=
  if s.eligible t then
    match best with
    | none => some t
    | some b => if deadlineLess s.task t b then some t else some b
  else best

/-- A scan of all tasks in the tree. -/
def naivePick (s : EevdfSt) : Option ℕ := s.rq.tree.inorder.foldl s.scanStep none

/-- What is found stays when there is nothing earlier. -/
theorem foldl_scanStep_some {b : ℕ} {ts : List ℕ}
    (h : ∀ u ∈ ts, deadlineLess s.task u b = false) : ts.foldl s.scanStep (some b) = some b := by
  induction ts with
  | nil => rfl
  | cons u ts ih =>
      have hu := h u List.mem_cons_self
      rw [List.foldl_cons, scanStep]
      simp only [hu, Bool.false_eq_true, if_false, ite_self]
      exact ih fun v hv => h v (List.mem_cons_of_mem u hv)

/-- In a sorted tree the scan finds the first eligible task. -/
theorem foldl_scanStep_none {ts : List ℕ}
    (h : ts.Pairwise fun a b => deadlineLess s.task b a = false) :
    ts.foldl s.scanStep none = ts.find? s.eligible := by
  induction ts with
  | nil => rfl
  | cons u ts ih =>
      rw [List.pairwise_cons] at h
      rw [List.foldl_cons, List.find?_cons, scanStep]
      cases s.eligible u with
      | true => exact foldl_scanStep_some h.1
      | false => exact ih h.2

/-- The task that the scan finds is eligible, and no eligible one has an earlier deadline. -/
theorem find?_earliest {ts : List ℕ} {t : ℕ}
    (h : ts.Pairwise fun a b => deadlineLess s.task b a = false)
    (ht : ts.find? s.eligible = some t) :
    ∀ u ∈ ts, s.eligible u = true → deadlineLess s.task u t = false := by
  induction ts with
  | nil => simp at ht
  | cons v ts ih =>
      rw [List.pairwise_cons] at h
      rw [List.find?_cons] at ht
      intro u hu hel
      cases hv : s.eligible v with
      | true =>
          rw [hv] at ht
          cases ht
          rcases List.mem_cons.mp hu with rfl | hu
          · simp [deadlineLess]
          · exact h.1 u hu
      | false =>
          rw [hv] at ht
          rcases List.mem_cons.mp hu with rfl | hu
          · rw [hv] at hel
            cases hel
          · exact ih h.2 ht u hu hel

/-- **The three ways to pick** find the first eligible task. -/
theorem pickEevdf_eq_find? {B : Balancer ℕ} (hs : EevdfSums s) (hok : (eevdf B).RqOk s)
    (hn : s.Nice) (hk : s.KeysFit) (hc : s.rq.curr = none) (hne : s.rq.nrRunning ≠ 0#32) :
    s.pickEevdf = s.rq.tree.inorder.find? s.eligible := by
  have hmem : (eevdf B).members s.rq = s.rq.tree.inorder := FairPolicy.members_of_none hc
  have hlen : s.rq.tree.inorder.length ≤ maxTasks := hmem ▸ hok.length_le
  have hnr : s.rq.nrRunning.toNat = s.rq.tree.inorder.length := hmem ▸ hok.toNat_nrRunning
  have htree : s.rq.tree.inorder ≠ [] := by
    intro hnil
    rw [hnil] at hnr
    exact hne (BitVec.eq_of_toNat_eq hnr)
  have hsearch : s.heapSearch s.rq.tree = s.rq.tree.inorder.find? s.eligible := by
    rw [heapSearch_eq]
    exact SearchTree.prunedSearch_eq_find? fun n hsub => any_subtreeMin hs hn hk hlen hc hsub
  have hidle : s.currOnRq = none := by simp [currOnRq, hc]
  obtain ⟨u, us, hcons⟩ := List.exists_cons_of_ne_nil htree
  have hfirst : s.rq.tree.first = some u := by rw [SearchTree.first_eq_head, hcons]; rfl
  by_cases hone : s.rq.nrRunning = 1#32
  · -- the only task is eligible, so that nothing has to be tested
    have hus : us = [] := by
      rw [hone, hcons, List.length_cons] at hnr
      exact List.length_eq_zero_iff.mp (Nat.succ_injective hnr).symm
    obtain ⟨v, hv, hel⟩ := exists_eligible hs hn hk hlen hc htree
    rw [hcons, hus, List.mem_singleton] at hv
    rw [hv] at hel
    simp only [pickEevdf, hone, hidle, hfirst, if_true, Option.isSome_none, Bool.false_eq_true,
      if_false]
    rw [hcons, List.find?_cons, hel]
  · have hbest : (if s.rq.tree.first.any fun t => s.vruntimeEligible (s.task t).vruntime then
        s.rq.tree.first else s.heapSearch s.rq.tree) = s.rq.tree.inorder.find? s.eligible := by
      change (if s.rq.tree.first.any s.eligible then _ else _) = _
      rw [hsearch, hfirst, hcons, List.find?_cons, Option.any_some]
      cases s.eligible u <;> rfl
    simp only [pickEevdf, hidle, hone, if_false, Option.filter_none, hbest]
    cases s.rq.tree.inorder.find? s.eligible <;> rfl

/-! ## The order of the tree -/

variable {B : Balancer ℕ} {s' : EevdfSt} {t : ℕ} {now : BitVec 64}

/-- Task `t` was linked into the tree, by the deadlines as they are now. -/
def Added (B : Balancer ℕ) (t : ℕ) (s s' : EevdfSt) : Prop :=
  ∃ n : SearchTree ℕ, n.inorder = s.rq.tree.inorder ∧
    s'.rq.tree = B.add (deadlineLess s'.task) t n

theorem Sorted.of_kept (h : s.Sorted) (htree : s'.rq.tree.inorder = s.rq.tree.inorder)
    (hkept : ∀ u ∈ s.rq.tree.inorder, (s'.task u).deadline = (s.task u).deadline) : s'.Sorted := by
  rw [Sorted, htree]
  refine List.Pairwise.imp_of_mem ?_ h
  intro a b ha hb hab
  rw [deadlineLess, hkept a ha, hkept b hb]
  exact hab

/-- Between deadlines that are near, the comparison is that of numbers. -/
theorem deadlineLess_iff {task : ℕ → EevdfTask} {d : BitVec 64} {a b : ℕ}
    (ha : 0 ≤ ahead (task a).deadline d) (hb : 0 ≤ ahead (task b).deadline d) :
    deadlineLess task a b = true ↔ ahead (task a).deadline d < ahead (task b).deadline d := by
  have hlta := two_mul_ahead_lt (task a).deadline d
  have hltb := two_mul_ahead_lt (task b).deadline d
  have hsub : ahead (task a).deadline (task b).deadline = _ :=
    ahead_eq_sub (c := d) (by omega) (by omega)
  rw [ahead] at hsub
  rw [deadlineLess, decide_eq_true_iff, hsub]
  omega

/-- A task that is linked into a sorted tree is at its place, if the deadlines are near. -/
theorem Sorted.added (h : s.Sorted) (ha : Added B t s s')
    (hkept : ∀ u ∈ s.rq.tree.inorder, (s'.task u).deadline = (s.task u).deadline)
    (hnear : s'.DeadlinesNear) : s'.Sorted := by
  obtain ⟨n, hn, htree⟩ := ha
  obtain ⟨d, hd⟩ := hnear
  have hp : s'.rq.tree.inorder.Perm (t :: n.inorder) := by
    rw [htree]
    exact B.perm_add
  have hmem : ∀ u ∈ n.inorder, u ∈ s'.rq.tree.inorder := by
    intro u hu
    exact hp.mem_iff.mpr (List.mem_cons_of_mem t hu)
  have ht : t ∈ s'.rq.tree.inorder := hp.mem_iff.mpr List.mem_cons_self
  have hold : n.inorder.Pairwise fun a b =>
      ahead (s'.task a).deadline d ≤ ahead (s'.task b).deadline d := by
    rw [Sorted, ← hn] at h
    refine List.Pairwise.imp_of_mem ?_ h
    intro a b ha hb hab
    rw [deadlineLess, ← hkept a (hn ▸ ha), ← hkept b (hn ▸ hb)] at hab
    by_contra hlt
    have hless := (deadlineLess_iff (hd b (hmem b hb)) (hd a (hmem a ha))).mpr (by omega)
    rw [deadlineLess, hab] at hless
    cases hless
  have hsorted : (B.add (deadlineLess s'.task) t n).inorder.Pairwise fun a b =>
      ahead (s'.task a).deadline d ≤ ahead (s'.task b).deadline d :=
    B.sorted_add (fun y hy => deadlineLess_iff (hd t ht) (hd y (hmem y hy))) hold
  rw [← htree] at hsorted
  refine List.Pairwise.imp_of_mem ?_ hsorted
  intro a b ha hb hab
  rw [← Bool.not_eq_true, deadlineLess_iff (hd b hb) (hd a ha)]
  omega

/-- A task that is picked leaves the others in order. -/
theorem Sorted.setNextTask {c : ℕ} (h : s.Sorted) (hon : (s.task t).onRq = true)
    (hkept : ∀ u ∈ s.rq.tree.inorder,
      ((s.setNextTask B c t now).task u).deadline = (s.task u).deadline) :
    (s.setNextTask B c t now).Sorted := by
  have htree : (s.setNextTask B c t now).rq.tree = B.erase t s.rq.tree := by
    simp only [EevdfSt.setNextTask, if_pos hon]
    rfl
  have hsub : ∀ u ∈ (B.erase t s.rq.tree).inorder, u ∈ s.rq.tree.inorder := by
    intro u hu
    rw [B.inorder_erase] at hu
    exact List.mem_of_mem_erase hu
  rw [Sorted, htree]
  refine List.Pairwise.imp_of_mem ?_ (B.sorted_erase h)
  intro a b ha hb hab
  rw [deadlineLess, hkept a (hsub a ha), hkept b (hsub b hb)]
  exact hab

theorem deadlineLess_setOnRq (b : Bool) :
    deadlineLess (s.setOnRq t b).task = deadlineLess s.task := by
  have hsame : ∀ u, ((s.setOnRq t b).task u).deadline = (s.task u).deadline := by
    intro u
    by_cases hut : u = t
    · simp [setOnRq, setTask, hut]
    · simp [setOnRq, setTask, Function.update_of_ne hut]
  funext a b
  rw [deadlineLess, deadlineLess, hsame, hsame]

theorem added_enqueueTask (hc : s.rq.curr ≠ some t) (now : BitVec 64) :
    Added B t s (s.enqueueTask B t now) := by
  have hq := quiet_updateCurr (B := B) (s := s) now
  rw [enqueueTask_eq hc]
  refine ⟨(s.updateCurr now).2.rq.tree, hq.tree, ?_⟩
  rw [deadlineLess_setOnRq]
  rfl

theorem added_spawn (ht : (s.task t).onRq = false) (hc : s.rq.curr ≠ some t)
    (now₁ now₂ : BitVec 64) : Added B t s (s.spawn B t now₁ now₂) := by
  have hq := quiet_forkTask (B := B) (s := s) (t := t) now₁
  have hoff : ((s.forkTask t now₁).task t).onRq = false := (hq.onRq t).trans ht
  have hcurr : (s.forkTask t now₁).rq.curr ≠ some t := fun h => hc (hq.curr.symm.trans h)
  obtain ⟨n, hn, htree⟩ := added_enqueueTask (B := B) hcurr now₂
  refine ⟨n, hn.trans hq.tree, ?_⟩
  rw [spawn, putTask, if_neg (by simp [hoff])]
  exact htree

theorem added_wakeup (ht : (s.task t).onRq = false) (hc : s.rq.curr ≠ some t) :
    Added B t s (s.wakeup B t now) := by
  rw [wakeup, if_neg (by simp [ht])]
  exact added_enqueueTask hc now

theorem added_requeue : Added B t s ((s.requeue B t now).setCurr none) :=
  ⟨(s.updateCurr now).2.rq.tree, (quiet_updateCurr (B := B) (s := s) now).tree, rfl⟩

end EevdfSt

/-! ## Whole runs -/

/-- The deadlines are near in every tree. -/
def AllNear (g : SchedSys EevdfRq EevdfTask) : Prop := ∀ c, EevdfSt.DeadlinesNear (g.onCpu c)

/-- The trees are in order, and so are the books and the sums. -/
structure EevdfOrder (B : Balancer ℕ) (g : SchedSys EevdfRq EevdfTask) : Prop where
  inv : EevdfInv B g
  nice : ∀ t, (g.task t).load = nice0Load
  sorted : ∀ c, EevdfSt.Sorted (g.onCpu c)

section

variable {B : Balancer ℕ} {g g' : SchedSys EevdfRq EevdfTask} {c : ℕ}

theorem eevdfOrder_start : EevdfOrder B (.start (eevdf B)) :=
  ⟨eevdfInv_start, fun _ => rfl, fun _ => List.Pairwise.nil⟩

/-- The weight of a task is never changed. -/
theorem FairPolicy.Call.nice {e : SchedEvent} (hcall : (eevdf B).Call g e g')
    (h : ∀ t, (g.task t).load = nice0Load) : ∀ t, (g'.task t).load = nice0Load := by
  intro u
  cases hcall with
  | idle => exact h u
  | @spawn t c now₁ now₂ l' hl ht hop he =>
      refine (he.frame.weight u).trans ?_
      by_cases hut : u = t
      · simp [SchedSys.onCpu, SchedSys.create, eevdf, eevdfInitTask, hut]
      · simpa [SchedSys.onCpu, SchedSys.create, eevdf, Function.update_of_ne hut] using h u
  | pickNone _ _ hk => exact (hk.weight u).trans (h u)
  | pick _ _ hk => exact (hk.frame.weight u).trans (h u)
  | yield _ _ hk => exact (hk.frame.weight u).trans (h u)
  | block _ _ hk => exact (hk.frame.weight u).trans (h u)
  | wakeup _ _ _ he => exact (he.frame.weight u).trans (h u)
  | finish _ _ hk => exact (hk.frame.weight u).trans (h u)
  | preempt _ _ hk => exact (hk.weight u).trans (h u)

/-- A call on CPU `c` keeps the order of the other trees. -/
theorem TreesKept.sorted {q : EevdfRq} (hkept : TreesKept g g')
    (hrq : g'.rq = Function.update g.rq c q) (h : ∀ d, EevdfSt.Sorted (g.onCpu d))
    (hc : EevdfSt.Sorted (g'.onCpu c)) : ∀ d, EevdfSt.Sorted (g'.onCpu d) := by
  intro d
  by_cases hd : d = c
  · rw [hd]
    exact hc
  · have hother : g'.rq d = g.rq d := by rw [hrq, Function.update_of_ne hd]
    refine EevdfSt.Sorted.of_kept (h d) ?_ fun u hu => (hkept d u hu).2
    rw [SchedSys.onCpu, SchedSys.onCpu, hother]

theorem SchedSys.onCpu_of_update {l' : EevdfSt} (hrq : g'.rq = Function.update g.rq c l'.rq)
    (htask : g'.task = l'.task) : g'.onCpu c = l' := by
  rw [SchedSys.onCpu, hrq, Function.update_self, htask]

/-- A task is linked into the tree of CPU `c`. -/
theorem TreesKept.added {l' : EevdfSt} {t : ℕ} (hkept : TreesKept g g')
    (hrq : g'.rq = Function.update g.rq c l'.rq) (htask : g'.task = l'.task)
    (h : ∀ d, EevdfSt.Sorted (g.onCpu d)) (ha : EevdfSt.Added B t (g.onCpu c) l')
    (hnear : AllNear g') : ∀ d, EevdfSt.Sorted (g'.onCpu d) := by
  refine hkept.sorted hrq h ?_
  have hon := SchedSys.onCpu_of_update hrq htask
  have hnear' := hnear c
  rw [hon] at hnear' ⊢
  refine EevdfSt.Sorted.added (h c) ha ?_ hnear'
  intro u hu
  rw [← htask]
  exact (hkept c u hu).2

/-- The tree of CPU `c` stays as it is. -/
theorem TreesKept.same {l' : EevdfSt} (hkept : TreesKept g g')
    (hrq : g'.rq = Function.update g.rq c l'.rq) (h : ∀ d, EevdfSt.Sorted (g.onCpu d))
    (htree : l'.rq.tree.inorder = (g.rq c).tree.inorder) : ∀ d, EevdfSt.Sorted (g'.onCpu d) := by
  refine hkept.sorted hrq h ?_
  refine EevdfSt.Sorted.of_kept (h c) ?_ fun u hu => (hkept c u hu).2
  rw [SchedSys.onCpu, hrq, Function.update_self]
  exact htree

/-- **A step keeps the trees in order**, if the deadlines are near behind it. -/
theorem EevdfOrder.step {e : SchedEvent} (h : EevdfOrder B g) (hcall : (eevdf B).Call g e g')
    (hnear : AllNear g') : EevdfOrder B g' := by
  obtain ⟨hinv, hkept⟩ := h.inv.step hcall
  refine ⟨hinv, hcall.nice h.nice, ?_⟩
  cases hcall with
  | idle => exact h.sorted
  | @spawn t c now₁ now₂ l' hl ht hop he =>
      have hnew := h.inv.create hl ht
      have hoff : ((g.create (eevdf B) t).task t).onRq = false := by
        simp [SchedSys.create, eevdf, eevdfInitTask]
      have ha : EevdfSt.Added B t ((g.create (eevdf B) t).onCpu c) l' := by
        rw [← Except.ok.inj hop]
        exact EevdfSt.added_spawn hoff ((hnew.inv.rq c).curr_ne_of_off hoff) now₁ now₂
      exact hkept.added rfl rfl h.sorted ha hnear
  | pickNone _ _ hk => exact hkept.same rfl h.sorted hk.tree
  | @pick c now t l' hc hop hk =>
      refine hkept.sorted rfl h.sorted ?_
      rw [SchedSys.onCpu_of_update rfl rfl]
      rcases EevdfSt.pickNext_cases hc hop with ⟨ht, -⟩ | ⟨t', ht, hmem, rfl⟩
      · cases ht
      · cases ht
        refine EevdfSt.Sorted.setNextTask (h.sorted c) ?_ fun u hu => (hkept c u hu).2
        exact (h.inv.inv.rq c).onRq t (FairPolicy.mem_members.mpr (.inr hmem))
  | @yield c now t l' hc hop hk =>
      have ha : EevdfSt.Added B t (g.onCpu c) l' := by
        rw [Except.ok.inj (hop.symm.trans
          (EevdfSt.yield_eq hc ((h.inv.inv.rq c).curr_on hc) now))]
        exact EevdfSt.added_requeue
      exact hkept.added rfl rfl h.sorted ha hnear
  | block _ _ hk => exact hkept.same rfl h.sorted hk.tree
  | @wakeup t now l' hl ht hop he =>
      have ha : EevdfSt.Added B t (g.onCpu ((eevdf B).lastRun (g.task t))) l' := by
        rw [← Except.ok.inj hop]
        exact EevdfSt.added_wakeup ht ((h.inv.inv.rq _).curr_ne_of_off ht)
      exact hkept.added rfl rfl h.sorted ha hnear
  | finish _ _ hk => exact hkept.same rfl h.sorted hk.tree
  | preempt _ _ hk => exact hkept.same rfl h.sorted hk.tree

/-- The trees are in order in every run in which the deadlines stay near. -/
theorem eevdfOrder_exec : ∀ {es : List SchedEvent} {g g' : SchedSys EevdfRq EevdfTask},
    EevdfOrder B g → Throughout (schedStep (eevdf B)) AllNear g es →
    exec (schedStep (eevdf B)) g es = .ok g' → EevdfOrder B g' := by
  intro es
  induction es with
  | nil =>
      intro g g' h _ hexec
      cases hexec
      exact h
  | cons e es ih =>
      intro g g' h hnear hexec
      obtain ⟨g₁, hstep, hexec⟩ := exec_cons_ok.mp hexec
      obtain ⟨g₂, hstep', hcall⟩ := (eevdf_lawful B).step h.inv.inv e
      cases hstep.symm.trans hstep'
      have hnear₁ := hnear.2 g₁ hstep
      refine ih (h.step hcall ?_) hnear₁ hexec
      cases es with
      | nil => exact hnear₁
      | cons _ _ => exact hnear₁.1

end

/-! ## Deadlines half way round -/

/-- The calls of a task that does nothing but yield, `n` times. -/
def yields (n : ℕ) : List SchedEvent :=
  (List.replicate n [.pick 0 0#64, .yield 0 0#64]).flatten

section

/-- A task that joined an empty runqueue at time 0, with deadline `d` by now. -/
def loneTask (d vlag : BitVec 64) : EevdfTask :=
  { eevdfInitTask with onRq := true, deadline := d, vruntime := -1048576#64, vlag := vlag }

def loneRq : EevdfRq :=
  { eevdfInitPercpu with
    load := nice0Load, tree := .node .nil 0 .nil, nrRunning := 1#32, avgLoad := 2#64 }

/-- Task 0 waits on CPU 0, alone. -/
def lone (d vlag : BitVec 64) : SchedSys EevdfRq EevdfTask where
  rq := Function.update (fun _ => eevdfInitPercpu) 0 loneRq
  task := Function.update (fun _ => eevdfInitTask) 0 (loneTask d vlag)
  cpu _ := none
  live := Function.update (fun _ => false) 0 true

def ranRq : EevdfRq :=
  { eevdfInitPercpu with load := nice0Load, nrRunning := 1#32, curr := some 0 }

/-- Task 0 runs on CPU 0, alone. -/
def ran (d : BitVec 64) : SchedSys EevdfRq EevdfTask where
  rq := Function.update (fun _ => eevdfInitPercpu) 0 ranRq
  task := Function.update (fun _ => eevdfInitTask) 0 (loneTask d d)
  cpu := Function.update (fun _ => none) 0 (some 0)
  live := Function.update (fun _ => false) 0 true

/-- What `yield` makes of the runqueue of `ran`, but for the clock, which did not move. -/
def requeued (d : BitVec 64) : EevdfSt :=
  let s := (ran d).onCpu 0
  EevdfSt.setCurr
    (EevdfSt.enqueueTree .plain
      (EevdfSt.setTask s 0
        { s.task 0 with
          deadline := (s.task 0).deadline + calcDeltaFair (s.task 0).slice (s.task 0).load }) 0)
    none

variable {d vlag : BitVec 64}

theorem eq_of_zero_succ {α : Type} {f f' : ℕ → α} (h₀ : f 0 = f' 0)
    (h : ∀ n, f (n + 1) = f' (n + 1)) : f = f' := by
  funext n
  cases n with
  | zero => exact h₀
  | succ n => exact h n

theorem spawn_lone : schedStep (eevdf .plain) (.start (eevdf .plain)) (.spawn 0 0 0#64 0#64) =
    .ok (lone (-1048576#64 + 12500#64) 0#64) := by
  have hrq : (EevdfSt.spawn .plain
      (((SchedSys.start (eevdf .plain)).create (eevdf .plain) 0).onCpu 0) 0 0#64 0#64).rq =
      loneRq := rfl
  have htask : (EevdfSt.spawn .plain
      (((SchedSys.start (eevdf .plain)).create (eevdf .plain) 0).onCpu 0) 0 0#64 0#64).task =
      (lone (-1048576#64 + 12500#64) 0#64).task := eq_of_zero_succ rfl fun _ => rfl
  have hstep : schedStep (eevdf .plain) (.start (eevdf .plain)) (.spawn 0 0 0#64 0#64) =
      .ok (((SchedSys.start (eevdf .plain)).create (eevdf .plain) 0).put 0
        (EevdfSt.spawn .plain
          (((SchedSys.start (eevdf .plain)).create (eevdf .plain) 0).onCpu 0) 0 0#64 0#64)) := rfl
  rw [hstep]
  simp only [SchedSys.put, hrq, htask]
  rfl

theorem pick_lone : schedStep (eevdf .plain) (lone d vlag) (.pick 0 0#64) = .ok (ran d) := by
  have hrq : (EevdfSt.setNextTask .plain ((lone d vlag).onCpu 0) 0 0 0#64).rq =
      { ranRq with
        avgVruntime := 0#64 - (-1048576#64 - -1048576#64) * scaleLoadDown nice0Load
        avgLoad := 2#64 - scaleLoadDown nice0Load } := rfl
  have hsum : 0#64 - (-1048576#64 - -1048576#64) * scaleLoadDown nice0Load = 0#64 := by decide
  have hload : 2#64 - scaleLoadDown nice0Load = 0#64 := by decide
  rw [hsum, hload] at hrq
  have htask : (EevdfSt.setNextTask .plain ((lone d vlag).onCpu 0) 0 0 0#64).task =
      (ran d).task :=
    eq_of_zero_succ rfl fun _ => rfl
  have hstep : schedStep (eevdf .plain) (lone d vlag) (.pick 0 0#64) =
      .ok (((lone d vlag).put 0
        (EevdfSt.setNextTask .plain ((lone d vlag).onCpu 0) 0 0 0#64)).setCpu 0 (some 0)) := rfl
  rw [hstep]
  simp only [SchedSys.put, hrq, htask]
  simp [SchedSys.setCpu, lone, ran, ranRq, eevdfInitPercpu]

theorem updateCurr_ran :
    (EevdfSt.updateCurr ((ran d).onCpu 0) 0#64).2 = (ran d).onCpu 0 := by
  simp [EevdfSt.updateCurr, SchedSys.onCpu, ran, ranRq, loneTask, eevdfInitTask]

theorem yield_requeued :
    EevdfSt.yield .plain ((ran d).onCpu 0) 0 0#64 = .ok (requeued d) := by
  have hcurr : ((ran d).onCpu 0).rq.curr = some 0 := rfl
  have hon : (((ran d).onCpu 0).task 0).onRq = true := rfl
  simp only [EevdfSt.yield, hcurr, hon, updateCurr_ran, if_true, ne_eq, not_true, if_false]
  rfl

theorem yield_ran :
    schedStep (eevdf .plain) (ran d) (.yield 0 0#64) = .ok (lone (d + 12500#64) d) := by
  have hrq : (requeued d).rq =
      { loneRq with
        avgVruntime := 0#64 + (-1048576#64 - -1048576#64) * scaleLoadDown nice0Load
        avgLoad := 0#64 + scaleLoadDown nice0Load } := rfl
  have hsum : 0#64 + (-1048576#64 - -1048576#64) * scaleLoadDown nice0Load = 0#64 := by decide
  have hload : 0#64 + scaleLoadDown nice0Load = 2#64 := by decide
  rw [hsum, hload] at hrq
  have hslice : calcDeltaFair eevdfBaseSlice nice0Load = 12500#64 := by decide
  have htask : (requeued d).task = (lone (d + 12500#64) d).task := by
    refine eq_of_zero_succ ?_ fun _ => rfl
    rw [← hslice]
    rfl
  have hcpu : (ran d).cpu 0 = some 0 := rfl
  simp only [schedStep, hcpu, eevdf, yield_requeued, bind, Except.bind, pure, Except.pure,
    SchedSys.put, hrq, htask]
  simp [SchedSys.setCpu, lone, ran, loneRq, eevdfInitPercpu]

/-- Every `yield` puts the deadline a slice later, whether time has gone by or not. -/
theorem exec_yields : ∀ (n : ℕ) (d vlag : BitVec 64), ∃ vlag',
    exec (schedStep (eevdf .plain)) (lone d vlag) (yields n) =
      .ok (lone (d + BitVec.ofNat 64 (12500 * n)) vlag') := by
  intro n
  induction n with
  | zero =>
      intro d vlag
      exact ⟨vlag, by simp [yields]⟩
  | succ n ih =>
      intro d vlag
      obtain ⟨vlag', hn⟩ := ih (d + 12500#64) d
      refine ⟨vlag', ?_⟩
      have hcons : yields (n + 1) = .pick 0 0#64 :: .yield 0 0#64 :: yields n := rfl
      have hd : d + 12500#64 + BitVec.ofNat 64 (12500 * n) =
          d + BitVec.ofNat 64 (12500 * (n + 1)) := by
        rw [BitVec.add_assoc, ← BitVec.ofNat_add, Nat.mul_succ, Nat.add_comm]
      rw [hcons, ← hd]
      exact exec_cons_ok.mpr ⟨_, pick_lone, exec_cons_ok.mpr ⟨_, yield_ran, hn⟩⟩

/-- With the deadline of task 0 half way round, each of two tasks is earlier than the other. -/
theorem spawn_half_way : ∃ g,
    exec (schedStep (eevdf .plain)) (ran (-1048576#64 + 9223372036854775808#64))
      [.spawn 1 0 0#64 0#64, .yield 0 0#64] = .ok g ∧
    (g.rq 0).tree = .node (.node .nil 0 .nil) 1 .nil ∧ (g.rq 0).curr = none ∧
    (g.rq 0).nrRunning = 2#32 ∧ (g.task 0).vruntime = (g.rq 0).minVruntime ∧
    (g.task 1).vruntime = (g.rq 0).minVruntime ∧ EevdfSt.pickEevdf (g.onCpu 0) = some 0 ∧
    EevdfSt.eligible (g.onCpu 0) 1 = true ∧ EevdfSt.deadlineLess g.task 1 0 = true ∧
    EevdfSt.naivePick (g.onCpu 0) = some 1 := by
  refine ⟨_, rfl, rfl, rfl, rfl, ?_⟩
  decide

theorem allNear_of_eq {g : SchedSys EevdfRq EevdfTask} (d : BitVec 64)
    (h : ∀ t ∈ (g.rq 0).tree.inorder, (g.task t).deadline = d)
    (hnil : ∀ c, (g.rq (c + 1)).tree = .nil) : AllNear g := by
  intro c
  refine ⟨d, ?_⟩
  intro t ht
  cases c with
  | zero =>
      have hd : (g.task t).deadline = d := h t ht
      simp [SchedSys.onCpu, hd]
  | succ c => simp [SchedSys.onCpu, hnil c] at ht

/-- A second task joins. -/
theorem spawn_pair : ∃ g,
    schedStep (eevdf .plain) (lone (-1048576#64 + 12500#64) 0#64) (.spawn 1 0 0#64 0#64) = .ok g ∧
    (g.rq 0).tree = .node .nil 0 (.node .nil 1 .nil) ∧ (∀ c, (g.rq (c + 1)).tree = .nil) ∧
    (g.rq 0).curr = none ∧ (g.rq 0).nrRunning = 2#32 ∧
    (g.task 0).vruntime = (g.rq 0).minVruntime ∧ (g.task 1).vruntime = (g.rq 0).minVruntime ∧
    (g.task 0).deadline = -1048576#64 + 12500#64 ∧
    (g.task 1).deadline = -1048576#64 + 12500#64 := by
  refine ⟨_, rfl, rfl, fun _ => rfl, rfl, ?_⟩
  decide

end

/-- **The selection of EEVDF.**  In every run in which the deadlines in a tree stay less than
`2 ^ 63` apart, a runqueue that counts a task, on which none runs and whose key sums fit 64 bits,
has a task picked from its tree that is eligible, and no eligible task in the tree has an earlier
deadline; it is the task that a scan of the tree finds.  The augmented value of a node is the least
virtual time of its subtree. -/
theorem eevdf_selection (B : Balancer ℕ) {es : List SchedEvent} {g : SchedSys EevdfRq EevdfTask}
    (hexec : exec (schedStep (eevdf B)) (.start (eevdf B)) es = .ok g)
    (hnear : Throughout (schedStep (eevdf B)) AllNear (.start (eevdf B)) es) {c : ℕ}
    (hc : (g.rq c).curr = none) (hne : (g.rq c).nrRunning ≠ 0#32)
    (hk : EevdfSt.KeysFit (g.onCpu c)) :
    (∃ t ∈ (g.rq c).tree.inorder, EevdfSt.pickEevdf (g.onCpu c) = some t ∧
      EevdfSt.eligible (g.onCpu c) t = true ∧
      ∀ u ∈ (g.rq c).tree.inorder, EevdfSt.eligible (g.onCpu c) u = true →
        EevdfSt.deadlineLess g.task u t = false) ∧
    EevdfSt.pickEevdf (g.onCpu c) = EevdfSt.naivePick (g.onCpu c) ∧
    ∀ n : SearchTree ℕ, n.inorder ⊆ (g.rq c).tree.inorder → n.inorder ≠ [] →
      ∃ v, EevdfSt.subtreeMin g.task n = some v ∧
        EevdfSt.IsLeast (fun t => EevdfSt.key (g.onCpu c) (g.task t).vruntime) g.task n.inorder
          v := by
  have h := eevdfOrder_exec eevdfOrder_start hnear hexec
  have hs := h.inv.sums c
  have hok := h.inv.inv.rq c
  have hn : EevdfSt.Nice (g.onCpu c) := fun t _ => h.nice t
  have hpick := EevdfSt.pickEevdf_eq_find? hs hok hn hk hc hne
  have hmem : (eevdf B).members (g.rq c) = (g.rq c).tree.inorder := FairPolicy.members_of_none hc
  have hlen : (g.rq c).tree.inorder.length ≤ maxTasks := hmem ▸ hok.length_le
  have htree : (g.rq c).tree.inorder ≠ [] := by
    refine hok.tree_ne_nil ?_
    have hcurr : (eevdf B).curr (g.onCpu c).rq = none := hc
    have hpos : (g.rq c).nrRunning.toNat ≠ 0 := fun hz => hne (BitVec.eq_of_toNat_eq hz)
    rw [hcurr]
    exact Nat.pos_of_ne_zero hpos
  refine ⟨?_, ?_, ?_⟩
  · obtain ⟨u, hu, hel⟩ := EevdfSt.exists_eligible hs hn hk hlen hc htree
    obtain ⟨t, ht⟩ := Option.isSome_iff_exists.mp (List.find?_isSome.mpr ⟨u, hu, hel⟩)
    refine ⟨t, List.mem_of_find?_eq_some ht, hpick.trans ht, List.find?_some ht, ?_⟩
    exact EevdfSt.find?_earliest (h.sorted c) ht
  · rw [hpick]
    exact (EevdfSt.foldl_scanStep_none (h.sorted c)).symm
  · intro n hsub hnil
    have hkeyed := EevdfSt.keyedBy_key hn hk
    exact (EevdfSt.subtreeMin_spec fun t ht u hu => hkeyed t (hsub ht) u (hsub hu)).resolve_left
      fun hnone => hnil hnone.2

theorem eevdf_selection_two : ∃ g,
    exec (schedStep (eevdf .plain)) (.start (eevdf .plain))
      [.spawn 0 0 0#64 0#64, .spawn 1 0 0#64 0#64] = .ok g ∧
    EevdfSt.pickEevdf (g.onCpu 0) = EevdfSt.naivePick (g.onCpu 0) := by
  obtain ⟨g, hg, htree, hnil, hcurr, hnr, hv₀, hv₁, hd₀, hd₁⟩ := spawn_pair
  have hmem : ∀ t ∈ (g.rq 0).tree.inorder, t = 0 ∨ t = 1 := by
    intro t ht
    simpa [htree] using ht
  have hexec : exec (schedStep (eevdf .plain)) (.start (eevdf .plain))
      [.spawn 0 0 0#64 0#64, .spawn 1 0 0#64 0#64] = .ok g :=
    exec_cons_ok.mpr ⟨_, spawn_lone, exec_cons_ok.mpr ⟨_, hg, rfl⟩⟩
  refine ⟨g, hexec, (eevdf_selection .plain hexec ?_ hcurr ?_ ?_).2.1⟩
  · refine ⟨allNear_of_eq 0#64 (fun t ht => ?_) fun _ => rfl, ?_⟩
    · cases ht
    intro s hs
    cases spawn_lone.symm.trans hs
    refine ⟨allNear_of_eq (-1048576#64 + 12500#64) (fun t ht => ?_) fun _ => rfl, ?_⟩
    · cases List.mem_singleton.mp ht
      rfl
    intro s hs
    cases hg.symm.trans hs
    refine allNear_of_eq (-1048576#64 + 12500#64) (fun t ht => ?_) hnil
    rcases hmem t ht with rfl | rfl
    · exact hd₀
    · exact hd₁
  · rw [hnr]
    decide
  · refine EevdfSt.KeysFit.of_eq_min ?_
    intro t ht
    rcases hmem t ht with rfl | rfl
    · exact hv₀
    · exact hv₁

/-- After `2 ^ 61` times `yield`, the task that is picked is not the earliest of the eligible
ones, and not the one that a scan finds. -/
theorem yields_not_earliest : ∃ g,
    exec (schedStep (eevdf .plain)) (.start (eevdf .plain))
      (.spawn 0 0 0#64 0#64 :: (yields (2 ^ 61 - 1) ++
        [.pick 0 0#64, .spawn 1 0 0#64 0#64, .yield 0 0#64])) = .ok g ∧
    (g.rq 0).curr = none ∧ (g.rq 0).nrRunning ≠ 0#32 ∧ EevdfSt.KeysFit (g.onCpu 0) ∧
    EevdfSt.pickEevdf (g.onCpu 0) = some 0 ∧
    1 ∈ (g.rq 0).tree.inorder ∧ EevdfSt.eligible (g.onCpu 0) 1 = true ∧
    EevdfSt.deadlineLess g.task 1 0 = true ∧ EevdfSt.naivePick (g.onCpu 0) = some 1 := by
  obtain ⟨vlag, hyields⟩ := exec_yields (2 ^ 61 - 1) (-1048576#64 + 12500#64) 0#64
  have hd : -1048576#64 + 12500#64 + BitVec.ofNat 64 (12500 * (2 ^ 61 - 1)) =
      -1048576#64 + 9223372036854775808#64 := by decide
  rw [hd] at hyields
  obtain ⟨g, hg, htree, hcurr, hnr, hv₀, hv₁, hpick, hel, hless, hscan⟩ := spawn_half_way
  refine ⟨g, ?_, hcurr, ?_, ?_, hpick, ?_, hel, hless, hscan⟩
  · refine exec_cons_ok.mpr ⟨_, spawn_lone, ?_⟩
    exact exec_append_ok.mpr ⟨_, hyields, exec_cons_ok.mpr ⟨_, pick_lone, hg⟩⟩
  · rw [hnr]
    decide
  · refine EevdfSt.KeysFit.of_eq_min ?_
    intro t ht
    have hmem : t = 0 ∨ t = 1 := by simpa [SchedSys.onCpu, htree] using ht
    rcases hmem with rfl | rfl
    · exact hv₀
    · exact hv₁
  · simp [htree]

end Skyloft
