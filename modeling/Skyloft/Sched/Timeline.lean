import Skyloft.Sched.EevdfPick
import Skyloft.Utils.RbtreeCached

/-!
# The timelines in memory

The runqueues of CFS and EEVDF keep their tasks in a red-black tree, by the addresses of the nodes
in the tasks.  What the policies see of the tree is the order of its nodes, the leftmost one, and
for EEVDF the least virtual time below a node, which the search reads where the callbacks of the
tree left it.

* `minValue`, `minSummary` — the callbacks of EEVDF.
* `Timeline` — the memory holds the tree of a runqueue.
* `Timeline.added`, `Timeline.erased` — what the calls of the tree make of it.
-/

namespace Skyloft

open Serial RbMem RbTree
open RedBlack (Side Color RbTree Crumb Path)

/-! ## The least virtual time below a node -/

/-- `min_vruntime_update` -/
def minValue (vruntime : BitVec 64 → BitVec 64) (x : BitVec 64) (r l : Option (BitVec 64)) :
    BitVec 64 :=
  EevdfSt.takeMin (EevdfSt.takeMin (vruntime x) r) l

section

variable (vruntime : BitVec 64 → BitVec 64) (a : BitVec 64)

/-- The virtual time lies on the half of the circle after `a`. -/
def After (z : NodePtr) : Prop := 0 ≤ ahead (vruntime z.word) a

/-- The least distance from `a`. -/
def leastKey : List NodePtr → ℤ
  | [] => 2 ^ 63
  | z :: zs => min (ahead (vruntime z.word) a) (leastKey zs)

def leastVruntime (xs : List NodePtr) : BitVec 64 := a + BitVec.ofInt 64 (leastKey vruntime a xs)

variable {vruntime a}

theorem leastKey_le (xs : List NodePtr) : leastKey vruntime a xs ≤ 2 ^ 63 := by
  induction xs with
  | nil => exact le_refl _
  | cons z zs ih => exact (min_le_right _ _).trans ih

theorem leastKey_append (xs ys : List NodePtr) :
    leastKey vruntime a (xs ++ ys) = min (leastKey vruntime a xs) (leastKey vruntime a ys) := by
  induction xs with
  | nil => exact (min_eq_right (leastKey_le ys)).symm
  | cons z zs ih => rw [List.cons_append, leastKey, leastKey, ih, min_assoc]

theorem leastKey_nonneg {xs : List NodePtr} (h : ∀ z ∈ xs, After vruntime a z) :
    0 ≤ leastKey vruntime a xs := by
  induction xs with
  | nil =>
      rw [leastKey]
      decide
  | cons z zs ih => exact le_min (h z (by simp)) (ih fun y hy => h y (by simp [hy]))

theorem leastKey_lt {xs : List NodePtr} (hne : xs ≠ []) : leastKey vruntime a xs < 2 ^ 63 := by
  cases xs with
  | nil => exact absurd rfl hne
  | cons z zs =>
      have := two_mul_ahead_lt (vruntime z.word) a
      exact (min_le_left _ _).trans_lt (by omega)

theorem toInt_ofInt {k : ℤ} (h₀ : -2 ^ 63 ≤ k) (h₁ : k < 2 ^ 63) : (BitVec.ofInt 64 k).toInt = k := by
  rw [BitVec.toInt_ofInt]
  exact Int.bmod_eq_of_le_mul_two (by norm_num at *; omega) (by norm_num at *; omega)

/-- A virtual time from its distance. -/
theorem add_ofInt_ahead (v : BitVec 64) : a + BitVec.ofInt 64 (ahead v a) = v := by
  rw [ahead, BitVec.ofInt_toInt]
  ring

/-- The lesser one of two virtual times is the one with the lesser distance. -/
theorem takeMin_least {k : ℤ} {xs : List NodePtr} (h₀ : 0 ≤ k) (h₁ : k < 2 ^ 63)
    (hS : ∀ z ∈ xs, After vruntime a z) :
    EevdfSt.takeMin (a + BitVec.ofInt 64 k) (optSum (leastVruntime vruntime a) xs) =
      a + BitVec.ofInt 64 (min k (leastKey vruntime a xs)) := by
  by_cases hne : xs = []
  · rw [optSum, if_pos hne, hne, leastKey, min_eq_left h₁.le]
    rfl
  · have hlo := leastKey_nonneg hS
    have hhi : leastKey vruntime a xs < 2 ^ 63 := leastKey_lt hne
    have hsub : (a + BitVec.ofInt 64 k - leastVruntime vruntime a xs).toInt =
        k - leastKey vruntime a xs := by
      have hsplit : a + BitVec.ofInt 64 k - leastVruntime vruntime a xs =
          BitVec.ofInt 64 k - BitVec.ofInt 64 (leastKey vruntime a xs) := by
        rw [leastVruntime]
        ring
      rw [hsplit, BitVec.toInt_sub, toInt_ofInt (by omega) h₁, toInt_ofInt (by omega) hhi]
      exact Int.bmod_eq_of_le_mul_two (by norm_num at *; omega) (by norm_num at *; omega)
    rw [optSum, if_neg hne]
    simp only [EevdfSt.takeMin, hsub]
    by_cases hlt : 0 < k - leastKey vruntime a xs
    · rw [if_pos hlt, min_eq_right (by omega)]
      rfl
    · rw [if_neg hlt, min_eq_left (by omega)]

/-- **The callbacks of EEVDF** keep the least virtual time of a subtree, while the virtual times lie
on one half of the circle. -/
def minSummary (vruntime : BitVec 64 → BitVec 64) (a : BitVec 64) :
    Summary (minValue vruntime) (After vruntime a) where
  sum := leastVruntime vruntime a
  step l x r hS := by
    have hx : 0 ≤ ahead (vruntime x.word) a := hS x (by simp)
    have hlt := two_mul_ahead_lt (vruntime x.word) a
    have hr : ∀ z ∈ r, After vruntime a z := fun z hz => hS z (by simp [hz])
    have hl : ∀ z ∈ l, After vruntime a z := fun z hz => hS z (by simp [hz])
    have hr₀ := leastKey_nonneg hr
    rw [minValue]
    nth_rewrite 1 [← add_ofInt_ahead (a := a) (vruntime x.word)]
    rw [takeMin_least hx (by omega) hr, takeMin_least (le_min hx hr₀)
      ((min_le_left _ _).trans_lt (by omega)) hl, leastVruntime, leastKey_append, leastKey,
      min_comm]

end

/-! ## The runqueue -/

/-- The addresses of the nodes of the tasks in the pool, and `__node_2_task`. -/
structure TaskNodes where
  node : ℕ → NodePtr
  task : BitVec 64 → ℕ
  task_node : ∀ t < maxTasks, task (node t).word = t

namespace TaskNodes

variable (N : TaskNodes)

theorem node_inj {t u : ℕ} (ht : t < maxTasks) (hu : u < maxTasks) (h : N.node t = N.node u) :
    t = u := by
  rw [← N.task_node t ht, h, N.task_node u hu]

theorem node_mem {t : ℕ} {ts : List ℕ} (ht : t < maxTasks) (hts : ∀ u ∈ ts, u < maxTasks) :
    N.node t ∈ ts.map N.node ↔ t ∈ ts := by
  refine ⟨fun h => ?_, List.mem_map_of_mem⟩
  obtain ⟨u, hu, heq⟩ := List.mem_map.mp h
  exact N.node_inj (hts u hu) ht heq ▸ hu

theorem map_erase {t : ℕ} {ts : List ℕ} (ht : t < maxTasks) (hts : ∀ u ∈ ts, u < maxTasks) :
    (ts.erase t).map N.node = (ts.map N.node).erase (N.node t) := by
  induction ts with
  | nil => rfl
  | cons u ts ih =>
      have hu := hts u (by simp)
      by_cases hut : u = t
      · rw [hut, List.erase_cons_head, List.map_cons, List.erase_cons_head]
      · have hne : N.node u ≠ N.node t := fun h => hut (N.node_inj hu ht h)
        rw [List.erase_cons_tail (by simpa using hut), List.map_cons, List.map_cons,
          List.erase_cons_tail (by simpa using hne), ih fun v hv => hts v (by simp [hv])]

/-- A search among the nodes is one among the tasks. -/
theorem find?_node {ts : List ℕ} (hts : ∀ u ∈ ts, u < maxTasks) (p : ℕ → Bool) :
    (((ts.map N.node).find? fun z => p (N.task z.word)).map fun z => N.task z.word) =
      ts.find? p := by
  induction ts with
  | nil => rfl
  | cons t ts ih =>
      rw [List.map_cons, List.find?_cons, List.find?_cons, N.task_node t (hts t (by simp))]
      cases p t with
      | true => exact congrArg some (N.task_node t (hts t (by simp)))
      | false => exact ih fun u hu => hts u (by simp [hu])

theorem any_node {ts : List ℕ} (hts : ∀ u ∈ ts, u < maxTasks) (p : ℕ → Bool) :
    ((ts.map N.node).any fun z => p (N.task z.word)) = ts.any p := by
  induction ts with
  | nil => rfl
  | cons t ts ih =>
      rw [List.map_cons, List.any_cons, List.any_cons, N.task_node t (hts t (by simp)),
        ih fun u hu => hts u (by simp [hu])]

/-- Some of the nodes are those of some of the tasks. -/
theorem exists_tasks {xs : List NodePtr} {ts : List ℕ} (h : xs ⊆ ts.map N.node) :
    ∃ us, us ⊆ ts ∧ us.map N.node = xs := by
  induction xs with
  | nil => exact ⟨[], List.nil_subset _, rfl⟩
  | cons x xs ih =>
      rw [List.cons_subset] at h
      obtain ⟨u, hu, rfl⟩ := List.mem_map.mp h.1
      obtain ⟨us, hus, rfl⟩ := ih h.2
      exact ⟨u :: us, List.cons_subset.mpr ⟨hu, hus⟩, rfl⟩

/-- The virtual time of the task of a node. -/
def vruntime (task : ℕ → EevdfTask) (w : BitVec 64) : BitVec 64 := (task (N.task w)).vruntime

/-- `__deadline_less` -/
def deadlineLess (task : ℕ → EevdfTask) (x y : BitVec 64) : Bool :=
  EevdfSt.deadlineLess task (N.task x) (N.task y)

/-- The deadline of a node, from `d`. -/
def deadlineKey (task : ℕ → EevdfTask) (d : BitVec 64) (z : NodePtr) : ℤ :=
  ahead (task (N.task z.word)).deadline d

/-- The virtual time and the deadline lie on the halves of the circle after `a` and `d`. -/
def Near (task : ℕ → EevdfTask) (a d : BitVec 64) (z : NodePtr) : Prop :=
  After (N.vruntime task) a z ∧ 0 ≤ N.deadlineKey task d z

/-- The callbacks, for nodes that are near. -/
def summary (task : ℕ → EevdfTask) (a d : BitVec 64) :
    Summary (minValue (N.vruntime task)) (N.Near task a d) :=
  (minSummary (N.vruntime task) a).restrict fun _ h => h.1

theorem deadlineLess_iff {task : ℕ → EevdfTask} {a d : BitVec 64} (x y : NodePtr)
    (hx : N.Near task a d x) (hy : N.Near task a d y) :
    N.deadlineLess task x.word y.word = true ↔ N.deadlineKey task d x < N.deadlineKey task d y :=
  EevdfSt.deadlineLess_iff hx.2 hy.2

end TaskNodes

/-- The tasks in the tree are from the pool. -/
def EevdfSt.Pooled (s : EevdfSt) : Prop := ∀ t ∈ s.rq.tree.inorder, t < maxTasks

/-- The virtual times and the deadlines in the tree are less than `2 ^ 63` apart. -/
def EevdfSt.TreeNear (s : EevdfSt) (a d : BitVec 64) : Prop :=
  ∀ t ∈ s.rq.tree.inorder, 0 ≤ ahead (s.task t).vruntime a ∧ 0 ≤ ahead (s.task t).deadline d

/-- **The memory holds the tree of the runqueue.** -/
def Timeline (N : TaskNodes) (s : EevdfSt) (m : RbMem (BitVec 64)) : Prop :=
  s.Pooled ∧ ∃ a d, s.TreeNear a d ∧
    RbSorted (N.summary s.task a d) (N.deadlineKey s.task d) m (s.rq.tree.inorder.map N.node)

section

variable {N : TaskNodes} {s s' : EevdfSt} {m : RbMem (BitVec 64)} {t : ℕ}

theorem EevdfSt.TreeNear.near {a d : BitVec 64} (h : s.TreeNear a d) (hpool : s.Pooled) :
    ∀ z ∈ s.rq.tree.inorder.map N.node, N.Near s.task a d z := by
  intro z hz
  obtain ⟨t, ht, rfl⟩ := List.mem_map.mp hz
  simpa [TaskNodes.Near, After, TaskNodes.vruntime, TaskNodes.deadlineKey,
    N.task_node t (hpool t ht)] using h t ht

/-- Nothing is compared but the deadlines and virtual times in the tree. -/
theorem Timeline.congr (h : Timeline N s m) {a d : BitVec 64} {xs : List ℕ}
    (hxs : s.rq.tree.inorder = xs)
    (hkept : ∀ t ∈ xs, (s'.task t).vruntime = (s.task t).vruntime ∧
      (s'.task t).deadline = (s.task t).deadline)
    (hnear : ∀ z ∈ xs.map N.node, N.Near s'.task a d z) :
    RbSorted (N.summary s'.task a d) (N.deadlineKey s'.task d) m (xs.map N.node) := by
  subst hxs
  obtain ⟨hpool, a₀, d₀, h₀, ⟨t, ht, hin⟩, hsort, -⟩ := h
  have hback : ∀ z ∈ s.rq.tree.inorder.map N.node, N.vruntime s'.task z.word =
      N.vruntime s.task z.word ∧ (s'.task (N.task z.word)).deadline =
        (s.task (N.task z.word)).deadline := by
    intro z hz
    obtain ⟨u, hu, rfl⟩ := List.mem_map.mp hz
    rw [TaskNodes.vruntime, TaskNodes.vruntime, N.task_node u (hpool u hu)]
    exact hkept u hu
  refine ⟨⟨t, ht.congr (fun z hz => ?_) (fun z hz => h₀.near hpool z (hin ▸ hz))
    (fun z hz => hnear z (hin ▸ hz)), hin⟩, ?_, hnear⟩
  · funext r l
    rw [minValue, minValue, (hback z (hin ▸ hz)).1]
  · -- the order by one base is the order by another one
    refine hsort.imp_of_mem fun {x y} hx hy hxy => ?_
    have hdx := (h₀.near hpool x hx).2
    have hdy := (h₀.near hpool y hy).2
    have hdx' := (hnear x hx).2
    have hdy' := (hnear y hy).2
    simp only [TaskNodes.deadlineKey, (hback x hx).2, (hback y hy).2] at *
    have hx₁ := two_mul_ahead_lt (s.task (N.task x.word)).deadline d₀
    have hy₁ := two_mul_ahead_lt (s.task (N.task y.word)).deadline d₀
    have hx₂ := two_mul_ahead_lt (s.task (N.task x.word)).deadline d
    have hy₂ := two_mul_ahead_lt (s.task (N.task y.word)).deadline d
    have h₁ := ahead_eq_sub (a := (s.task (N.task x.word)).deadline)
      (b := (s.task (N.task y.word)).deadline) (c := d₀) (by omega) (by omega)
    have h₂ := ahead_eq_sub (a := (s.task (N.task x.word)).deadline)
      (b := (s.task (N.task y.word)).deadline) (c := d) (by omega) (by omega)
    omega

theorem Timeline.same (h : Timeline N s m) (htree : s'.rq.tree.inorder = s.rq.tree.inorder)
    (hkept : ∀ t ∈ s.rq.tree.inorder, (s'.task t).vruntime = (s.task t).vruntime ∧
      (s'.task t).deadline = (s.task t).deadline) : Timeline N s' m := by
  obtain ⟨hpool, a, d, hnear, -⟩ := id h
  have hpool' : s'.Pooled := fun t ht => hpool t (htree ▸ ht)
  have hnear' : s'.TreeNear a d := by
    intro t ht
    rw [htree] at ht
    rw [(hkept t ht).1, (hkept t ht).2]
    exact hnear t ht
  refine ⟨hpool', a, d, hnear', ?_⟩
  have hz : ∀ z ∈ s'.rq.tree.inorder.map N.node, N.Near s'.task a d z := hnear'.near hpool'
  rw [htree] at hz ⊢
  exact h.congr rfl hkept hz

/-- **`__enqueue_task`.** -/
theorem Timeline.added {B : Balancer ℕ} {fuel : ℕ} (h : Timeline N s m)
    (ha : EevdfSt.Added B t s s') (ht : t ∉ s.rq.tree.inorder) (htpool : t < maxTasks)
    (hkept : ∀ t ∈ s.rq.tree.inorder, (s'.task t).vruntime = (s.task t).vruntime ∧
      (s'.task t).deadline = (s.task t).deadline)
    (hnear : ∃ a d, s'.TreeNear a d) (hfuel : 2 * Nat.log 2 (s.rq.tree.inorder.length + 1) < fuel) :
    ∃ m', rbStep (minValue (N.vruntime s'.task)) (N.deadlineLess s'.task) fuel m
        (.add (N.node t)) = some m' ∧ Timeline N s' m' := by
  obtain ⟨a, d, hnear⟩ := hnear
  obtain ⟨n, hn, htree⟩ := ha
  have hperm : s'.rq.tree.inorder.Perm (t :: s.rq.tree.inorder) := by
    rw [htree, ← hn]
    exact B.perm_add
  have hpool : s'.Pooled := fun u hu => by
    rcases List.mem_cons.mp (hperm.mem_iff.mp hu) with rfl | hu
    · exact htpool
    · exact h.1 u hu
  have hz : ∀ z ∈ (t :: s.rq.tree.inorder).map N.node, N.Near s'.task a d z := fun z hz =>
    hnear.near hpool z ((hperm.map N.node).mem_iff.mpr hz)
  have hold := h.congr rfl hkept (a := a) (d := d) fun z hzm => hz z (by simp at hzm ⊢; tauto)
  obtain ⟨m', hm', hsorted, -⟩ := rbStep_holds N.deadlineLess_iff (.add (N.node t)) hold
    (hz (N.node t) (by simp))
    (show _ = some ((s.rq.tree.inorder.map N.node).orderedInsert (fun x y =>
      N.deadlineKey s'.task d x < N.deadlineKey s'.task d y) (N.node t)) from
      if_neg fun hm => ht ((N.node_mem htpool h.1).mp hm)) (by rw [List.length_map]; exact hfuel)
  refine ⟨m', hm', hpool, a, d, hnear, ?_⟩
  -- the place of the new node in the sorted list
  have hkey : ∀ u < maxTasks, N.deadlineKey s'.task d (N.node u) = ahead (s'.task u).deadline d :=
    fun u hu => by rw [TaskNodes.deadlineKey, N.task_node u hu]
  have hin : s'.rq.tree.inorder = s.rq.tree.inorder.orderedInsert (fun x y =>
      ahead (s'.task x).deadline d < ahead (s'.task y).deadline d) t := by
    have hsort := hold.sorted
    rw [List.pairwise_map] at hsort
    have hsort' : n.inorder.Pairwise fun x y =>
        ahead (s'.task x).deadline d ≤ ahead (s'.task y).deadline d := by
      rw [hn]
      exact hsort.imp_of_mem fun {x y} hx hy hxy => by
        rwa [hkey x (h.1 x hx), hkey y (h.1 y hy)] at hxy
    rw [htree, Balancer.add, B.inorder_rotate, ← hn]
    refine SearchTree.inorder_link (fun u => ahead (s'.task u).deadline d) n (fun y hy => ?_)
      hsort'
    have hmem : ∀ u ∈ t :: s.rq.tree.inorder, 0 ≤ ahead (s'.task u).deadline d := fun u hu =>
      (hnear u (hperm.mem_iff.mpr hu)).2
    exact EevdfSt.deadlineLess_iff (hmem t (by simp)) (hmem y (by simp [← hn, hy]))
  have hmap := List.map_orderedInsert (r := fun x y =>
    ahead (s'.task x).deadline d < ahead (s'.task y).deadline d) (s := fun x y =>
    N.deadlineKey s'.task d x < N.deadlineKey s'.task d y) N.node s.rq.tree.inorder t
    (fun u hu => by rw [hkey u (h.1 u hu), hkey t htpool])
    fun u hu => by rw [hkey u (h.1 u hu), hkey t htpool]
  rw [hin, hmap]
  exact hsorted

/-- **`__dequeue_task`.** -/
theorem Timeline.erased {fuel : ℕ} (h : Timeline N s m)
    (htree : s'.rq.tree.inorder = s.rq.tree.inorder.erase t) (ht : t ∈ s.rq.tree.inorder)
    (hkept : ∀ t ∈ s.rq.tree.inorder, (s'.task t).vruntime = (s.task t).vruntime ∧
      (s'.task t).deadline = (s.task t).deadline)
    (hfuel : 2 * Nat.log 2 (s.rq.tree.inorder.length + 1) < fuel) :
    ∃ m', rbStep (minValue (N.vruntime s'.task)) (N.deadlineLess s'.task) fuel m
        (.erase (N.node t)) = some m' ∧ Timeline N s' m' := by
  obtain ⟨hpool, a, d, hnear, -⟩ := id h
  have hold : ∀ u ∈ s.rq.tree.inorder,
      0 ≤ ahead (s'.task u).vruntime a ∧ 0 ≤ ahead (s'.task u).deadline d := by
    intro u hu
    rw [(hkept u hu).1, (hkept u hu).2]
    exact hnear u hu
  have hz : ∀ z ∈ s.rq.tree.inorder.map N.node, N.Near s'.task a d z := by
    intro z hz
    obtain ⟨u, hu, rfl⟩ := List.mem_map.mp hz
    simpa [TaskNodes.Near, After, TaskNodes.vruntime, TaskNodes.deadlineKey,
      N.task_node u (hpool u hu)] using hold u hu
  have hmem : N.node t ∈ s.rq.tree.inorder.map N.node := List.mem_map_of_mem ht
  obtain ⟨m', hm', hsorted, -⟩ := rbStep_holds N.deadlineLess_iff (.erase (N.node t))
    (h.congr rfl hkept hz) (hz _ hmem) (if_pos hmem) (by rw [List.length_map]; exact hfuel)
  refine ⟨m', hm', fun u hu => hpool u (List.mem_of_mem_erase (htree ▸ hu)), a, d,
    fun u hu => hold u (List.mem_of_mem_erase (htree ▸ hu)), ?_⟩
  rw [htree, N.map_erase (hpool t ht) hpool]
  exact hsorted

end

end Skyloft
