import Skyloft.Lib.Heap
import Skyloft.Sync.Timer

/-!
# Sifting timers

`Skyloft.Sync.Timer` has the heap of a kthread as a list.  Here it is in the memory it stands
in: an array of slots, and the entries the slots point to.  An entry points back, with the
kthread and the slot it is in, and each move of a sift writes the slot.

* `HeapMem`, `siftUp`, `siftDown` — a heap and the entries, and the two loops.
* `restore`, `resift` — the sifts at the end of `timer_merge` and of `timer_cancel`.
* `HeapMem.Rearranged` — what a sift does to the memory: slots are permuted, entries follow.
* `siftUp_heap`, `siftDown_heap`, `restore_heap`, `sift_replaced` — the order they restore.
* `siftUp_listed`, `siftDown_listed` — on the slots they are the loops on the list.
* `timerStart_listed`, `timerPop_listed` — so are what starts a timer and what pops one.
-/

namespace Skyloft

open Heap

/-! ## The memory -/

/-- `struct timer_entry` without the handler; an entry has no kthread before it is started. -/
structure TimerEntry (K : Type) where
  armed : Bool
  idx : ℕ
  k : Option K

/-- `struct timer_idx` -/
structure TimerIdx (E : Type) where
  deadlineUs : BitVec 64
  e : E
  deriving DecidableEq

/-- The slots of a kthread, and the entries. -/
structure HeapMem (E K : Type) where
  heap : ℕ → TimerIdx E
  entry : E → TimerEntry K

/-- What the heaps are ordered by. -/
def TimerIdx.key {E : Type} (t : TimerIdx E) : ℕ := t.deadlineUs.toNat

namespace HeapMem

variable {E K : Type} [DecidableEq E]

/-- `heap[i] = t; heap[i].e->idx = i` -/
def place (m : HeapMem E K) (i : ℕ) (t : TimerIdx E) : HeapMem E K where
  heap := Function.update m.heap i t
  entry := Function.update m.entry t.e { m.entry t.e with idx := i }

/-- The loop of `sift_up` for the timer `tmp`, which stands at `i`. -/
def siftUpLoop (tmp : TimerIdx E) : ℕ → HeapMem E K → ℕ → HeapMem E K
  | 0, m, _ => m
  | fuel + 1, m, i =>
      if i = 0 then m
      else
        let p := (i - 1) / arity
        if (m.heap p).deadlineUs ≤ tmp.deadlineUs then m
        else siftUpLoop tmp fuel ((m.place i (m.heap p)).place p tmp) p

/-- `sift_up` -/
def siftUp (m : HeapMem E K) (i : ℕ) : HeapMem E K := siftUpLoop (m.heap i) i m i

/-- One turn of the inner loop of `sift_down`. -/
def nearer (heap : ℕ → TimerIdx E) (n : ℕ) (best : BitVec 64 × Option ℕ) (j : ℕ) :
    BitVec 64 × Option ℕ :=
  if j < n ∧ (heap j).deadlineUs < best.1 then ((heap j).deadlineUs, some j) else best

/-- The child of `i` below `n` with the earliest deadline before `w`. -/
def minChild (heap : ℕ → TimerIdx E) (i n : ℕ) (w : BitVec 64) : Option ℕ :=
  (((List.range arity).map (i * arity + 1 + ·)).foldl (nearer heap n) (w, none)).2

/-- The loop of `sift_down` for the timer `tmp`, which stands at `i`. -/
def siftDownLoop (tmp : TimerIdx E) (n : ℕ) : ℕ → HeapMem E K → ℕ → HeapMem E K
  | 0, m, _ => m
  | fuel + 1, m, i =>
      match minChild m.heap i n tmp.deadlineUs with
      | none => m
      | some c => siftDownLoop tmp n fuel ((m.place i (m.heap c)).place c tmp) c

/-- `sift_down` -/
def siftDown (m : HeapMem E K) (i n : ℕ) : HeapMem E K := siftDownLoop (m.heap i) n n m i

/-- The end of `timer_cancel`: `sift_up` and `sift_down`, both at `e->idx`. -/
def resift (m : HeapMem E K) (e : E) (n : ℕ) : HeapMem E K :=
  let m := m.siftUp (m.entry e).idx
  m.siftDown (m.entry e).idx n

/-- The last loop of `timer_merge`, from slot `i` to the root. -/
def restore (n : ℕ) : ℕ → HeapMem E K → HeapMem E K
  | 0, m => m.siftDown 0 n
  | i + 1, m => restore n i (m.siftDown (i + 1) n)

/-! ### What a sift does to the memory -/

/-- The entries of the first `n` slots point back. -/
def Tracks (m : HeapMem E K) (n : ℕ) : Prop := ∀ i, i < n → (m.entry (m.heap i).e).idx = i

/-- The first `n` slots were permuted, and the entries followed. -/
structure Rearranged (n : ℕ) (m m' : HeapMem E K) : Prop where
  contents : contents m'.heap n = contents m.heap n
  slots : ∀ j, n ≤ j → m'.heap j = m.heap j
  flags : ∀ e, (m'.entry e).armed = (m.entry e).armed ∧ (m'.entry e).k = (m.entry e).k
  outside : ∀ e, (∀ i, i < n → (m.heap i).e ≠ e) → m'.entry e = m.entry e
  tracks : m.Tracks n → m'.Tracks n

namespace Rearranged

variable {n : ℕ} {m m' m'' : HeapMem E K}

omit [DecidableEq E] in
theorem refl (n : ℕ) (m : HeapMem E K) : Rearranged n m m where
  contents := rfl
  slots _ _ := rfl
  flags _ := ⟨rfl, rfl⟩
  outside _ _ := rfl
  tracks h := h

omit [DecidableEq E] in
/-- Who is in a slot was in one before. -/
theorem mem (h : Rearranged n m m') {i : ℕ} (hi : i < n) : ∃ j, j < n ∧ m.heap j = m'.heap i := by
  apply mem_contents.mp
  rw [← h.contents]
  exact mem_contents.mpr ⟨i, hi, rfl⟩

omit [DecidableEq E] in
theorem trans (h : Rearranged n m m') (h' : Rearranged n m' m'') : Rearranged n m m'' where
  contents := h'.contents.trans h.contents
  slots j hj := (h'.slots j hj).trans (h.slots j hj)
  flags e := ⟨(h'.flags e).1.trans (h.flags e).1, (h'.flags e).2.trans (h.flags e).2⟩
  outside e he := by
    rw [h'.outside e, h.outside e he]
    intro i hi hie
    obtain ⟨j, hj, hji⟩ := h.mem hi
    exact he j hj (by rw [hji, hie])
  tracks ht := h'.tracks (h.tracks ht)

/-- One turn of a sift. -/
theorem exchange {i c : ℕ} (hi : i < n) (hc : c < n) (hic : i ≠ c) :
    Rearranged n m ((m.place i (m.heap c)).place c (m.heap i)) where
  contents := contents_exchange hi hc
  slots j hj := by
    simp only [place, Function.update_apply]
    grind
  flags e := by
    simp only [place, Function.update_apply]
    grind
  outside e he := by
    have hei := he i hi
    have hec := he c hc
    simp only [place, Function.update_apply]
    grind
  tracks ht := by
    intro j hj
    have htj := ht j hj
    have hti := ht i hi
    have htc := ht c hc
    simp only [place, Function.update_apply]
    grind

end Rearranged

/-! ### The sifts -/

section

variable {m : HeapMem E K} {n i : ℕ}

theorem siftUpLoop_rearranged (fuel : ℕ) : ∀ (m : HeapMem E K) (i : ℕ), i < n →
    Rearranged n m (siftUpLoop (m.heap i) fuel m i) := by
  induction fuel with
  | zero => intro m i _; exact Rearranged.refl n m
  | succ fuel ih =>
      intro m i hi
      simp only [siftUpLoop]
      split
      · exact Rearranged.refl n m
      · rename_i h0
        have hp : parent arity i < i := parent_lt (by omega)
        split
        · exact Rearranged.refl n m
        · have hturn := Rearranged.exchange (m := m) hi (show parent arity i < n by omega) (by omega)
          have hrest := ih ((m.place i (m.heap (parent arity i))).place (parent arity i) (m.heap i))
            (parent arity i) (by omega)
          simp only [place, Function.update_self] at hrest
          exact hturn.trans hrest

theorem siftUp_rearranged (hi : i < n) : Rearranged n m (m.siftUp i) :=
  siftUpLoop_rearranged i m i hi

theorem siftUpLoop_heap (fuel : ℕ) : ∀ (m : HeapMem E K) (i : ℕ), i ≤ fuel → i < n →
    UpHeap arity TimerIdx.key m.heap n i →
    HeapFrom arity TimerIdx.key (siftUpLoop (m.heap i) fuel m i).heap n 0 := by
  induction fuel with
  | zero =>
      intro m i hf _ h
      exact h.finish fun hpos => by omega
  | succ fuel ih =>
      intro m i hf hi h
      simp only [siftUpLoop]
      split
      · exact h.finish fun hpos => by omega
      · rename_i h0
        have hp : parent arity i < i := parent_lt (by omega)
        split
        · rename_i hle
          exact h.finish fun _ => BitVec.le_def.mp hle
        · rename_i hlt
          have hturn := h.exchange (by omega) hi
            (Nat.lt_of_not_le fun hle => hlt (BitVec.le_def.mpr hle))
          have hrest := ih ((m.place i (m.heap (parent arity i))).place (parent arity i) (m.heap i))
            (parent arity i) (by omega) (by omega) hturn
          simp only [place, Function.update_self] at hrest
          exact hrest

theorem siftUp_heap (hi : i < n) (h : UpHeap arity TimerIdx.key m.heap n i) :
    HeapFrom arity TimerIdx.key (m.siftUp i).heap n 0 :=
  siftUpLoop_heap i m i le_rfl hi h

/-- A timer that does not come before its parent stays. -/
theorem siftUp_eq (hle : 0 < i → (m.heap (parent arity i)).key ≤ (m.heap i).key) :
    m.siftUp i = m := by
  cases i with
  | zero => rfl
  | succ i =>
      have hstop : (m.heap ((i + 1 - 1) / arity)).deadlineUs ≤ (m.heap (i + 1)).deadlineUs :=
        BitVec.le_def.mpr (hle (by omega))
      simp only [siftUp, siftUpLoop, if_pos hstop]
      simp

omit [DecidableEq E] in
theorem foldl_nearer (heap : ℕ → TimerIdx E) (js : List ℕ) : ∀ best : BitVec 64 × Option ℕ,
    (∀ j ∈ js, j < n → (js.foldl (nearer heap n) best).1.toNat ≤ (heap j).key) ∧
    (js.foldl (nearer heap n) best = best ∨ ∃ c ∈ js, c < n ∧ (heap c).key < best.1.toNat ∧
      js.foldl (nearer heap n) best = ((heap c).deadlineUs, some c)) := by
  induction js with
  | nil => intro best; simp
  | cons j js ih =>
      intro best
      simp only [List.foldl_cons]
      by_cases hj : j < n ∧ (heap j).deadlineUs < best.1
      · have hn : nearer heap n best j = ((heap j).deadlineUs, some j) := if_pos hj
        have hlt : (heap j).key < best.1.toNat := BitVec.lt_def.mp hj.2
        obtain ⟨hall, hbest⟩ := ih (nearer heap n best j)
        rw [hn] at hall hbest ⊢
        constructor
        · intro x hx hxn
          rcases List.mem_cons.mp hx with rfl | hx
          · rcases hbest with hb | ⟨c, _, _, hc, hb⟩
            · rw [hb]
              exact le_rfl
            · rw [hb]
              exact le_of_lt hc
          · exact hall x hx hxn
        · rcases hbest with hb | ⟨c, hcj, hcn, hc, hb⟩
          · exact .inr ⟨j, List.mem_cons_self, hj.1, hlt, hb⟩
          · exact .inr ⟨c, List.mem_cons_of_mem j hcj, hcn, lt_trans hc hlt, hb⟩
      · have hn : nearer heap n best j = best := if_neg hj
        obtain ⟨hall, hbest⟩ := ih best
        rw [hn]
        constructor
        · intro x hx hxn
          rcases List.mem_cons.mp hx with rfl | hx
          · have hle : best.1.toNat ≤ (heap x).key := by
              by_contra hlt
              exact hj ⟨hxn, BitVec.lt_def.mpr (Nat.lt_of_not_le hlt)⟩
            rcases hbest with hb | ⟨c, _, _, hc, hb⟩
            · rw [hb]
              exact hle
            · rw [hb]
              exact le_trans (le_of_lt hc) hle
          · exact hall x hx hxn
        · rcases hbest with hb | ⟨c, hcj, hcn, hc, hb⟩
          · exact .inl hb
          · exact .inr ⟨c, List.mem_cons_of_mem j hcj, hcn, hc, hb⟩

omit [DecidableEq E] in
/-- The inner loop of `sift_down` finds the first child, if one comes before the timer. -/
theorem minChild_spec (heap : ℕ → TimerIdx E) (i n : ℕ) (w : BitVec 64) :
    (minChild heap i n w = none ∧
      ∀ j, 0 < j → j < n → parent arity j = i → w.toNat ≤ (heap j).key) ∨
    ∃ c, minChild heap i n w = some c ∧ 0 < c ∧ c < n ∧ parent arity c = i ∧
      (heap c).key < w.toNat ∧ ∀ j, 0 < j → j < n → parent arity j = i → (heap c).key ≤ (heap j).key := by
  have hchild : ∀ j, 0 < j → parent arity j = i →
      j ∈ (List.range arity).map (i * arity + 1 + ·) := by
    intro j hj hpar
    obtain ⟨c, hc, hjc⟩ := (parent_eq_iff hj (by decide)).mp hpar
    exact List.mem_map.mpr ⟨c, List.mem_range.mpr hc, hjc.symm⟩
  obtain ⟨hall, hbest⟩ := foldl_nearer (n := n) heap ((List.range arity).map (i * arity + 1 + ·))
    (w, none)
  rcases hbest with hb | ⟨c, hcj, hcn, hc, hb⟩
  · rw [hb] at hall
    refine .inl ⟨by rw [minChild, hb], ?_⟩
    intro j hj hjn hpar
    exact hall j (hchild j hj hpar) hjn
  · rw [hb] at hall
    obtain ⟨x, hx, rfl⟩ := List.mem_map.mp hcj
    refine .inr ⟨_, by rw [minChild, hb], by omega, hcn, ?_, hc, ?_⟩
    · exact (parent_eq_iff (by omega) (by decide)).mpr ⟨x, List.mem_range.mp hx, rfl⟩
    · intro j hj hjn hpar
      exact hall j (hchild j hj hpar) hjn

theorem siftDownLoop_rearranged (fuel : ℕ) : ∀ (m : HeapMem E K) (i : ℕ), i < n →
    Rearranged n m (siftDownLoop (m.heap i) n fuel m i) := by
  induction fuel with
  | zero => intro m i _; exact Rearranged.refl n m
  | succ fuel ih =>
      intro m i hi
      simp only [siftDownLoop]
      rcases minChild_spec m.heap i n (m.heap i).deadlineUs with ⟨hc, _⟩ | ⟨c, hc, hpos, hcn, hpar, -, -⟩
      · rw [hc]
        exact Rearranged.refl n m
      · have hic : i < c := by
          rw [← hpar]
          exact parent_lt hpos
        have hturn := Rearranged.exchange (m := m) hi hcn (by omega)
        have hrest := ih ((m.place i (m.heap c)).place c (m.heap i)) c hcn
        rw [hc]
        simp only [place, Function.update_self] at hrest
        exact hturn.trans hrest

theorem siftDown_rearranged (hi : i < n) : Rearranged n m (m.siftDown i n) :=
  siftDownLoop_rearranged n m i hi

theorem siftDownLoop_heap {l : ℕ} (fuel : ℕ) : ∀ (m : HeapMem E K) (i : ℕ), n ≤ i + fuel → i < n →
    DownHeap arity TimerIdx.key m.heap n l i →
    HeapFrom arity TimerIdx.key (siftDownLoop (m.heap i) n fuel m i).heap n l := by
  induction fuel with
  | zero => intro m i hf hi; omega
  | succ fuel ih =>
      intro m i hf hi h
      simp only [siftDownLoop]
      rcases minChild_spec m.heap i n (m.heap i).deadlineUs with
        ⟨hc, hle⟩ | ⟨c, hc, hpos, hcn, hpar, hlt, hmin⟩
      · rw [hc]
        exact h.finish hle
      · have hic : i < c := by
          rw [← hpar]
          exact parent_lt hpos
        have hturn := h.exchange hpos hcn hpar hlt hmin
        have hrest := ih ((m.place i (m.heap c)).place c (m.heap i)) c (by omega) hcn hturn
        rw [hc]
        simp only [place, Function.update_self] at hrest
        exact hrest

theorem siftDown_heap {l : ℕ} (hi : i < n) (h : DownHeap arity TimerIdx.key m.heap n l i) :
    HeapFrom arity TimerIdx.key (m.siftDown i n).heap n l :=
  siftDownLoop_heap n m i (by omega) hi h

theorem restore_rearranged : ∀ (i : ℕ) (m : HeapMem E K), i < n →
    Rearranged n m (restore n i m) := by
  intro i
  induction i with
  | zero => intro m hi; exact siftDown_rearranged hi
  | succ i ih =>
      intro m hi
      exact (siftDown_rearranged hi).trans (ih _ (by omega))

theorem restore_heap : ∀ (i : ℕ) (m : HeapMem E K), i < n →
    HeapFrom arity TimerIdx.key m.heap n (i + 1) →
    HeapFrom arity TimerIdx.key (restore n i m).heap n 0 := by
  intro i
  induction i with
  | zero => intro m hi h; exact siftDown_heap hi h.downHeap
  | succ i ih =>
      intro m hi h
      exact ih _ (by omega) (siftDown_heap hi h.downHeap)

/-- An entry that is in no slot keeps its index, so both sifts of `resift` start at one slot. -/
theorem resift_eq {e : E} (hidx : (m.entry e).idx = i) (hi : i < n)
    (hout : ∀ j, j < n → (m.heap j).e ≠ e) : m.resift e n = (m.siftUp i).siftDown i n := by
  rw [resift, hidx, (siftUp_rearranged hi).outside e hout, hidx]

/-- After a slot is given up to the last one, the two sifts restore the order. -/
theorem sift_replaced (hi : i < n)
    (h : HeapFrom arity TimerIdx.key m.heap n 0) (t : TimerIdx E) :
    HeapFrom arity TimerIdx.key (((m.place i t).siftUp i).siftDown i n).heap n 0 := by
  by_cases hlt : 0 < i ∧ t.key < (m.heap (parent arity i)).key
  · -- it goes up, and what comes down in its place is before all below
    have hup := h.replace_up hlt.1 hi hlt.2
    have hheap := siftUp_heap (m := m.place i t) hi hup
    exact siftDown_heap hi (hheap.downHeap_self i)
  · have hle : 0 < i → (m.heap (parent arity i)).key ≤ t.key := by
      intro hpos
      by_contra hnot
      exact hlt ⟨hpos, by omega⟩
    have hstay : (m.place i t).siftUp i = m.place i t := by
      apply siftUp_eq
      intro hpos
      have hp : parent arity i < i := parent_lt hpos
      simpa [place, Function.update_of_ne (show parent arity i ≠ i by omega)] using hle hpos
    rw [hstay]
    exact siftDown_heap hi (h.replace_down hi hle)

end

end HeapMem

/-! ## The heap as a list -/

/-- A slot, with the tasks that the handler of its entry wakes. -/
def TimerIdx.toTimer {E : Type} (wakes : E → List ℕ) (t : TimerIdx E) : Timer where
  deadlineUs := t.deadlineUs.toNat
  wakes := wakes t.e

namespace HeapMem

/-- The first `n` slots, as `Skyloft.Sync.Timer` has them. -/
def listed {E K : Type} (wakes : E → List ℕ) (m : HeapMem E K) (n : ℕ) : List Timer :=
  (List.range n).map fun i => (m.heap i).toTimer wakes

variable {E K : Type} {wakes : E → List ℕ} {m : HeapMem E K} {n i : ℕ}

@[simp] theorem length_listed : (m.listed wakes n).length = n := by simp [listed]

theorem getElem?_listed : (m.listed wakes n)[i]? =
    if i < n then some ((m.heap i).toTimer wakes) else none := by
  simp only [listed, List.getElem?_map]
  split <;> simp_all

theorem getD_listed (hi : i < n) (t : Timer) :
    (m.listed wakes n).getD i t = (m.heap i).toTimer wakes := by
  rw [List.getD_eq_getElem?_getD, getElem?_listed, if_pos hi, Option.getD_some]

/-- Both compare the same two deadlines. -/
theorem nearer_listed (best : BitVec 64 × Option ℕ) (d : ℕ) :
    Skyloft.nearer (m.listed wakes n) i n (best.1.toNat, best.2) d =
      ((nearer m.heap n best (i * arity + 1 + d)).1.toNat,
        (nearer m.heap n best (i * arity + 1 + d)).2) := by
  unfold Skyloft.nearer nearer
  dsimp only
  rw [getElem?_listed]
  by_cases hj : i * arity + 1 + d < n
  · rw [if_pos hj]
    dsimp only [TimerIdx.toTimer]
    by_cases hd : (m.heap (i * arity + 1 + d)).deadlineUs < best.1
    · rw [if_pos ⟨hj, BitVec.lt_def.mp hd⟩, if_pos ⟨hj, hd⟩]
    · rw [if_neg fun h => hd (BitVec.lt_def.mpr h.2), if_neg fun h => hd h.2]
  · rw [if_neg hj, if_neg fun h => hj h.1]

/-- Both find the same child. -/
theorem minChild_listed (w : BitVec 64) :
    Skyloft.minChild (m.listed wakes n) i n w.toNat = minChild m.heap i n w := by
  have hfold : ∀ (ds : List ℕ) (best : BitVec 64 × Option ℕ),
      (ds.foldl (Skyloft.nearer (m.listed wakes n) i n) (best.1.toNat, best.2)).2 =
        ((ds.map fun d => i * arity + 1 + d).foldl (nearer m.heap n) best).2 := by
    intro ds
    induction ds with
    | nil => intro best; rfl
    | cons d ds ih =>
        intro best
        rw [List.map_cons, List.foldl_cons, List.foldl_cons, nearer_listed, ih]
  exact hfold (List.range arity) (w, none)

variable [DecidableEq E]

/-- A write to a slot is one to the list. -/
theorem listed_place (t : TimerIdx E) :
    (m.place i t).listed wakes n = (m.listed wakes n).set i (t.toTimer wakes) := by
  apply List.ext_getElem?
  intro j
  rw [getElem?_listed, List.getElem?_set, length_listed, getElem?_listed]
  by_cases hij : i = j
  · subst hij
    simp [place]
  · simp [place, hij, Ne.symm hij]

theorem siftUpLoop_listed (tmp : TimerIdx E) : ∀ (fuel : ℕ) (m : HeapMem E K) (i : ℕ), i < n →
    (siftUpLoop tmp fuel m i).listed wakes n =
      Skyloft.siftUp (tmp.toTimer wakes) fuel (m.listed wakes n) i := by
  intro fuel
  induction fuel with
  | zero => intro m i _; rfl
  | succ fuel ih =>
      intro m i hi
      have hp : (i - 1) / arity < n := by
        have hdiv := Nat.div_le_self (i - 1) arity
        omega
      simp only [siftUpLoop, Skyloft.siftUp, getD_listed hp]
      by_cases h0 : i = 0
      · simp only [h0, if_true]
      · simp only [if_neg h0]
        by_cases hle : (m.heap ((i - 1) / arity)).deadlineUs ≤ tmp.deadlineUs
        · have hle' : ((m.heap ((i - 1) / arity)).toTimer wakes).deadlineUs ≤
              (tmp.toTimer wakes).deadlineUs := BitVec.le_def.mp hle
          rw [if_pos hle, if_pos hle']
        · have hnle : ¬ ((m.heap ((i - 1) / arity)).toTimer wakes).deadlineUs ≤
              (tmp.toTimer wakes).deadlineUs := fun h => hle (BitVec.le_def.mpr h)
          rw [if_neg hle, if_neg hnle, ih _ _ hp, listed_place, listed_place]

/-- `sift_up` on the slots is the loop on the list. -/
theorem siftUp_listed (hi : i < n) : (m.siftUp i).listed wakes n =
    Skyloft.siftUp ((m.heap i).toTimer wakes) i (m.listed wakes n) i :=
  siftUpLoop_listed (m.heap i) i m i hi

theorem siftDownLoop_listed (tmp : TimerIdx E) : ∀ (fuel : ℕ) (m : HeapMem E K) (i : ℕ),
    (siftDownLoop tmp n fuel m i).listed wakes n =
      Skyloft.siftDown (tmp.toTimer wakes) n fuel (m.listed wakes n) i := by
  intro fuel
  induction fuel with
  | zero => intro m i; rfl
  | succ fuel ih =>
      intro m i
      have hchild : Skyloft.minChild (m.listed wakes n) i n tmp.deadlineUs.toNat =
          minChild m.heap i n tmp.deadlineUs := minChild_listed tmp.deadlineUs
      simp only [siftDownLoop, Skyloft.siftDown]
      rw [show (tmp.toTimer wakes).deadlineUs = tmp.deadlineUs.toNat from rfl, hchild]
      cases hc : minChild m.heap i n tmp.deadlineUs with
      | none => rfl
      | some c =>
          have hlt : c < n := by
            rw [hc] at hchild
            simpa using minChild_lt hchild
          dsimp only
          rw [ih, listed_place, listed_place, getD_listed hlt]

/-- `sift_down` on the slots is the loop on the list. -/
theorem siftDown_listed : (m.siftDown i n).listed wakes n =
    Skyloft.siftDown ((m.heap i).toTimer wakes) n n (m.listed wakes n) i :=
  siftDownLoop_listed (m.heap i) n m i

omit [DecidableEq E] in
theorem listed_succ (wakes : E → List ℕ) (m : HeapMem E K) (n : ℕ) :
    m.listed wakes (n + 1) = m.listed wakes n ++ [(m.heap n).toTimer wakes] := by
  simp [listed, List.range_succ]

/-- A timer written behind the last one and sifted up is started on the list. -/
theorem timerStart_listed {m m' : HeapMem E K} (hm : ∀ i, i < n → m'.heap i = m.heap i) :
    (m'.siftUp n).listed wakes (n + 1) =
      timerStart (m.listed wakes n) ((m'.heap n).toTimer wakes) := by
  have hsame : m'.listed wakes n = m.listed wakes n := by
    apply List.ext_getElem?
    intro i
    rw [getElem?_listed, getElem?_listed]
    split
    · rename_i hi
      rw [hm i hi]
    · rfl
  rw [siftUp_listed (Nat.lt_succ_self n), listed_succ, hsame, timerStart, length_listed]

/-- The last timer moved to the root and sifted down is the rest that the list has after a pop. -/
theorem timerPop_listed (wakes : E → List ℕ) (m : HeapMem E K) (n : ℕ) :
    timerPop (m.listed wakes (n + 1)) = some ((m.heap 0).toTimer wakes,
      if 0 < n then ((m.place 0 (m.heap n)).siftDown 0 n).listed wakes n else []) := by
  cases n with
  | zero => simp [listed, timerPop]
  | succ n =>
      let mid : List Timer := (List.range n).map fun i => (m.heap (i + 1)).toTimer wakes
      have hroot : m.listed wakes (n + 1) = (m.heap 0).toTimer wakes :: mid := by
        simp [listed, mid, List.range_succ_eq_map, Function.comp_def]
      have hrest : (m.place 0 (m.heap (n + 1))).listed wakes (n + 1) =
          (m.heap (n + 1)).toTimer wakes :: mid := by
        rw [listed_place, hroot, List.set_cons_zero]
      have hlen : mid.length = n := by simp [mid]
      rw [listed_succ, hroot, if_pos (Nat.succ_pos n), siftDown_listed, hrest]
      simp [timerPop, hlen, place]

end HeapMem

end Skyloft
