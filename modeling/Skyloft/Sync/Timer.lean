import Mathlib.Data.List.Basic

/-!
# Timers

A kthread keeps its timers in a 4-ary heap ordered by deadline.  Arming a timer appends
it and sifts it up; the softirq takes the root, moves the last timer to its place and
sifts that down.

* `siftUp`, `siftDown` — the two loops, on the array as a list.
* `timerStart`, `timerPop` — arming, and one turn of the loop of `timer_softirq`.
* `timerStart_perm`, `timerPop_perm` — no timer is lost or made up by them.

The array itself, with what its slots point to, is in `Skyloft.Sync.TimerSift`, which proves that
its functions are these on the list of the slots.
-/

namespace Skyloft

/-- A slot of the heap and the entry it points to: when the timer expires, and the tasks
that its handler wakes (`timer_finish_sleep` wakes its argument). -/
structure Timer where
  deadlineUs : ℕ
  wakes : List ℕ
  deriving DecidableEq

/-- The arity `D` of the heap. -/
def arity : ℕ := 4

/-- The loop of `sift_up` for the timer `tmp`, which stands at `i`; the fuel bounds the
turns. -/
def siftUp (tmp : Timer) : ℕ → List Timer → ℕ → List Timer
  | 0, heap, _ => heap
  | fuel + 1, heap, i =>
      if i = 0 then heap
      else
        let p := (i - 1) / arity
        let up := heap.getD p tmp
        if up.deadlineUs ≤ tmp.deadlineUs then heap
        else siftUp tmp fuel ((heap.set i up).set p tmp) p

/-- One turn of the inner loop of `sift_down`: child number `d` of `i` replaces the best
one so far when its deadline is earlier. -/
def nearer (heap : List Timer) (i n : ℕ) (best : ℕ × Option ℕ) (d : ℕ) : ℕ × Option ℕ :=
  let j := i * arity + 1 + d
  match heap[j]? with
  | some t => if j < n ∧ t.deadlineUs < best.1 then (t.deadlineUs, some j) else best
  | none => best

/-- The child of `i` below `n` with the earliest deadline before `w`. -/
def minChild (heap : List Timer) (i n w : ℕ) : Option ℕ :=
  ((List.range arity).foldl (nearer heap i n) (w, none)).2

/-- The loop of `sift_down` for the timer `tmp`, which stands at `i`. -/
def siftDown (tmp : Timer) (n : ℕ) : ℕ → List Timer → ℕ → List Timer
  | 0, heap, _ => heap
  | fuel + 1, heap, i =>
      match minChild heap i n tmp.deadlineUs with
      | none => heap
      | some c => siftDown tmp n fuel ((heap.set i (heap.getD c tmp)).set c tmp) c

/-- `timer_start_locked` -/
def timerStart (heap : List Timer) (t : Timer) : List Timer :=
  siftUp t heap.length (heap ++ [t]) heap.length

/-- The root and the rest of the heap, as one turn of `timer_softirq` takes them apart. -/
def timerPop : List Timer → Option (Timer × List Timer)
  | [] => none
  | e :: rest =>
      match rest.getLast? with
      | none => some (e, [])
      | some last =>
          -- the last timer moves to the root of the shorter heap
          some (e, siftDown last rest.length rest.length (last :: rest.dropLast) 0)

/-- `timer_needed` -/
def timerNeeded (heap : List Timer) (now : ℕ) : Bool :=
  match heap with
  | [] => false
  | t :: _ => t.deadlineUs ≤ now

/-! ## The heap keeps its timers -/

variable {heap : List Timer} {tmp : Timer}

/-- One turn of a sift exchanges two slots. -/
theorem exchange_perm {i c : ℕ} (hi : heap[i]? = some tmp) (hc : c < heap.length) :
    ((heap.set i (heap.getD c tmp)).set c tmp).Perm heap := by
  obtain ⟨hil, rfl⟩ := List.getElem?_eq_some_iff.mp hi
  have hget : heap.getD c heap[i] = heap[c] := by simp [hc]
  rw [hget]
  exact List.set_set_perm hil hc

theorem getElem?_exchange {i c : ℕ} {x : Timer} (hc : c < heap.length) :
    ((heap.set i x).set c tmp)[c]? = some tmp := by
  simp [hc]

theorem nearer_lt {i n d : ℕ} {best : ℕ × Option ℕ}
    (hb : ∀ c, best.2 = some c → c < heap.length) :
    ∀ c, (nearer heap i n best d).2 = some c → c < heap.length := by
  simp only [nearer]
  cases hj : heap[i * arity + 1 + d]? with
  | none => exact hb
  | some t =>
      have hlt := (List.getElem?_eq_some_iff.mp hj).1
      dsimp only
      split
      · intro c hc
        cases hc
        exact hlt
      · exact hb

theorem minChild_lt {i n w c : ℕ} (h : minChild heap i n w = some c) : c < heap.length := by
  have key : ∀ (ds : List ℕ) (best : ℕ × Option ℕ), (∀ c, best.2 = some c → c < heap.length) →
      ∀ c, (ds.foldl (nearer heap i n) best).2 = some c → c < heap.length := by
    intro ds
    induction ds with
    | nil => intro best hb; exact hb
    | cons d ds ih =>
        intro best hb
        exact ih _ (nearer_lt hb)
  exact key _ _ (by simp) c h

theorem siftUp_perm (fuel : ℕ) : ∀ (heap : List Timer) (i : ℕ), heap[i]? = some tmp →
    (siftUp tmp fuel heap i).Perm heap := by
  induction fuel with
  | zero => intro heap i _; exact .refl _
  | succ fuel ih =>
      intro heap i hi
      simp only [siftUp]
      by_cases h0 : i = 0
      · simp [h0]
      · have hil : i < heap.length := (List.getElem?_eq_some_iff.mp hi).1
        have hp : (i - 1) / arity < heap.length := by
          have := Nat.div_le_self (i - 1) arity
          omega
        simp only [h0, if_false]
        split
        · exact .refl _
        · exact (ih _ _ (getElem?_exchange hp)).trans (exchange_perm hi hp)

theorem siftDown_perm (n fuel : ℕ) : ∀ (heap : List Timer) (i : ℕ), heap[i]? = some tmp →
    (siftDown tmp n fuel heap i).Perm heap := by
  induction fuel with
  | zero => intro heap i _; exact .refl _
  | succ fuel ih =>
      intro heap i hi
      simp only [siftDown]
      cases hc : minChild heap i n tmp.deadlineUs with
      | none => exact .refl _
      | some c =>
          have hlt := minChild_lt hc
          exact (ih _ _ (getElem?_exchange hlt)).trans (exchange_perm hi hlt)

theorem timerStart_perm (heap : List Timer) (t : Timer) :
    (timerStart heap t).Perm (heap ++ [t]) :=
  siftUp_perm _ _ _ (by simp)

theorem timerPop_perm {e : Timer} {rest : List Timer} (h : timerPop heap = some (e, rest)) :
    heap.Perm (e :: rest) := by
  cases heap with
  | nil => simp [timerPop] at h
  | cons r rs =>
      cases hl : rs.getLast? with
      | none =>
          have hrs : rs = [] := by simpa using hl
          simp [timerPop, hrs] at h
          simp [h, hrs]
      | some last =>
          simp only [timerPop, hl, Option.some.injEq, Prod.mk.injEq] at h
          have hs : (siftDown last rs.length rs.length (last :: rs.dropLast) 0).Perm
              (last :: rs.dropLast) := siftDown_perm _ _ _ _ (by simp)
          have hrs : (last :: rs.dropLast).Perm rs := by
            have happ : rs.dropLast ++ [last] = rs :=
              List.dropLast_append_getLast? last (by simp [hl])
            exact (List.perm_append_singleton last rs.dropLast).symm.trans (by rw [happ])
          rw [← h.1, ← h.2]
          exact (hs.trans hrs).symm.cons r

theorem timerPop_head? {e : Timer} {rest : List Timer} (h : timerPop heap = some (e, rest)) :
    heap.head? = some e := by
  cases heap with
  | nil => simp [timerPop] at h
  | cons r rs =>
      cases hl : rs.getLast? with
      | none =>
          simp only [timerPop, hl, Option.some.injEq, Prod.mk.injEq] at h
          simp [h.1]
      | some last =>
          simp only [timerPop, hl, Option.some.injEq, Prod.mk.injEq] at h
          simp [h.1]

theorem timerNeeded_head? {e : Timer} {now : ℕ} (h : heap.head? = some e)
    (hn : timerNeeded heap now = true) : e.deadlineUs ≤ now := by
  cases heap with
  | nil => simp at h
  | cons r rs =>
      simp only [List.head?_cons, Option.some.injEq] at h
      subst h
      simpa [timerNeeded] using hn

end Skyloft
