import Mathlib.Data.List.Basic
import Skyloft.Errno
import Skyloft.Lib.Circular

/-!
# Futexes

`futex_wait` puts a `struct futex` of its own stack frame on `futex_list` and blocks;
`futex_wake` walks the list, unlinks the waiters on an address and wakes their tasks.  A task
that was woken may run on another core at once and return from `futex_wait`, or call it again:
what its old frame holds from then on is up to that task.  The call of `futex_wake` is given
this memory turn by turn.

* `FutexQueue` — the list with the waiters that are on it, oldest first.
* `futexWakeLoop`, `futexWake` — the walk, which fails when it follows a pointer to nowhere.
* `FutexWoken` — what a call of `futex_wake` is to do.
* `futexWakeLoop_spec` — what it does when no frame is used again before it returns.
* `futex_wake_iff` — when it does so whatever the woken tasks do.
-/

namespace Skyloft

variable {N A T : Type*}

/-! ## The list -/

/-- Where a pointer of the list leads. -/
inductive FutexPtr (N : Type*)
  /-- `futex_list` -/
  | head
  /-- the `link` of a `struct futex` -/
  | node (n : N)
  /-- anywhere else -/
  | wild
  deriving DecidableEq

/-- The fields of the `struct futex`es, each named by the call that has it in its frame. -/
@[ext]
structure FutexMem (N A T : Type*) where
  link : Links (FutexPtr N)
  uaddr : N → A
  task : N → T

/-- `futex_list` and who waits on it, the oldest first. -/
structure FutexQueue (N A T : Type*) where
  mem : FutexMem N A T
  waiters : List N
  linked : mem.link.Circular .head (waiters.map .node)

theorem FutexQueue.nodup (q : FutexQueue N A T) : q.waiters.Nodup :=
  q.linked.nodup.of_cons.of_map _

/-- `init_sync`; the fields of a `struct futex` are set before it is linked in. -/
def FutexQueue.init (uaddr : N → A) (task : N → T) : FutexQueue N A T where
  mem := { link := Links.init FutexPtr.head, uaddr := uaddr, task := task }
  waiters := []
  linked := Links.circular_init FutexPtr.head

section

variable [DecidableEq N]

/-- The frame of a call holds its `struct futex`, which is not linked in yet. -/
def FutexMem.fill (m : FutexMem N A T) (n : N) (uaddr : A) (task : T) : FutexMem N A T :=
  { m with uaddr := Function.update m.uaddr n uaddr, task := Function.update m.task n task }

theorem FutexQueue.linked_addTail (q : FutexQueue N A T) {n : N} (hn : n ∉ q.waiters) :
    (q.mem.link.addTail .head (.node n)).Circular .head ((q.waiters ++ [n]).map .node) := by
  rw [List.map_append]
  apply q.linked.addTail
  simpa using hn

/-- `futex_wait` up to `task_block`, in a frame that is not on the list; `word` is what the
address holds. -/
def FutexQueue.futexWait (q : FutexQueue N A T) (n : N) (task : T) (uaddr : A) (word val : ℤ)
    (hn : n ∉ q.waiters) : ℤ × FutexQueue N A T :=
  if word ≠ val then (-eAgain, q)
  else
    (0, { mem := { q.mem.fill n uaddr task with link := q.mem.link.addTail .head (.node n) }
          waiters := q.waiters ++ [n]
          linked := q.linked_addTail hn })

end

/-! ## `futex_wake` -/

/-- A call of `futex_wake` on its way. -/
structure FutexScan (N A T : Type*) where
  mem : FutexMem N A T
  count : ℕ
  /-- the tasks it woke -/
  woken : List T
  /-- the calls of `futex_wait` that these came from -/
  gone : List N
  /-- it read the `struct futex` of a call whose task was woken -/
  touched : Bool

section

variable [DecidableEq N]

/-- The frames of `gone` hold what `other` has there. -/
def FutexMem.scribble (m : FutexMem N A T) (gone : List N) (other : FutexMem N A T) :
    FutexMem N A T where
  link :=
    { next := fun p => if p ∈ gone.map .node then other.link.next p else m.link.next p
      prev := fun p => if p ∈ gone.map .node then other.link.prev p else m.link.prev p }
  uaddr n := if n ∈ gone then other.uaddr n else m.uaddr n
  task n := if n ∈ gone then other.task n else m.task n

namespace FutexScan

/-- The woken tasks leave their frames as `reuse` says. -/
def reused (reuse : FutexMem N A T → FutexMem N A T) (s : FutexScan N A T) : FutexScan N A T :=
  { s with mem := s.mem.scribble s.gone (reuse s.mem) }

/-- The `struct futex` of a call is read. -/
def touch (n : N) (s : FutexScan N A T) : FutexScan N A T :=
  { s with touched := s.touched || decide (n ∈ s.gone) }

/-- A node is unlinked. -/
def unlinked (n : N) (s : FutexScan N A T) : FutexScan N A T :=
  { s with mem := { s.mem with link := s.mem.link.del (.node n) } }

/-- `list_del`, which writes through both pointers of the node. -/
def listDel (n : N) (s : FutexScan N A T) : Option (FutexScan N A T) :=
  if s.mem.link.next (.node n) = .wild ∨ s.mem.link.prev (.node n) = .wild then none
  else some (s.unlinked n)

/-- `task_wakeup(f->task)` and `++count` -/
def wakeup (n : N) (s : FutexScan N A T) : FutexScan N A T :=
  { s with
    count := s.count + 1
    woken := s.woken ++ [s.mem.task n]
    gone := s.gone ++ [n] }

end FutexScan

/-- The loop of `futex_wake` from the pointer `f` on. -/
def futexWakeLoop [DecidableEq A] (uaddr : A) (val : ℕ) :
    (ℕ → FutexMem N A T → FutexMem N A T) → ℕ → FutexPtr N → FutexScan N A T →
      Option (FutexScan N A T)
  | _, 0, _, _ => none
  | _, _ + 1, .head, s => some s
  | _, _ + 1, .wild, _ => none
  | reuse, fuel + 1, .node n, s =>
      let s := s.touch n
      if s.mem.uaddr n = uaddr then
        match s.listDel n with
        | none => none
        | some s =>
            let s := s.wakeup n
            if s.count = val then some s
            else
              let s := (s.reused (reuse 0)).touch n
              futexWakeLoop uaddr val (fun t => reuse (t + 1)) fuel (s.mem.link.next (.node n)) s
      else
        let s := (s.reused (reuse 0)).touch n
        futexWakeLoop uaddr val (fun t => reuse (t + 1)) fuel (s.mem.link.next (.node n)) s

/-- `futex_wake`; `reuse` is what the woken tasks do to their old frames, turn by turn. -/
def FutexQueue.futexWake [DecidableEq A] (q : FutexQueue N A T)
    (reuse : ℕ → FutexMem N A T → FutexMem N A T) (fuel : ℕ) (uaddr : A) (val : ℕ) :
    Option (FutexScan N A T) :=
  futexWakeLoop uaddr val reuse fuel (q.mem.link.next .head)
    { mem := q.mem, count := 0, woken := [], gone := [], touched := false }

/-! ## What a call is to do -/

/-- Who waits on an address, the oldest first. -/
def FutexQueue.waitersOn [DecidableEq A] (q : FutexQueue N A T) (uaddr : A) : List N :=
  q.waiters.filter fun n => q.mem.uaddr n = uaddr

/-- The oldest waiters on the address were woken, up to `val` of them, and are off the list; the
others stay as they were. -/
structure FutexServed [DecidableEq A] (q : FutexQueue N A T) (uaddr : A) (val : ℕ)
    (r : FutexScan N A T) : Prop where
  count : r.count = min val (q.waitersOn uaddr).length
  gone : r.gone = (q.waitersOn uaddr).take val
  woken : r.woken = r.gone.map q.mem.task
  left : r.mem.link.Circular .head ((q.waiters.filter fun n => n ∉ r.gone).map .node)
  frames : ∀ n ∉ r.gone, r.mem.uaddr n = q.mem.uaddr n ∧ r.mem.task n = q.mem.task n

/-- In addition no frame of a task that was woken was read. -/
structure FutexWoken [DecidableEq A] (q : FutexQueue N A T) (uaddr : A) (val : ℕ)
    (r : FutexScan N A T) : Prop extends FutexServed q uaddr val r where
  untouched : r.touched = false

/-! ## The walk over frames that nobody uses again -/

namespace FutexScan

variable {s : FutexScan N A T} {n : N}

@[simp] theorem touch_mem : (s.touch n).mem = s.mem := rfl

@[simp] theorem touch_count : (s.touch n).count = s.count := rfl

@[simp] theorem touch_woken : (s.touch n).woken = s.woken := rfl

@[simp] theorem touch_gone : (s.touch n).gone = s.gone := rfl

theorem touch_of_gone_nil (h : s.gone = []) : s.touch n = s := by
  cases s
  simp_all [touch]

/-- Nobody writes to a frame that was given up. -/
theorem reused_eq (s : FutexScan N A T) (reuse : FutexMem N A T → FutexMem N A T)
    (h : reuse s.mem = s.mem ∨ s.gone = []) : s.reused reuse = s := by
  have hmem : s.mem.scribble s.gone (reuse s.mem) = s.mem := by
    rcases h with h | h
    · rw [h]
      simp only [FutexMem.scribble, ite_self]
    · simp only [FutexMem.scribble, h, List.map_nil, List.not_mem_nil, if_false]
  rw [reused, hmem]

end FutexScan

/-- How the walk over `rest` ends, after it has passed the waiters `passed`: it wakes `taken`. -/
structure FutexScanned (s : FutexScan N A T) (passed rest taken : List N) (r : FutexScan N A T) :
    Prop where
  count : r.count = s.count + taken.length
  gone : r.gone = s.gone ++ taken
  woken : r.woken = s.woken ++ taken.map s.mem.task
  uaddr : r.mem.uaddr = s.mem.uaddr
  task : r.mem.task = s.mem.task
  left : r.mem.link.Circular .head ((passed ++ rest.filter fun n => n ∉ taken).map .node)

variable {s : FutexScan N A T} {passed rest : List N} {n : N}

omit [DecidableEq N] in
theorem FutexScan.next_eq
    (hc : s.mem.link.Circular .head ((passed ++ n :: rest).map .node)) :
    s.mem.link.next (.node n) = (rest.map .node).headD .head := by
  rw [List.map_append, List.map_cons] at hc
  exact hc.next_eq

/-- The pointers of a waiter lead to other waiters or to the head. -/
theorem FutexScan.listDel_eq
    (hc : s.mem.link.Circular .head ((passed ++ n :: rest).map .node)) :
    s.listDel n = some (s.unlinked n) := by
  have hnext := FutexScan.next_eq hc
  rw [List.map_append, List.map_cons] at hc
  have hprev := hc.prev_eq
  refine if_neg ?_
  rintro (h | h)
  · rw [hnext] at h
    cases rest <;> simp at h
  · rw [hprev] at h
    have hmem : FutexPtr.wild ∈ FutexPtr.head :: passed.map FutexPtr.node :=
      h ▸ List.getLastD_mem_cons ..
    simp at hmem

/-- The pointer of a waiter that was unlinked still leads to the next one. -/
theorem FutexScan.next_listDel
    (hc : s.mem.link.Circular .head ((passed ++ n :: rest).map .node)) :
    (s.mem.link.del (.node n)).next (.node n) = (rest.map .node).headD .head := by
  rw [List.map_append, List.map_cons] at hc
  exact hc.next_self_del

theorem FutexScan.circular_listDel
    (hc : s.mem.link.Circular .head ((passed ++ n :: rest).map .node)) :
    (s.mem.link.del (.node n)).Circular .head ((passed ++ rest).map .node) := by
  rw [List.map_append, List.map_cons] at hc
  rw [List.map_append]
  exact hc.del

variable {r : FutexScan N A T}

/-- Reading a waiter changes nothing else. -/
theorem FutexScanned.of_touch {taken : List N} {m : N}
    (h : FutexScanned (s.touch m) passed rest taken r) : FutexScanned s passed rest taken r :=
  ⟨h.count, h.gone, h.woken, h.uaddr, h.task, h.left⟩

/-- Nobody is woken any more. -/
theorem FutexScanned.nil (hc : s.mem.link.Circular .head ((passed ++ rest).map .node)) :
    FutexScanned s passed rest [] s where
  count := rfl
  gone := (List.append_nil _).symm
  woken := (List.append_nil _).symm
  uaddr := rfl
  task := rfl
  left := by
    have hall : (rest.filter fun m => m ∉ ([] : List N)) = rest :=
      List.filter_eq_self.mpr (by simp)
    rwa [hall]

/-- A waiter on another address is passed. -/
theorem FutexScanned.stay {taken : List N} (hn : n ∉ taken)
    (h : FutexScanned s (passed ++ [n]) rest taken r) :
    FutexScanned s passed (n :: rest) taken r where
  count := h.count
  gone := h.gone
  woken := h.woken
  uaddr := h.uaddr
  task := h.task
  left := by
    have hleft := h.left
    rwa [List.append_assoc, List.singleton_append, ← List.filter_cons_of_pos (by simpa using hn)]
      at hleft

/-- A waiter on the address is woken. -/
theorem FutexScanned.wake {taken : List N} (hn : n ∉ rest)
    (h : FutexScanned ((s.unlinked n).wakeup n) passed rest taken r) :
    FutexScanned s passed (n :: rest) (n :: taken) r where
  count := by
    have hcount : r.count = s.count + 1 + taken.length := h.count
    rw [hcount, List.length_cons]
    omega
  gone := by
    have hgone : r.gone = s.gone ++ [n] ++ taken := h.gone
    rw [hgone, List.append_assoc, List.singleton_append]
  woken := by
    have hwoken : r.woken = s.woken ++ [s.mem.task n] ++ taken.map s.mem.task := h.woken
    rw [hwoken, List.append_assoc, List.singleton_append, List.map_cons]
  uaddr := h.uaddr
  task := h.task
  left := by
    have hleft := h.left
    have heq : (n :: rest).filter (fun m => m ∉ n :: taken) = rest.filter fun m => m ∉ taken := by
      rw [List.filter_cons_of_neg (by simp)]
      apply List.filter_congr
      intro m hm
      have hne : m ≠ n := fun heq => hn (heq ▸ hm)
      simp [hne]
    rwa [heq]

variable [DecidableEq A] {uaddr : A} {val : ℕ}

theorem FutexScanned.served {q : FutexQueue N A T}
    (h : FutexScanned ⟨q.mem, 0, [], [], false⟩ [] q.waiters ((q.waitersOn uaddr).take val) r) :
    FutexServed q uaddr val r := by
  have hgone : r.gone = (q.waitersOn uaddr).take val := h.gone
  constructor
  · rw [h.count, Nat.zero_add, List.length_take]
  · exact hgone
  · rw [hgone]
    exact h.woken
  · rw [hgone]
    exact h.left
  · exact fun n _ => ⟨congrFun h.uaddr n, congrFun h.task n⟩

/-- A turn at a waiter on another address. -/
theorem futexWakeLoop_pass {reuse : ℕ → FutexMem N A T → FutexMem N A T} {fuel : ℕ}
    (hc : s.mem.link.Circular .head ((passed ++ n :: rest).map .node))
    (hn : s.mem.uaddr n ≠ uaddr) (hkeep : reuse 0 s.mem = s.mem ∨ s.gone = []) :
    futexWakeLoop uaddr val reuse (fuel + 1) (.node n) s =
      futexWakeLoop uaddr val (fun t => reuse (t + 1)) fuel ((rest.map .node).headD .head)
        ((s.touch n).touch n) := by
  have hsame : (s.touch n).reused (reuse 0) = s.touch n := FutexScan.reused_eq _ _ hkeep
  rw [futexWakeLoop]
  simp only [FutexScan.touch_mem, hn, if_false, hsame, FutexScan.next_eq hc]

/-- A turn at a waiter on the address; the walk goes on from there unless it was the last one. -/
theorem futexWakeLoop_wake {reuse : ℕ → FutexMem N A T → FutexMem N A T} {fuel : ℕ}
    (hc : s.mem.link.Circular .head ((passed ++ n :: rest).map .node))
    (hn : s.mem.uaddr n = uaddr) :
    futexWakeLoop uaddr val reuse (fuel + 1) (.node n) s =
      if s.count + 1 = val then some (((s.touch n).unlinked n).wakeup n)
      else
        let u := (((s.touch n).unlinked n).wakeup n).reused (reuse 0)
        futexWakeLoop uaddr val (fun t => reuse (t + 1)) fuel (u.mem.link.next (.node n))
          (u.touch n) := by
  have hdel : (s.touch n).listDel n = some ((s.touch n).unlinked n) := FutexScan.listDel_eq hc
  have hcount : (((s.touch n).unlinked n).wakeup n).count = s.count + 1 := rfl
  rw [futexWakeLoop]
  simp only [FutexScan.touch_mem, hn, if_true, hdel, hcount]

/-- **The walk.**  When the frames of woken tasks keep what they hold, or the walk stops at the
first waiter that it wakes, it wakes the oldest waiters until `val` tasks were woken. -/
theorem futexWakeLoop_spec (passed : List N) (s : FutexScan N A T)
    (reuse : ℕ → FutexMem N A T → FutexMem N A T) {fuel : ℕ}
    (hc : s.mem.link.Circular .head ((passed ++ rest).map .node))
    (hval : s.count < val ∨ ∀ n ∈ rest, s.mem.uaddr n ≠ uaddr)
    (hsafe : (∀ t m, reuse t m = m) ∨
      s.gone = [] ∧ (val = s.count + 1 ∨ ∀ n ∈ rest, s.mem.uaddr n ≠ uaddr))
    (hfuel : rest.length < fuel) :
    ∃ r, futexWakeLoop uaddr val reuse fuel ((rest.map .node).headD .head) s = some r ∧
      FutexScanned s passed rest
        ((rest.filter fun n => s.mem.uaddr n = uaddr).take (val - s.count)) r ∧
      (s.gone = [] ∧ (val = s.count + 1 ∨ ∀ n ∈ rest, s.mem.uaddr n ≠ uaddr) →
        r.touched = s.touched) := by
  induction rest generalizing passed s reuse fuel with
  | nil =>
      obtain ⟨fuel, rfl⟩ := Nat.exists_eq_succ_of_ne_zero (Nat.ne_of_gt hfuel)
      refine ⟨s, rfl, ?_, fun _ => rfl⟩
      rw [List.filter_nil, List.take_nil]
      exact .nil hc
  | cons n rest ih =>
      obtain ⟨fuel, rfl⟩ := Nat.exists_eq_succ_of_ne_zero (Nat.ne_of_gt (Nat.zero_lt_of_lt hfuel))
      have hfuel' : rest.length < fuel := Nat.lt_of_succ_lt_succ hfuel
      have hnodup : n ∉ rest := by
        have h := (List.nodup_append.mp (hc.nodup.of_cons.of_map _)).2.1
        exact (List.nodup_cons.mp h).1
      rw [List.map_cons, List.headD_cons]
      by_cases hn : s.mem.uaddr n = uaddr
      · have hlt : s.count < val := hval.resolve_right fun h => h n List.mem_cons_self hn
        have htake : ((n :: rest).filter fun m => s.mem.uaddr m = uaddr).take (val - s.count) =
            n :: (rest.filter fun m => s.mem.uaddr m = uaddr).take (val - (s.count + 1)) := by
          rw [List.filter_cons_of_pos (by simpa using hn)]
          obtain ⟨k, hk⟩ : ∃ k, val - s.count = k + 1 := ⟨val - s.count - 1, by omega⟩
          rw [hk, List.take_succ_cons, show val - (s.count + 1) = k by omega]
        have hc' := FutexScan.circular_listDel hc
        have hwake : ∀ {taken : List N} {r : FutexScan N A T},
            FutexScanned (((s.touch n).unlinked n).wakeup n) passed rest taken r →
            FutexScanned s passed (n :: rest) (n :: taken) r :=
          fun h => (h.wake (s := s.touch n) hnodup).of_touch
        rw [htake, futexWakeLoop_wake hc hn]
        by_cases hlast : s.count + 1 = val
        · -- the loop ends before it asks for the next waiter
          refine ⟨_, if_pos hlast, ?_, ?_⟩
          · rw [hlast, Nat.sub_self, List.take_zero]
            exact hwake (.nil hc')
          · intro h
            show (s.touch n).touched = s.touched
            rw [FutexScan.touch_of_gone_nil h.1]
        · have hmore : ¬ (s.gone = [] ∧
              (val = s.count + 1 ∨ ∀ m ∈ n :: rest, s.mem.uaddr m ≠ uaddr)) := by
            rintro ⟨-, h | h⟩
            · exact hlast h.symm
            · exact h n List.mem_cons_self hn
          have hintact := hsafe.resolve_right hmore
          have hkeep := FutexScan.reused_eq (((s.touch n).unlinked n).wakeup n) (reuse 0)
            (.inl (hintact 0 _))
          obtain ⟨r, hr, hscan, -⟩ := ih passed
            ((((s.touch n).unlinked n).wakeup n).touch n) (fun t => reuse (t + 1))
            hc' (.inl (show s.count + 1 < val by omega)) (.inl fun t => hintact (t + 1)) hfuel'
          refine ⟨r, ?_, hwake hscan.of_touch, fun h => absurd h hmore⟩
          rw [if_neg hlast, hkeep, ← hr, ← FutexScan.next_listDel hc]
          rfl
      · have htake : (n :: rest).filter (fun m => s.mem.uaddr m = uaddr) =
            rest.filter fun m => s.mem.uaddr m = uaddr :=
          List.filter_cons_of_neg (by simpa using hn)
        have hrest : (val = s.count + 1 ∨ ∀ m ∈ n :: rest, s.mem.uaddr m ≠ uaddr) →
            val = s.count + 1 ∨ ∀ m ∈ rest, s.mem.uaddr m ≠ uaddr :=
          Or.imp_right fun h m hm => h m (List.mem_cons_of_mem n hm)
        rw [htake, futexWakeLoop_pass hc hn (hsafe.imp (fun h => h 0 _) And.left)]
        obtain ⟨r, hr, hscan, hquiet⟩ := ih (passed ++ [n]) ((s.touch n).touch n)
          (fun t => reuse (t + 1))
          (by simpa using hc) (hval.imp_right fun h m hm => h m (List.mem_cons_of_mem n hm))
          (hsafe.imp (fun h t => h (t + 1)) fun h => ⟨h.1, hrest h.2⟩) hfuel'
        refine ⟨r, hr, ?_, ?_⟩
        · apply hscan.of_touch.of_touch.stay
          intro hmem
          exact hn (of_decide_eq_true (List.mem_filter.mp (List.mem_of_mem_take hmem)).2)
        · intro h
          rw [hquiet ⟨h.1, hrest h.2⟩, FutexScan.touch_of_gone_nil (s := s) h.1,
            FutexScan.touch_of_gone_nil h.1]

/-! ## Reading the frame of a woken task -/

/-- What was read stays read. -/
theorem futexWakeLoop_touched {reuse : ℕ → FutexMem N A T → FutexMem N A T} {fuel : ℕ}
    {f : FutexPtr N} (hs : s.touched = true) (h : futexWakeLoop uaddr val reuse fuel f s = some r) :
    r.touched = true := by
  induction fuel generalizing reuse f s with
  | zero => simp [futexWakeLoop] at h
  | succ fuel ih =>
      cases f with
      | head =>
          cases h
          exact hs
      | wild => simp [futexWakeLoop] at h
      | node n =>
          have htouch : ∀ t : FutexScan N A T, t.touched = true → (t.touch n).touched = true :=
            fun t ht => Bool.or_eq_true_iff.mpr (.inl ht)
          unfold futexWakeLoop at h
          simp only at h
          split at h
          · cases hdel : (s.touch n).listDel n with
            | none => simp [hdel] at h
            | some s' =>
                have hs' : s'.touched = true := by
                  rw [FutexScan.listDel] at hdel
                  split at hdel
                  · cases hdel
                  · cases hdel
                    exact htouch s hs
                simp only [hdel] at h
                split at h
                · cases h
                  exact hs'
                · exact ih (htouch ((s'.wakeup n).reused (reuse 0)) hs') h
          · exact ih (htouch ((s.touch n).reused (reuse 0)) (htouch s hs)) h

/-- After its first waiter the walk asks that waiter for the next one, unless `val` is one. -/
theorem futexWakeLoop_touches (passed : List N) {reuse : ℕ → FutexMem N A T → FutexMem N A T}
    {fuel : ℕ}
    (hc : s.mem.link.Circular .head ((passed ++ rest).map .node))
    (hon : ∃ n ∈ rest, s.mem.uaddr n = uaddr) (hval : val ≠ s.count + 1) (hgone : s.gone = [])
    (h : futexWakeLoop uaddr val reuse fuel ((rest.map .node).headD .head) s = some r) :
    r.touched = true := by
  induction rest generalizing passed s reuse fuel with
  | nil => simp at hon
  | cons n rest ih =>
      cases fuel with
      | zero => simp [futexWakeLoop] at h
      | succ fuel =>
          rw [List.map_cons, List.headD_cons] at h
          by_cases hn : s.mem.uaddr n = uaddr
          · rw [futexWakeLoop_wake hc hn, if_neg hval.symm] at h
            refine futexWakeLoop_touched ?_ h
            have hmem : n ∈ ((((s.touch n).unlinked n).wakeup n).reused (reuse 0)).gone :=
              List.mem_append_right _ List.mem_cons_self
            rw [FutexScan.touch, decide_eq_true hmem, Bool.or_true]
          · rw [futexWakeLoop_pass hc hn (.inr hgone), FutexScan.touch_of_gone_nil hgone,
              FutexScan.touch_of_gone_nil hgone] at h
            obtain ⟨m, hm, hmon⟩ := hon
            have hm' : m ∈ rest := (List.mem_cons.mp hm).resolve_left fun heq => hn (heq ▸ hmon)
            exact ih (passed ++ [n]) (by simpa using hc) ⟨m, hm', hmon⟩ hval hgone h

/-! ## When the call is right -/

/-- While no woken task runs, the right tasks are woken for every other `val` too. -/
theorem futexWake_intact (q : FutexQueue N A T) (uaddr : A) (hval : 0 < val) :
    ∃ r, q.futexWake (fun _ m => m) (q.waiters.length + 1) uaddr val = some r ∧
      FutexServed q uaddr val r := by
  obtain ⟨r, hr, hscan, -⟩ := futexWakeLoop_spec [] ⟨q.mem, 0, [], [], false⟩ (fun _ m => m)
    q.linked (.inl hval) (.inl fun _ _ => rfl) (Nat.lt_succ_self _)
  exact ⟨r, by rw [FutexQueue.futexWake, q.linked.next_head, hr], hscan.served⟩

/-- **When `futex_wake` is right.**  The calls that wake the oldest waiters on the address, up to
`val` of them, leave the others alone and read no frame of a task that they woke, whatever such
tasks do, are those with `val` one and those for an address that nobody waits on. -/
theorem futex_wake_iff (q : FutexQueue N A T) (uaddr : A) (val : ℕ) :
    (∀ reuse fuel, q.waiters.length < fuel →
        ∃ r, q.futexWake reuse fuel uaddr val = some r ∧ FutexWoken q uaddr val r) ↔
      val = 1 ∨ q.waitersOn uaddr = [] := by
  have hhead := q.linked.next_head
  have hempty : q.waitersOn uaddr = [] ↔ ∀ n ∈ q.waiters, q.mem.uaddr n ≠ uaddr := by
    rw [FutexQueue.waitersOn, List.filter_eq_nil_iff]
    simp
  constructor
  · intro hall
    by_contra hnot
    rw [not_or, hempty] at hnot
    obtain ⟨r, hr, hwoken⟩ := hall (fun _ m => m) (q.waiters.length + 1) (Nat.lt_succ_self _)
    rw [FutexQueue.futexWake, hhead] at hr
    have htouched := futexWakeLoop_touches [] q.linked
      (by simpa using hnot.2) hnot.1 rfl hr
    rw [hwoken.untouched] at htouched
    cases htouched
  · intro hone reuse fuel hfuel
    rw [hempty] at hone
    have hval : 0 < val ∨ ∀ n ∈ q.waiters, q.mem.uaddr n ≠ uaddr := by
      refine hone.imp_left fun h => ?_
      rw [h]
      exact Nat.one_pos
    obtain ⟨r, hr, hscan, hquiet⟩ := futexWakeLoop_spec []
      ⟨q.mem, 0, [], [], false⟩ reuse q.linked hval (.inr ⟨rfl, hone⟩) hfuel
    refine ⟨r, by rw [FutexQueue.futexWake, hhead, hr], ?_⟩
    exact { hscan.served with untouched := hquiet ⟨rfl, hone⟩ }

end

/-! ## A call that wakes too many, and one that gets lost -/

/-- Task 7 waits on address 0. -/
def oneOnZero : FutexQueue ℕ ℕ ℕ :=
  ((FutexQueue.init (fun _ => 0) fun _ => 0).futexWait 10 7 0 5 5 List.not_mem_nil).2

theorem oneOnZero_fresh : 11 ∉ oneOnZero.waiters := by decide

/-- Task 8 waits on it after task 7. -/
def twoOnZero : FutexQueue ℕ ℕ ℕ := (oneOnZero.futexWait 11 8 0 5 5 oneOnZero_fresh).2

/-- A task that was woken calls `futex_wait` again and has set up the `struct futex` in the same
place, with no `link` yet. -/
def waitAgain (m : FutexMem ℕ ℕ ℕ) : FutexMem ℕ ℕ ℕ :=
  { m with link := { next := fun _ => .wild, prev := fun _ => .wild } }

/-- A call with `val` zero wakes both tasks; a call with `val` two that is overtaken by the first
task it wakes follows a pointer to nowhere. -/
theorem futex_wake_overtaken :
    ¬ (∀ uaddr val reuse fuel, twoOnZero.waiters.length < fuel →
        ∃ r, twoOnZero.futexWake reuse fuel uaddr val = some r ∧ FutexWoken twoOnZero uaddr val r) ∧
      (twoOnZero.futexWake (fun _ m => m) 3 0 0).map (fun r => (r.count, r.woken)) =
        some (2, [7, 8]) ∧
      twoOnZero.futexWake (fun _ => waitAgain) 3 0 2 = none := by
  have hlost : twoOnZero.futexWake (fun _ => waitAgain) 3 0 2 = none := by rfl
  refine ⟨?_, by decide, hlost⟩
  intro hall
  obtain ⟨r, hr, -⟩ := hall 0 2 (fun _ => waitAgain) 3 (by decide)
  rw [hlost] at hr
  cases hr

end Skyloft
