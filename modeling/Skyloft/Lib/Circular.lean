import Mathlib.Data.List.Nodup
import Mathlib.Logic.Function.Basic

/-!
# Circular lists in memory

A list whose nodes carry pointers both ways, closed to a circle by a head that is not one of them.
The pointers are functions on addresses; what they say of other addresses does not matter.

## Main definitions

* `Links.Path` — the nodes on the way from one address to another.
* `Links.Circular` — the nodes on the way around.
* `Links.addTail`, `Links.del` — linking a node in before the head, and unlinking one.
* `Links.Circular.addTail`, `Links.Circular.del` — what these do to the list.
-/

/-- The pointers of the nodes. -/
@[ext]
structure Links (P : Type*) where
  next : P → P
  prev : P → P

namespace Links

variable {P : Type*}

/-- From `a` the pointers lead through the nodes `xs` to `b`, and back. -/
def Path (l : Links P) : P → List P → P → Prop
  | a, [], b => l.next a = b ∧ l.prev b = a
  | a, x :: xs, b => l.next a = x ∧ l.prev x = a ∧ l.Path x xs b

/-- The nodes `xs` are on the way around from the head. -/
structure Circular (l : Links P) (h : P) (xs : List P) : Prop where
  path : l.Path h xs h
  nodup : (h :: xs).Nodup

/-- The list without nodes. -/
def init (h : P) : Links P where
  next _ := h
  prev _ := h

section

variable [DecidableEq P]

/-- `n->next = p` -/
def setNext (l : Links P) (n p : P) : Links P := { l with next := Function.update l.next n p }

/-- `n->prev = p` -/
def setPrev (l : Links P) (n p : P) : Links P := { l with prev := Function.update l.prev n p }

/-- Link a node in at the end. -/
def addTail (l : Links P) (h n : P) : Links P :=
  let l := l.setNext n h
  let l := l.setPrev n (l.prev h)
  let l := l.setNext (l.prev h) n
  l.setPrev h n

/-- Unlink a node, which keeps its own pointers. -/
def del (l : Links P) (n : P) : Links P :=
  let l := l.setPrev (l.next n) (l.prev n)
  l.setNext (l.prev n) (l.next n)

end

/-! ## Paths -/

variable {l l' : Links P} {a b c h n x : P} {xs ys : List P}

theorem Path.congr (hp : l.Path a xs b) (hnext : ∀ x ∈ a :: xs, l'.next x = l.next x)
    (hprev : ∀ x ∈ xs ++ [b], l'.prev x = l.prev x) : l'.Path a xs b := by
  induction xs generalizing a with
  | nil => exact ⟨(hnext a (by simp)).trans hp.1, (hprev b (by simp)).trans hp.2⟩
  | cons x xs ih =>
      refine ⟨(hnext a (by simp)).trans hp.1, (hprev x (by simp)).trans hp.2.1, ?_⟩
      apply ih hp.2.2
      · exact fun y hy => hnext y (List.mem_cons_of_mem a hy)
      · exact fun y hy => hprev y (List.mem_cons_of_mem x hy)

theorem path_append : l.Path a (xs ++ n :: ys) b ↔ l.Path a xs n ∧ l.Path n ys b := by
  induction xs generalizing a with
  | nil => exact and_assoc.symm
  | cons x xs ih =>
      rw [List.cons_append, Path, Path, ih, and_assoc, and_assoc]

/-- The first node, or the end. -/
theorem Path.next_eq (hp : l.Path a xs b) : l.next a = xs.headD b := by
  cases xs with
  | nil => exact hp.1
  | cons x xs => exact hp.1

/-- The last node, or the start. -/
theorem Path.prev_eq (hp : l.Path a xs b) : l.prev b = xs.getLastD a := by
  induction xs generalizing a with
  | nil => exact hp.2
  | cons x xs ih =>
      rw [ih hp.2.2]
      cases xs <;> rfl

theorem circular_init (h : P) : (init h).Circular h [] := ⟨⟨rfl, rfl⟩, by simp⟩

/-- The node after one of the list. -/
theorem Circular.next_eq (hc : l.Circular h (xs ++ n :: ys)) : l.next n = ys.headD h :=
  (path_append.mp hc.path).2.next_eq

/-- The node before one of the list. -/
theorem Circular.prev_eq (hc : l.Circular h (xs ++ n :: ys)) : l.prev n = xs.getLastD h :=
  (path_append.mp hc.path).1.prev_eq

theorem Circular.next_ne (hc : l.Circular h (xs ++ n :: ys)) : l.next n ≠ n := by
  have hnodup : ((h :: xs) ++ n :: ys).Nodup := hc.nodup
  rw [hc.next_eq]
  cases ys with
  | nil =>
      rintro rfl
      exact (List.nodup_cons.mp hc.nodup).1 (by simp)
  | cons y ys =>
      rintro rfl
      exact (List.nodup_cons.mp (List.nodup_append.mp hnodup).2.1).1 List.mem_cons_self

theorem Circular.prev_ne (hc : l.Circular h (xs ++ n :: ys)) : l.prev n ≠ n := by
  have hnodup : ((h :: xs) ++ n :: ys).Nodup := hc.nodup
  intro heq
  have hmem : n ∈ h :: xs := heq ▸ hc.prev_eq ▸ List.getLastD_mem_cons ..
  exact (List.nodup_append.mp hnodup).2.2 n hmem n List.mem_cons_self rfl

theorem Circular.next_head (hc : l.Circular h xs) : l.next h = xs.headD h := hc.path.next_eq

/-! ## Linking and unlinking -/

variable [DecidableEq P]

theorem Circular.addTail (hc : l.Circular h xs) (hn : n ∉ h :: xs) :
    (l.addTail h n).Circular h (xs ++ [n]) := by
  have hnh : n ≠ h := fun heq => hn (heq ▸ List.mem_cons_self)
  have hlast : Function.update l.prev n (l.prev h) h = l.prev h := Function.update_of_ne hnh.symm ..
  have hnext : (l.addTail h n).next = Function.update (Function.update l.next n h) (l.prev h) n := by
    rw [← hlast]
    rfl
  have hprev : (l.addTail h n).prev = Function.update (Function.update l.prev n (l.prev h)) h n := rfl
  -- the way to the old end now leads to the new node
  have hway : ∀ {a : P} {ys : List P}, l.Path a ys h → (a :: ys).Nodup → n ∉ a :: ys → h ∉ ys →
      (l.addTail h n).Path a ys n := by
    intro a ys
    induction ys generalizing a with
    | nil =>
        intro hp _ _ _
        refine ⟨?_, ?_⟩
        · rw [hnext, hp.2, Function.update_self]
        · rw [hprev, Function.update_of_ne hnh, Function.update_self, hp.2]
    | cons y ys ih =>
        intro hp hnodup hna hh
        have hback : l.prev h ∈ y :: ys := hp.2.2.prev_eq ▸ List.getLastD_mem_cons ..
        refine ⟨?_, ?_, ih hp.2.2 hnodup.of_cons (fun h => hna (List.mem_cons_of_mem a h))
          fun hmem => hh (List.mem_cons_of_mem y hmem)⟩
        · have hne : a ≠ l.prev h := fun heq => (List.nodup_cons.mp hnodup).1 (heq ▸ hback)
          have hne' : a ≠ n := fun heq => hna (heq ▸ List.mem_cons_self)
          rw [hnext, Function.update_of_ne hne, Function.update_of_ne hne', hp.1]
        · have hne : y ≠ h := fun heq => hh (heq ▸ List.mem_cons_self)
          have hne' : y ≠ n := fun heq => hna (heq ▸ by simp)
          rw [hprev, Function.update_of_ne hne, Function.update_of_ne hne', hp.2.1]
  have hhead : h ∉ xs := (List.nodup_cons.mp hc.nodup).1
  refine ⟨path_append.mpr ⟨hway hc.path hc.nodup hn hhead, ?_, ?_⟩, ?_⟩
  · have hne : n ≠ l.prev h := by
      rw [hc.path.prev_eq]
      intro heq
      exact hn (heq ▸ List.getLastD_mem_cons ..)
    rw [hnext, Function.update_of_ne hne, Function.update_self]
  · rw [hprev, Function.update_self]
  · rw [← List.cons_append]
    exact List.Nodup.append hc.nodup (List.nodup_singleton n) (by simpa using hn)

theorem next_del (hself : l.next n ≠ n) :
    (l.del n).next = Function.update l.next (l.prev n) (l.next n) := by
  have hkeep : Function.update l.prev (l.next n) (l.prev n) n = l.prev n :=
    Function.update_of_ne hself.symm ..
  conv_rhs => rw [← hkeep]
  rfl

/-- The way that led over a node leads past it. -/
theorem Path.del (hp : l.Path a xs n) (hq : l.Path n ys b) (hnodup : (a :: xs ++ n :: ys).Nodup)
    (hbn : b ∉ xs ++ n :: ys) : (l.del n).Path a (xs ++ ys) b := by
  have hfirst : l.next n = ys.headD b := hq.next_eq
  have hself : l.next n ≠ n := by
    rw [hfirst]
    cases ys with
    | nil => exact fun heq => hbn (by simp [show b = n from heq])
    | cons y ys =>
        intro heq
        have hn := (List.nodup_append.mp hnodup).2.1
        exact (List.nodup_cons.mp hn).1 (by simp [show y = n from heq])
  have hnext := next_del hself
  have hprev : (l.del n).prev = Function.update l.prev (l.next n) (l.prev n) := rfl
  induction xs generalizing a with
  | nil =>
      have hlast : l.prev n = a := hp.2
      cases ys with
      | nil =>
          refine ⟨?_, ?_⟩
          · rw [hnext, hlast, Function.update_self, hq.1]
          · rw [hprev, hfirst, List.headD_nil, Function.update_self, hlast]
      | cons y ys =>
          refine ⟨?_, ?_, hq.2.2.congr ?_ ?_⟩
          · rw [hnext, hlast, Function.update_self, hfirst, List.headD_cons]
          · rw [hprev, hfirst, List.headD_cons, Function.update_self, hlast]
          · intro x hx
            have hxa : x ≠ a := by
              rintro rfl
              exact (List.nodup_cons.mp hnodup).1 (List.mem_cons_of_mem n hx)
            rw [hnext, hlast, Function.update_of_ne hxa]
          · intro x hx
            have hxy : x ≠ y := by
              rintro rfl
              rcases List.mem_append.mp hx with hx | hx
              · exact (List.nodup_cons.mp (List.nodup_cons.mp (List.nodup_cons.mp hnodup).2).2).1 hx
              · exact hbn (by simp [List.mem_singleton.mp hx])
            rw [hprev, hfirst, List.headD_cons, Function.update_of_ne hxy]
  | cons x xs ih =>
      have hback : l.prev n ∈ x :: xs := hp.2.2.prev_eq ▸ List.getLastD_mem_cons ..
      have hfront : l.next n ∈ ys ++ [b] := by
        rw [hfirst]
        cases ys <;> simp
      refine ⟨?_, ?_, ih hp.2.2 hnodup.of_cons fun hmem => hbn (List.mem_cons_of_mem x hmem)⟩
      · have hne : a ≠ l.prev n := by
          intro heq
          exact (List.nodup_cons.mp hnodup).1 (List.mem_append_left _ (heq ▸ hback))
        rw [hnext, Function.update_of_ne hne, hp.1]
      · have hne : x ≠ l.next n := by
          intro heq
          rcases List.mem_append.mp (heq ▸ hfront) with hx | hx
          · have hx' : x ∈ xs ++ n :: ys := List.mem_append_right _ (List.mem_cons_of_mem n hx)
            exact (List.nodup_cons.mp (List.nodup_cons.mp hnodup).2).1 hx'
          · exact hbn (by simp [List.mem_singleton.mp hx])
        rw [hprev, Function.update_of_ne hne, hp.2.1]

theorem Circular.del (hc : l.Circular h (xs ++ n :: ys)) : (l.del n).Circular h (xs ++ ys) := by
  obtain ⟨hp, hq⟩ := path_append.mp hc.path
  have hnodup := hc.nodup
  refine ⟨hp.del hq hnodup (List.nodup_cons.mp hnodup).1, ?_⟩
  exact hnodup.sublist (((List.sublist_cons_self n ys).append_left xs).cons_cons h)

/-- The pointer of a node that was unlinked still leads to what came after it. -/
theorem Circular.next_self_del (hc : l.Circular h (xs ++ n :: ys)) :
    (l.del n).next n = ys.headD h := by
  rw [next_del hc.next_ne, Function.update_of_ne hc.prev_ne.symm, hc.next_eq]

end Links
