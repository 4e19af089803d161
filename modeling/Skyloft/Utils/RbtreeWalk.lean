import Skyloft.Utils.RbtreeRep

/-!
# Walking along the order

`rb_first`, `rb_last`, `rb_next` and `rb_prev` on a tree in memory: the ends of the list of its
nodes, and the neighbours of a node there.
-/

namespace Skyloft

open RedBlack (Side Color RbTree Crumb Path plug)
open RbMem RbTree

variable {V : Type} {m : RbMem V} {A : List NodePtr → V → Prop}

/-- `while (n->child) n = n->child` -/
theorem rbDeepest_rep {d : Side} {c : Color} {l r : RbTree NodePtr} {x : NodePtr}
    {par : Option NodePtr} {fuel : ℕ} (h : Rep m A par (.node c l x r))
    (hfuel : (RbTree.node c l x r).height ≤ fuel) :
    rbDeepest d m fuel x.word = some (ptr (d.last (RbTree.node c l x r).inorder)) := by
  induction fuel generalizing c l r x par with
  | zero => simp [RbTree.height] at hfuel
  | succ fuel ih =>
      rw [← RbTree.mk_pick d] at h
      obtain ⟨-, hd, -, -, hrep, -⟩ := rep_mk.mp h
      have hlast : d.last (RbTree.node c l x r).inorder = some ((d.last (d.pick l r).inorder).getD x) := by
        rw [← Side.last_glue d _ (d.other.pick l r).inorder]
        cases d <;> rfl
      rw [rbDeepest, hd, hlast]
      cases hkid : d.pick l r with
      | nil =>
          have hnil : d.last ([] : List NodePtr) = none := by cases d <;> rfl
          simp [hnil]
      | node c' l' y r' =>
          rw [hkid] at hrep
          have hheight : (RbTree.node c' l' y r').height ≤ fuel := by
            have hle : (d.pick l r).height ≤ max l.height r.height := by cases d <;> simp [Side.pick]
            rw [hkid] at hle
            rw [RbTree.height] at hfuel
            omega
          rw [root_node, ptr_some, if_neg y.ne_zero, ih hrep hheight]
          cases hl : d.last (RbTree.node c' l' y r').inorder with
          | none => cases d <;> simp [Side.last, Side.pick] at hl
          | some z => rfl

/-- The ends of the order. -/
theorem rbEnd_rep {d : Side} {t : RbTree NodePtr} {fuel : ℕ} (h : Rep m A none t)
    (hroot : m.rbNode = ptr (root t)) (hfuel : t.height ≤ fuel) :
    rbEnd d fuel m = some (ptr (d.last t.inorder)) := by
  rw [rbEnd, hroot]
  cases t with
  | nil => cases d <;> rfl
  | node c l x r =>
      rw [if_neg (by simp [x.ne_zero])]
      exact rbDeepest_rep h hfuel

/-- The loop that climbs. -/
theorem rbClimb_rep {d : Side} {fuel : ℕ} : ∀ {p : Path NodePtr} {x : NodePtr} {mid : List NodePtr},
    p.length < fuel → m.rbParent x.word = ptr (top p) → RepPath m A (some x) mid p →
    x ∉ items p → (items p).Nodup →
    rbClimb d m fuel x.word = some (ptr (RedBlack.beside d p)) := by
  induction fuel with
  | zero => intro p x mid hfuel; omega
  | succ fuel ih =>
      intro p x mid hfuel hx hp hxp hnd
      rw [rbClimb, hx]
      match p with
      | [] => exact if_neg fun h => h.1 rfl
      | f :: p =>
          obtain ⟨hpc, hs, ho, -, -, hp⟩ := hp
          simp only [items, List.cons_append, List.nodup_cons, List.nodup_append, List.mem_append,
            List.mem_cons, not_or] at hxp hnd
          rw [top_cons, ptr_some, RedBlack.beside]
          by_cases hd : f.side = d
          · rw [if_pos hd]
            refine (if_pos ⟨f.item.ne_zero, by rw [← hd, hs, ptr_some]⟩).trans (ih
              (Nat.lt_of_succ_lt_succ hfuel) ?_ hp hnd.1.2 hnd.2.2.1)
            rw [rbParent, hpc, rbParentOf_pcWord]
          · have hd' := Side.eq_other_of_ne hd
            rw [hd', Side.other_other] at ho
            rw [if_neg hd]
            refine if_neg fun h => ?_
            have hroot := mem_of_root (ptr_inj.mp (h.2.trans ho).symm)
            exact hxp.2.1 hroot

/-- The neighbour of a node on the side `d`. -/
theorem rbBeside_rep {d : Side} {c : Color} {l r : RbTree NodePtr} {x : NodePtr} {p : Path NodePtr}
    {fuel : ℕ} (h : Rep m A (top p) (.node c l x r))
    (hp : RepPath m A (some x) (RbTree.node c l x r).inorder p)
    (hnd : ((RbTree.node c l x r).inorder ++ items p).Nodup) (hr : (d.pick l r).height ≤ fuel)
    (hlen : p.length < fuel) :
    rbBeside d fuel m x.word = some (ptr (if d.pick l r = .nil then RedBlack.beside d p
      else d.other.last (d.pick l r).inorder)) := by
  have hparent : m.rbParent x.word = ptr (top p) := h.rbParent rfl
  simp only [RbTree.inorder_node, List.nodup_append, List.mem_append, List.mem_cons] at hnd
  have hxp : x ∉ items p := fun hx => hnd.2.2 x (by simp) x hx rfl
  -- no node is its own parent
  have hempty : m.parentColor x.word ≠ x.word := by
    intro heq
    have hself : m.rbParent x.word = x.word := by
      rw [rbParent, heq, rbParentOf]
      exact BitVec.eq_of_toNat_eq (by
        have hmod := ptr_toNat_mod (some x)
        rw [show 3#64 = Mask.low 64 2 from rfl, Mask.toNat_and_not_low]
        rw [ptr_some] at hmod
        omega)
    have htop := ptr_inj.mp ((hparent.symm.trans hself).trans (ptr_some x).symm)
    exact hxp (top_subset p (by simp [htop]))
  rw [← RbTree.mk_pick d] at h
  obtain ⟨-, hd, -, -, hrep, -⟩ := rep_mk.mp h
  rw [rbBeside, if_neg hempty, hd]
  cases hkid : d.pick l r with
  | nil =>
      rw [if_neg (by simp), if_pos rfl]
      exact rbClimb_rep hlen hparent hp hxp hnd.2.1
  | node c' l' y r' =>
      rw [hkid] at hrep hr
      rw [if_pos (by simp [y.ne_zero]), if_neg (by simp)]
      exact rbDeepest_rep hrep hr

section

variable {c : Color} {l r : RbTree NodePtr} {x : NodePtr} {p : Path NodePtr} {fuel : ℕ}

/-- `rb_next` -/
theorem rbNext_rep (h : Rep m A (top p) (.node c l x r))
    (hp : RepPath m A (some x) (RbTree.node c l x r).inorder p)
    (hnd : ((RbTree.node c l x r).inorder ++ items p).Nodup) (hr : r.height ≤ fuel)
    (hlen : p.length < fuel) :
    rbNext fuel m x.word = some (ptr (r.inorder ++ RedBlack.after p).head?) := by
  refine (rbBeside_rep (d := .right) h hp hnd hr hlen).trans ?_
  rw [RedBlack.beside_right]
  cases r with
  | nil => rfl
  | node cr a y b =>
      rw [if_neg (by simp [Side.pick]), List.head?_append]
      cases hh : (RbTree.node cr a y b).inorder.head? with
      | none => simp at hh
      | some z =>
          have hz : Side.right.other.last (RbTree.node cr a y b).inorder = some z := hh
          simp only [Side.pick, hz]
          rfl

/-- `rb_prev` -/
theorem rbPrev_rep (h : Rep m A (top p) (.node c l x r))
    (hp : RepPath m A (some x) (RbTree.node c l x r).inorder p)
    (hnd : ((RbTree.node c l x r).inorder ++ items p).Nodup) (hl : l.height ≤ fuel)
    (hlen : p.length < fuel) :
    rbPrev fuel m x.word = some (ptr (RedBlack.before p ++ l.inorder).getLast?) := by
  refine (rbBeside_rep (d := .left) h hp hnd hl hlen).trans ?_
  rw [RedBlack.beside_left]
  cases l with
  | nil => simp [Side.pick]
  | node cl a y b =>
      rw [if_neg (by simp [Side.pick]), List.getLast?_append]
      cases hh : (RbTree.node cl a y b).inorder.getLast? with
      | none => simp at hh
      | some z =>
          have hz : Side.left.other.last (RbTree.node cl a y b).inorder = some z := hh
          simp only [Side.pick, hz]
          rfl

end

end Skyloft
