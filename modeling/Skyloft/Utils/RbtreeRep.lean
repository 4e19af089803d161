import Mathlib.Tactic.Tauto
import Skyloft.Lib.Mask
import Skyloft.Utils.Rbtree

/-!
# Trees that are represented in memory

The memory holds a tree when the pointers of its nodes lead along it, both ways, their low bits are
the colours, and the augmented fields are what they should be.  A place in a tree is represented by
the nodes above it, with a pointer to what is in the place.  A write changes one node, so most of a
tree is the same afterwards; the rules here say which part is left to look at.

* `NodePtr`, `ptr` — addresses of nodes.
* `Rep`, `RepPath` — a tree with its parent, a place.
* `Only` — which nodes may differ.
* `rep_plug_iff` — a tree is a subtree in its place.
-/

namespace Skyloft

open RedBlack (Side Color RbTree Crumb Path plug)
open RbMem

/-! ## Addresses -/

/-- The address of a node, `aligned(sizeof(long))`, with the two low bits free. -/
structure NodePtr where
  word : BitVec 64
  low : word &&& 3#64 = 0#64
  ne_zero : word ≠ 0#64

namespace NodePtr

@[ext] theorem ext {a b : NodePtr} (h : a.word = b.word) : a = b := by
  cases a
  cases b
  simpa using h

instance : DecidableEq NodePtr := fun a b => decidable_of_iff (a.word = b.word) ⟨ext, fun h => h ▸ rfl⟩

@[simp] theorem word_inj {a b : NodePtr} : a.word = b.word ↔ a = b := ⟨ext, fun h => h ▸ rfl⟩

end NodePtr

/-- A pointer to a node, or a null pointer. -/
def ptr : Option NodePtr → BitVec 64
  | none => 0#64
  | some a => a.word

@[simp] theorem ptr_none : ptr none = 0#64 := rfl

@[simp] theorem ptr_some (a : NodePtr) : ptr (some a) = a.word := rfl

@[simp] theorem ptr_eq_zero {p : Option NodePtr} : ptr p = 0#64 ↔ p = none := by
  cases p with
  | none => simp
  | some a => simp [a.ne_zero]

@[simp] theorem ptr_inj {p q : Option NodePtr} : ptr p = ptr q ↔ p = q := by
  cases p with
  | none => rw [ptr_none, eq_comm, ptr_eq_zero, eq_comm]
  | some a =>
      cases q with
      | none => simp [a.ne_zero]
      | some b => simp

theorem ptr_low (p : Option NodePtr) : ptr p &&& 3#64 = 0#64 := by
  cases p with
  | none => rfl
  | some a => exact a.low

/-- The bit of a colour. -/
def colorWord : Color → BitVec 64
  | .red => rbRed
  | .black => rbBlack

/-- `__rb_parent_color` -/
def pcWord (p : Option NodePtr) (c : Color) : BitVec 64 := ptr p + colorWord c

theorem ptr_toNat_mod (p : Option NodePtr) : (ptr p).toNat % 4 = 0 := by
  have h := congrArg BitVec.toNat (ptr_low p)
  rw [BitVec.toNat_and, show (3#64).toNat = 2 ^ 2 - 1 from rfl,
    Nat.and_two_pow_sub_one_eq_mod] at h
  exact h

theorem colorWord_toNat_lt (c : Color) : (colorWord c).toNat < 2 := by
  cases c <;> decide

theorem pcWord_toNat (p : Option NodePtr) (c : Color) :
    (pcWord p c).toNat = (ptr p).toNat + (colorWord c).toNat := by
  have hmod := ptr_toNat_mod p
  have hc := colorWord_toNat_lt c
  have hlt := (ptr p).isLt
  rw [pcWord, BitVec.toNat_add, Nat.mod_eq_of_lt]
  omega

@[simp] theorem rbColorOf_pcWord (p : Option NodePtr) (c : Color) :
    rbColorOf (pcWord p c) = colorWord c := by
  apply BitVec.eq_of_toNat_eq
  have hmod := ptr_toNat_mod p
  have hc := colorWord_toNat_lt c
  rw [rbColorOf, BitVec.toNat_and, show (1#64).toNat = 2 ^ 1 - 1 from rfl,
    Nat.and_two_pow_sub_one_eq_mod, pcWord_toNat]
  omega

@[simp] theorem rbParentOf_pcWord (p : Option NodePtr) (c : Color) :
    rbParentOf (pcWord p c) = ptr p := by
  apply BitVec.eq_of_toNat_eq
  have hmod := ptr_toNat_mod p
  have hc := colorWord_toNat_lt c
  rw [rbParentOf, show 3#64 = Mask.low 64 2 from rfl, Mask.toNat_and_not_low, pcWord_toNat]
  omega

/-- The word of a red node is its parent's address. -/
@[simp] theorem pcWord_red (p : Option NodePtr) : pcWord p .red = ptr p := BitVec.add_zero _

/-! ## Writes -/

variable {V : Type} {m m' m'' : RbMem V}

namespace RbMem

@[simp] theorem parentColor_setPc (a w : BitVec 64) : (m.setPc a w).parentColor a = w :=
  Function.update_self ..

@[simp] theorem parentColor_setPc_ne {a b : NodePtr} (h : b ≠ a) (w : BitVec 64) :
    (m.setPc a.word w).parentColor b.word = m.parentColor b.word :=
  Function.update_of_ne (mt NodePtr.ext h) ..

theorem rbSetParentColor_ne {a b : NodePtr} (h : b ≠ a) (p c : BitVec 64) :
    (m.rbSetParentColor a.word p c).parentColor b.word = m.parentColor b.word :=
  parentColor_setPc_ne h _

@[simp] theorem child_setPc (d : Side) (a b w : BitVec 64) :
    (m.setPc a w).child d b = m.child d b := rfl

/-- A pointer and a colour are written in either order. -/
theorem setPc_setChild (d : Side) (a b v w : BitVec 64) :
    (m.setChild d a v).setPc b w = (m.setPc b w).setChild d a v := by
  cases d <;> rfl

/-- The pointers to a child are no part of the words with the parents. -/
theorem rbChangeChild_setPc (a w old new parent : BitVec 64) :
    (m.setPc a w).rbChangeChild old new parent = (m.rbChangeChild old new parent).setPc a w := by
  unfold rbChangeChild
  rw [show (m.setPc a w).left = m.left from rfl]
  split_ifs <;> rfl

@[simp] theorem aug_setPc (a b w : BitVec 64) : (m.setPc a w).aug b = m.aug b := rfl

@[simp] theorem rbNode_setPc (a w : BitVec 64) : (m.setPc a w).rbNode = m.rbNode := rfl

@[simp] theorem parentColor_setChild (d : Side) (a b v : BitVec 64) :
    (m.setChild d a v).parentColor b = m.parentColor b := by cases d <;> rfl

@[simp] theorem aug_setChild (d : Side) (a b v : BitVec 64) :
    (m.setChild d a v).aug b = m.aug b := by cases d <;> rfl

@[simp] theorem rbNode_setChild (d : Side) (a v : BitVec 64) :
    (m.setChild d a v).rbNode = m.rbNode := by cases d <;> rfl

@[simp] theorem child_setChild (d : Side) (a v : BitVec 64) : (m.setChild d a v).child d a = v := by
  cases d <;> exact Function.update_self ..

@[simp] theorem child_setChild_other (d : Side) (a b v : BitVec 64) :
    (m.setChild d a v).child d.other b = m.child d.other b := by cases d <;> rfl

@[simp] theorem child_other_setChild (d : Side) (a b v : BitVec 64) :
    (m.setChild d.other a v).child d b = m.child d b := by cases d <;> rfl

@[simp] theorem child_setChild_ne {a b : NodePtr} (h : b ≠ a) (d e : Side) (v : BitVec 64) :
    (m.setChild d a.word v).child e b.word = m.child e b.word := by
  cases d <;> cases e <;> first | rfl | exact Function.update_of_ne (mt NodePtr.ext h) ..

@[simp] theorem parentColor_setAug (a b : BitVec 64) (v : V) :
    (m.setAug a v).parentColor b = m.parentColor b := rfl

@[simp] theorem child_setAug (d : Side) (a b : BitVec 64) (v : V) :
    (m.setAug a v).child d b = m.child d b := rfl

@[simp] theorem rbNode_setAug (a : BitVec 64) (v : V) : (m.setAug a v).rbNode = m.rbNode := rfl

@[simp] theorem aug_setAug (a : BitVec 64) (v : V) : (m.setAug a v).aug a = v :=
  Function.update_self ..

@[simp] theorem aug_setAug_ne {a b : NodePtr} (h : b ≠ a) (v : V) :
    (m.setAug a.word v).aug b.word = m.aug b.word :=
  Function.update_of_ne (mt NodePtr.ext h) ..

@[simp] theorem parentColor_setRoot (a b : BitVec 64) :
    (m.setRoot a).parentColor b = m.parentColor b := rfl

@[simp] theorem child_setRoot (d : Side) (a b : BitVec 64) :
    (m.setRoot a).child d b = m.child d b := rfl

@[simp] theorem aug_setRoot (a b : BitVec 64) : (m.setRoot a).aug b = m.aug b := rfl

@[simp] theorem rbNode_setRoot (a : BitVec 64) : (m.setRoot a).rbNode = a := rfl

theorem child_left (a : BitVec 64) : m.child .left a = m.left a := rfl

theorem child_right (a : BitVec 64) : m.child .right a = m.right a := rfl

end RbMem

/-- The fields of the node are the same. -/
structure SameAt (m m' : RbMem V) (x : NodePtr) : Prop where
  parentColor : m'.parentColor x.word = m.parentColor x.word
  child : ∀ d, m'.child d x.word = m.child d x.word
  aug : m'.aug x.word = m.aug x.word

/-- No other node than these differs. -/
structure Only (w : List NodePtr) (m m' : RbMem V) : Prop where
  same : ∀ x, x ∉ w → SameAt m m' x
  leftmost : m'.rbLeftmost = m.rbLeftmost

section Only

variable {w w' : List NodePtr} {a x : NodePtr}

theorem Only.refl (m : RbMem V) : Only w m m := ⟨fun _ _ => ⟨rfl, fun _ => rfl, rfl⟩, rfl⟩

theorem Only.trans (h : Only w m m') (h' : Only w m' m'') : Only w m m'' where
  same x hx :=
    let s := h.same x hx
    let s' := h'.same x hx
    ⟨s'.parentColor.trans s.parentColor, fun d => (s'.child d).trans (s.child d), s'.aug.trans s.aug⟩
  leftmost := h'.leftmost.trans h.leftmost

theorem Only.mono (h : Only w m m') (hw : w ⊆ w') : Only w' m m' :=
  ⟨fun x hx => h.same x fun hxw => hx (hw hxw), h.leftmost⟩

theorem only_setPc (ha : a ∈ w) (v : BitVec 64) : Only w m (m.setPc a.word v) where
  same x hx :=
    have hne : x ≠ a := fun h => hx (h ▸ ha)
    ⟨parentColor_setPc_ne hne v, fun _ => rfl, rfl⟩
  leftmost := rfl

theorem only_setChild (ha : a ∈ w) (d : Side) (v : BitVec 64) :
    Only w m (m.setChild d a.word v) where
  same x hx :=
    have hne : x ≠ a := fun h => hx (h ▸ ha)
    ⟨parentColor_setChild .., fun e => child_setChild_ne hne d e v, aug_setChild ..⟩
  leftmost := by cases d <;> rfl

theorem only_setAug (ha : a ∈ w) (v : V) : Only w m (m.setAug a.word v) where
  same x hx :=
    have hne : x ≠ a := fun h => hx (h ▸ ha)
    ⟨rfl, fun _ => rfl, aug_setAug_ne hne v⟩
  leftmost := rfl

theorem only_setRoot (v : BitVec 64) : Only w m (m.setRoot v) :=
  ⟨fun _ _ => ⟨rfl, fun _ => rfl, rfl⟩, rfl⟩

end Only

/-! ## Trees -/

namespace RbTree

/-- The root of a tree. -/
def root : RbTree NodePtr → Option NodePtr
  | .nil => none
  | .node _ _ x _ => some x

/-- The parent of what is in a place. -/
def top : Path NodePtr → Option NodePtr
  | [] => none
  | f :: _ => some f.item

/-- The nodes above a place, and those off the way to it. -/
def items : Path NodePtr → List NodePtr
  | [] => []
  | f :: p => f.item :: f.sibling.inorder ++ items p

@[simp] theorem root_mk (d : Side) (c : Color) (a b : RbTree NodePtr) (x : NodePtr) :
    root (.mk d c a x b) = some x := rfl

@[simp] theorem root_node (c : Color) (a b : RbTree NodePtr) (x : NodePtr) :
    root (.node c a x b) = some x := rfl

@[simp] theorem root_nil : root .nil = none := rfl

@[simp] theorem root_paint (c : Color) (t : RbTree NodePtr) : root (t.paint c) = root t := by
  cases t <;> rfl

@[simp] theorem top_cons (f : Crumb NodePtr) (p : Path NodePtr) : top (f :: p) = some f.item := rfl

theorem root_eq_none {t : RbTree NodePtr} : root t = none ↔ t = .nil := by cases t <;> simp

theorem mem_of_root {t : RbTree NodePtr} {x : NodePtr} (h : root t = some x) : x ∈ t.inorder := by
  cases t with
  | nil => cases h
  | node c l y r =>
      cases h
      simp

theorem root_subset (t : RbTree NodePtr) : (root t).toList ⊆ t.inorder := by
  intro x hx
  exact mem_of_root (Option.mem_toList.mp hx)

theorem top_subset (p : Path NodePtr) : (top p).toList ⊆ items p := by
  cases p with
  | nil => simp [top]
  | cons f p => simp [items]

theorem map_item_subset (p : Path NodePtr) : p.map Crumb.item ⊆ items p := by
  induction p with
  | nil => simp
  | cons f p ih =>
      intro x hx
      rcases List.mem_cons.mp hx with rfl | hx
      · simp [items]
      · simp [items, ih hx]

end RbTree

open RbTree

/-- Below the parent `p` the memory holds the tree, and the field of each node meets `A` for the
nodes of its subtree. -/
def Rep (m : RbMem V) (A : List NodePtr → V → Prop) : Option NodePtr → RbTree NodePtr → Prop
  | _, .nil => True
  | p, .node c l x r =>
      m.parentColor x.word = pcWord p c ∧
      m.child .left x.word = ptr (root l) ∧ m.child .right x.word = ptr (root r) ∧
      A (l.inorder ++ x :: r.inorder) (m.aug x.word) ∧
      Rep m A (some x) l ∧ Rep m A (some x) r

/-- The memory holds the nodes of the path, with `hole` in the place and the nodes `mid` there. -/
def RepPath (m : RbMem V) (A : List NodePtr → V → Prop) :
    Option NodePtr → List NodePtr → Path NodePtr → Prop
  | hole, _, [] => m.rbNode = ptr hole
  | hole, mid, f :: p =>
      m.parentColor f.item.word = pcWord (top p) f.color ∧
      m.child f.side f.item.word = ptr hole ∧
      m.child f.side.other f.item.word = ptr (root f.sibling) ∧
      A (f.side.glue mid f.item f.sibling.inorder) (m.aug f.item.word) ∧
      Rep m A (some f.item) f.sibling ∧
      RepPath m A (some f.item) (f.side.glue mid f.item f.sibling.inorder) p

variable {A : List NodePtr → V → Prop} {p : Option NodePtr} {t : RbTree NodePtr}

/-- A node, seen from a side. -/
theorem rep_mk {d : Side} {c : Color} {a b : RbTree NodePtr} {x : NodePtr} :
    Rep m A p (.mk d c a x b) ↔
      m.parentColor x.word = pcWord p c ∧
      m.child d x.word = ptr (root a) ∧ m.child d.other x.word = ptr (root b) ∧
      A (d.glue a.inorder x b.inorder) (m.aug x.word) ∧
      Rep m A (some x) a ∧ Rep m A (some x) b := by
  cases d with
  | left => exact Iff.rfl
  | right =>
      simp only [RbTree.mk, Side.pick, Rep, Side.other, Side.glue]
      tauto

theorem rep_plug_iff {path : Path NodePtr} :
    (Rep m A (top path) t ∧ RepPath m A (root t) t.inorder path) ↔
      Rep m A none (plug t path) ∧ m.rbNode = ptr (root (plug t path)) := by
  induction path generalizing t with
  | nil => exact Iff.rfl
  | cons f path ih =>
      rw [plug, ← ih, RepPath, rep_mk, RbTree.inorder_mk]
      simp only [root_mk, top_cons]
      tauto

theorem glue_glue {α : Type*} (d : Side) (a b c : List α) (x y : α) :
    d.glue (d.glue a x b) y c = d.glue a x (d.glue b y c) := by
  cases d <;> simp [Side.glue]

/-- One node more of the way up. -/
theorem perm_climb (t : RbTree NodePtr) (f : Crumb NodePtr) (path : Path NodePtr) :
    (f.side.glue t.inorder f.item f.sibling.inorder ++ items path).Perm
      (t.inorder ++ items (f :: path)) := by
  rw [List.perm_iff_count]
  intro z
  simp only [Side.count_glue, items, List.count_append, List.count_cons]
  omega

theorem perm_plug (t : RbTree NodePtr) (path : Path NodePtr) :
    (t.inorder ++ items path).Perm (plug t path).inorder := by
  induction path generalizing t with
  | nil => simp [items, plug]
  | cons f path ih =>
      rw [plug]
      refine (perm_climb t f path).symm.trans ?_
      rw [← RbTree.inorder_mk f.side f.color]
      exact ih _

theorem Rep.congr (h : Rep m A p t) (hm : ∀ x ∈ t.inorder, SameAt m m' x) : Rep m' A p t := by
  induction t generalizing p with
  | nil => trivial
  | node c l x r ihl ihr =>
      obtain ⟨hpc, hl, hr, ha, htl, htr⟩ := h
      have hx := hm x (by simp)
      refine ⟨hx.parentColor.trans hpc, (hx.child _).trans hl, (hx.child _).trans hr, ?_, ?_, ?_⟩
      · rw [hx.aug]
        exact ha
      · exact ihl htl fun y hy => hm y (by simp [hy])
      · exact ihr htr fun y hy => hm y (by simp [hy])

theorem RepPath.congr {hole : Option NodePtr} {mid : List NodePtr} {path : Path NodePtr}
    (h : RepPath m A hole mid path) (hroot : m'.rbNode = m.rbNode)
    (hm : ∀ x ∈ items path, SameAt m m' x) : RepPath m' A hole mid path := by
  induction path generalizing hole mid with
  | nil => exact hroot.trans h
  | cons f path ih =>
      obtain ⟨hpc, hs, ho, ha, ht, hp⟩ := h
      have hx := hm f.item (by simp [items])
      refine ⟨hx.parentColor.trans hpc, (hx.child _).trans hs, (hx.child _).trans ho, ?_, ?_, ?_⟩
      · rw [hx.aug]
        exact ha
      · exact ht.congr fun y hy => hm y (by simp [items, hy])
      · exact ih hp fun y hy => hm y (by simp [items, hy])

/-- Another condition on the fields, which follows for the nodes that are there. -/
theorem Rep.imp {A' : List NodePtr → V → Prop} (h : Rep m A p t)
    (hA : ∀ xs v, xs ⊆ t.inorder → xs ≠ [] → A xs v → A' xs v) : Rep m A' p t := by
  induction t generalizing p with
  | nil => trivial
  | node c l x r ihl ihr =>
      obtain ⟨hpc, hl, hr, ha, htl, htr⟩ := h
      rw [RbTree.inorder_node] at hA
      refine ⟨hpc, hl, hr, hA _ _ (List.Subset.refl _) (by simp) ha, ihl htl ?_, ihr htr ?_⟩
      · exact fun xs v hxs => hA xs v fun y hy => by simp [hxs hy]
      · exact fun xs v hxs => hA xs v fun y hy => by simp [hxs hy]

/-- What is not written to is still there. -/
theorem Rep.only {w : List NodePtr} (h : Rep m A p t) (hw : Only w m m')
    (hd : t.inorder.Disjoint w) : Rep m' A p t :=
  h.congr fun x hx => hw.same x fun hxw => hd hx hxw

theorem RepPath.only {hole : Option NodePtr} {mid w : List NodePtr} {path : Path NodePtr}
    (h : RepPath m A hole mid path) (hw : Only w m m') (hroot : m'.rbNode = m.rbNode)
    (hd : (items path).Disjoint w) : RepPath m' A hole mid path :=
  h.congr hroot fun x hx => hw.same x fun hxw => hd hx hxw

/-- The root gets another parent and colour. -/
theorem Rep.repaint {w : List NodePtr} {q : Option NodePtr} {c : Color} (h : Rep m A p t)
    (hw : Only w m m') (hd : ∀ x ∈ t.inorder, x ∈ w → root t = some x) (hnd : t.inorder.Nodup)
    (hroot : ∀ x, root t = some x → m'.parentColor x.word = pcWord q c ∧
      (∀ d, m'.child d x.word = m.child d x.word) ∧ m'.aug x.word = m.aug x.word) :
    Rep m' A q (t.paint c) := by
  cases t with
  | nil => trivial
  | node c' l x r =>
      obtain ⟨-, hl, hr, ha, htl, htr⟩ := h
      obtain ⟨hpc, hchild, haug⟩ := hroot x rfl
      rw [RbTree.inorder_node, List.nodup_append, List.nodup_cons] at hnd
      refine ⟨hpc, (hchild _).trans hl, (hchild _).trans hr, haug ▸ ha, ?_, ?_⟩
      · refine htl.only hw fun y hy hyw => ?_
        cases hd y (by simp [hy]) hyw
        exact hnd.2.2 _ hy _ (by simp) rfl
      · refine htr.only hw fun y hy hyw => ?_
        cases hd y (by simp [hy]) hyw
        exact hnd.2.1.1 hy

theorem RbTree.paint_black_eq {t : RbTree NodePtr} (h : t.isRed = false) : t.paint .black = t := by
  match t, h with
  | .nil, _ => rfl
  | .node .black _ _ _, _ => rfl

/-- A black root, or nothing, gets another parent. -/
theorem Rep.setParentColorIf (h : Rep m A p t) (hblack : t.isRed = false) (hnd : t.inorder.Nodup)
    (x : NodePtr) :
    let m' := m.rbSetParentColorIf (ptr (root t)) x.word rbBlack
    Rep m' A (some x) t ∧ Only (root t).toList m m' ∧ m'.rbNode = m.rbNode := by
  cases t with
  | nil => exact ⟨trivial, Only.refl m, rfl⟩
  | node c l y r =>
      have hm' : m.rbSetParentColorIf (ptr (root (.node c l y r))) x.word rbBlack =
          m.setPc y.word (pcWord (some x) .black) := by
        rw [rbSetParentColorIf, if_neg (by simp [y.ne_zero])]
        rfl
      rw [hm']
      refine ⟨?_, only_setPc (by simp) _, rfl⟩
      rw [← RbTree.paint_black_eq hblack]
      have honly : Only [y] m (m.setPc y.word (pcWord (some x) .black)) := only_setPc (by simp) _
      refine h.repaint honly ?_ hnd ?_
      · intro z _ hz
        rw [List.mem_singleton.mp hz, root_node]
      · rintro z ⟨⟩
        exact ⟨parentColor_setPc .., fun _ => rfl, rfl⟩

theorem Rep.rbIsRed {x : NodePtr} (h : Rep m A p t) (hx : root t = some x) :
    m.rbIsRed x.word = t.isRed := by
  cases t with
  | nil => cases hx
  | node c l y r =>
      cases hx
      rw [RbMem.rbIsRed, h.1, rbColorOf_pcWord]
      cases c <;> rfl

theorem Rep.rbIsBlack {x : NodePtr} (h : Rep m A p t) (hx : root t = some x) :
    m.rbIsBlack x.word = !t.isRed := by
  rw [← h.rbIsRed hx, RbMem.rbIsBlack, RbMem.rbIsRed]
  rfl

theorem Rep.rbParent {x : NodePtr} (h : Rep m A p t) (hx : root t = some x) :
    m.rbParent x.word = ptr p := by
  cases t with
  | nil => cases hx
  | node c l y r =>
      cases hx
      rw [RbMem.rbParent, h.1, rbParentOf_pcWord]

/-- The test for a red child. -/
theorem Rep.isRed_iff (h : Rep m A p t) :
    (ptr (root t) ≠ 0#64 ∧ m.rbIsRed (ptr (root t)) = true) ↔ t.isRed = true := by
  cases t with
  | nil => simp
  | node c l y r =>
      rw [root_node, ptr_some, h.rbIsRed rfl]
      simp [y.ne_zero]

/-- The side of a child, as the code finds it. -/
theorem side_of_child {d : Side} {x : NodePtr} {v : BitVec 64} (h : m.child d x.word = v)
    (hother : m.child d.other x.word ≠ v) :
    (if v ≠ m.right x.word then Side.left else Side.right) = d := by
  cases d with
  | left => exact if_pos fun heq => hother heq.symm
  | right => exact if_neg fun hne => hne h.symm

/-- The test for a black child, or none. -/
theorem Rep.isBlack_iff (h : Rep m A p t) :
    (ptr (root t) = 0#64 ∨ m.rbIsBlack (ptr (root t)) = true) ↔ t.isRed = false := by
  cases t with
  | nil => simp
  | node c l y r =>
      rw [root_node, ptr_some, h.rbIsBlack rfl]
      simp [y.ne_zero]

/-- A root of either colour, or nothing, gets another parent. -/
theorem Rep.setParentIf (h : Rep m A p t) (hnd : t.inorder.Nodup) (x : NodePtr) :
    let m' := if ptr (root t) = 0#64 then m else m.rbSetParent (ptr (root t)) x.word
    Rep m' A (some x) t ∧ Only (root t).toList m m' ∧ m'.rbNode = m.rbNode := by
  cases t with
  | nil => exact ⟨trivial, Only.refl m, rfl⟩
  | node c l y r =>
      have hm' : (if ptr (root (.node c l y r)) = 0#64 then m
          else m.rbSetParent (ptr (root (.node c l y r))) x.word) =
          m.setPc y.word (pcWord (some x) c) := by
        rw [if_neg (by simp [y.ne_zero]), root_node, ptr_some, rbSetParent, h.1, rbColorOf_pcWord,
          pcWord, BitVec.add_comm]
        rfl
      have honly : Only [y] m (m.setPc y.word (pcWord (some x) c)) := only_setPc (by simp) _
      rw [hm']
      refine ⟨?_, honly, rfl⟩
      have hrep := h.repaint (q := some x) (c := c) honly ?_ hnd ?_
      · exact hrep
      · intro z _ hz
        rw [List.mem_singleton.mp hz, root_node]
      · rintro z ⟨⟩
        exact ⟨parentColor_setPc .., fun _ => rfl, rfl⟩

/-! ## Part of a path -/

namespace RbTree

/-- The parent of the place, where `par` is the parent of the last node of the path. -/
def topOr (par : Option NodePtr) : Path NodePtr → Option NodePtr
  | [] => par
  | f :: _ => some f.item

/-- The last node of the path, or what is in the place. -/
def apex (hole : Option NodePtr) : Path NodePtr → Option NodePtr
  | [] => hole
  | f :: p => apex (some f.item) p

end RbTree

/-- The memory holds the nodes of a path that ends below `par`. -/
def RepSeg (m : RbMem V) (A : List NodePtr → V → Prop) (par : Option NodePtr) :
    Option NodePtr → List NodePtr → Path NodePtr → Prop
  | _, _, [] => True
  | hole, mid, f :: p =>
      m.parentColor f.item.word = pcWord (topOr par p) f.color ∧
      m.child f.side f.item.word = ptr hole ∧
      m.child f.side.other f.item.word = ptr (root f.sibling) ∧
      A (f.side.glue mid f.item f.sibling.inorder) (m.aug f.item.word) ∧
      Rep m A (some f.item) f.sibling ∧
      RepSeg m A par (some f.item) (f.side.glue mid f.item f.sibling.inorder) p

section

variable {par hole : Option NodePtr} {mid : List NodePtr} {path q : Path NodePtr}

theorem topOr_none (path : Path NodePtr) : topOr none path = top path := by
  cases path <;> rfl

theorem repPath_iff_seg :
    RepPath m A hole mid path ↔
      RepSeg m A none hole mid path ∧ m.rbNode = ptr (apex hole path) := by
  induction path generalizing hole mid with
  | nil => simp [RepPath, RepSeg, apex]
  | cons f path ih =>
      rw [RepPath, RepSeg, ih, apex, topOr_none]
      tauto

theorem root_plug (t : RbTree NodePtr) (q : Path NodePtr) : root (plug t q) = apex (root t) q := by
  induction q generalizing t with
  | nil => rfl
  | cons f q ih => exact ih _

/-- A tree is a subtree in its place. -/
theorem rep_plug_seg : Rep m A par (plug t q) ↔
    Rep m A (topOr par q) t ∧ RepSeg m A par (root t) t.inorder q := by
  induction q generalizing t with
  | nil => simp [plug, topOr, RepSeg]
  | cons f q ih =>
      rw [plug, ih, RepSeg, rep_mk, RbTree.inorder_mk]
      simp only [root_mk, topOr]
      tauto

theorem RepSeg.congr (h : RepSeg m A par hole mid path)
    (hm : ∀ x ∈ items path, SameAt m m' x) : RepSeg m' A par hole mid path := by
  induction path generalizing hole mid with
  | nil => trivial
  | cons f path ih =>
      obtain ⟨hpc, hs, ho, ha, ht, hp⟩ := h
      have hx := hm f.item (by simp [items])
      refine ⟨hx.parentColor.trans hpc, (hx.child _).trans hs, (hx.child _).trans ho, ?_, ?_, ?_⟩
      · rw [hx.aug]
        exact ha
      · exact ht.congr fun y hy => hm y (by simp [items, hy])
      · exact ih hp fun y hy => hm y (by simp [items, hy])

theorem RepSeg.only {w : List NodePtr} (h : RepSeg m A par hole mid path) (hw : Only w m m')
    (hd : (items path).Disjoint w) : RepSeg m' A par hole mid path :=
  h.congr fun x hx => hw.same x fun hxw => hd hx hxw

/-- The place gets another pointer. -/
theorem RepSeg.setChild {f : Crumb NodePtr} (new : Option NodePtr)
    (h : RepSeg m A par hole mid (f :: q)) (hnd : (items (f :: q)).Nodup) :
    RepSeg (m.setChild f.side f.item.word (ptr new)) A par new mid (f :: q) := by
  obtain ⟨hpc, hs, ho, ha, ht, hq⟩ := h
  have honly : Only [f.item] m (m.setChild f.side f.item.word (ptr new)) :=
    only_setChild (by simp) ..
  simp only [items, List.cons_append, List.nodup_cons, List.mem_append, not_or] at hnd
  refine ⟨(parentColor_setChild ..).trans hpc, child_setChild .., (child_setChild_other ..).trans ho,
    ?_, ht.only honly (List.disjoint_singleton.mpr hnd.1.1),
    hq.only honly (List.disjoint_singleton.mpr hnd.1.2)⟩
  rw [aug_setChild]
  exact ha

/-- The last node gets another parent. -/
theorem RepSeg.setParent {f : Crumb NodePtr} {s : NodePtr} (h : RepSeg m A par hole mid (f :: q))
    (hnd : (items (f :: q)).Nodup) :
    ∃ y ∈ items (f :: q), (∀ hole', apex hole' (f :: q) = some y) ∧
      RepSeg (m.rbSetParent y.word s.word) A (some s) hole mid (f :: q) ∧
      Only [y] m (m.rbSetParent y.word s.word) := by
  induction q generalizing f hole mid with
  | nil =>
      obtain ⟨hpc, hs, ho, ha, ht, -⟩ := h
      have hpc' : m.rbSetParent f.item.word s.word = m.setPc f.item.word (pcWord (some s) f.color) := by
        rw [rbSetParent, hpc, rbColorOf_pcWord, pcWord, BitVec.add_comm, ptr_some]
      have honly : Only [f.item] m (m.setPc f.item.word (pcWord (some s) f.color)) :=
        only_setPc (by simp) _
      simp only [items, List.append_nil, List.nodup_cons] at hnd
      rw [← hpc'] at honly
      refine ⟨f.item, by simp [items], fun _ => rfl, ⟨?_, hs, ho, ha, ?_, trivial⟩, honly⟩
      · rw [hpc']
        exact parentColor_setPc ..
      · exact ht.only honly (List.disjoint_singleton.mpr hnd.1)
  | cons e q ih =>
      obtain ⟨hpc, hs, ho, ha, ht, hq⟩ := h
      have hnd' := hnd
      rw [items, List.cons_append, List.nodup_cons, List.nodup_append] at hnd'
      obtain ⟨y, hy, hapex, hseg, honly⟩ := ih hq hnd'.2.2.1
      have hyf : f.item ≠ y := fun h => hnd'.1 (h ▸ List.mem_append_right _ hy)
      have sf := honly.same f.item (by simpa using hyf)
      refine ⟨y, ?_, fun _ => hapex (some f.item), ⟨?_, (sf.child _).trans hs, (sf.child _).trans ho, ?_, ?_, hseg⟩,
        honly⟩
      · rw [items]
        exact List.mem_append_right _ hy
      · exact sf.parentColor.trans hpc
      · rw [sf.aug]
        exact ha
      · exact ht.only honly (List.disjoint_singleton.mpr fun h => hnd'.2.2.2 y h y hy rfl)

end

/-! ## Rotations -/

/-- The place gets another pointer. -/
theorem RepPath.changeChild {mid : List NodePtr} {path : Path NodePtr} {x : NodePtr}
    (new : Option NodePtr) (h : RepPath m A (some x) mid path) (hx : x ∉ items path)
    (hnd : (items path).Nodup) :
    RepPath (m.rbChangeChild x.word (ptr new) (ptr (top path))) A new mid path ∧
      Only (top path).toList m (m.rbChangeChild x.word (ptr new) (ptr (top path))) := by
  cases path with
  | nil => exact ⟨rfl, only_setRoot _⟩
  | cons f path =>
      obtain ⟨hpc, hs, ho, ha, ht, hp⟩ := h
      have hside : m.rbChangeChild x.word (ptr new) (ptr (top (f :: path))) =
          m.setChild f.side f.item.word (ptr new) := by
        rw [rbChangeChild, top_cons, ptr_some, if_neg f.item.ne_zero]
        cases hf : f.side with
        | left =>
            rw [hf] at hs
            exact if_pos hs
        | right =>
            rw [hf] at ho
            have hne : m.left f.item.word ≠ x.word := by
              refine fun heq => hx ?_
              have hroot : root f.sibling = some x := ptr_inj.mp (ho.symm.trans heq)
              simp [items, mem_of_root hroot]
            exact if_neg hne
      have honly : Only [f.item] m (m.setChild f.side f.item.word (ptr new)) :=
        only_setChild (by simp) ..
      simp only [items, List.cons_append, List.nodup_cons, List.mem_append, not_or,
        List.nodup_append] at hnd
      rw [hside]
      refine ⟨⟨by simpa using hpc, by simp, by simpa using ho, by simpa using ha, ?_, ?_⟩, honly⟩
      · exact ht.only honly (List.disjoint_singleton.mpr hnd.1.1)
      · exact hp.only honly (rbNode_setChild ..) (List.disjoint_singleton.mpr hnd.1.2)

/-- What the callback does when `y` takes the place of `x`, which has its new children then. -/
def RotateLaw (rotate : RbMem V → BitVec 64 → BitVec 64 → RbMem V)
    (A : List NodePtr → V → Prop) (S : NodePtr → Prop) : Prop :=
  ∀ (m : RbMem V) (x y : NodePtr), x ≠ y →
    ∃ g, rotate m x.word y.word = { m with aug := g } ∧
      (∀ z, z ≠ x → z ≠ y → g z.word = m.aug z.word) ∧
      (∀ xs, A xs (m.aug x.word) → A xs (g y.word)) ∧
      ∀ (d : Side) (b e : RbTree NodePtr), m.child d x.word = ptr (root b) →
        m.child d.other x.word = ptr (root e) → Rep m A (some x) b → Rep m A (some x) e →
        y ∉ b.inorder → y ∉ e.inorder → (∀ z ∈ d.glue b.inorder x e.inorder, S z) →
        A (d.glue b.inorder x e.inorder) (g x.word)

/-- **A rotation** from where the pointers between the two nodes are turned already: `y` takes the
place, the parent and the colour of `x`. -/
theorem rep_rotate {rotate : RbMem V → BitVec 64 → BitVec 64 → RbMem V} {S : NodePtr → Prop}
    (hrot : RotateLaw rotate A S) {d : Side} {c cx : Color} {x y : NodePtr}
    {a b e : RbTree NodePtr} {mid : List NodePtr} {path : Path NodePtr}
    (hpc : m.parentColor x.word = pcWord (top path) cx)
    (hya : m.child d y.word = ptr (root a)) (hyx : m.child d.other y.word = x.word)
    (hxb : m.child d x.word = ptr (root b)) (hxe : m.child d.other x.word = ptr (root e))
    (ha : Rep m A (some y) a) (hb : Rep m A (some x) b) (he : Rep m A (some x) e)
    (haug : A (d.glue a.inorder y (d.glue b.inorder x e.inorder)) (m.aug x.word))
    (hpath : RepPath m A (some x) mid path)
    (hnd : (x :: y :: (a.inorder ++ b.inorder ++ e.inorder ++ items path)).Nodup)
    (hS : ∀ z ∈ d.glue b.inorder x e.inorder, S z) :
    let m' := rotate (m.rbRotateSetParents x.word y.word (colorWord c)) x.word y.word
    Rep m' A (top path) (.mk d cx a y (.mk d c b x e)) ∧ RepPath m' A (some y) mid path ∧
      Only (x :: y :: (top path).toList) m m' := by
  simp only [List.nodup_cons, List.mem_cons, List.mem_append, not_or, List.nodup_append] at hnd
  obtain ⟨⟨hxy, ⟨⟨hxa, hxb'⟩, hxe'⟩, hxp⟩, ⟨⟨⟨hya', hyb⟩, hye⟩, hyp⟩, hnd⟩ := hnd
  -- the parents of the two nodes
  have hparent : m.rbParent x.word = ptr (top path) := by rw [rbParent, hpc, rbParentOf_pcWord]
  let m₂ := (m.setPc y.word (m.parentColor x.word)).rbSetParentColor x.word y.word (colorWord c)
  have honly₂ : Only [x, y] m m₂ := (only_setPc (by simp) _).trans (only_setPc (by simp) _)
  have hpcx : m₂.parentColor x.word = pcWord (some y) c := parentColor_setPc ..
  have hpcy : m₂.parentColor y.word = pcWord (top path) cx := by
    refine (parentColor_setPc_ne (Ne.symm hxy) _).trans ?_
    rw [parentColor_setPc, hpc]
  -- the pointer of the place
  have hp₂ : RepPath m₂ A (some x) mid path :=
    hpath.only honly₂ rfl (by simp [List.disjoint_cons_right, hxp, hyp])
  obtain ⟨hp₃, honly₃⟩ := RepPath.changeChild (some y) hp₂ hxp hnd.2.1
  have htop : ∀ z, z ∉ items path → z ∉ (top path).toList := fun z hz hzt => hz (top_subset _ hzt)
  have hm₃ : m.rbRotateSetParents x.word y.word (colorWord c) =
      m₂.rbChangeChild x.word (ptr (some y)) (ptr (top path)) := by
    rw [rbRotateSetParents, hparent]
    rfl
  rw [← hm₃] at hp₃ honly₃
  -- the callback
  obtain ⟨g, hg, hkeep, hnew, hold⟩ :=
    hrot (m.rbRotateSetParents x.word y.word (colorWord c)) x y hxy
  have sx := honly₃.same x (htop x hxp)
  have sy := honly₃.same y (htop y hyp)
  have honly₄ : Only [x, y] (m.rbRotateSetParents x.word y.word (colorWord c))
      { m.rbRotateSetParents x.word y.word (colorWord c) with aug := g } := by
    refine ⟨fun z hz => ⟨rfl, fun _ => rfl, ?_⟩, rfl⟩
    simp only [List.mem_cons, List.not_mem_nil, or_false, not_or] at hz
    exact hkeep z hz.1 hz.2
  have honly : Only (x :: y :: (top path).toList) m
      { m.rbRotateSetParents x.word y.word (colorWord c) with aug := g } :=
    ((honly₂.mono (by simp)).trans (honly₃.mono (by simp))).trans (honly₄.mono (by simp))
  have hdisj : ∀ t : RbTree NodePtr, x ∉ t.inorder → y ∉ t.inorder →
      (∀ z ∈ t.inorder, z ∉ items path) → t.inorder.Disjoint (x :: y :: (top path).toList) := by
    intro t hx hy hp z hz hzw
    simp only [List.mem_cons] at hzw
    rcases hzw with rfl | rfl | hzw
    · exact hx hz
    · exact hy hz
    · exact htop z (hp z hz) hzw
  have hrepb := hb.only ((honly₂.mono (by simp)).trans (honly₃.mono (by simp)))
    (hdisj b hxb' hyb fun z hz hzp => hnd.2.2 z (by simp [hz]) z hzp rfl)
  have hrepe := he.only ((honly₂.mono (by simp)).trans (honly₃.mono (by simp)))
    (hdisj e hxe' hye fun z hz hzp => hnd.2.2 z (by simp [hz]) z hzp rfl)
  rw [hg]
  refine ⟨rep_mk.mpr ⟨?_, ?_, ?_, ?_, ?_, rep_mk.mpr ⟨?_, ?_, ?_, ?_, ?_, ?_⟩⟩, ?_, honly⟩
  · exact sy.parentColor.trans hpcy
  · exact (sy.child d).trans hya
  · exact (sy.child _).trans hyx
  · rw [RbTree.inorder_mk]
    refine hnew _ ?_
    rw [sx.aug]
    exact haug
  · exact ha.only honly (hdisj a hxa hya' fun z hz hzp => hnd.2.2 z (by simp [hz]) z hzp rfl)
  · exact sx.parentColor.trans hpcx
  · exact (sx.child d).trans hxb
  · exact (sx.child _).trans hxe
  · exact hold d b e ((sx.child d).trans hxb) ((sx.child _).trans hxe) hrepb hrepe hyb hye hS
  · exact hrepb.only honly₄ (by simp [List.disjoint_cons_right, hxb', hyb])
  · exact hrepe.only honly₄ (by simp [List.disjoint_cons_right, hxe', hye])
  · exact hp₃.only honly₄ rfl (by simp [List.disjoint_cons_right, hxp, hyp])

/-- The callback, where the pointers between `x` and `y` alone are turned. -/
theorem rep_rotate_kids {rotate : RbMem V → BitVec 64 → BitVec 64 → RbMem V} {S : NodePtr → Prop}
    (hrot : RotateLaw rotate A S) {d : Side} {x y : NodePtr} {e b : RbTree NodePtr}
    (hxe : m.child d x.word = ptr (root e)) (hxb : m.child d.other x.word = ptr (root b))
    (he : Rep m A (some x) e) (hb : Rep m A (some x) b)
    (hnd : (x :: y :: (e.inorder ++ b.inorder)).Nodup)
    (hS : ∀ z ∈ d.glue e.inorder x b.inorder, S z) :
    let r := rotate m x.word y.word
    r.parentColor = m.parentColor ∧ (∀ d a, r.child d a = m.child d a) ∧ r.rbNode = m.rbNode ∧
      A (d.glue e.inorder x b.inorder) (r.aug x.word) ∧ Rep r A (some x) e ∧ Rep r A (some x) b ∧
      Only [x, y] m r := by
  simp only [List.nodup_cons, List.nodup_append, List.mem_append, List.mem_cons, not_or] at hnd
  obtain ⟨⟨hxy, hxe', hxb'⟩, ⟨hye, hyb⟩, -⟩ := hnd
  obtain ⟨g, hg, hkeep, -, hold⟩ := hrot m x y hxy
  have honly : Only [x, y] m { m with aug := g } := by
    refine ⟨fun z hz => ⟨rfl, fun _ => rfl, ?_⟩, rfl⟩
    simp only [List.mem_cons, List.not_mem_nil, or_false, not_or] at hz
    exact hkeep z hz.1 hz.2
  rw [hg]
  refine ⟨rfl, fun _ _ => rfl, rfl, hold d e b hxe hxb he hb hye hyb hS, ?_, ?_, honly⟩
  · exact he.only honly (by simp [List.disjoint_cons_right, hxe', hye])
  · exact hb.only honly (by simp [List.disjoint_cons_right, hxb', hyb])

/-- **A rotation** with the pointers between the two nodes: the child `b` of `y` becomes one of
`x`, and has got its parent in `m'` already. -/
theorem rep_turn {rotate : RbMem V → BitVec 64 → BitVec 64 → RbMem V} {S : NodePtr → Prop}
    (hrot : RotateLaw rotate A S) {d : Side} (c : Color) {cx : Color} {x y : NodePtr}
    {a b e : RbTree NodePtr} {mid : List NodePtr} {path : Path NodePtr}
    (hpc : m.parentColor x.word = pcWord (top path) cx)
    (hya : m.child d y.word = ptr (root a)) (hxe : m.child d.other x.word = ptr (root e))
    (ha : Rep m A (some y) a) (he : Rep m A (some x) e)
    (haug : A (d.glue (d.glue a.inorder y b.inorder) x e.inorder) (m.aug x.word))
    (hpath : RepPath m A (some x) mid path)
    (hnd : (x :: y :: (a.inorder ++ b.inorder ++ e.inorder ++ items path)).Nodup)
    (hS : ∀ z ∈ d.glue b.inorder x e.inorder, S z)
    (hb : Rep m' A (some x) b)
    (hm' : Only (root b).toList
      ((m.setChild d x.word (ptr (root b))).setChild d.other y.word x.word) m')
    (hroot : m'.rbNode = m.rbNode) :
    let r := rotate (m'.rbRotateSetParents x.word y.word (colorWord c)) x.word y.word
    Rep r A (top path) (.mk d cx a y (.mk d c b x e)) ∧ RepPath r A (some y) mid path ∧
      Only (x :: y :: (root b).toList ++ (top path).toList) m r := by
  have hnd' := hnd
  simp only [List.nodup_append, List.nodup_cons, List.mem_append, List.mem_cons, not_or] at hnd'
  have hxy : x ≠ y := by grind
  have hrb : ∀ z ∈ (root b).toList, z ∈ b.inorder := root_subset b
  have hxb : x ∉ (root b).toList := fun h => by grind
  have hyb : y ∉ (root b).toList := fun h => by grind
  let m₂ := (m.setChild d x.word (ptr (root b))).setChild d.other y.word x.word
  have honly₂ : Only [x, y] m m₂ := (only_setChild (by simp) ..).trans (only_setChild (by simp) ..)
  have honly : Only (x :: y :: (root b).toList) m m' :=
    (honly₂.mono (by simp)).trans (hm'.mono (by simp))
  have sx := hm'.same x hxb
  have sy := hm'.same y hyb
  have hrep : ∀ {p : Option NodePtr} {t : RbTree NodePtr}, Rep m A p t → x ∉ t.inorder →
      y ∉ t.inorder → t.inorder.Disjoint b.inorder → Rep m' A p t := by
    intro p t ht hxt hyt hbt
    refine ht.only honly fun z hz hw => ?_
    simp only [List.mem_cons] at hw
    rcases hw with rfl | rfl | hw
    · exact hxt hz
    · exact hyt hz
    · exact hbt hz (hrb z hw)
  have hrotate := rep_rotate hrot (m := m') (d := d) (c := c) (x := x) (y := y) (a := a) (b := b) (e := e)
    (show _ = pcWord (top path) cx by
      rw [sx.parentColor, parentColor_setChild, parentColor_setChild, hpc])
    (by rw [sy.child, child_other_setChild, child_setChild_ne (Ne.symm hxy), hya])
    (by rw [sy.child, child_setChild])
    (by rw [sx.child, child_other_setChild, child_setChild])
    (by rw [sx.child, child_setChild_ne hxy, child_setChild_other, hxe])
    (hrep ha (by grind) (by grind) fun z hz hzb => by grind) hb
    (hrep he (by grind) (by grind) fun z hz hzb => by grind)
    (by
      rw [sx.aug, aug_setChild, aug_setChild]
      cases d <;> simpa [Side.glue] using haug)
    (hpath.only honly hroot fun z hz hw => by grind) hnd hS
  obtain ⟨h₁, h₂, h₃⟩ := hrotate
  refine ⟨h₁, h₂, (honly.mono ?_).trans (h₃.mono ?_)⟩
  · intro z hz
    simp only [List.cons_append, List.mem_cons, List.mem_append] at hz ⊢
    tauto
  · intro z hz
    simp only [List.cons_append, List.mem_cons, List.mem_append] at hz ⊢
    tauto

end Skyloft
