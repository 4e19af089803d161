import Mathlib.Logic.Function.Basic
import Skyloft.Lib.RedBlack

/-!
# Red-black trees in memory

`rbtree.c` links the nodes of a tree by addresses and keeps the colour of a node in the low bit of
the word with its parent's address.  The code for the left and the right side is the same up to the
names of the two children; it is here once, for a side.

* `RbMem` — the fields of the nodes, by address, with the root of a tree and its leftmost node.
* `RbAugmentCallbacks`, `declareCallbacks`, `dummyCallbacks` — what is kept about subtrees.
* `rbInsert`, `rbEraseColor` — the two repairs.
* `rbAddAugmentedCached`, `rbEraseAugmentedCached`, `rbAddCached`, `rbEraseCached` — the calls.
* `rbFirst`, `rbNext` — the walk along the order.

A loop runs as often as `fuel` says at most, and the result is `none` if that is not enough.
-/

namespace Skyloft

open RedBlack (Side)

/-- `struct rb_node` by address, the field of the user's for the callbacks, and one
`struct rb_root_cached`. -/
structure RbMem (V : Type) where
  parentColor : BitVec 64 → BitVec 64
  right : BitVec 64 → BitVec 64
  left : BitVec 64 → BitVec 64
  aug : BitVec 64 → V
  rbNode : BitVec 64
  rbLeftmost : BitVec 64

/-- `RB_RED` -/
def rbRed : BitVec 64 := 0#64

/-- `RB_BLACK` -/
def rbBlack : BitVec 64 := 1#64

/-- `__rb_parent` -/
def rbParentOf (pc : BitVec 64) : BitVec 64 := pc &&& ~~~3#64

/-- `__rb_color` -/
def rbColorOf (pc : BitVec 64) : BitVec 64 := pc &&& 1#64

/-! ## Fields -/

namespace RbMem

variable {V : Type} (m : RbMem V)

/-- `rb_left` or `rb_right` -/
def child (d : Side) (a : BitVec 64) : BitVec 64 := d.pick (m.left a) (m.right a)

def setPc (a pc : BitVec 64) : RbMem V :=
  { m with parentColor := Function.update m.parentColor a pc }

def setChild (d : Side) (a v : BitVec 64) : RbMem V :=
  match d with
  | .left => { m with left := Function.update m.left a v }
  | .right => { m with right := Function.update m.right a v }

def setAug (a : BitVec 64) (v : V) : RbMem V := { m with aug := Function.update m.aug a v }

def setRoot (a : BitVec 64) : RbMem V := { m with rbNode := a }

/-- `rb_parent` -/
def rbParent (a : BitVec 64) : BitVec 64 := rbParentOf (m.parentColor a)

/-- `rb_red_parent` -/
def rbRedParent (a : BitVec 64) : BitVec 64 := m.parentColor a

/-- `rb_is_black` -/
def rbIsBlack (a : BitVec 64) : Bool := rbColorOf (m.parentColor a) != 0#64

/-- `rb_is_red` -/
def rbIsRed (a : BitVec 64) : Bool := rbColorOf (m.parentColor a) == 0#64

/-- `rb_set_black` -/
def rbSetBlack (a : BitVec 64) : RbMem V := m.setPc a (m.parentColor a + rbBlack)

/-- `rb_set_parent` -/
def rbSetParent (a p : BitVec 64) : RbMem V := m.setPc a (rbColorOf (m.parentColor a) + p)

/-- `rb_set_parent_color` -/
def rbSetParentColor (a p color : BitVec 64) : RbMem V := m.setPc a (p + color)

/-- `if (a) rb_set_parent_color(a, p, color)` -/
def rbSetParentColorIf (a p color : BitVec 64) : RbMem V :=
  if a = 0#64 then m else m.rbSetParentColor a p color

/-- `__rb_change_child` -/
def rbChangeChild (old new parent : BitVec 64) : RbMem V :=
  if parent = 0#64 then m.setRoot new
  else if m.left parent = old then m.setChild .left parent new
  else m.setChild .right parent new

/-- `__rb_rotate_set_parents` -/
def rbRotateSetParents (old new color : BitVec 64) : RbMem V :=
  let parent := m.rbParent old
  let m := m.setPc new (m.parentColor old)
  let m := m.rbSetParentColor old new color
  m.rbChangeChild old new parent

/-- The augmented field of a child, if there is one. -/
def augOf (a : BitVec 64) : Option V := if a = 0#64 then none else some (m.aug a)

end RbMem

open RbMem

/-! ## Callbacks -/

/-- `struct rb_augment_callbacks` -/
structure RbAugmentCallbacks (V : Type) where
  propagate : ℕ → RbMem V → BitVec 64 → BitVec 64 → Option (RbMem V)
  copy : RbMem V → BitVec 64 → BitVec 64 → RbMem V
  rotate : RbMem V → BitVec 64 → BitVec 64 → RbMem V

variable {V : Type}

/-- `RBCOMPUTE`: the field of a node from its own data and the fields of its right and left child.
The result says whether it was so before. -/
def rbCompute [DecidableEq V] (value : BitVec 64 → Option V → Option V → V) (m : RbMem V)
    (node : BitVec 64) : Bool × RbMem V :=
  let v := value node (m.augOf (m.right node)) (m.augOf (m.left node))
  (decide (v = m.aug node), m.setAug node v)

/-- The loop of `RBNAME##_propagate`. -/
def propagateLoop [DecidableEq V] (value : BitVec 64 → Option V → Option V → V) :
    ℕ → RbMem V → BitVec 64 → BitVec 64 → Option (RbMem V)
  | 0, _, _, _ => none
  | fuel + 1, m, rb, stop =>
      if rb = stop then some m
      else
        let r := rbCompute value m rb
        if r.1 then some r.2 else propagateLoop value fuel r.2 (r.2.rbParent rb) stop

/-- `RB_DECLARE_CALLBACKS` -/
def declareCallbacks [DecidableEq V] (value : BitVec 64 → Option V → Option V → V) :
    RbAugmentCallbacks V where
  propagate := propagateLoop value
  copy m old new := m.setAug new (m.aug old)
  rotate m old new := (rbCompute value (m.setAug new (m.aug old)) old).2

/-- `dummy_callbacks` -/
def dummyCallbacks : RbAugmentCallbacks V where
  propagate _ m _ _ := some m
  copy m _ _ := m
  rotate m _ _ := m

/-! ## Insertion -/

/-- `__rb_insert` from the loop on. -/
def rbInsertLoop (rotate : RbMem V → BitVec 64 → BitVec 64 → RbMem V) :
    ℕ → RbMem V → BitVec 64 → BitVec 64 → Option (RbMem V)
  | 0, _, _, _ => none
  | fuel + 1, m, node, parent =>
      if parent = 0#64 then some (m.rbSetParentColor node 0#64 rbBlack)
      else if m.rbIsBlack parent then some m
      else
        let gparent := m.rbRedParent parent
        -- the side of the parent
        let d := if parent ≠ m.right gparent then Side.left else Side.right
        let tmp := m.child d.other gparent
        if tmp ≠ 0#64 ∧ m.rbIsRed tmp then
          -- Case 1
          let m := m.rbSetParentColor tmp gparent rbBlack
          let m := m.rbSetParentColor parent gparent rbBlack
          let parent := m.rbParent gparent
          let m := m.rbSetParentColor gparent parent rbRed
          rbInsertLoop rotate fuel m gparent parent
        else
          -- Case 2
          let (m, parent, tmp) :=
            if node = m.child d.other parent then
              let tmp := m.child d node
              let m := m.setChild d.other parent tmp
              let m := m.setChild d node parent
              let m := m.rbSetParentColorIf tmp parent rbBlack
              let m := m.rbSetParentColor parent node rbRed
              let m := rotate m parent node
              (m, node, m.child d.other node)
            else (m, parent, m.child d.other parent)
          -- Case 3
          let m := m.setChild d gparent tmp
          let m := m.setChild d.other parent gparent
          let m := m.rbSetParentColorIf tmp gparent rbBlack
          let m := m.rbRotateSetParents gparent parent rbRed
          some (rotate m gparent parent)

/-- `__rb_insert` -/
def rbInsert (rotate : RbMem V → BitVec 64 → BitVec 64 → RbMem V) (fuel : ℕ) (m : RbMem V)
    (node : BitVec 64) : Option (RbMem V) :=
  rbInsertLoop rotate fuel m node (m.rbRedParent node)

/-- `struct rb_node **link`: the root's pointer, or a child's. -/
abbrev RbLink := Option (BitVec 64 × Side)

def RbMem.load (m : RbMem V) : RbLink → BitVec 64
  | none => m.rbNode
  | some (a, d) => m.child d a

def RbMem.store (m : RbMem V) (v : BitVec 64) : RbLink → RbMem V
  | none => m.setRoot v
  | some (a, d) => m.setChild d a v

/-- The search of `rb_add_augmented_cached` and `rb_add_cached`. -/
def rbSearch (less : BitVec 64 → BitVec 64 → Bool) (m : RbMem V) (node : BitVec 64) :
    ℕ → RbLink → BitVec 64 → Bool → Option (RbLink × BitVec 64 × Bool)
  | 0, _, _, _ => none
  | fuel + 1, link, parent, leftmost =>
      if m.load link = 0#64 then some (link, parent, leftmost)
      else
        let parent := m.load link
        if less node parent then rbSearch less m node fuel (some (parent, .left)) parent leftmost
        else rbSearch less m node fuel (some (parent, .right)) parent false

/-- `rb_link_node` -/
def rbLinkNode (m : RbMem V) (node parent : BitVec 64) (link : RbLink) : RbMem V :=
  let m := m.setPc node parent
  let m := m.setChild .right node 0#64
  let m := m.setChild .left node 0#64
  m.store node link

/-- `rb_add_augmented_cached` -/
def rbAddAugmentedCached (less : BitVec 64 → BitVec 64 → Bool) (augment : RbAugmentCallbacks V)
    (fuel : ℕ) (m : RbMem V) (node : BitVec 64) : Option (RbMem V × BitVec 64) := do
  let (link, parent, leftmost) ← rbSearch less m node fuel none 0#64 true
  let m := rbLinkNode m node parent link
  let m ← augment.propagate fuel m parent 0#64
  let m := if leftmost then { m with rbLeftmost := node } else m
  let m ← rbInsert augment.rotate fuel m node
  pure (m, if leftmost then node else 0#64)

/-- `rb_add_cached` -/
def rbAddCached (less : BitVec 64 → BitVec 64 → Bool) (fuel : ℕ) (m : RbMem V)
    (node : BitVec 64) : Option (RbMem V × BitVec 64) := do
  let (link, parent, leftmost) ← rbSearch less m node fuel none 0#64 true
  let m := rbLinkNode m node parent link
  let m := if leftmost then { m with rbLeftmost := node } else m
  let m ← rbInsert dummyCallbacks.rotate fuel m node
  pure (m, if leftmost then node else 0#64)

/-! ## Walking -/

/-- `while (n->child) n = n->child` -/
def rbDeepest (d : Side) (m : RbMem V) : ℕ → BitVec 64 → Option (BitVec 64)
  | 0, _ => none
  | fuel + 1, n => if m.child d n = 0#64 then some n else rbDeepest d m fuel (m.child d n)

/-- `rb_first` for the left side, `rb_last` for the right one. -/
def rbEnd (d : Side) (fuel : ℕ) (m : RbMem V) : Option (BitVec 64) :=
  if m.rbNode = 0#64 then some 0#64 else rbDeepest d m fuel m.rbNode

/-- `while ((parent = rb_parent(node)) && node == parent->child) node = parent` -/
def rbClimb (d : Side) (m : RbMem V) : ℕ → BitVec 64 → Option (BitVec 64)
  | 0, _ => none
  | fuel + 1, node =>
      let parent := m.rbParent node
      if parent ≠ 0#64 ∧ node = m.child d parent then rbClimb d m fuel parent else some parent

/-- `rb_next` for the right side, `rb_prev` for the left one. -/
def rbBeside (d : Side) (fuel : ℕ) (m : RbMem V) (node : BitVec 64) : Option (BitVec 64) :=
  if m.parentColor node = node then some 0#64
  else if m.child d node ≠ 0#64 then rbDeepest d.other m fuel (m.child d node)
  else rbClimb d m fuel node

/-- `rb_first` -/
def rbFirst : ℕ → RbMem V → Option (BitVec 64) := rbEnd .left

/-- `rb_last` -/
def rbLast : ℕ → RbMem V → Option (BitVec 64) := rbEnd .right

/-- `rb_next` -/
def rbNext : ℕ → RbMem V → BitVec 64 → Option (BitVec 64) := rbBeside .right

/-- `rb_prev` -/
def rbPrev : ℕ → RbMem V → BitVec 64 → Option (BitVec 64) := rbBeside .left

/-! ## Removal -/

/-- Case 1 of `____rb_erase_color`; the second result is the sibling then. -/
def rbEraseCase1 (rotate : RbMem V → BitVec 64 → BitVec 64 → RbMem V) (d : Side) (m : RbMem V)
    (parent sibling : BitVec 64) : RbMem V × BitVec 64 :=
  if m.rbIsRed sibling then
    let tmp1 := m.child d sibling
    let m := m.setChild d.other parent tmp1
    let m := m.setChild d sibling parent
    let m := m.rbSetParentColor tmp1 parent rbBlack
    let m := m.rbRotateSetParents parent sibling rbRed
    (rotate m parent sibling, tmp1)
  else (m, sibling)

/-- Case 4 of `____rb_erase_color`. -/
def rbEraseCase4 (rotate : RbMem V → BitVec 64 → BitVec 64 → RbMem V) (d : Side) (m : RbMem V)
    (parent sibling tmp1 : BitVec 64) : RbMem V :=
  let tmp2 := m.child d sibling
  let m := m.setChild d.other parent tmp2
  let m := m.setChild d sibling parent
  let m := m.rbSetParentColor tmp1 sibling rbBlack
  let m := if tmp2 = 0#64 then m else m.rbSetParent tmp2 parent
  let m := m.rbRotateSetParents parent sibling rbBlack
  rotate m parent sibling

/-- Cases 2 to 4 of `____rb_erase_color`, and whether the loop goes on from the parent. -/
def rbEraseCases (rotate : RbMem V → BitVec 64 → BitVec 64 → RbMem V) (d : Side) (m : RbMem V)
    (parent sibling : BitVec 64) : RbMem V × Bool :=
  let tmp1 := m.child d.other sibling
  if tmp1 = 0#64 ∨ m.rbIsBlack tmp1 then
    let tmp2 := m.child d sibling
    if tmp2 = 0#64 ∨ m.rbIsBlack tmp2 then
      -- Case 2
      let m := m.rbSetParentColor sibling parent rbRed
      if m.rbIsRed parent then (m.rbSetBlack parent, false) else (m, true)
    else
      -- Case 3
      let tmp1 := m.child d.other tmp2
      let m := m.setChild d sibling tmp1
      let m := m.setChild d.other tmp2 sibling
      let m := m.setChild d.other parent tmp2
      let m := m.rbSetParentColorIf tmp1 sibling rbBlack
      let m := rotate m sibling tmp2
      (rbEraseCase4 rotate d m parent tmp2 sibling, false)
  else (rbEraseCase4 rotate d m parent sibling tmp1, false)

/-- `____rb_erase_color` from the loop on. -/
def rbEraseColorLoop (rotate : RbMem V → BitVec 64 → BitVec 64 → RbMem V) :
    ℕ → RbMem V → BitVec 64 → BitVec 64 → Option (RbMem V)
  | 0, _, _, _ => none
  | fuel + 1, m, node, parent =>
      -- the side of the node
      let d := if node ≠ m.right parent then Side.left else Side.right
      let sibling := m.child d.other parent
      let (m, sibling) := rbEraseCase1 rotate d m parent sibling
      let (m, again) := rbEraseCases rotate d m parent sibling
      if again then
        let node := parent
        let parent := m.rbParent node
        if parent ≠ 0#64 then rbEraseColorLoop rotate fuel m node parent else some m
      else some m

/-- `__rb_erase_color` -/
def rbEraseColor (rotate : RbMem V → BitVec 64 → BitVec 64 → RbMem V) (fuel : ℕ) (m : RbMem V)
    (parent : BitVec 64) : Option (RbMem V) :=
  rbEraseColorLoop rotate fuel m 0#64 parent

/-- `do { parent = successor; successor = tmp; tmp = tmp->rb_left; } while (tmp)` -/
def rbSuccessor (m : RbMem V) : ℕ → BitVec 64 → BitVec 64 → Option (BitVec 64 × BitVec 64)
  | 0, _, _ => none
  | fuel + 1, successor, tmp =>
      let parent := successor
      let successor := tmp
      let tmp := m.left tmp
      if tmp ≠ 0#64 then rbSuccessor m fuel successor tmp else some (parent, successor)

/-- Cases 2 and 3 of `__rb_erase_augmented`: the successor below `child` is unlinked.  The results
are its parent, itself, and its child. -/
def rbTakeSuccessor (augment : RbAugmentCallbacks V) (fuel : ℕ) (m : RbMem V)
    (node child : BitVec 64) : Option (RbMem V × BitVec 64 × BitVec 64 × BitVec 64) :=
  if m.left child = 0#64 then
    -- Case 2
    let successor := child
    let parent := successor
    let child2 := m.right successor
    some (augment.copy m node successor, parent, successor, child2)
  else do
    -- Case 3
    let (parent, successor) ← rbSuccessor m fuel child (m.left child)
    let child2 := m.right successor
    let m := m.setChild .left parent child2
    let m := m.setChild .right successor child
    let m := m.rbSetParent child successor
    let m := augment.copy m node successor
    let m ← augment.propagate fuel m parent successor
    pure (m, parent, successor, child2)

/-- The rest of cases 2 and 3: the successor takes the place of the node. -/
def rbReplaceNode (augment : RbAugmentCallbacks V) (fuel : ℕ) (m : RbMem V)
    (node parent successor child2 : BitVec 64) : Option (RbMem V × BitVec 64) := do
  let tmp := m.left node
  let m := m.setChild .left successor tmp
  let m := m.rbSetParent tmp successor
  let pc := m.parentColor node
  let tmp := rbParentOf pc
  let m := m.rbChangeChild node successor tmp
  let (m, rebalance) :=
    if child2 ≠ 0#64 then (m.rbSetParentColor child2 parent rbBlack, 0#64)
    else (m, if m.rbIsBlack successor then parent else 0#64)
  let m := m.setPc successor pc
  let m ← augment.propagate fuel m successor 0#64
  pure (m, rebalance)

/-- `__rb_erase_augmented`; the second result is where the colours are to be repaired. -/
def rbEraseNode (augment : RbAugmentCallbacks V) (fuel : ℕ) (m : RbMem V) (node : BitVec 64) :
    Option (RbMem V × BitVec 64) :=
  let child := m.right node
  let tmp := m.left node
  if tmp = 0#64 then do
    -- Case 1
    let pc := m.parentColor node
    let parent := rbParentOf pc
    let m := m.rbChangeChild node child parent
    let (m, rebalance) :=
      if child ≠ 0#64 then (m.setPc child pc, 0#64)
      else (m, if rbColorOf pc ≠ 0#64 then parent else 0#64)
    let m ← augment.propagate fuel m parent 0#64
    pure (m, rebalance)
  else if child = 0#64 then do
    -- still case 1, but this time the child is on the left
    let pc := m.parentColor node
    let m := m.setPc tmp pc
    let parent := rbParentOf pc
    let m := m.rbChangeChild node tmp parent
    let m ← augment.propagate fuel m parent 0#64
    pure (m, 0#64)
  else do
    let (m, parent, successor, child2) ← rbTakeSuccessor augment fuel m node child
    rbReplaceNode augment fuel m node parent successor child2

/-- `rb_erase_augmented` -/
def rbEraseAugmented (augment : RbAugmentCallbacks V) (fuel : ℕ) (m : RbMem V)
    (node : BitVec 64) : Option (RbMem V) := do
  let (m, rebalance) ← rbEraseNode augment fuel m node
  if rebalance ≠ 0#64 then rbEraseColor augment.rotate fuel m rebalance else some m

/-- `if (root->rb_leftmost == node) root->rb_leftmost = rb_next(node)` -/
def rbMoveLeftmost (fuel : ℕ) (m : RbMem V) (node : BitVec 64) : Option (RbMem V) :=
  if m.rbLeftmost = node then do
    let next ← rbNext fuel m node
    pure { m with rbLeftmost := next }
  else some m

/-- `rb_erase_augmented_cached` -/
def rbEraseAugmentedCached (augment : RbAugmentCallbacks V) (fuel : ℕ) (m : RbMem V)
    (node : BitVec 64) : Option (RbMem V) := do
  let m ← rbMoveLeftmost fuel m node
  rbEraseAugmented augment fuel m node

/-- `rb_erase` -/
def rbErase (fuel : ℕ) (m : RbMem V) (node : BitVec 64) : Option (RbMem V) := do
  let (m, rebalance) ← rbEraseNode dummyCallbacks fuel m node
  if rebalance ≠ 0#64 then rbEraseColor dummyCallbacks.rotate fuel m rebalance else some m

/-- `rb_erase_cached` -/
def rbEraseCached (fuel : ℕ) (m : RbMem V) (node : BitVec 64) :
    Option (RbMem V × BitVec 64) := do
  let leftmost := m.rbLeftmost = node
  let m ← rbMoveLeftmost fuel m node
  let m' ← rbErase fuel m node
  pure (m', if leftmost then m.rbLeftmost else 0#64)

end Skyloft
