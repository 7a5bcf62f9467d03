import Mathlib.Logic.Function.Basic

namespace Zephyr.Rb

inductive Color where
  | red | black
deriving DecidableEq, Repr

-- struct rbnode: children[0] keeps the colour in its low bit, which set_child
-- leaves as it is.
structure Node where
  left : Option Nat
  right : Option Nat
  color : Color
deriving DecidableEq, Repr

-- Node pointers are numbers and NULL is none. The state holds struct rbtree,
-- the nodes, and the stack rb_insert and rb_remove work on, with one past the
-- highest index they write.
structure St where
  root : Option Nat
  maxDepth : Int
  nodes : Nat → Node
  stack : Nat → Option Nat
  hi : Nat

inductive Fault where
  | nullDeref
  | stackUnderflow
  | fuel
deriving DecidableEq, Repr

abbrev RbM := StateT St (Except Fault)

def node (n : Option Nat) : RbM Node := do
  let some n := n | throw .nullDeref
  return (← get).nodes n

def setNode (n : Option Nat) (f : Node → Node) : RbM Unit := do
  let some n := n | throw .nullDeref
  modify fun s => { s with nodes := Function.update s.nodes n (f (s.nodes n)) }

-- side 1 is true.
def getChild (n : Option Nat) (side : Bool) : RbM (Option Nat) := do
  let x ← node n
  return if side then x.right else x.left

def setChild (n : Option Nat) (side : Bool) (v : Option Nat) : RbM Unit :=
  setNode n fun x => if side then { x with right := v } else { x with left := v }

def getColor (n : Option Nat) : RbM Color := return (← node n).color

def isBlack (n : Option Nat) : RbM Bool := return (← getColor n) = .black

def isRed (n : Option Nat) : RbM Bool := return (← getColor n) = .red

def setColor (n : Option Nat) (c : Color) : RbM Unit := setNode n fun x => { x with color := c }

def getStack (i : Int) : RbM (Option Nat) := do
  if i < 0 then throw .stackUnderflow
  return (← get).stack i.toNat

def setStack (i : Int) (v : Option Nat) : RbM Unit := do
  if i < 0 then throw .stackUnderflow
  modify fun s => { s with stack := Function.update s.stack i.toNat v, hi := max s.hi (i.toNat + 1) }

-- The nodes of a run are reached through child pointers, which nothing keeps
-- acyclic; every loop that follows them takes a fuel argument.
section Ops

variable (lessthan : Nat → Nat → Bool)

def findAndStackLoop (node : Nat) : Nat → Int → RbM Int
  | 0, _ => throw .fuel
  | fuel + 1, sz => do
    let top ← getStack (sz - 1)
    if top = some node then return sz
    -- lessthan_fn(node, NULL) on an empty tree, and get_child(NULL) after it
    let some t := top | throw .nullDeref
    let ch ← getChild top (!lessthan node t)
    match ch with
    | some _ =>
      setStack sz ch
      findAndStackLoop node fuel (sz + 1)
    | none => return sz

def findAndStack (fuel : Nat) (node : Nat) : RbM Int := do
  setStack 0 (← get).root
  findAndStackLoop lessthan node fuel 1

def zRbGetMinmaxLoop (side : Bool) : Nat → Option Nat → RbM (Option Nat)
  | 0, _ => throw .fuel
  | fuel + 1, n => do
    match n with
    | none => return none
    | some _ =>
      let c ← getChild n side
      if c = none then return n else zRbGetMinmaxLoop side fuel c

def zRbGetMinmax (fuel : Nat) (side : Bool) : RbM (Option Nat) := do
  zRbGetMinmaxLoop side fuel (← get).root

def getSide (parent child : Option Nat) : RbM Bool := return (← getChild parent true) = child

def rotate (stacksz : Int) : RbM Unit := do
  let parent ← getStack (stacksz - 2)
  let child ← getStack (stacksz - 1)
  let side ← getSide parent child
  let a ← getChild child side
  let b ← getChild child (!side)
  if stacksz ≥ 3 then
    let grandparent ← getStack (stacksz - 3)
    setChild grandparent (← getSide grandparent parent) child
  setChild child side a
  setChild child (!side) parent
  setChild parent side b
  setStack (stacksz - 2) child
  setStack (stacksz - 1) parent

-- aunt != NULL && is_red(aunt)
def isRedNode (n : Option Nat) : RbM Bool :=
  match n with
  | none => return false
  | some _ => isRed n

set_option linter.unusedVariables false in
def fixExtraRed (stacksz : Int) : RbM Unit :=
  if h : stacksz > 1 then do
    let node ← getStack (stacksz - 1)
    let parent ← getStack (stacksz - 2)
    if ← isBlack parent then return
    let grandparent ← getStack (stacksz - 3)
    let side ← getSide grandparent parent
    let aunt ← getChild grandparent (!side)
    if ← isRedNode aunt then
      setColor grandparent .red
      setColor parent .black
      setColor aunt .black
      fixExtraRed (stacksz - 2)
    else
      -- first put node on the side of parent that parent is of grandparent
      let parentSide ← getSide parent node
      if parentSide ≠ side then rotate stacksz
      rotate (stacksz - 1)
      setColor (← getStack (stacksz - 3)) .black
      setColor (← getStack (stacksz - 2)) .red
  else do
    setColor (← getStack 0) .black
termination_by stacksz.toNat
decreasing_by omega

def rbInsert (fuel : Nat) (node : Nat) : RbM Unit := do
  setChild node false none
  setChild node true none
  if (← get).root = none then
    modify fun s => { s with root := some node, maxDepth := 1 }
    setColor node .black
    return
  let stacksz ← findAndStack lessthan fuel node
  let parent ← getStack (stacksz - 1)
  let some p := parent | throw .nullDeref
  setChild parent (!lessthan node p) node
  setColor node .red
  setStack stacksz node
  let stacksz := stacksz + 1
  fixExtraRed stacksz
  if stacksz > (← get).maxDepth then modify fun s => { s with maxDepth := stacksz }
  -- the root may have been rotated away
  let root ← getStack 0
  modify fun s => { s with root := root }

-- c == NULL || is_black(c)
def isBlackOrNull (n : Option Nat) : RbM Bool :=
  match n with
  | none => return true
  | some _ => isBlack n

-- The loop of fix_missing_black: the node at the top of the stack misses a black.
def fixMissingBlack (nullNode : Option Nat) : Nat → Int → RbM Unit
  | 0, _ => throw .fuel
  | fuel + 1, stacksz => do
    if stacksz ≤ 1 then return
    let n ← getStack (stacksz - 1)
    let parent ← getStack (stacksz - 2)
    let nSide ← getSide parent n
    let sib ← getChild parent (!nSide)
    -- a red sibling is rotated up, which moves n one level down
    let (stacksz, parent, sib) ← if !(← isBlack sib) then do
        setStack (stacksz - 1) sib
        rotate stacksz
        setColor parent .red
        setColor sib .black
        setStack stacksz n
        let stacksz := stacksz + 1
        let parent ← getStack (stacksz - 2)
        pure (stacksz, parent, ← getChild parent (!nSide))
      else pure (stacksz, parent, sib)
    let c0 ← getChild sib false
    let c1 ← getChild sib true
    if (← isBlackOrNull c0) && (← isBlackOrNull c1) then
      if n = nullNode then setChild parent nSide none
      setColor sib .red
      if ← isBlack parent then
        fixMissingBlack nullNode fuel (stacksz - 1)
      else
        setColor parent .black
    else
      -- make the child of sib away from n red
      let outer ← getChild sib (!nSide)
      let (stacksz, sib, outer) ← if !(← isRedNode outer) then do
          let inner ← getChild sib nSide
          setStack (stacksz - 1) sib
          setStack stacksz inner
          rotate (stacksz + 1)
          setColor sib .red
          setColor inner .black
          let sib ← getStack (stacksz - 1)
          let outer ← getChild sib (!nSide)
          setStack (stacksz - 1) n
          pure (stacksz, sib, outer)
        else pure (stacksz, sib, outer)
      setColor sib (← getColor parent)
      setColor parent .black
      setColor outer .black
      setStack (stacksz - 1) sib
      rotate stacksz
      if n = nullNode then setChild parent nSide none

-- The descent of rb_remove to the largest node below node2.
def descendRight : Nat → Option Nat → Int → RbM (Option Nat × Int)
  | 0, _, _ => throw .fuel
  | fuel + 1, node2, stacksz => do
    let r ← getChild node2 true
    if r = none then return (node2, stacksz)
    setStack stacksz r
    descendRight fuel r (stacksz + 1)

def rbRemove (fuel : Nat) (node : Nat) : RbM Unit := do
  let stacksz ← findAndStack lessthan fuel node
  if some node ≠ (← getStack (stacksz - 1)) then return
  -- with two children, swap node with the largest node of its left subtree
  let stacksz ← if (← getChild node false) ≠ none ∧ (← getChild node true) ≠ none then do
      let stacksz0 := stacksz
      let node2 ← getChild node false
      let hiparent ← if stacksz > 1 then getStack (stacksz - 2) else pure none
      setStack stacksz node2
      let (node2, stacksz) ← descendRight fuel node2 (stacksz + 1)
      let loparent ← getStack (stacksz - 2)
      if hiparent ≠ none then setChild hiparent (← getSide hiparent node) node2
      else modify fun s => { s with root := node2 }
      if loparent = some node then
        setChild node false (← getChild node2 false)
        setChild node2 false node
      else
        setChild loparent (← getSide loparent node2) node
        let tmp ← getChild node false
        setChild node false (← getChild node2 false)
        setChild node2 false tmp
      setChild node2 true (← getChild node true)
      setChild node true none
      let tmp ← getStack (stacksz0 - 1)
      setStack (stacksz0 - 1) (← getStack (stacksz - 1))
      setStack (stacksz - 1) tmp
      let ctmp ← getColor node
      setColor node (← getColor node2)
      setColor node2 ctmp
      pure stacksz
    else pure stacksz
  let child ← getChild node false
  let child ← if child = none then getChild node true else pure child
  -- removing the root
  if stacksz < 2 then
    modify fun s => { s with root := child }
    if child ≠ none then setColor child .black
    else modify fun s => { s with maxDepth := 0 }
    return
  let parent ← getStack (stacksz - 2)
  if child = none then
    -- a childless black node stays in place until the rotations isolate it
    if ← isBlack node then fixMissingBlack node fuel stacksz
    else setChild parent (← getSide parent node) none
  else
    setChild parent (← getSide parent node) child
    if (← isRed node) || (← isRed child) then setColor child .black
  let root ← getStack 0
  modify fun s => { s with root := root }

-- On an empty tree find_and_stack stacks the NULL root and goes on to compare
-- with it and read its children.
theorem rb_remove_empty_derefs_null (lessthan : Nat → Nat → Bool) (fuel node : Nat) (s : St) :
    (rbRemove lessthan (fuel + 1) node).run { s with root := none } = .error .nullDeref := by
  rfl

def rbContainsLoop (node : Nat) : Nat → Option Nat → RbM Bool
  | 0, _ => throw .fuel
  | fuel + 1, n => do
    match n with
    | none => return false
    | some m =>
      if m = node then return true
      rbContainsLoop node fuel (← getChild n (lessthan m node))

def rbContains (fuel : Nat) (node : Nat) : RbM Bool := do
  rbContainsLoop lessthan node fuel (← get).root

end Ops

-- z_rb_walk with a visitor that records the nodes it is given.
def zRbWalk : Nat → Option Nat → RbM (List Nat)
  | 0, _ => throw .fuel
  | fuel + 1, n => do
    match n with
    | none => return []
    | some m =>
      let l ← zRbWalk fuel (← getChild n false)
      let r ← zRbWalk fuel (← getChild n true)
      return l ++ m :: r

end Zephyr.Rb
