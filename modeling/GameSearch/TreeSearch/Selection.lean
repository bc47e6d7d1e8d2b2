import GameSearch.TreeSearch.Policy
import GameSearch.TreeSearch.Tree

/-!
# GameSearch.TreeSearch.Selection

The node that an iteration works on. From the root the search goes to the first child that has
not been visited, or else to the first grandchild that has not been visited, or else to the
child that the policy picks, and so on. It stops at terminal nodes too, however often they
have been visited. A visited node without children is a dead end.

When several workers share a tree, the one that works below a child of the root holds the
permit of that child, and the one that visits the root for the first time holds the permit of
the root.
-/

namespace GameSearch.TreeSearch

variable {σ μ V : Type} [Utility V]

inductive Step where
  | stuck
  | target (path : Path)
  | descend (child : Nat)
  deriving DecidableEq, Repr

def isUnvisited (t : Tree σ μ V) : Bool := t.label.isUnvisited

def step (policy : Policy V) (n : Node σ μ V) (children : List (Tree σ μ V)) : Step :=
  match children with
  | [] => .stuck
  | _ =>
    match children.findIdx? isUnvisited with
    | some i => .target [i]
    | none =>
      match Tree.findBelow isUnvisited children with
      | some (i, j) => .target [i, j]
      | none => .descend (policy.pick n.kind.isMax n.stats.visits (children.map Tree.stats))

mutual

/-- The path of the node to work on, unless the walk ends in a dead end. -/
def descend (policy : Policy V) : Tree σ μ V → Option Path
  | .node n children =>
    if n.isUnvisited || n.terminal then some []
    else
      match step policy n children with
      | .stuck => none
      | .target path => some path
      | .descend i =>
        match descendInto policy children i with
        | none => none
        | some path => some (i :: path)

def descendInto (policy : Policy V) : List (Tree σ μ V) → Nat → Option Path
  | [], _ => none
  | t :: _, 0 => descend policy t
  | _ :: rest, i + 1 => descendInto policy rest i

end

inductive Locking where
  | exclusive
  | rootPermits
  deriving DecidableEq, Repr

/-- The node whose permit the work at a path needs: the child of the root above it, or the
root itself before its first visit. -/
def guardOf (root : Tree σ μ V) : Path → Option Path
  | i :: _ => some [i]
  | [] => if isUnvisited root then some [] else none

structure Selection where
  target : Path
  guard : Option Path
  deriving DecidableEq, Repr

def isBusy (root : Tree σ μ V) (path : Path) : Bool :=
  match root.get? path with
  | none => false
  | some t => t.label.busy

/-- Nothing is selected when the walk ends in a dead end or when somebody else holds the
permit that is needed. -/
def select (policy : Policy V) (locking : Locking) (root : Tree σ μ V) : Option Selection :=
  match descend policy root with
  | none => none
  | some path =>
    match locking with
    | .exclusive => some ⟨path, none⟩
    | .rootPermits =>
      match guardOf root path with
      | none => some ⟨path, none⟩
      | some guard => if isBusy root guard then none else some ⟨path, some guard⟩

end GameSearch.TreeSearch
