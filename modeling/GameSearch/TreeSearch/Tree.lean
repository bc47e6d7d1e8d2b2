import GameSearch.TreeSearch.Node

/-!
# GameSearch.TreeSearch.Tree

Search trees. A node is found by its path, the positions of the children to go through from
the root.
-/

namespace GameSearch.TreeSearch

inductive Tree (σ μ V : Type) where
  | node (label : Node σ μ V) (children : List (Tree σ μ V))

namespace Tree

variable {σ μ V : Type}

def label : Tree σ μ V → Node σ μ V
  | .node l _ => l

def children : Tree σ μ V → List (Tree σ μ V)
  | .node _ cs => cs

def stats (t : Tree σ μ V) : Stats V := t.label.stats

def state (t : Tree σ μ V) : σ := t.label.state

def leaf (l : Node σ μ V) : Tree σ μ V := .node l []

def get? : Path → Tree σ μ V → Option (Tree σ μ V)
  | [], t => some t
  | i :: path, .node _ cs =>
    match cs[i]? with
    | none => none
    | some c => get? path c

def modify (f : Tree σ μ V → Tree σ μ V) : Path → Tree σ μ V → Tree σ μ V
  | [], t => f t
  | i :: path, .node l cs => .node l (cs.modify i (modify f path))

def relabel (f : Node σ μ V → Node σ μ V) (path : Path) (t : Tree σ μ V) : Tree σ μ V :=
  modify (fun | .node l cs => .node (f l) cs) path t

/-- One more visit, with its score, for each node from the root to a path. -/
def record [Utility V] (score : V) : Path → Tree σ μ V → Tree σ μ V
  | [], .node l cs => .node (l.record score) cs
  | i :: path, .node l cs => .node (l.record score) (cs.modify i (record score path))

/-- The first child of a child that satisfies `p`, with the positions of both. -/
def findBelow (p : Tree σ μ V → Bool) : List (Tree σ μ V) → Option (Nat × Nat)
  | [] => none
  | c :: rest =>
    match c.children.findIdx? p with
    | some j => some (0, j)
    | none =>
      match findBelow p rest with
      | some (i, j) => some (i + 1, j)
      | none => none

mutual

def size : Tree σ μ V → Nat
  | .node _ cs => sizeAll cs + 1

def sizeAll : List (Tree σ μ V) → Nat
  | [] => 0
  | t :: rest => t.size + sizeAll rest

end

mutual

def depth : Tree σ μ V → Nat
  | .node _ cs => depthBelow cs

def depthBelow : List (Tree σ μ V) → Nat
  | [] => 0
  | t :: rest => max (t.depth + 1) (depthBelow rest)

end

mutual

/-- The subtrees down to a number of levels, each with its level, a parent before its
children. -/
def upTo (levels level : Nat) : Tree σ μ V → List (Nat × Tree σ μ V)
  | .node l cs =>
    (level, .node l cs) :: (if level < levels then upToAll levels (level + 1) cs else [])

def upToAll (levels level : Nat) : List (Tree σ μ V) → List (Nat × Tree σ μ V)
  | [] => []
  | t :: rest => upTo levels level t ++ upToAll levels level rest

end

end Tree

end GameSearch.TreeSearch
