import GameSearch.TreeSearch.Iteration

/-!
# GameSearch.TreeSearch.Merge

The sum of two trees with the same root state. Siblings that stand for the same outcome are
added up; what only the other tree has is copied behind the children that are there. Permits
are not copied.
-/

namespace GameSearch.TreeSearch

variable {σ μ V γ : Type} [Utility V] [DecidableEq σ] [DecidableEq μ]

mutual

def graft : Home → Tree σ μ V → Tree σ μ V
  | home, .node n children =>
    let (n, copies) := (n.detachedCopy home).adopt [] (graftAll home 0 children)
    .node n copies

/-- Copies of some subtrees as the `i`-th child of the node at a home and the following ones. -/
def graftAll : Home → Nat → List (Tree σ μ V) → List (Tree σ μ V)
  | _, _, [] => []
  | parent, i, t :: rest => graft (parent.child i) t :: graftAll parent (i + 1) rest

end

mutual

def merge : Tree σ μ V → Tree σ μ V → Tree σ μ V
  | .node n ours, .node m theirs =>
    let (kept, grafted) := mergeChildren n.home ours.length ours theirs
    if grafted.isEmpty then .node (n.absorb m.stats) kept
    else
      let (n, children) := (n.absorb m.stats).adopt kept grafted
      .node n children

/-- Our children with theirs added to them, and copies of those of theirs that we lack, for the
`i`-th child of the node at a home and the following ones. -/
def mergeChildren : Home → Nat → List (Tree σ μ V) → List (Tree σ μ V) →
    List (Tree σ μ V) × List (Tree σ μ V)
  | _, _, ours, [] => (ours, [])
  | parent, i, ours, t :: rest =>
    match ours.findIdx? fun u => u.label.sameOutcome t.label with
    | some k => mergeChildren parent i (ours.modify k fun u => merge u t) rest
    | none =>
      let (kept, grafted) := mergeChildren parent (i + 1) ours rest
      (kept, graft (parent.child i) t :: grafted)

end

namespace Session

/-- The answer tells whether the roots hold the same state; otherwise nothing changes. -/
def merge (x y : Session σ μ V γ) : Bool × Session σ μ V γ :=
  if x.root.state = y.root.state then
    (true, { x with root := TreeSearch.merge x.root y.root,
                    counters := x.counters.absorb y.counters })
  else (false, x)

end Session

end GameSearch.TreeSearch
