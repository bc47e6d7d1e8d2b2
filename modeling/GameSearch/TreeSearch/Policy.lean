import GameSearch.TreeSearch.Statistics

/-!
# GameSearch.TreeSearch.Policy

Which child a search goes on with below a node whose children and grandchildren have all been
visited. Nothing but the choice of some child matters for the soundness of a search, so a
policy is any rule that picks one. `ucb` is the rule that searches use: the child with the
greatest upper confidence bound, the first of equal ones.
-/

namespace GameSearch.TreeSearch

structure Policy (V : Type) where
  /-- Given whether the agent is to move at the parent, the parent's visits, and the
  statistics of its children. -/
  pick : Bool → UInt32 → List (Stats V) → Nat
  pick_lt : ∀ (toMove : Bool) (visits : UInt32) (children : List (Stats V)),
    children ≠ [] → pick toMove visits children < children.length

def polarity (toMove : Bool) : Float := if toMove then 1 else -1

def infinity : Float := 1 / 0

/-- The mean, seen from the parent, and a bonus that shrinks with the visits of the child. An
unvisited child comes before all others. -/
def Stats.ucb (s : Stats Float) (parentVisits : UInt32) (sign exploration : Float) : Float :=
  match s.mean with
  | .none => infinity
  | some mean =>
    let spread := exploration * (max parentVisits 1).toFloat.log / s.visits.toFloat
    sign * mean + spread.sqrt

def greatestFrom : List Float → Nat → Nat → Float → Nat
  | [], _, best, _ => best
  | x :: rest, position, best, top =>
    if x > top then greatestFrom rest (position + 1) position x
    else greatestFrom rest (position + 1) best top

/-- The first position of the greatest number. Numbers that compare with none, and the least
one of all, never come before the first position. -/
def greatest (xs : List Float) : Nat := greatestFrom xs 0 0 (-infinity)

theorem greatestFrom_lt {n : Nat} (xs : List Float) {position best : Nat} (top : Float)
    (hbest : best < n) (hn : position + xs.length ≤ n) :
    greatestFrom xs position best top < n := by
  induction xs generalizing position best top with
  | nil => simpa [greatestFrom] using hbest
  | cons x rest ih =>
    simp only [List.length_cons] at hn
    simp only [greatestFrom]
    split
    · exact ih x (by omega) (by omega)
    · exact ih top hbest (by omega)

theorem greatest_lt {xs : List Float} (h : xs ≠ []) : greatest xs < xs.length :=
  greatestFrom_lt xs (-infinity) (List.length_pos_iff.2 h) (by omega)

def Policy.ucb (exploration : Float) : Policy Float where
  pick toMove visits children :=
    greatest (children.map fun s => s.ucb visits (polarity toMove) exploration)
  pick_lt toMove visits children h := by
    have h' : (children.map fun s => s.ucb visits (polarity toMove) exploration) ≠ [] := by
      simpa using h
    simpa using greatest_lt h'

end GameSearch.TreeSearch
