/-!
# GameSearch.TreeSearch.Statistics

What a search tree records at a node: how often it was visited and the sum of the scores that
the visits brought. Scores are values of a type with the few operations that a search needs,
so that the same search can count with binary floating-point numbers or exactly.
-/

namespace GameSearch.TreeSearch

class Utility (V : Type) where
  zero : V
  add : V → V → V
  ofGoal : Int32 → V
  /-- Division by a count. -/
  divide : V → UInt32 → V
  less : V → V → Bool

instance : Utility Float where
  zero := 0
  add := (· + ·)
  ofGoal := Int32.toFloat
  divide x n := x / n.toFloat
  less x y := x < y

instance : Utility Rat where
  zero := 0
  add := (· + ·)
  ofGoal goal := goal.toInt
  divide x n := x / n.toNat
  less x y := x < y

structure Stats (V : Type) where
  visits : UInt32
  utility : V
  deriving DecidableEq, Repr

namespace Stats

variable {V : Type} [Utility V]

def none : Stats V := ⟨0, Utility.zero⟩

def isUnvisited (s : Stats V) : Bool := s.visits == 0

/-- There is no mean before the first visit. -/
def mean (s : Stats V) : Option V :=
  if s.isUnvisited then .none else some (Utility.divide s.utility s.visits)

def record (s : Stats V) (score : V) : Stats V := ⟨s.visits + 1, Utility.add s.utility score⟩

/-- The visits of another node are counted too. -/
def absorb (s t : Stats V) : Stats V := ⟨s.visits + t.visits, Utility.add s.utility t.utility⟩

end Stats

end GameSearch.TreeSearch
