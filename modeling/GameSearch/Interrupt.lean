/-!
# GameSearch.Interrupt

The moment at which a running search is told to stop. A search only notices it between the
questions that it asks the rules, so the moment is given by a number of queries: a search is
interrupted when it begins the query with that number, counted from one, or before it starts
when the number is zero. It then stays interrupted.
-/

namespace GameSearch

structure Interrupt where
  during : Option Nat
  deriving DecidableEq, Repr

namespace Interrupt

def never : Interrupt := ⟨none⟩

def fromStart : Interrupt := ⟨some 0⟩

/-- Whether the search is interrupted once it has begun this many queries. -/
def isRaised (i : Interrupt) (queries : Nat) : Bool :=
  match i.during with
  | none => false
  | some k => k ≤ queries

theorem isRaised_mono {i : Interrupt} {m n : Nat} (h : i.isRaised m) (hmn : m ≤ n) :
    i.isRaised n := by
  unfold isRaised at *
  split at h
  · cases h
  · simp only [decide_eq_true_eq] at *
    omega

end Interrupt

end GameSearch
