import GameSearch.Game
import GameSearch.Score

/-!
# GameSearch.Minimax.Problem

What a minimax search is asked: a game, the agent who moves, an evaluator for positions that
are not searched further, and how deep to look. A move of the agent and the reply of the
others together count as one unit of depth. Every search looks at least one unit deep.
-/

namespace GameSearch

/-- The longest play that a search follows where its caller sets no other bound. -/
def patience : Nat := Nat.pow 2 40

namespace Minimax

/-- A value for positions at which a search stops, and how many goals it looks up for it. -/
structure Evaluator (σ α : Type) where
  value : σ → α → Except RuleError Int32
  queries : σ → α → Nat

inductive Heuristic where
  | constant (value : Int32)
  | goal (fallback : Int32)
  deriving DecidableEq, Repr

namespace Heuristic

variable {σ μ α : Type}

def goalOr (game : Game σ μ α) (fallback : Int32) (s : σ) (a : α) : Except RuleError Int32 :=
  match game.goal s a with
  | .error (.goal _ _) => .ok fallback
  | answer => answer

def evaluator (game : Game σ μ α) : Heuristic → Evaluator σ α
  | .constant v => ⟨fun _ _ => .ok v, fun _ _ => 0⟩
  | .goal fallback => ⟨goalOr game fallback, fun _ _ => 1⟩

end Heuristic

structure Problem (σ μ α : Type) where
  game : Game σ μ α
  agent : α
  evaluator : Evaluator σ α
  maxDepth : Option Nat

/-- Whether the depth alone ends a search at a position. It never does at the root. -/
def Problem.atLimit {σ μ α : Type} (p : Problem σ μ α) (depth : Nat) : Bool :=
  match p.maxDepth with
  | none => false
  | some limit => 0 < depth && limit ≤ depth

@[simp] theorem Problem.atLimit_zero {σ μ α : Type} (p : Problem σ μ α) :
    p.atLimit 0 = false := by
  cases h : p.maxDepth <;> simp [atLimit, h]

/-- What a search did: positions entered, before and after the agent's move; terminal
positions scored; positions evaluated; and lists of moves or replies that were cut short. -/
structure Tally where
  nodes : Nat := 0
  terminals : Nat := 0
  estimates : Nat := 0
  cutoffs : Nat := 0
  deriving DecidableEq, Repr

namespace Tally

def enter (t : Tally) : Tally := { t with nodes := t.nodes + 1 }

def exact (t : Tally) : Tally := { t with terminals := t.terminals + 1 }

def estimate (t : Tally) : Tally := { t with estimates := t.estimates + 1 }

def cut (t : Tally) : Tally := { t with cutoffs := t.cutoffs + 1 }

end Tally

structure Report (μ : Type) where
  score : Score μ
  tally : Tally
  deriving DecidableEq, Repr

def keepBetter {μ : Type} : Option (Score μ) → Score μ → Score μ
  | none, score => score
  | some best, score => best.betterOf score

def keepWorse {μ : Type} : Option (Score μ) → Score μ → Score μ
  | none, score => score
  | some worst, score => worst.worseOf score

end Minimax

end GameSearch
