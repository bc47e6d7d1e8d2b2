import GameSearch.Playout
import GameSearch.TreeSearch.Expansion

/-!
# GameSearch.TreeSearch.Simulation

The score of a node. A terminal node scores its goal. Any other node scores the mean goal of
some random plays; below a min node each play starts with a random reply to the agent's move.

The counters of a search count iterations that were completed and that were given up, random
plays, and the joint moves made in them. The moves of a play are counted when it ends, the
plays when all plays of the simulation have ended.
-/

namespace GameSearch.TreeSearch

structure Counters where
  iterations : UInt64 := 0
  retries : UInt64 := 0
  playouts : UInt64 := 0
  playoutMoves : UInt64 := 0
  deriving DecidableEq, Repr

namespace Counters

def completed (c : Counters) : Counters := { c with iterations := c.iterations + 1 }

def retried (c : Counters) : Counters := { c with retries := c.retries + 1 }

def moved (c : Counters) (depth : UInt32) : Counters :=
  { c with playoutMoves := c.playoutMoves + depth.toUInt64 }

def played (c : Counters) (plays : UInt32) : Counters :=
  { c with playouts := c.playouts + plays.toUInt64 }

def absorb (c d : Counters) : Counters :=
  ⟨c.iterations + d.iterations, c.retries + d.retries, c.playouts + d.playouts,
    c.playoutMoves + d.playoutMoves⟩

end Counters

variable {σ μ α V γ : Type} [Utility V] [RandomSource γ]

namespace Setup

def plays (p : Setup σ μ α V) : UInt32 := max p.playouts 1

/-- A random play after a random choice among the replies to a move. -/
def playAfter (p : Setup σ μ α V) (s : σ) (action : μ) (joints : List (JointMove μ)) (g : γ) :
    Except SearchError Playout × γ :=
  match RandomSource.choose joints g with
  | (none, g) => (.error (.rule (p.game.noJointMoves s action)), g)
  | (some joint, g) =>
    match p.game.next s joint with
    | .error e => (.error (.rule e), g)
    | .ok s' => p.game.playoutFrom p.agent p.patience s' 1 1 g

/-- The sum of the goals of `n` plays, and the queries made for them. A play makes one query
for each of its moves and one for the goal. -/
def sumPlays (draw : γ → Except SearchError Playout × γ) :
    Nat → V → Nat → Counters → γ → Except SearchError (V × Nat) × Counters × γ
  | 0, total, asked, c, g => (.ok (total, asked), c, g)
  | n + 1, total, asked, c, g =>
    match draw g with
    | (.error e, g) => (.error e, c, g)
    | (.ok play, g) =>
      sumPlays draw n (Utility.add total (Utility.ofGoal play.goal)) (asked + play.moves + 1)
        (c.moved play.depth) g

def meanOf (p : Setup σ μ α V) (draw : γ → Except SearchError Playout × γ) (c : Counters)
    (g : γ) : Except SearchError (V × Nat) × Counters × γ :=
  match sumPlays draw p.plays.toNat Utility.zero 0 c g with
  | (.error e, c, g) => (.error e, c, g)
  | (.ok (total, asked), c, g) =>
    (.ok (Utility.divide total p.plays, asked), c.played p.plays, g)

def simulate (p : Setup σ μ α V) (n : Node σ μ V) (c : Counters) (g : γ) :
    Except SearchError (V × Nat) × Counters × γ :=
  if n.terminal then
    match p.game.goal n.state p.agent with
    | .error e => (.error (.rule e), c, g)
    | .ok v => (.ok (Utility.ofGoal v, 1), c, g)
  else
    match n.kind with
    | .max => p.meanOf (p.game.playout p.patience n.state p.agent) c g
    | .min action =>
      match p.game.replies n.state p.agent action with
      | .error e => (.error (.rule e), c, g)
      | .ok joints => p.meanOf (p.playAfter n.state action joints) c g

end Setup

end GameSearch.TreeSearch
