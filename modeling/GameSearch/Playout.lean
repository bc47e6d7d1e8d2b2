import GameSearch.Game
import GameSearch.Random.Source

/-!
# GameSearch.Playout

Random plays: joint moves are drawn until a terminal state is reached, and the play is worth
the goal of one agent there. A play is cut off with `SearchError.unfinished` when it is longer
than its bound.
-/

namespace GameSearch

structure Playout where
  goal : Int32
  /-- The number of joint moves, in 32 bits. -/
  depth : UInt32
  /-- The number of joint moves, however many there are. The queries of a search are counted by
  it. -/
  moves : Nat
  deriving DecidableEq, Repr

namespace Game

variable {σ μ α γ : Type} [RandomSource γ]

def drawEach (game : Game σ μ α) (s : σ) : List α → γ → Except RuleError (JointMove μ) × γ
  | [], g => (.ok [], g)
  | a :: rest, g =>
    match game.legalMoves s a with
    | .error e => (.error e, g)
    | .ok moves =>
      match RandomSource.choose moves g with
      | (none, g) => (.error (game.noLegalMoves s a), g)
      | (some m, g) =>
        match drawEach game s rest g with
        | (.error e, g) => (.error e, g)
        | (.ok joint, g) => (.ok (m :: joint), g)

def drawJoint (game : Game σ μ α) (s : σ) (g : γ) : Except RuleError (JointMove μ) × γ :=
  match game.offered with
  | none => drawEach game s game.agents g
  | some offers =>
    match offers s with
    | .error e => (.error e, g)
    | .ok joints =>
      match RandomSource.choose joints g with
      | (none, g) => (.error (.noLegalMoves (game.showState s) ""), g)
      | (some joint, g) => (.ok joint, g)

/-- A random play of at most `bound` steps, for the goal of `a`, behind the `moves` that were made
before it. -/
def playoutFrom (game : Game σ μ α) (a : α) :
    Nat → σ → UInt32 → Nat → γ → Except SearchError Playout × γ
  | bound, s, depth, moves, g =>
    if game.terminal s then
      match game.goal s a with
      | .error e => (.error (.rule e), g)
      | .ok v => (.ok ⟨v, depth, moves⟩, g)
    else
      match bound with
      | 0 => (.error .unfinished, g)
      | bound + 1 =>
        match drawJoint game s g with
        | (.error e, g) => (.error (.rule e), g)
        | (.ok joint, g) =>
          match game.next s joint with
          | .error e => (.error (.rule e), g)
          | .ok s' => playoutFrom game a bound s' (depth + 1) (moves + 1) g

def playout (game : Game σ μ α) (bound : Nat) (s : σ) (a : α) (g : γ) :
    Except SearchError Playout × γ :=
  playoutFrom game a bound s 0 0 g

end Game

end GameSearch
