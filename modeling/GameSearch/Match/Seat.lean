import GameSearch.Match.Engine
import GameSearch.Minimax.AlphaBeta
import GameSearch.Minimax.FullWidth
import GameSearch.Random.Keystream
import GameSearch.TicTacToe.Rules
import GameSearch.TreeSearch.Root
import GameSearch.TreeSearch.Settings

/-!
# GameSearch.Match.Seat

A player of a match: a mark and an engine with what it keeps between its moves. Only the random
engine and the tree search keep anything; the tree search also has a use for the time before
the first move.

How far the searches go is given from outside for each of them, as an allowance. Full-width
minimax has none: it is limited by its depth alone.
-/

namespace GameSearch.Match

open TicTacToe

structure SeatOptions where
  alphaBeta : Minimax.AlphaBeta.Settings
  depthBound : Option Nat
  heuristic : Minimax.Heuristic
  trees : TreeSearch.Settings
  seed : UInt64

structure Allowance where
  budget : Minimax.AlphaBeta.Budget
  deadline : Int
  interrupt : Interrupt
  rota : TreeSearch.Rota

/-- How many queries of a tree search count as a millisecond. -/
def pace : Nat := 10

/-- The allowance for a clock in milliseconds when time is not moving. A search that is left no
time at all is interrupted from the start; a tree search is interrupted after some queries. -/
def Allowance.ofClock (o : SeatOptions) (clock : Nat) : Allowance where
  budget := .still 0 (clock * 1000000) o.alphaBeta.safetyMargin
  deadline := clock * 1000000
  interrupt := ⟨some ((clock - o.trees.safetyMargin) * pace)⟩
  rota := .even o.trees.workers patience

inductive SeatError where
  | search (e : SearchError)
  | rule (e : RuleError)
  | noMove (m : Mark)
  deriving DecidableEq, Repr

def SeatError.message : SeatError → String
  | .search e => e.message
  | .rule e => e.message
  | .noMove m => "no legal move for " ++ m.name

inductive Player where
  | alphaBeta (p : Minimax.Problem Position Action Mark) (settings : Minimax.AlphaBeta.Settings)
  | minimax (p : Minimax.Problem Position Action Mark)
  | treeSearch (settings : TreeSearch.Settings)
      (session : TreeSearch.Session Position Action Float Keystream)
  | random (rng : Keystream)

structure Seat where
  mark : Mark
  player : Player

namespace Seat

/-- Two seats with the same options draw different numbers. -/
def seedFor (seed : UInt64) (m : Mark) : UInt64 := seed + UInt64.ofNat (m.index * 1000)

def problem (o : SeatOptions) (m : Mark) (maxDepth : Option Nat) :
    Minimax.Problem Position Action Mark :=
  ⟨game, m, o.heuristic.evaluator game, maxDepth⟩

def create (e : Engine) (m : Mark) (initial : Position) (o : SeatOptions) : Seat where
  mark := m
  player :=
    match e with
    | .alphaBeta => .alphaBeta (problem o m o.alphaBeta.maxDepth) o.alphaBeta
    | .minimax => .minimax (problem o m o.depthBound)
    | .treeSearch =>
      let settings := { o.trees with seed := seedFor o.seed m }
      .treeSearch settings (.start (settings.setup game m patience) initial settings.seed)
    | .random => .random (.seeded (seedFor o.seed m))

def engine (x : Seat) : Engine :=
  match x.player with
  | .alphaBeta .. => .alphaBeta
  | .minimax _ => .minimax
  | .treeSearch .. => .treeSearch
  | .random _ => .random

/-- The use of the time before the first move. -/
def prepare (a : Allowance) (bound : Nat) (x : Seat) : Except SeatError Unit × Seat :=
  match x.player with
  | .treeSearch settings session =>
    let p := settings.setup game x.mark bound
    match session.searchWith p settings.mode settings.workers a.rota a.interrupt with
    | (.error e, _, session) => (.error (.search e), ⟨x.mark, .treeSearch settings session⟩)
    | (.ok _, _, session) => (.ok (), ⟨x.mark, .treeSearch settings session⟩)
  | _ => (.ok (), x)

def searched : Except SearchError Action → Except SeatError Action
  | .ok m => .ok m
  | .error e => .error (.search e)

def play (a : Allowance) (bound : Nat) (s : Position) (x : Seat) :
    Except SeatError Action × Seat :=
  match x.player with
  | .alphaBeta p settings =>
    (searched (Minimax.AlphaBeta.selectMove p settings a.budget a.deadline bound s), x)
  | .minimax p => (searched (Minimax.FullWidth.selectMove p bound s), x)
  | .treeSearch settings session =>
    let p := settings.setup game x.mark bound
    let (_, session) := session.updateRoot p s
    match session.searchWith p settings.mode settings.workers a.rota a.interrupt with
    | (.error e, _, session) => (.error (.search e), ⟨x.mark, .treeSearch settings session⟩)
    | (.ok _, _, session) =>
      (searched (session.chooseMove p), ⟨x.mark, .treeSearch settings session⟩)
  | .random rng =>
    match game.legalMoves s x.mark with
    | .error e => (.error (.rule e), x)
    | .ok moves =>
      match RandomSource.choose moves rng with
      | (none, rng) => (.error (.noMove x.mark), ⟨x.mark, .random rng⟩)
      | (some m, rng) => (.ok m, ⟨x.mark, .random rng⟩)

end Seat

end GameSearch.Match
