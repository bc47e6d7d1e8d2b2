import GameSearch.Game
import GameSearch.TicTacToe.Board

/-!
# GameSearch.TicTacToe.Rules

Tic-tac-toe as a game of two agents who move at once: the player to move places a mark and the
other one passes. A win is worth 100, a draw 50 and a loss 0.
-/

namespace GameSearch.TicTacToe

inductive Action where
  | place (cell : UInt8)
  | pass
  deriving DecidableEq, Repr

def Action.text : Action → String
  | .place cell => "Place(" ++ toString cell.toNat ++ ")"
  | .pass => "Noop"

def legalMoves (p : Position) (m : Mark) : List Action :=
  if p.isDone then []
  else if p.player = m then p.openCells.map fun c : Fin 9 => .place (UInt8.ofNat c.val)
  else [.pass]

/-- The joint move in which `m` makes the move `a` and the other agent the move `b`. -/
def pair (m : Mark) (a b : Action) : JointMove Action :=
  match m with
  | .x => [a, b]
  | .o => [b, a]

def replies (p : Position) (m : Mark) (a : Action) : List (JointMove Action) :=
  (legalMoves p m.other).map (pair m a)

/-- The checks come in a fixed order: number of moves, end of the game, idle agent, mover. -/
def next (p : Position) (joint : JointMove Action) : Except RuleError Position :=
  match joint with
  | [a, b] =>
    if p.isDone then
      .error (.transition ("No successor for finished game " ++ p.board.text))
    else
      let (mine, idle) := match p.player with
        | .x => (a, b)
        | .o => (b, a)
      match idle with
      | .place _ =>
        .error (.move (p.player.other.name ++ " must play Noop while " ++ p.player.name ++
          " moves, got " ++ idle.text))
      | .pass =>
        let refused : RuleError :=
          .move ("Illegal move " ++ mine.text ++ " for " ++ p.player.name ++ " on board " ++
            p.board.text)
        match mine with
        | .pass => .error refused
        | .place cell =>
          if h : cell.toNat < 9 then
            if p.isOpen ⟨cell.toNat, h⟩ then .ok (p.move cell) else .error refused
          else .error refused
  | _ => .error (.move ("Expected 2 moves in joint move, got " ++ toString joint.length))

def outcome (p : Position) (m : Mark) : Int32 :=
  match p.winner with
  | none => 50
  | some w => if w = m then 100 else 0

def goal (p : Position) (m : Mark) : Except RuleError Int32 :=
  if p.isDone then .ok (outcome p m) else .error (.goal p.board.text m.name)

def game : Game Position Action Mark where
  agents := [.x, .o]
  legalMoves p m := .ok (legalMoves p m)
  replies p m a := .ok (replies p m a)
  next := next
  terminal := Position.isDone
  goal := goal
  offered := none
  showState := Position.text
  showMove := Action.text
  showAgent := Mark.name

end GameSearch.TicTacToe
