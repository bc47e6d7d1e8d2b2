import GameSearch.Match.Contest
import GameSearch.Match.Plan

/-!
# GameSearch.Match.Series

The games of a plan, one after the other from the empty board, with entries for the journal and
a count of the results. The seed of each game is one more than that of the game before.
-/

namespace GameSearch.Match

open TicTacToe

structure Standings where
  xWins : Nat := 0
  oWins : Nat := 0
  draws : Nat := 0
  deriving DecidableEq, Repr

def Standings.add (t : Standings) : Option Mark → Standings
  | some .x => { t with xWins := t.xWins + 1 }
  | some .o => { t with oWins := t.oWins + 1 }
  | none => { t with draws := t.draws + 1 }

/-! ## Entries for the journal -/

def remark (message : String) (fields : List (String × String)) : Journal.Entry :=
  ⟨.info, "player", message, fields⟩

def starting (number : Nat) (x o : Engine) : Journal.Entry :=
  remark "Starting game"
    [("game", toString number), ("x_engine", x.title), ("o_engine", o.title)]

/-- Time is not moving, so that a move takes none. -/
def moved (number : Nat) (t : Turn) : Journal.Entry :=
  ⟨.info, "player::runner", "Move played",
    [("turn", toString number), ("player", t.mover.name), ("engine", t.engine.title),
      ("action", t.action.text), ("elapsed_ms", "0")]⟩

def winnerText : Option Mark → String
  | none => "None"
  | some m => "Some(" ++ m.name ++ ")"

def ended (out : Outcome) : Journal.Entry :=
  ⟨.info, "player::runner", "Game over",
    [("x_goal", toString out.goals.x.toInt), ("o_goal", toString out.goals.o.toInt),
      ("winner", winnerText out.final.winner), ("turns", toString out.moves.length)]⟩

def movesFrom : Nat → List Turn → List Journal.Entry
  | _, [] => []
  | number, t :: rest => moved number t :: movesFrom (number + 1) rest

def complete (t : Standings) : Journal.Entry :=
  remark "Match complete"
    [("x_wins", toString t.xWins), ("o_wins", toString t.oWins), ("draws", toString t.draws)]

/-! ## Playing -/

/-- Clocks, in seconds, as allowances when time is not moving. -/
def Plan.schedule (p : Plan) (o : SeatOptions) : Schedule :=
  let start := Allowance.ofClock o (p.startClock.toNat * 1000)
  let turn := Allowance.ofClock o (p.playClock.toNat * 1000)
  ⟨⟨start, start⟩, fun _ => ⟨turn, turn⟩⟩

def Plan.contest (p : Plan) (o : SeatOptions) (x o' : Engine) (number : Nat) :
    List Turn × Except SeatError Outcome :=
  let o := { o with seed := o.seed + UInt64.ofNat number }
  Contest.run (p.schedule o) patience patience .initial
    ⟨.create x .x .initial o, .create o' .o .initial o⟩

def Plan.playGames (p : Plan) (o : SeatOptions) (x o' : Engine) :
    Nat → Standings → List Journal.Entry × Except SeatError Standings
  | 0, t => ([], .ok t)
  | n + 1, t =>
    let number := p.games.toNat - (n + 1)
    let (turns, result) := p.contest o x o' number
    let entries := starting (number + 1) x o' :: movesFrom 1 turns
    match result with
    | .error e => (entries, .error e)
    | .ok out =>
      let (more, result) := p.playGames o x o' n (t.add out.final.winner)
      (entries ++ ended out :: more, result)

def Plan.play (p : Plan) (o : SeatOptions) (x o' : Engine) :
    List Journal.Entry × Except SeatError Standings :=
  p.playGames o x o' p.games.toNat {}

end GameSearch.Match
