import GameSearch.Text.Quoted

/-!
# GameSearch.TicTacToe.Board

Positions of tic-tac-toe. A cell holds a byte: zero when it is empty, one and two for the
marks of the players, and any other byte for a foreign mark, which fills its cell and can make
a line but never moves.
-/

namespace GameSearch.TicTacToe

inductive Mark where
  | x
  | o
  deriving DecidableEq, Repr

namespace Mark

def other : Mark → Mark
  | .x => .o
  | .o => .x

def index : Mark → Nat
  | .x => 0
  | .o => 1

def cell : Mark → UInt8
  | .x => 1
  | .o => 2

def name : Mark → String
  | .x => "X"
  | .o => "O"

end Mark

abbrev Board := Vector UInt8 9

namespace Board

def empty : Board := Vector.replicate 9 0

def lines : List (Fin 9 × Fin 9 × Fin 9) :=
  [(0, 1, 2), (3, 4, 5), (6, 7, 8), (0, 3, 6), (1, 4, 7), (2, 5, 8), (0, 4, 8), (2, 4, 6)]

def isComplete (b : Board) (l : Fin 9 × Fin 9 × Fin 9) : Bool :=
  b[l.1] != 0 && b[l.1] == b[l.2.1] && b[l.2.1] == b[l.2.2]

def isFull (b : Board) : Bool := b.all (· != 0)

/-- How the game on a board stands: zero while it goes on, the byte on the first complete
line, or three for a full board without one. -/
def verdict (b : Board) : UInt8 :=
  match lines.find? b.isComplete with
  | some l => b[l.1]
  | none => if b.isFull then 3 else 0

def count (b : Board) (m : Mark) : Nat := b.toList.count m.cell

def text (b : Board) : String :=
  Text.bracketed (b.toList.map fun c => toString c.toNat)

end Board

structure Position where
  board : Board
  player : Mark
  verdict : UInt8
  deriving DecidableEq, Repr

namespace Position

def initial : Position := ⟨Board.empty, .x, 0⟩

def ofBoard (b : Board) : Position :=
  ⟨b, if b.count .x > b.count .o then .o else .x, b.verdict⟩

def isDone (p : Position) : Bool := p.verdict != 0

def isDraw (p : Position) : Bool := p.verdict == 3

def winner (p : Position) : Option Mark :=
  if p.verdict = 1 then some .x else if p.verdict = 2 then some .o else none

def isOpen (p : Position) (c : Fin 9) : Bool := p.board[c] == 0

/-- The empty cells, or none when the game is over. -/
def openCells (p : Position) : List (Fin 9) :=
  if p.isDone then [] else (List.finRange 9).filter p.isOpen

/-- The player to move takes an empty cell. The winning or last mark leaves the turn as it
is. -/
def place (p : Position) (c : Fin 9) : Position :=
  let board : Board := p.board.set c p.player.cell
  ⟨board, if board.verdict = 0 then p.player.other else p.player, board.verdict⟩

def move (p : Position) (cell : UInt8) : Position :=
  if h : cell.toNat < 9 then
    let c : Fin 9 := ⟨cell.toNat, h⟩
    if p.isDone || !p.isOpen c then p else p.place c
  else p

def text (p : Position) : String :=
  "State \x7b board: " ++ p.board.text ++ ", current_player: " ++ toString p.player.cell.toNat ++
    ", winner: " ++ toString p.verdict.toNat ++ " \x7d"

end Position

end GameSearch.TicTacToe
