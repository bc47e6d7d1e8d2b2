import GameSearch.Match.Seat

/-!
# GameSearch.Match.Contest

One game between two seats. In every turn both seats are asked for a move, and their answers
together make the joint move; the seat that is not to move passes. A contest is given up when it
has more turns than its bound.
-/

namespace GameSearch.Match

open TicTacToe

structure Pair (β : Type) where
  x : β
  o : β
  deriving DecidableEq, Repr

def Pair.of {β : Type} (p : Pair β) : Mark → β
  | .x => p.x
  | .o => p.o

structure Outcome where
  goals : Pair Int32
  moves : List Action
  final : Position
  deriving DecidableEq, Repr

structure Turn where
  mover : Mark
  engine : Engine
  action : Action
  deriving DecidableEq, Repr

/-- The allowances of a contest, for each turn and each seat. -/
structure Schedule where
  start : Pair Allowance
  turn : Nat → Pair Allowance

namespace Contest

/-- Both seats are asked; the fault of X counts before that of O. -/
def askBoth {β : Type} (ask : Allowance → Seat → Except SeatError β × Seat)
    (a : Pair Allowance) (seats : Pair Seat) : Except SeatError (Pair β) × Pair Seat :=
  let (x, seatX) := ask a.x seats.x
  let (o, seatO) := ask a.o seats.o
  match x, o with
  | .error e, _ => (.error e, ⟨seatX, seatO⟩)
  | .ok _, .error e => (.error e, ⟨seatX, seatO⟩)
  | .ok mx, .ok mo => (.ok ⟨mx, mo⟩, ⟨seatX, seatO⟩)

def finish (moves : List Action) (s : Position) : Except SeatError Outcome :=
  match game.goal s .x with
  | .error e => .error (.rule e)
  | .ok gx =>
    match game.goal s .o with
    | .error e => .error (.rule e)
    | .ok go => .ok ⟨⟨gx, go⟩, moves, s⟩

def playFrom (c : Schedule) (search : Nat) :
    Nat → Position → List Turn → Pair Seat → List Turn × Except SeatError Outcome
  | bound, s, turns, seats =>
    if game.terminal s then (turns, finish (turns.map Turn.action) s)
    else
      match bound with
      | 0 => (turns, .error (.search .unfinished))
      | bound + 1 =>
        match askBoth (fun a seat => seat.play a search s) (c.turn turns.length) seats with
        | (.error e, _) => (turns, .error e)
        | (.ok joint, seats) =>
          let turn : Turn := ⟨s.player, (seats.of s.player).engine, joint.of s.player⟩
          match game.next s [joint.x, joint.o] with
          | .error e => (turns ++ [turn], .error (.rule e))
          | .ok s' => playFrom c search bound s' (turns ++ [turn]) seats

/-- A whole contest. `search` bounds the length of each search, and `bound` that of the
contest. -/
def run (c : Schedule) (search bound : Nat) (initial : Position) (seats : Pair Seat) :
    List Turn × Except SeatError Outcome :=
  match askBoth (fun a seat => seat.prepare a search) c.start seats with
  | (.error e, _) => ([], .error e)
  | (.ok _, seats) => playFrom c search bound initial [] seats

end Contest

end GameSearch.Match
