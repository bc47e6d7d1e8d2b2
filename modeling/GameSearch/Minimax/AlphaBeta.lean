import GameSearch.Interrupt
import GameSearch.Minimax.Problem

/-!
# GameSearch.Minimax.AlphaBeta

Minimax search that leaves out moves and replies which cannot change the result, and that
stops early when it is interrupted or when its time runs out.

Scores between `alpha` and `beta` are of interest. A list of moves is cut short as soon as its
best score reaches `beta`, a list of replies as soon as its worst score falls to `alpha`.

The time of a position may be limited by an instant. Each of its moves, and each reply, gets
an equal share of the time that is left when its turn comes. A position that is out of budget,
because of its depth, its time or an interrupt, is evaluated instead of being searched; the
root is always searched. Instants are counted in nanoseconds.
-/

namespace GameSearch.Minimax

variable {σ μ α : Type}

namespace AlphaBeta

structure Settings where
  maxDepth : Option Nat := some 6
  timeSliced : Bool := true
  safetyMargin : Nat := 3000
  deriving DecidableEq, Repr

namespace Settings

def unlimited : Settings := ⟨none, false, 0⟩

end Settings

structure Budget where
  interrupt : Interrupt
  clock : Nat → Int

/-- The progress of a search: its tally, the queries it has begun and its looks at the
clock. -/
structure Walk where
  tally : Tally := {}
  queries : Nat := 0
  readings : Nat := 0
  deriving DecidableEq, Repr

namespace Walk

def enter (w : Walk) : Walk := { w with tally := w.tally.enter }

def exact (w : Walk) : Walk := { w with tally := w.tally.exact, queries := w.queries + 1 }

def estimate (w : Walk) (queries : Nat) : Walk :=
  { w with tally := w.tally.estimate, queries := w.queries + queries }

def step (w : Walk) : Walk := { w with queries := w.queries + 1 }

def cut (w : Walk) : Walk := { w with tally := w.tally.cut }

def look (w : Walk) : Walk := { w with readings := w.readings + 1 }

def cutBefore {β : Type} (w : Walk) (rest : List β) : Walk :=
  if rest.isEmpty then w else w.cut

end Walk

/-- The end of the share of the next of `remaining` positions. -/
def share (b : Budget) (remaining : Nat) (limit : Option Int) (w : Walk) : Option Int × Walk :=
  match limit with
  | none => (none, w)
  | some stop =>
    let now := b.clock w.readings
    (some (now + max (stop - now) 0 / remaining), w.look)

def outOfBudget (p : Problem σ μ α) (b : Budget) (depth : Nat) (limit : Option Int)
    (w : Walk) : Bool × Walk :=
  if depth = 0 then (false, w)
  else if p.atLimit depth then (true, w)
  else
    match limit with
    | none => (b.interrupt.isRaised w.queries, w)
    | some stop =>
      if stop ≤ b.clock w.readings then (true, w.look)
      else (b.interrupt.isRaised w.queries, w.look)

/-- What is known about a position from above: the bounds between which its score matters and
the instant at which its time is over. -/
structure Window where
  alpha : Int32
  beta : Int32
  limit : Option Int
  deriving DecidableEq, Repr

abbrev Visit (κ μ : Type) := κ → Window → Walk → Except SearchError (Score μ × Walk)

/-- The worst of the positions that the replies lead to, as far as they matter. -/
def worstReply (p : Problem σ μ α) (b : Budget) (below : Visit σ μ) (s : σ) :
    List (JointMove μ) → Option (Score μ) → Window → Walk →
      Except SearchError (Option (Score μ) × Walk)
  | [], worst, _, w => .ok (worst, w)
  | joint :: rest, worst, v, w =>
    let (limit, w) := share b (rest.length + 1) v.limit w
    match p.game.next s joint with
    | .error e => .error (.rule e)
    | .ok s' =>
      match below s' { v with limit := limit } w.step with
      | .error e => .error e
      | .ok (score, w) =>
        let current := keepWorse worst score
        let beta := min v.beta current.value
        if beta ≤ v.alpha then .ok (some current, w.cutBefore rest)
        else worstReply p b below s rest (some current) { v with beta := beta } w

def minNode (p : Problem σ μ α) (b : Budget) (below : Visit σ μ) (s : σ) (action : μ)
    (v : Window) (w : Walk) : Except SearchError (Score μ × Walk) :=
  match p.game.replies s p.agent action with
  | .error e => .error (.rule e)
  | .ok joints =>
    match worstReply p b below s joints none v w.enter with
    | .error e => .error e
    | .ok (none, _) => .error (.rule (p.game.noJointMoves s action))
    | .ok (some score, w) => .ok (score.tagged action, w)

def bestMove (b : Budget) (visit : Visit μ μ) :
    List μ → Option (Score μ) → Window → Walk → Except SearchError (Option (Score μ) × Walk)
  | [], best, _, w => .ok (best, w)
  | action :: rest, best, v, w =>
    let (limit, w) := share b (rest.length + 1) v.limit w
    match visit action { v with limit := limit } w with
    | .error e => .error e
    | .ok (score, w) =>
      let current := keepBetter best score
      let alpha := max v.alpha current.value
      if v.beta ≤ alpha then .ok (some current, w.cutBefore rest)
      else bestMove b visit rest (some current) { v with alpha := alpha } w

/-- A position in which the agent is to move, `depth` units below the root. -/
def maxNode (p : Problem σ μ α) (b : Budget) :
    Nat → Nat → σ → Window → Walk → Except SearchError (Score μ × Walk)
  | bound, depth, s, v, w =>
    if p.game.terminal s then
      match p.game.goal s p.agent with
      | .error e => .error (.rule e)
      | .ok value => .ok (.leaf value, w.enter.exact)
    else
      match outOfBudget p b depth v.limit w.enter with
      | (true, w) =>
        match p.evaluator.value s p.agent with
        | .error e => .error (.rule e)
        | .ok value => .ok (.leaf value, w.estimate (p.evaluator.queries s p.agent))
      | (false, w) =>
        match bound with
        | 0 => .error .unfinished
        | bound + 1 =>
          match p.game.legalMoves s p.agent with
          | .error e => .error (.rule e)
          | .ok moves =>
            let visit := minNode p b (maxNode p b bound (depth + 1)) s
            match bestMove b visit moves none v w with
            | .error e => .error e
            | .ok (none, _) => .error (.rule (p.game.noLegalMoves s p.agent))
            | .ok (some score, w) => .ok (score, w)

def Window.full (limit : Option Int) : Window := ⟨Int32.minValue, Int32.maxValue, limit⟩

/-- A search whose time, if it is limited, is over at the instant `limit`. -/
def run (p : Problem σ μ α) (b : Budget) (limit : Option Int) (bound : Nat) (s : σ) :
    Except SearchError (Score μ × Walk) :=
  maxNode p b bound 0 s (.full limit) {}

def search (p : Problem σ μ α) (b : Budget) (limit : Option Int) (bound : Nat) (s : σ) :
    Except SearchError (Report μ) :=
  match run p b limit bound s with
  | .error e => .error e
  | .ok (score, w) => .ok ⟨score, w.tally⟩

def stopAt (deadline : Int) (margin : Nat) : Int := deadline - margin * 1000000

def Budget.still (now deadline : Int) (margin : Nat) : Budget where
  interrupt := if stopAt deadline margin ≤ now then .fromStart else .never
  clock _ := now

/-- A single legal move is made without a search. -/
def selectMove (p : Problem σ μ α) (settings : Settings) (b : Budget) (deadline : Int)
    (bound : Nat) (s : σ) : Except SearchError μ :=
  if p.game.terminal s then .error .terminalRoot
  else
    match p.game.legalMoves s p.agent with
    | .error e => .error (.rule e)
    | .ok [] => .error .noLegalMoves
    | .ok [only] => .ok only
    | .ok _ =>
      let limit :=
        if settings.timeSliced then some (stopAt deadline settings.safetyMargin) else none
      match search p b limit bound s with
      | .error e => .error e
      | .ok report =>
        match report.score.action with
        | some action => .ok action
        | none => .error .noLegalMoves

end AlphaBeta

end GameSearch.Minimax
