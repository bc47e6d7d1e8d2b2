import GameSearch.Game
import GameSearch.Text.Quoted
import Std.Data.TreeMap
import Std.Data.TreeSet

/-!
# GameSearch.Table.Basic

Games that are spelled out: for each state the joint moves that leave it and where they lead,
the goals where they are defined, and the terminal states. States, moves and agents are texts.

A legal move is one that a listed joint move mentions, so the joint moves need not be all
combinations of legal moves. Random plays draw from the joint moves that the table lists.
-/

namespace GameSearch

structure Edge where
  joint : JointMove String
  target : String
  deriving DecidableEq, Repr

structure Table where
  agents : List String
  initial : String
  edges : Std.TreeMap String (List Edge)
  goals : Std.TreeMap String (List Int32)
  terminals : Std.TreeSet String

namespace Table

/-- The edges that leave a state, in the order of the table. -/
def edgesFrom (t : Table) (s : String) : List Edge := t.edges.getD s []

def jointMoves (t : Table) (s : String) : List (JointMove String) :=
  (t.edgesFrom s).map Edge.joint

def agentIndex (t : Table) (agent : String) : Except RuleError Nat :=
  match t.agents.idxOf? agent with
  | some i => .ok i
  | none => .error (.move ("Unknown agent " ++ agent))

def legalMoves (t : Table) (s agent : String) : Except RuleError (List String) :=
  match t.agentIndex agent with
  | .error e => .error e
  | .ok i => .ok ((t.jointMoves s).filterMap (·[i]?)).eraseDups

def replies (t : Table) (s agent action : String) :
    Except RuleError (List (JointMove String)) :=
  match t.agentIndex agent with
  | .error e => .error e
  | .ok i => .ok ((t.jointMoves s).filter fun joint => joint[i]? == some action)

def next (t : Table) (s : String) (joint : JointMove String) : Except RuleError String :=
  match (t.edgesFrom s).find? fun e => e.joint == joint with
  | some e => .ok e.target
  | none =>
    .error (.transition ("No transition from " ++ s ++ " for " ++ Text.quoteList joint))

def isTerminal (t : Table) (s : String) : Bool := t.terminals.contains s

def goal (t : Table) (s agent : String) : Except RuleError Int32 :=
  match t.agentIndex agent with
  | .error e => .error e
  | .ok i =>
    match (t.goals[s]?.bind (·[i]?)) with
    | some v => .ok v
    | none => .error (.goal s agent)

/-- What random plays draw from. -/
def offered (t : Table) (s : String) : Except RuleError (List (JointMove String)) :=
  match t.jointMoves s with
  | [] => .error (.noLegalMoves s (String.intercalate "," t.agents))
  | joints => .ok joints

def game (t : Table) : Game String String String where
  agents := t.agents
  legalMoves := t.legalMoves
  replies := t.replies
  next := t.next
  terminal := t.isTerminal
  goal := t.goal
  offered := some t.offered
  showState := Text.quote
  showMove := Text.quote
  showAgent := Text.quote

def outcomes (t : Table) : List (String × List (Except RuleError Int32)) :=
  t.terminals.toList.map fun s => (s, t.agents.map (t.goal s))

end Table

end GameSearch
