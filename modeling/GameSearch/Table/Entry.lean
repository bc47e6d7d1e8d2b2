import GameSearch.Table.Basic

/-!
# GameSearch.Table.Entry

Tables from lists of entries. `Table.ofEntries` accepts a list when there is an agent and a
state to start from, every joint move and every row of goals has one entry per agent, no joint
move leaves a state twice, and no terminal state is left by a joint move. It looks at these
conditions in this order and reports the first one that fails.
-/

namespace GameSearch.Table

inductive Entry where
  | initial (state : String)
  | edge (source : String) (joint : JointMove String) (target : String)
  | terminal (state : String) (goals : List Int32)
  | goals (state : String) (goals : List Int32)
  deriving DecidableEq, Repr

inductive Fault where
  | noAgents
  | noInitialState
  | jointArity (source : String) (joint : JointMove String) (expected : Nat)
  | duplicateEdge (source : String) (joint : JointMove String)
  | goalArity (state : String) (expected actual : Nat)
  | terminalWithMoves (state : String)
  deriving DecidableEq, Repr

def Fault.message : Fault → String
  | .noAgents => "A table game needs at least one agent"
  | .noInitialState => "No initial state: set one or add a transition"
  | .jointArity source joint expected =>
    "Joint move " ++ Text.quoteList joint ++ " from " ++ source ++ " has " ++
      toString joint.length ++ " entries, expected " ++ toString expected
  | .duplicateEdge source joint =>
    "Joint move " ++ Text.quoteList joint ++ " from " ++ source ++ " is listed twice"
  | .goalArity state expected actual =>
    "Goal values for " ++ state ++ " have " ++ toString actual ++ " entries, expected " ++
      toString expected
  | .terminalWithMoves state => "Terminal state " ++ state ++ " has outgoing transitions"

namespace Entry

def initials (es : List Entry) : List String :=
  es.filterMap fun
    | .initial s => some s
    | _ => none

def edges (es : List Entry) : List (String × Edge) :=
  es.filterMap fun
    | .edge source joint target => some (source, ⟨joint, target⟩)
    | _ => none

def rows (es : List Entry) : List (String × List Int32) :=
  es.filterMap fun
    | .terminal s values => some (s, values)
    | .goals s values => some (s, values)
    | _ => none

def terminals (es : List Entry) : List String :=
  es.filterMap fun
    | .terminal s _ => some s
    | _ => none

/-- The last state named as initial, or else the source of the first edge. -/
def initial? (es : List Entry) : Option String :=
  match (initials es).getLast? with
  | some s => some s
  | none => (edges es).head?.map Prod.fst

end Entry

/-- Adds edges behind those that already leave the same state. -/
def addEdges (arity : Nat) :
    List (String × Edge) → Std.TreeMap String (List Edge) →
      Except Fault (Std.TreeMap String (List Edge))
  | [], m => .ok m
  | (source, e) :: rest, m =>
    if e.joint.length ≠ arity then .error (.jointArity source e.joint arity)
    else
      let known := m.getD source []
      if known.any fun k => k.joint == e.joint then .error (.duplicateEdge source e.joint)
      else addEdges arity rest (m.insert source (known ++ [e]))

def addGoals (arity : Nat) :
    List (String × List Int32) → Std.TreeMap String (List Int32) →
      Except Fault (Std.TreeMap String (List Int32))
  | [], m => .ok m
  | (s, goals) :: rest, m =>
    if goals.length ≠ arity then .error (.goalArity s arity goals.length)
    else addGoals arity rest (m.insert s goals)

def ofEntries (agents : List String) (es : List Entry) : Except Fault Table :=
  if agents.isEmpty then .error .noAgents
  else
    match Entry.initial? es with
    | none => .error .noInitialState
    | some initial =>
      match addEdges agents.length (Entry.edges es) ∅ with
      | .error f => .error f
      | .ok edges =>
        match addGoals agents.length (Entry.rows es) ∅ with
        | .error f => .error f
        | .ok goals =>
          match (Entry.terminals es).find? edges.contains with
          | some s => .error (.terminalWithMoves s)
          | none => .ok ⟨agents, initial, edges, goals, .ofList (Entry.terminals es)⟩

end GameSearch.Table
