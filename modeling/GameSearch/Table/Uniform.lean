import GameSearch.Random.Source
import GameSearch.Table.Basic

/-!
# GameSearch.Table.Uniform

Uniform game trees with random outcomes. All agents have the same moves in every state, all
combinations of them are joint moves, each joint move leads to a state of its own, and all
terminal states are equally deep. The first agent's goals are drawn from 0 to 100, and every
other agent gets what is missing to 100.
-/

namespace GameSearch.Table

def combinations (moves : List String) : Nat → List (JointMove String)
  | 0 => [[]]
  | n + 1 => moves.flatMap fun m => (combinations moves n).map (m :: ·)

/-- The state that the `i`-th joint move leads to. -/
def childName (s : String) (i : Nat) : String := s ++ "." ++ toString i

def uniformEdges (joints : List (JointMove String)) (s : String) : List Edge :=
  joints.zipIdx.map fun (joint, i) => ⟨joint, childName s i⟩

def addLevel (joints : List (JointMove String)) (level : List String)
    (m : Std.TreeMap String (List Edge)) : Std.TreeMap String (List Edge) :=
  level.foldl (fun m s => m.insert s (uniformEdges joints s)) m

def nextLevel (joints : List (JointMove String)) (level : List String) : List String :=
  level.flatMap fun s => (uniformEdges joints s).map Edge.target

/-- The edges of `depth` further levels, and the states below the last of them. -/
def growLevels (joints : List (JointMove String)) :
    Nat → List String → Std.TreeMap String (List Edge) →
      List String × Std.TreeMap String (List Edge)
  | 0, level, m => (level, m)
  | depth + 1, level, m =>
    growLevels joints depth (nextLevel joints level) (addLevel joints level m)

def complementGoals (agents : Nat) (v : Int32) : List Int32 :=
  v :: List.replicate (agents - 1) (100 - v)

variable {γ : Type} [RandomSource γ]

def drawGoals (agents : Nat) :
    List String → Std.TreeMap String (List Int32) → γ → Std.TreeMap String (List Int32) × γ
  | [], m, g => (m, g)
  | s :: rest, m, g =>
    let (v, g) := RandomSource.below 101 g
    drawGoals agents rest (m.insert s (complementGoals agents (Int32.ofNat v))) g

/-- The tree for at least one agent with at least one move each. -/
def uniform (g : γ) (agents branching depth : Nat) : Table :=
  let names := (List.range (max agents 1)).map fun i => "agent" ++ toString i
  let moves := (List.range (max branching 1)).map fun i => "m" ++ toString i
  let joints := combinations moves names.length
  let (leaves, edges) := growLevels joints depth ["r"] ∅
  { agents := names
    initial := "r"
    edges := edges
    goals := (drawGoals names.length leaves ∅ g).1
    terminals := .ofList leaves }

end GameSearch.Table
