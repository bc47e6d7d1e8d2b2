import GameSearch.TreeSearch.Expansion
import GameSearch.TreeSearch.Workers

/-!
# GameSearch.TreeSearch.Settings

The settings of a tree search. The functions that set one of them keep the number of plays and
of workers above zero.
-/

namespace GameSearch.TreeSearch

structure Settings where
  exploration : Float := 2
  playouts : UInt32 := 8
  workers : Nat := 4
  mode : Mode := .sharedTree
  seed : UInt64 := 0
  /-- In milliseconds. -/
  safetyMargin : Nat := 4000

namespace Settings

def small : Settings := ⟨2, 2, 1, .sharedTree, 42, 0⟩

def withPlayouts (c : Settings) (n : UInt32) : Settings := { c with playouts := max n 1 }

def withWorkers (c : Settings) (n : Nat) : Settings := { c with workers := max n 1 }

def setup {σ μ α : Type} (c : Settings) (game : Game σ μ α) (agent : α) (patience : Nat) :
    Setup σ μ α Float :=
  ⟨game, agent, .ucb c.exploration, c.playouts, patience⟩

end Settings

end GameSearch.TreeSearch
