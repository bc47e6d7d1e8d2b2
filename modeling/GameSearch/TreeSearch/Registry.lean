import GameSearch.TreeSearch.Node

/-!
# GameSearch.TreeSearch.Registry

Nodes under numbers, with children given by number. A node may be a child of several others.
The registry also keeps what each request for a permit brought, until it is given back.
-/

namespace GameSearch.TreeSearch

structure Registry (σ μ V : Type) where
  nodes : List (Node σ μ V × List Nat) := []
  /-- The node of each permit that is still held. -/
  permits : List (Option Nat) := []
  deriving DecidableEq, Repr

namespace Registry

variable {σ μ V : Type} [Utility V]

def add (r : Registry σ μ V) (n : Node σ μ V) : Registry σ μ V :=
  { r with nodes := r.nodes ++ [(n, [])] }

def node? (r : Registry σ μ V) (i : Nat) : Option (Node σ μ V) := r.nodes[i]?.map Prod.fst

def update (r : Registry σ μ V) (i : Nat) (f : Node σ μ V → Node σ μ V) : Registry σ μ V :=
  { r with nodes := r.nodes.modify i fun (n, cs) => (f n, cs) }

def record (r : Registry σ μ V) (i : Nat) (score : V) : Registry σ μ V :=
  r.update i (·.record score)

def absorb (r : Registry σ μ V) (i : Nat) (s : Stats V) : Registry σ μ V :=
  r.update i (·.absorb s)

/-- Expands a node with the children that `build` gives; the answer tells whether it was
run. -/
def expand {ε : Type} (r : Registry σ μ V) (i : Nat) (build : Except ε (List Nat)) :
    Except ε (Bool × Registry σ μ V) :=
  match r.nodes[i]? with
  | none => .ok (false, r)
  | some (n, cs) =>
    match n.expandWith cs fun _ => build.map ((), ·) with
    | .error e => .error e
    | .ok (built, n, cs) => .ok (built.isSome, { r with nodes := r.nodes.set i (n, cs) })

def adopt (r : Registry σ μ V) (i : Nat) (grafted : List Nat) : Registry σ μ V :=
  { r with nodes := r.nodes.modify i fun (n, cs) => n.adopt cs grafted }

/-- Asks for the permit of a node. The request is remembered whether it succeeds or not. -/
def permit (r : Registry σ μ V) (i : Nat) : Bool × Registry σ μ V :=
  match (r.node? i).bind Node.tryPermit with
  | none => (false, { r with permits := r.permits ++ [none] })
  | some n => (true, { r.update i fun _ => n with permits := r.permits ++ [some i] })

def drop (r : Registry σ μ V) (k : Nat) : Bool × Registry σ μ V :=
  match r.permits[k]? with
  | some (some i) => (true, { r.update i Node.release with permits := r.permits.set k none })
  | _ => (false, r)

end Registry

end GameSearch.TreeSearch
