import GameSearch.TreeSearch.Root

/-!
# GameSearch.TreeSearch.Permit

Permits that are held from outside. A permit stays with its node: it knows the path of the
node as long as the node is in the tree, also when the root moves. Permits are kept under the
path at which they were taken, one for each path.
-/

namespace GameSearch.TreeSearch

variable {σ μ V : Type}

structure Permit where
  /-- Where the node is, unless it has left the tree. -/
  place : Option Path
  deriving DecidableEq, Repr

namespace Permit

def take? (root : Tree σ μ V) (path : Path) : Option (Tree σ μ V × Permit) :=
  match root.get? path with
  | none => none
  | some t =>
    match t.label.tryPermit with
    | none => none
    | some n => some (root.relabel (fun _ => n) path, ⟨some path⟩)

def giveBack (k : Permit) (root : Tree σ μ V) : Tree σ μ V :=
  match k.place with
  | none => root
  | some path => root.relabel Node.release path

def below : Path → Path → Option Path
  | [], path => some path
  | i :: top, j :: path => if i = j then below top path else none
  | _ :: _, [] => none

/-- The permit after the root has moved. -/
def follow (k : Permit) : RootUpdate → Permit
  | .unchanged => k
  | .reused top => ⟨k.place.bind (below top)⟩
  | .rebuilt => ⟨none⟩

end Permit

abbrev Holdings := List (Path × Permit)

namespace Holdings

def follow (held : Holdings) (u : RootUpdate) : Holdings :=
  held.map fun (path, k) => (path, k.follow u)

def release (held : Holdings) (path : Path) (root : Tree σ μ V) : Bool × Tree σ μ V × Holdings :=
  match held.lookup path with
  | none => (false, root, held)
  | some k => (true, k.giveBack root, held.filter fun (other, _) => other != path)

def take (held : Holdings) (path : Path) (root : Tree σ μ V) : Bool × Tree σ μ V × Holdings :=
  match Permit.take? root path with
  | none => (false, root, held)
  | some (root, k) =>
    let (_, root, held) := held.release path root
    (true, root, (path, k) :: held)

end Holdings

end GameSearch.TreeSearch
