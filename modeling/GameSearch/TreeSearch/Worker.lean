import GameSearch.TreeSearch.Iteration

/-!
# GameSearch.TreeSearch.Worker

One of several workers. An iteration takes eight steps, and others may work between them: the
worker asks whether it has been told to stop, looks at the root, takes the permit for where it is
to go, expands the node that it comes to, scores it, records the score below the root and then at
the root, and gives the permit back.

Others may have been at work between the look and the permit. If they have visited the node
meanwhile, or hold the permit, the iteration is given up and counted as a retry. A look takes in the
root and two levels below it at once. What is further down, only the worker with the permit reads or
changes.
-/

namespace GameSearch.TreeSearch

variable {σ μ α V γ : Type} [Utility V]

def look (policy : Policy V) (root : Tree σ μ V) : Step :=
  if isUnvisited root then .target [] else step policy root.label root.children

namespace Step

def guard : Step → Path
  | .target (i :: _) => [i]
  | .descend i => [i]
  | _ => []

def path? (policy : Policy V) (root : Tree σ μ V) : Step → Option Path
  | .stuck => none
  | .target path => some path
  | .descend i => (descendInto policy root.children i).map (i :: ·)

/-- Whether the node has been visited since it was seen unvisited. -/
def isStale (root : Tree σ μ V) : Step → Bool
  | .target path =>
    match root.get? path with
    | none => false
    | some t => !isUnvisited t
  | _ => false

def reserve (policy : Policy V) (locking : Locking) (root : Tree σ μ V) (s : Step) :
    Option Selection :=
  match s.path? policy root with
  | none => none
  | some path =>
    match locking with
    | .exclusive => some ⟨path, none⟩
    | .rootPermits =>
      if isBusy root s.guard || s.isStale root then none else some ⟨path, some s.guard⟩

end Step

def Tree.recordBelow (score : V) : Path → Tree σ μ V → Tree σ μ V
  | [], t => t
  | i :: path, t => t.modify (record score path) [i]

/-- What a worker does next. -/
inductive Task (σ μ V : Type) where
  | idle
  | look
  | reserve (s : Step)
  | expand (c : Selection)
  | simulate (c : Selection) (n : Node σ μ V)
  | record (c : Selection) (score : V)
  | recordRoot (c : Selection) (score : V)
  | leave (c : Selection)
  | finished (result : Except SearchError Unit)

namespace Task

def error? : Task σ μ V → Option SearchError
  | .finished (.error e) => some e
  | _ => none

def isFinished : Task σ μ V → Bool
  | .finished _ => true
  | _ => false

variable [RandomSource γ] [DecidableEq σ]

/-- One step of a worker, which has been told to stop or not. The number is that of the queries
that the step makes. -/
def advance (p : Setup σ μ α V) (locking : Locking) (told : Bool) (x : Session σ μ V γ) :
    Task σ μ V → Task σ μ V × Nat × Session σ μ V γ
  | .idle => (if told then .finished (.ok ()) else .look, 0, x)
  | .look => (.reserve (TreeSearch.look p.policy x.root), 0, x)
  | .reserve s =>
    match s.reserve p.policy locking x.root with
    | none => (.idle, 0, { x with counters := x.counters.retried })
    | some c => (.expand c, 0, x.setBusy true c.guard)
  | .expand c =>
    match x.root.get? c.target with
    | none => (.idle, 0, x.setBusy false c.guard)
    | some t =>
      match p.expand t with
      | .error e => (.finished (.error (.rule e)), 0, x.setBusy false c.guard)
      | .ok (asked, grown) =>
        (.simulate c t.label, asked, { x with root := x.root.modify (fun _ => grown) c.target })
  | .simulate c n =>
    match p.simulate n x.counters x.rng with
    | (.error e, counters, rng) =>
      let y : Session σ μ V γ := ⟨x.root, counters, rng⟩
      (.finished (.error e), 0, y.setBusy false c.guard)
    | (.ok (score, asked), counters, rng) => (.record c score, asked, ⟨x.root, counters, rng⟩)
  | .record c score =>
    (.recordRoot c score, 0, { x with root := x.root.recordBelow score c.target })
  | .recordRoot c score =>
    (.leave c, 0, { x with root := x.root.relabel (·.record score) [] })
  | .leave c =>
    let y : Session σ μ V γ := { x with counters := x.counters.completed }
    (.idle, 0, y.setBusy false c.guard)
  | .finished result => (.finished result, 0, x)

end Task

end GameSearch.TreeSearch
