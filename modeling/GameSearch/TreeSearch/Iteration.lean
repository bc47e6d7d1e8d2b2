import GameSearch.Interrupt
import GameSearch.TreeSearch.Selection
import GameSearch.TreeSearch.Simulation

/-!
# GameSearch.TreeSearch.Iteration

One iteration selects a node, expands it, scores it, and records the score from the node up to
the root. An iteration that selects nothing is a retry and only counts itself. An iteration
that meets an error records nothing, but keeps the children that it has made and the moves
that it has counted.

A session is what a search keeps between iterations: its tree, its counters and its source of
randomness. A run of iterations that fails leaves the source as it was before the run.
-/

namespace GameSearch.TreeSearch

variable {σ μ α V γ : Type} [Utility V] [RandomSource γ]

structure Session (σ μ V γ : Type) where
  root : Tree σ μ V
  counters : Counters
  rng : γ

inductive Iteration (V : Type) where
  | completed (score : V) (queries : Nat)
  | retry
  deriving DecidableEq, Repr

namespace Session

/-- A single unvisited node for a state, and counters at zero. -/
def start (p : Setup σ μ α V) (s : σ) (seed : UInt64) : Session σ μ V γ :=
  ⟨p.unvisited s {}, {}, RandomSource.seeded seed⟩

def setBusy (busy : Bool) (guard : Option Path) (x : Session σ μ V γ) : Session σ μ V γ :=
  match guard with
  | none => x
  | some path => { x with root := x.root.relabel (fun n => { n with busy := busy }) path }

variable [DecidableEq σ]

def workAt (p : Setup σ μ α V) (path : Path) (x : Session σ μ V γ) :
    Except SearchError (Iteration V) × Session σ μ V γ :=
  match x.root.get? path with
  | none => (.ok .retry, x)
  | some t =>
    match p.expand t with
    | .error e => (.error (.rule e), x)
    | .ok (asked, grown) =>
      let root := x.root.modify (fun _ => grown) path
      match p.simulate t.label x.counters x.rng with
      | (.error e, counters, rng) => (.error e, ⟨root, counters, rng⟩)
      | (.ok (score, more), counters, rng) =>
        (.ok (.completed score (asked + more)),
          ⟨root.record score path, counters.completed, rng⟩)

/-- The permit that an iteration takes is given back however the iteration ends. -/
def iterate (p : Setup σ μ α V) (locking : Locking) (x : Session σ μ V γ) :
    Except SearchError (Iteration V) × Session σ μ V γ :=
  match select p.policy locking x.root with
  | none => (.ok .retry, { x with counters := x.counters.retried })
  | some chosen =>
    let (result, x) := (x.setBusy true chosen.guard).workAt p chosen.target
    (result, x.setBusy false chosen.guard)

def repeatIterations (p : Setup σ μ α V) :
    Nat → Session σ μ V γ → Except SearchError Unit × Session σ μ V γ
  | 0, x => (.ok (), x)
  | n + 1, x =>
    match x.iterate p .exclusive with
    | (.error e, x) => (.error e, x)
    | (.ok _, x) => repeatIterations p n x

/-- A failed run leaves the source of randomness as it was. -/
def runIterations (p : Setup σ μ α V) (n : Nat) (x : Session σ μ V γ) :
    Except SearchError Unit × Session σ μ V γ :=
  match repeatIterations p n x with
  | (.ok (), y) => (.ok (), y)
  | (.error e, y) => (.error e, { y with rng := x.rng })

/-- Iterations until the search is interrupted, when `asked` queries have been made before. An
iteration that has begun is finished. The result tells how many queries there were in all. -/
def iterateUntil (p : Setup σ μ α V) (locking : Locking) (i : Interrupt) :
    Nat → Nat → Session σ μ V γ → Except SearchError Nat × Session σ μ V γ
  | bound, asked, x =>
    if i.isRaised asked then (.ok asked, x)
    else
      match bound with
      | 0 => (.error .unfinished, x)
      | bound + 1 =>
        match x.iterate p locking with
        | (.error e, x) => (.error e, x)
        | (.ok .retry, x) => iterateUntil p locking i bound asked x
        | (.ok (.completed _ queries), x) =>
          iterateUntil p locking i bound (asked + queries) x

def searchUntil (p : Setup σ μ α V) (i : Interrupt) (x : Session σ μ V γ) :
    Except SearchError Nat × Session σ μ V γ :=
  if x.root.label.terminal then (.ok 0, x)
  else
    match iterateUntil p .exclusive i p.patience 0 x with
    | (.ok asked, y) => (.ok asked, y)
    | (.error e, y) => (.error e, { y with rng := x.rng })

end Session

end GameSearch.TreeSearch
