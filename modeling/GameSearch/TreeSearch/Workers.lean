import GameSearch.TreeSearch.Merge
import GameSearch.TreeSearch.Worker

/-!
# GameSearch.TreeSearch.Workers

A search by several workers at once. They share one tree under permits, or each grows a tree of its
own and the trees are merged at the end. A rota tells which worker takes the next step, so that
each way to interleave their steps is that of some rota. The workers stop when the search is
interrupted, when the clock tells them to, or when one of them meets an error; each finishes the
iteration that it has begun.

The seed of worker `k` is a word drawn from the session's source, plus `k`; with trees of their
own, worker zero goes on with the session's tree and source instead.
-/

namespace GameSearch.TreeSearch

inductive Mode where
  | sharedTree
  | ownTrees
  deriving DecidableEq, Repr

namespace Mode

def locking : Mode → Locking
  | .sharedTree => .rootPermits
  | .ownTrees => .exclusive

def treeOf : Mode → Nat → Nat
  | .sharedTree, _ => 0
  | .ownTrees, k => k

end Mode

structure Rota where
  /-- The worker that takes a step. When there is none, the clock tells the search to stop. -/
  turn : Nat → Option Nat
  /-- After so many steps the clock tells the search to stop in any case. -/
  length : Nat

def Rota.even (workers length : Nat) : Rota := ⟨fun n => some (n % max workers 1), length⟩

variable {σ μ α V γ : Type}

structure Crew (σ μ V γ : Type) where
  trees : List (Tree σ μ V × Counters)
  workers : List (Task σ μ V × γ)
  asked : Nat
  stopped : Bool

namespace Crew

def isTold (i : Interrupt) (c : Crew σ μ V γ) : Bool := c.stopped || i.isRaised c.asked

def isFinished (c : Crew σ μ V γ) : Bool := c.workers.all fun w => w.1.isFinished

def result (c : Crew σ μ V γ) : Except SearchError Unit :=
  match c.workers.findSome? fun w => w.1.error? with
  | none => .ok ()
  | some e => .error e

variable [Utility V] [RandomSource γ] [DecidableEq σ]

def start (p : Setup σ μ α V) (mode : Mode) (workers : Nat) (base : UInt64) (x : Session σ μ V γ) :
    Crew σ μ V γ :=
  let hired (k : Nat) : Task σ μ V × γ := (.idle, RandomSource.seeded (base + UInt64.ofNat k))
  match mode with
  | .sharedTree => ⟨[(x.root, x.counters)], (List.range workers).map hired, 0, false⟩
  | .ownTrees =>
    let helpers := List.range' 1 (workers - 1)
    ⟨(x.root, x.counters) :: helpers.map fun _ => (p.unvisited x.root.state {}, {}),
      (.idle, x.rng) :: helpers.map hired, 0, false⟩

def act (p : Setup σ μ α V) (mode : Mode) (i : Interrupt) (k : Nat) (c : Crew σ μ V γ) :
    Crew σ μ V γ :=
  match c.trees[mode.treeOf k]?, c.workers[k]? with
  | some (root, counters), some (task, rng) =>
    if task.isFinished then c
    else
      let (task, asked, y) := task.advance p mode.locking (c.isTold i) ⟨root, counters, rng⟩
      ⟨c.trees.set (mode.treeOf k) (y.root, y.counters), c.workers.set k (task, y.rng),
        c.asked + asked, c.stopped || task.error?.isSome⟩
  | _, _ => c

def work (p : Setup σ μ α V) (mode : Mode) (i : Interrupt) (rota : Rota) :
    Nat → Nat → Crew σ μ V γ → Crew σ μ V γ
  | 0, _, c => c
  | left + 1, n, c =>
    if c.isFinished then c
    else
      match rota.turn n with
      | none => work p mode i rota left (n + 1) { c with stopped := true }
      | some k => work p mode i rota left (n + 1) (c.act p mode i k)

def acts (p : Setup σ μ α V) (mode : Mode) (i : Interrupt) (k : Nat) :
    Nat → Crew σ μ V γ → Crew σ μ V γ
  | 0, c => c
  | n + 1, c => acts p mode i k n (c.act p mode i k)

def complete (p : Setup σ μ α V) (mode : Mode) (i : Interrupt) (rota : Rota) (c : Crew σ μ V γ) :
    Crew σ μ V γ :=
  let c := c.work p mode i rota rota.length 0
  if c.isFinished then c
  else
    (List.range c.workers.length).foldl (fun c k => c.acts p mode i k 8) { c with stopped := true }

variable [DecidableEq μ]

def session (mode : Mode) (x : Session σ μ V γ) (c : Crew σ μ V γ) : Session σ μ V γ :=
  match mode, c.trees, c.workers with
  | .sharedTree, (root, counters) :: _, _ => ⟨root, counters, x.rng⟩
  | .ownTrees, (root, counters) :: others, (task, rng) :: _ =>
    let y : Session σ μ V γ := ⟨root, counters, if task.error?.isSome then x.rng else rng⟩
    match c.result with
    | .error _ => y
    | .ok () => others.foldl (fun z (root, counters) => (z.merge ⟨root, counters, z.rng⟩).2) y
  | _, _, _ => x

end Crew

namespace Session

variable [Utility V] [RandomSource γ] [DecidableEq σ] [DecidableEq μ]

def searchWith (p : Setup σ μ α V) (mode : Mode) (workers : Nat) (rota : Rota) (i : Interrupt)
    (x : Session σ μ V γ) : Except SearchError Unit × Bool × Session σ μ V γ :=
  if x.root.label.terminal then (.ok (), i.isRaised 0, x)
  else
    let (base, rng) := RandomSource.word64 x.rng
    let drawn : Session σ μ V γ := { x with rng := rng }
    let crew := (Crew.start p mode (max workers 1) base drawn).complete p mode i rota
    (crew.result, crew.isTold i, crew.session mode drawn)

end Session

end GameSearch.TreeSearch
