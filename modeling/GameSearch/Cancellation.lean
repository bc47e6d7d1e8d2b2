/-!
# GameSearch.Cancellation

Requests to stop. A flag is raised once and stays raised; tokens are handles to flags, and a
copy of a token is a handle to the same flag. A watchdog is armed on a token for an instant at
which a search has to stop. One whose instant has come is due: it raises the flag at some moment
of its own choice, and at the latest when somebody waits for it. One that is called off raises
nothing any more.
-/

namespace GameSearch

structure Watchdog where
  flag : Nat
  due : Bool
  deriving DecidableEq, Repr

structure Cancellation where
  flags : List Bool
  /-- The flag of each token. -/
  tokens : List Nat
  /-- A watchdog that was called off leaves its place empty. -/
  watchdogs : List (Option Watchdog)
  deriving DecidableEq, Repr

namespace Cancellation

def empty : Cancellation := ⟨[], [], []⟩

def newToken (c : Cancellation) : Cancellation :=
  { c with flags := c.flags ++ [false], tokens := c.tokens ++ [c.flags.length] }

def copyToken (c : Cancellation) (token : Nat) : Cancellation :=
  match c.tokens[token]? with
  | none => c
  | some flag => { c with tokens := c.tokens ++ [flag] }

def flagAt (c : Cancellation) (flag : Nat) : Bool := (c.flags[flag]?).getD false

def isRaised (c : Cancellation) (token : Nat) : Bool :=
  match c.tokens[token]? with
  | none => false
  | some flag => c.flagAt flag

def readings (c : Cancellation) : List Bool := c.tokens.map c.flagAt

def raiseFlag (c : Cancellation) (flag : Nat) : Cancellation :=
  { c with flags := c.flags.set flag true }

def raise (c : Cancellation) (token : Nat) : Cancellation :=
  match c.tokens[token]? with
  | none => c
  | some flag => c.raiseFlag flag

def stopAt (deadline : Int) (margin : Nat) : Int := deadline - margin

def arm (c : Cancellation) (token : Nat) (now deadline : Int) (margin : Nat) : Cancellation :=
  match c.tokens[token]? with
  | none => c
  | some flag =>
    { c with watchdogs := c.watchdogs ++ [some ⟨flag, decide (stopAt deadline margin ≤ now)⟩] }

/-- A watchdog that no timer could be started for. The flag is raised at once, and the watchdog is
never due. -/
def armUntimed (c : Cancellation) (token : Nat) : Cancellation :=
  match c.tokens[token]? with
  | none => c
  | some flag => { c.raiseFlag flag with watchdogs := c.watchdogs ++ [some ⟨flag, false⟩] }

def act (c : Cancellation) (watchdog : Nat) : Cancellation :=
  match c.watchdogs[watchdog]? with
  | some (some w) => if w.due then c.raiseFlag w.flag else c
  | _ => c

def watchdogsOn (c : Cancellation) (flag : Nat) : List Nat :=
  (List.range c.watchdogs.length).filter fun k =>
    match c.watchdogs[k]? with
    | some (some w) => w.flag == flag
    | _ => false

/-- Waits until the watchdogs of a token that are due have acted. -/
def wait (c : Cancellation) (token : Nat) : Cancellation :=
  match c.tokens[token]? with
  | none => c
  | some flag => (c.watchdogsOn flag).foldl act c

def callOff (c : Cancellation) (watchdog : Nat) : Bool × Cancellation :=
  match c.watchdogs[watchdog]? with
  | some (some _) => (true, { c with watchdogs := c.watchdogs.set watchdog none })
  | _ => (false, c)

end Cancellation

end GameSearch
