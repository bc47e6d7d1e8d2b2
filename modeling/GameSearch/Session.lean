import GameSearch.CommandLine.Usage
import GameSearch.CommandLine.Words
import GameSearch.Configuration.Sources
import GameSearch.Journal.Filter
import GameSearch.Match.Series

/-!
# GameSearch.Session

A whole run of the program: what it writes and the number it exits with, from its surroundings
and the words of its command line.
-/

namespace GameSearch

structure Report where
  exit : UInt32
  help : List String
  journal : List String
  notices : List String
  deriving DecidableEq, Repr

namespace Session

def greeting : String := "Player starting..."

def failure (message : String) : String := "Error: " ++ message

def filterVariable : String := "RUST_LOG"

/-- The filter of the environment, or else that of the level, with notices about its faults. -/
def filterFor (w : Surroundings) (level : String) : Journal.Filter × List String :=
  let fallback :=
    let (filter, bad) := Journal.Filter.ofRest level
    (filter, bad.map fun part => "ignoring \x60" ++ part ++ "\x60: invalid filter directive")
  match w.env filterVariable with
  | none => fallback
  | some text =>
    match Journal.Filter.ofText? text with
    | some filter => (filter, [])
    | none => fallback

def opening (p : Match.Plan) : List Journal.Entry :=
  [Match.remark "Tracing initialized" [("log_level", p.logLevel)],
    Match.remark "Match configured"
      [("games", toString p.games.toNat), ("x_engine", p.xEngine), ("o_engine", p.oEngine),
        ("start_clock_secs", toString p.startClock.toNat),
        ("play_clock_secs", toString p.playClock.toNat)]]

def playPlan (c : Configuration) (p : Match.Plan) : List Journal.Entry × Option String :=
  let failed (message : String) : Journal.Entry :=
    ⟨.error, "player", "Match failed: " ++ message, []⟩
  match p.engines with
  | .error name =>
    (opening p ++ [failed (Match.Engine.unknown name)], some (Match.Engine.unknown name))
  | .ok (x, o) =>
    match p.play (p.seatOptions c) x o with
    | (entries, .ok t) => (opening p ++ entries ++ [Match.complete t], none)
    | (entries, .error e) => (opening p ++ entries ++ [failed e.message], some e.message)

def ofPlan (w : Surroundings) (c : Configuration) (p : Match.Plan) : Report :=
  match p.check with
  | .error fault => ⟨1, [], [], [greeting, failure fault.message]⟩
  | .ok () =>
    let (filter, notices) := filterFor w p.logLevel
    let (entries, fault) := playPlan c p
    let journal := (entries.filter filter.admits).map Journal.Entry.line
    match fault with
    | none => ⟨0, [], journal, greeting :: notices⟩
    | some message => ⟨1, [], journal, greeting :: notices ++ [failure message]⟩

/-- A command line that is refused ends with the exit number two, and help with zero. -/
def run (w : Surroundings) (words : List String) : Report :=
  let c := Configuration.load w
  match CommandLine.read words with
  | .error .help => ⟨0, CommandLine.usage, [], [greeting]⟩
  | .error e => ⟨2, [], [], [greeting, "error: " ++ e.message]⟩
  | .ok a => ofPlan w c (.ofArguments c a)

end Session

end GameSearch
