import GameSearch.CommandLine.Arguments
import GameSearch.Configuration.Sources
import Mathlib.Data.List.Nodup
import Mathlib.Logic.Function.Basic

/-!
# GameSearch.Proofs.Configuration.Settings

The settings one by one, and the places where a value for them may be found: a variable of the
environment, a place in the selected file, the built-in values.

* `load_get`: each setting comes from the first of these places that has a value for it.
* `overridden_update`, `load_update`: a variable matters to its own setting only.
* `overridden_overridden`: it makes no difference if the variables are looked at twice.
-/

namespace GameSearch

def Surroundings.withVariable (w : Surroundings) (name : String)
    (text : Option String) : Surroundings :=
  { w with env := Function.update w.env name text }

namespace Configuration

inductive Setting where
  | logLevel
  | startClock
  | playClock
  | games
  | xEngine
  | oEngine
  | maxDepth
  | timeSliced
  | safetyMargin
  | heuristic
  | heuristicValue
  | exploration
  | playouts
  | workers
  | mode
  | seed
  | treeMargin
  deriving DecidableEq, Repr

namespace Setting

def all : List Setting :=
  [.logLevel, .startClock, .playClock, .games, .xEngine, .oEngine, .maxDepth, .timeSliced,
    .safetyMargin, .heuristic, .heuristicValue, .exploration, .playouts, .workers, .mode, .seed,
    .treeMargin]

abbrev Value : Setting → Type
  | .logLevel | .xEngine | .oEngine | .heuristic | .mode => String
  | .startClock | .playClock | .safetyMargin | .workers | .seed | .treeMargin => UInt64
  | .games | .playouts => UInt32
  | .maxDepth | .heuristicValue => Int32
  | .timeSliced => Bool
  | .exploration => Float

def builtIn : (s : Setting) → s.Value
  | .logLevel => "info"
  | .startClock => (20 : UInt64)
  | .playClock => (10 : UInt64)
  | .games => (1 : UInt32)
  | .xEngine => "mcts"
  | .oEngine => "alphabeta"
  | .maxDepth => (6 : Int32)
  | .timeSliced => true
  | .safetyMargin => (3000 : UInt64)
  | .heuristic => "constant"
  | .heuristicValue => (50 : Int32)
  | .exploration => (2 : Float)
  | .playouts => (8 : UInt32)
  | .workers => (4 : UInt64)
  | .mode => "shared"
  | .seed => (0 : UInt64)
  | .treeMargin => (4000 : UInt64)

def key : Setting → String
  | .logLevel => "COMMON_LOG_LEVEL"
  | .startClock => "MATCH_START_CLOCK_SECS"
  | .playClock => "MATCH_PLAY_CLOCK_SECS"
  | .games => "MATCH_GAMES"
  | .xEngine => "MATCH_X_ENGINE"
  | .oEngine => "MATCH_O_ENGINE"
  | .maxDepth => "MINIMAX_MAX_DEPTH"
  | .timeSliced => "MINIMAX_TIME_SLICED"
  | .safetyMargin => "MINIMAX_SAFETY_MARGIN_MS"
  | .heuristic => "MINIMAX_HEURISTIC"
  | .heuristicValue => "MINIMAX_HEURISTIC_VALUE"
  | .exploration => "MCTS_EXPLORATION"
  | .playouts => "MCTS_DEPTH_CHARGES"
  | .workers => "MCTS_THREADS"
  | .mode => "MCTS_MODE"
  | .seed => "MCTS_SEED"
  | .treeMargin => "MCTS_SAFETY_MARGIN_MS"

def ofText? : (s : Setting) → String → Option s.Value
  | .logLevel | .xEngine | .oEngine | .heuristic | .mode => some
  | .startClock | .playClock | .safetyMargin | .workers | .seed | .treeMargin => Text.uint64?
  | .games | .playouts => Text.uint32?
  | .maxDepth | .heuristicValue => Text.int32?
  | .timeSliced => Text.bool?
  | .exploration => Text.double?

/-- The section of a document, and the position and name in it. -/
def place : Setting → String × Nat × String
  | .logLevel => ("common", 0, "log_level")
  | .startClock => ("match", 0, "start_clock_secs")
  | .playClock => ("match", 1, "play_clock_secs")
  | .games => ("match", 2, "games")
  | .xEngine => ("match", 3, "x_engine")
  | .oEngine => ("match", 4, "o_engine")
  | .maxDepth => ("minimax", 0, "max_depth")
  | .timeSliced => ("minimax", 1, "time_sliced")
  | .safetyMargin => ("minimax", 2, "safety_margin_ms")
  | .heuristic => ("minimax", 3, "heuristic")
  | .heuristicValue => ("minimax", 4, "heuristic_value")
  | .exploration => ("mcts", 0, "exploration")
  | .playouts => ("mcts", 1, "depth_charges")
  | .workers => ("mcts", 2, "threads")
  | .mode => ("mcts", 3, "mode")
  | .seed => ("mcts", 4, "seed")
  | .treeMargin => ("mcts", 5, "safety_margin_ms")

def ofToml? : (s : Setting) → Toml.Value → Option s.Value
  | .logLevel | .xEngine | .oEngine | .heuristic | .mode => textOf?
  | .startClock | .playClock | .safetyMargin | .workers | .seed | .treeMargin => uint64Of?
  | .games | .playouts => uint32Of?
  | .maxDepth | .heuristicValue => int32Of?
  | .timeSliced => boolOf?
  | .exploration => doubleOf?

theorem mem_all (s : Setting) : s ∈ all := by cases s <;> decide

theorem key_injective {s t : Setting} (h : s.key = t.key) : s = t :=
  List.inj_on_of_nodup_map (l := all) (by decide) s.mem_all t.mem_all h

theorem key_ne_config (s : Setting) : s.key ≠ "CONFIG" := by cases s <;> decide

end Setting

def get (c : Configuration) : (s : Setting) → s.Value
  | .logLevel => c.common.logLevel
  | .startClock => c.play.startClock
  | .playClock => c.play.playClock
  | .games => c.play.games
  | .xEngine => c.play.xEngine
  | .oEngine => c.play.oEngine
  | .maxDepth => c.minimax.maxDepth
  | .timeSliced => c.minimax.timeSliced
  | .safetyMargin => c.minimax.safetyMargin
  | .heuristic => c.minimax.heuristic
  | .heuristicValue => c.minimax.heuristicValue
  | .exploration => c.trees.exploration
  | .playouts => c.trees.playouts
  | .workers => c.trees.workers
  | .mode => c.trees.mode
  | .seed => c.trees.seed
  | .treeMargin => c.trees.safetyMargin

/-! ## Sections of a document -/

def lookupIn (entries : Toml.Entries) (name : String) : Lookup :=
  match entries.find? name with
  | none => fun _ _ => none
  | some v => (lookup? v).getD fun _ _ => none

/-- What a document says about a setting. -/
def Setting.mentioned (s : Setting) (entries : Toml.Entries) : Option Toml.Value :=
  lookupIn entries s.place.1 s.place.2.1 s.place.2.2

variable {β : Type}

theorem setting_eq_some {look : Lookup} {position : Nat} {name : String}
    {read : Toml.Value → Option β} {builtIn v : β}
    (h : setting look position name read builtIn = some v) :
    v = ((look position name).bind read).getD builtIn := by
  unfold setting at h
  split at h
  · rename_i hnone
    cases h
    rw [hnone]
    rfl
  · rename_i value hsome
    rw [hsome, Option.bind_some, h]
    rfl

theorem sectionOf?_eq_some {entries : Toml.Entries} {name : String} {read : Lookup → Option β}
    {builtIn v : β} (h : sectionOf? entries name read builtIn = some v)
    (hempty : read (fun _ _ => none) = some builtIn) : read (lookupIn entries name) = some v := by
  unfold sectionOf? at h
  unfold lookupIn
  cases hfind : entries.find? name with
  | none =>
    rw [hfind] at h
    cases h
    exact hempty
  | some value =>
    rw [hfind] at h
    obtain ⟨look, hlook, hread⟩ := Option.bind_eq_some_iff.1 h
    simp only [hlook, Option.getD_some]
    exact hread

/-- A useful document says itself what it mentions, and has the built-in values otherwise. -/
theorem ofEntries?_get {entries : Toml.Entries} {c : Configuration}
    (h : ofEntries? entries = some c) (s : Setting) :
    c.get s = ((s.mentioned entries).bind s.ofToml?).getD s.builtIn := by
  simp only [ofEntries?, Option.bind_eq_bind, Option.bind_eq_some_iff, Option.pure_def,
    Option.some.injEq] at h
  obtain ⟨common, hcommon, play, hplay, minimax, hminimax, trees, htrees, rfl⟩ := h
  replace hcommon := sectionOf?_eq_some hcommon rfl
  replace hplay := sectionOf?_eq_some hplay rfl
  replace hminimax := sectionOf?_eq_some hminimax rfl
  replace htrees := sectionOf?_eq_some htrees rfl
  simp only [commonOf?, matchOf?, minimaxOf?, treesOf?, Option.bind_eq_bind,
    Option.bind_eq_some_iff, Option.pure_def, Option.some.injEq] at hcommon hplay hminimax htrees
  obtain ⟨logLevel, hlogLevel, rfl⟩ := hcommon
  obtain ⟨startClock, hstart, playClock, hclock, games, hgames, x, hx, o, ho, rfl⟩ := hplay
  obtain ⟨depth, hdepth, sliced, hsliced, margin, hmargin, heuristic, hheuristic, value, hvalue,
    rfl⟩ := hminimax
  obtain ⟨exploration, hexploration, playouts, hplayouts, workers, hworkers, mode, hmode, seed,
    hseed, treeMargin, htreeMargin, rfl⟩ := htrees
  cases s with
  | logLevel => exact setting_eq_some hlogLevel
  | startClock => exact setting_eq_some hstart
  | playClock => exact setting_eq_some hclock
  | games => exact setting_eq_some hgames
  | xEngine => exact setting_eq_some hx
  | oEngine => exact setting_eq_some ho
  | maxDepth => exact setting_eq_some hdepth
  | timeSliced => exact setting_eq_some hsliced
  | safetyMargin => exact setting_eq_some hmargin
  | heuristic => exact setting_eq_some hheuristic
  | heuristicValue => exact setting_eq_some hvalue
  | exploration => exact setting_eq_some hexploration
  | playouts => exact setting_eq_some hplayouts
  | workers => exact setting_eq_some hworkers
  | mode => exact setting_eq_some hmode
  | seed => exact setting_eq_some hseed
  | treeMargin => exact setting_eq_some htreeMargin

/-! ## Sources -/

/-- The paths at which a file may be, the first one that leads to a file counts. -/
def candidates (w : Surroundings) : List String :=
  (w.env (stem ++ "CONFIG")).toList ++ ["config.toml", "../config.toml"]

/-- The document in the first of the files, if it is useful as a whole. -/
def document? (w : Surroundings) : Option Toml.Entries :=
  match (candidates w).findSome? w.file with
  | some (.text content) => (Toml.parse content).filter fun entries => (ofEntries? entries).isSome
  | _ => none

namespace Setting

def fromFile (w : Surroundings) (s : Setting) : Option s.Value :=
  (document? w).bind fun entries => (s.mentioned entries).bind s.ofToml?

def fromVariable (w : Surroundings) (s : Setting) : Option s.Value :=
  (w.env (stem ++ s.key)).bind s.ofText?

end Setting

theorem selectedFile_eq (w : Surroundings) :
    selectedFile w = (candidates w).findSome? w.file := by
  unfold selectedFile namedFile candidates
  cases w.env (stem ++ "CONFIG") with
  | none =>
    cases h : w.file "config.toml" <;> cases h' : w.file "../config.toml" <;> simp [h, h']
  | some path =>
    cases h : w.file path <;> cases h' : w.file "config.toml" <;>
      cases h'' : w.file "../config.toml" <;> simp [h, h', h'']

theorem get_default (s : Setting) : get {} s = s.builtIn := by cases s <;> rfl

theorem ofFile_get (w : Surroundings) (s : Setting) :
    (ofFile (selectedFile w)).get s = (s.fromFile w).getD s.builtIn := by
  unfold Setting.fromFile document?
  rw [selectedFile_eq]
  cases (candidates w).findSome? w.file with
  | none => exact get_default s
  | some f =>
    cases f with
    | unreadable => exact get_default s
    | text content =>
      simp only [ofFile, ofText?]
      cases Toml.parse content with
      | none => exact get_default s
      | some entries =>
        cases hc : ofEntries? entries with
        | none => simpa [hc, Option.filter_some] using get_default s
        | some c => simpa [hc, Option.filter_some] using ofEntries?_get hc s

theorem override_eq (env : String → Option String) (key : String) (read : String → Option β)
    (old : β) : override env key read old = ((env (stem ++ key)).bind read).getD old := by
  unfold override
  cases env (stem ++ key) <;> rfl

theorem overridden_get (c : Configuration) (env : String → Option String) (s : Setting) :
    (c.overridden env).get s = ((env (stem ++ s.key)).bind s.ofText?).getD (c.get s) := by
  rw [← override_eq]
  cases s <;> rfl

/-- A variable counts before the selected file, and the file before the built-in value. -/
theorem load_get (w : Surroundings) (s : Setting) :
    (load w).get s = (s.fromVariable w <|> s.fromFile w).getD s.builtIn := by
  rw [load, overridden_get, ofFile_get, Setting.fromVariable]
  cases (w.env (stem ++ s.key)).bind s.ofText? <;> rfl

/-! ## Variables -/

theorem override_override (env : String → Option String) (key : String)
    (read : String → Option β) (old : β) :
    override env key read (override env key read old) = override env key read old := by
  simp only [override_eq]
  cases (env (stem ++ key)).bind read <;> rfl

theorem overridden_overridden (c : Configuration) (env : String → Option String) :
    (c.overridden env).overridden env = c.overridden env := by
  simp only [overridden, override_override]

theorem variable_of_ne {env : String → Option String} {key key' : String} (h : key' ≠ key)
    (text : Option String) :
    Function.update env (stem ++ key) text (stem ++ key') = env (stem ++ key') :=
  Function.update_of_ne (fun hname => h ((String.append_right_inj stem).1 hname)) text env

theorem overridden_update {s t : Setting} (hst : t ≠ s) (c : Configuration)
    (env : String → Option String) (text : Option String) :
    (c.overridden (Function.update env (stem ++ s.key) text)).get t = (c.overridden env).get t := by
  have hkey : t.key ≠ s.key := fun h => hst (Setting.key_injective h)
  rw [overridden_get, overridden_get, variable_of_ne hkey]

theorem load_update {s t : Setting} (hst : t ≠ s) (w : Surroundings) (text : Option String) :
    (load (w.withVariable (stem ++ s.key) text)).get t = (load w).get t := by
  have hnamed : (w.withVariable (stem ++ s.key) text).env (stem ++ "CONFIG") =
      w.env (stem ++ "CONFIG") := variable_of_ne s.key_ne_config.symm text
  have hfile : selectedFile (w.withVariable (stem ++ s.key) text) = selectedFile w := by
    rw [selectedFile_eq, selectedFile_eq, candidates, hnamed]
    rfl
  rw [load, hfile]
  exact overridden_update hst _ w.env text

end Configuration

end GameSearch
