import GameSearch.Match.Plan
import GameSearch.Proofs.CommandLine
import GameSearch.Proofs.Configuration.Settings

/-!
# GameSearch.Proofs.Match.Precedence

From the words of the command line and the surroundings to the options of a seat. A value for a
setting is taken from an option of the command line, or else from a variable of the environment, or
else from the selected file, or else it is built in (`Setting.chosen`).

* `Plan.ofArguments_eq`: a plan consists of the chosen values.
* `Plan.check_eq_ok_iff`: which plans pass their check.
* `Plan.seatOptions_honour`: the options of a seat are the chosen values, as they are.
-/

namespace GameSearch

open CommandLine

namespace Configuration.Setting

/-! ## Values of options -/

def flag? : Setting → Option Flag
  | .logLevel => some .logLevel
  | .startClock => some .startClock
  | .playClock => some .playClock
  | .games => some .games
  | .xEngine => some .xEngine
  | .oEngine => some .oEngine
  | .maxDepth => some .maxDepth
  | .heuristic => some .heuristic
  | .heuristicValue => some .heuristicValue
  | .playouts => some .playouts
  | .workers => some .workers
  | .mode => some .mode
  | .seed => some .seed
  | .timeSliced | .safetyMargin | .exploration | .treeMargin => none

/-- The values of options are read like those of variables, except that a zero may have a sign. -/
def ofOption? : (s : Setting) → String → Option s.Value
  | .games | .playouts => Arguments.count?
  | s => s.ofText?

def argument (a : Arguments) : (s : Setting) → Option s.Value
  | .logLevel => a.logLevel
  | .startClock => a.startClock
  | .playClock => a.playClock
  | .games => a.games
  | .xEngine => a.xEngine
  | .oEngine => a.oEngine
  | .maxDepth => a.maxDepth
  | .heuristic => a.heuristic
  | .heuristicValue => a.heuristicValue
  | .playouts => a.playouts
  | .workers => a.workers
  | .mode => a.mode
  | .seed => a.seed
  | .timeSliced | .safetyMargin | .exploration | .treeMargin => none

/-- The value that the options of a command line have for a setting. -/
def fromOptions (given : List (Flag × String)) (s : Setting) : Option s.Value :=
  s.flag?.bind fun flag => (given.lookup flag).bind s.ofOption?

def chosen (w : Surroundings) (given : List (Flag × String)) (s : Setting) : s.Value :=
  (s.fromOptions given <|> s.fromVariable w <|> s.fromFile w).getD s.builtIn

variable {s : Setting} {a a' b : Arguments} {flag : Flag} {text : String}
  {given : List (Flag × String)}

theorem argument_isSome (h : s.flag? = some flag) :
    (s.argument a).isSome = a.isGiven flag := by
  cases s <;> cases h <;> rfl

theorem argument_none (h : s.flag? = none) : s.argument a = none := by
  cases s <;> first | rfl | cases h

theorem argument_put? (h : a.put? text flag = some b) (s : Setting) :
    s.argument b = if s.flag? = some flag then s.ofOption? text else s.argument a := by
  cases flag with
  | logLevel | xEngine | oEngine | heuristic | mode =>
    cases h
    cases s <;> rfl
  | startClock | playClock | games | maxDepth | heuristicValue | workers | playouts | seed =>
    obtain ⟨v, hv, rfl⟩ := Option.map_eq_some_iff.1 h
    cases s <;> first | rfl | exact hv.symm

theorem argument_giveAll (h : a.giveAll given = .ok a') (s : Setting) :
    s.argument a' = (s.argument a <|> s.fromOptions given) := by
  cases hflag : s.flag? with
  | none => simp only [argument_none hflag, fromOptions, hflag]; rfl
  | some flag =>
    simp only [fromOptions, hflag, Option.bind_some]
    induction given generalizing a with
    | nil =>
      obtain rfl : a = a' := Except.ok.inj h
      cases s.argument a <;> rfl
    | cons first rest ih =>
      obtain ⟨g, text⟩ := first
      obtain ⟨b, hb, hrest⟩ := Arguments.giveAll_cons_ok.1 h
      obtain ⟨hfree, hput⟩ := Arguments.give_ok.1 hb
      have hb := argument_put? hput s
      rw [ih hrest, hb, hflag]
      by_cases hg : flag = g
      · -- the option is given here: it was not before, and its text has a value
        subst hg
        have hnone : s.argument a = none := by
          simpa [hfree] using argument_isSome (a := a) hflag
        have hsome : (s.ofOption? text).isSome = true := by
          rw [hflag, if_pos rfl] at hb
          rw [← hb, argument_isSome hflag, Arguments.put?_isGiven hput]
          simp
        obtain ⟨v, hv⟩ := Option.isSome_iff_exists.1 hsome
        simp [hnone, hv]
      · have hne : (flag == g) = false := by simpa using hg
        simp [hg, hne, List.lookup_cons]

end Configuration.Setting

namespace Match.Plan

open GameSearch.Configuration

variable {p : Plan} {w : Surroundings} {a : Arguments} {given : List (Flag × String)}

/-! ## Plans -/

theorem chosen_eq (h : Arguments.giveAll {} given = .ok a) (s : Setting) :
    (s.argument a).getD ((load w).get s) = s.chosen w given := by
  have hargument : s.argument {} = none := by cases s <;> rfl
  have hoptions := s.argument_giveAll h
  rw [hargument] at hoptions
  have hsame : s.argument a = s.fromOptions given := hoptions
  rw [hsame, load_get, Setting.chosen]
  cases s.fromOptions given <;> rfl

def ofValues (v : (s : Setting) → s.Value) : Plan where
  logLevel := v .logLevel
  startClock := v .startClock
  playClock := v .playClock
  games := v .games
  xEngine := v .xEngine
  oEngine := v .oEngine
  maxDepth := v .maxDepth
  heuristic := v .heuristic
  heuristicValue := v .heuristicValue
  workers := v .workers
  mode := v .mode
  playouts := v .playouts
  seed := v .seed

theorem ofArguments_eq (h : Arguments.giveAll {} given = .ok a) :
    ofArguments (load w) a = ofValues fun s => s.chosen w given := by
  have hvalues : (fun s : Setting => s.chosen w given) =
      fun s => (s.argument a).getD ((load w).get s) := funext fun s => (chosen_eq h s).symm
  rw [hvalues]
  rfl

/-- What a plan has to be, with engines `x` and `o`. -/
structure Sound (p : Plan) (x o : Engine) : Prop where
  logLevel : (Journal.Level.ofText? p.logLevel).isSome = true
  playClock : p.playClock ≠ 0
  games : p.games ≠ 0
  xEngine : Engine.ofName? p.xEngine = some x
  oEngine : Engine.ofName? p.oEngine = some o
  depth : p.maxDepth < 0 → x ≠ .minimax ∧ o ≠ .minimax
  heuristic : p.heuristic = "constant" ∨ p.heuristic = "goal"
  heuristicValue : 0 ≤ p.heuristicValue ∧ p.heuristicValue ≤ 100
  workers : p.workers ≠ 0
  mode : p.mode = "shared" ∨ p.mode = "independent"
  playouts : p.playouts ≠ 0

theorem checkSearches_eq_ok_iff : p.checkSearches = .ok () ↔
    (p.heuristic = "constant" ∨ p.heuristic = "goal") ∧
    (0 ≤ p.heuristicValue ∧ p.heuristicValue ≤ 100) ∧ p.workers ≠ 0 ∧
    (p.mode = "shared" ∨ p.mode = "independent") ∧ p.playouts ≠ 0 := by
  have hrange : 0 ≤ p.heuristicValue ∧ p.heuristicValue ≤ 100 ↔
      ¬(p.heuristicValue < 0 ∨ 100 < p.heuristicValue) := by
    rw [not_or, Int32.not_lt, Int32.not_lt]
  rw [hrange]
  unfold checkSearches
  split_ifs with hheuristic hvalue hworkers hmode hplayouts
  · exact iff_of_false nofun fun h => h.1.elim hheuristic.1 hheuristic.2
  · exact iff_of_false nofun fun h => h.2.1 hvalue
  · exact iff_of_false nofun fun h => h.2.2.1 hworkers
  · exact iff_of_false nofun fun h => h.2.2.2.1.elim hmode.1 hmode.2
  · exact iff_of_false nofun fun h => h.2.2.2.2 hplayouts
  · exact iff_of_true rfl ⟨by tauto, hvalue, hworkers, by tauto, hplayouts⟩

theorem needsDepth_eq_false_iff {x o : Engine} :
    p.needsDepth x o = false ↔ (p.maxDepth < 0 → x ≠ .minimax ∧ o ≠ .minimax) := by
  by_cases hneg : p.maxDepth < 0 <;> simp [needsDepth, hneg]

theorem check_eq_ok_iff : p.check = .ok () ↔ ∃ x o, p.Sound x o := by
  constructor
  · intro h
    unfold check at h
    split at h
    · cases h
    rename_i hlevel
    split at h
    · cases h
    rename_i hclock
    split at h
    · cases h
    rename_i hgames
    split at h
    · cases h
    rename_i x hx
    split at h
    · cases h
    rename_i o ho
    split at h
    · cases h
    rename_i hdepth
    obtain ⟨hheuristic, hvalue, hworkers, hmode, hplayouts⟩ := checkSearches_eq_ok_iff.1 h
    have hknown : (Journal.Level.ofText? p.logLevel).isSome = true := by
      simpa [Option.isSome_iff_ne_none] using hlevel
    refine ⟨x, o, hknown, hclock, hgames, hx, ho, ?_, hheuristic, hvalue, hworkers, hmode,
      hplayouts⟩
    exact needsDepth_eq_false_iff.1 (Bool.eq_false_iff.2 hdepth)
  · rintro ⟨x, o, h⟩
    have hsearches : p.checkSearches = .ok () :=
      checkSearches_eq_ok_iff.2 ⟨h.heuristic, h.heuristicValue, h.workers, h.mode, h.playouts⟩
    simp [check, Option.isSome_iff_ne_none.1 h.logLevel, h.playClock, h.games, h.xEngine, h.oEngine,
      needsDepth_eq_false_iff.2 h.depth, hsearches]

theorem Sound.engines {x o : Engine} (h : p.Sound x o) : p.engines = .ok (x, o) := by
  simp only [Plan.engines, h.xEngine, h.oEngine]

/-! ## Options of a seat -/

structure Honours (o : SeatOptions) (v : (s : Setting) → s.Value) : Prop where
  depth : ∀ d : Nat, o.depthBound = some d ↔ (v .maxDepth).toInt = d
  unbounded : o.depthBound = none ↔ v .maxDepth < 0
  alphaBeta : o.alphaBeta = ⟨o.depthBound, v .timeSliced, (v .safetyMargin).toNat⟩
  heuristic : v .heuristic = "constant" ∧ o.heuristic = .constant (v .heuristicValue) ∨
    v .heuristic = "goal" ∧ o.heuristic = .goal (v .heuristicValue)
  mode : v .mode = "shared" ∧ o.trees.mode = .sharedTree ∨
    v .mode = "independent" ∧ o.trees.mode = .ownTrees
  trees : o.trees = ⟨v .exploration, v .playouts, (v .workers).toNat, o.trees.mode, v .seed,
    (v .treeMargin).toNat⟩
  seed : o.seed = v .seed

theorem depthBound_eq_none {c : MinimaxSection} : c.depthBound = none ↔ c.maxDepth < 0 := by
  unfold MinimaxSection.depthBound
  split <;> simp_all

theorem depthBound_eq_some {c : MinimaxSection} {d : Nat} :
    c.depthBound = some d ↔ c.maxDepth.toInt = d := by
  have hneg : c.maxDepth < 0 ↔ c.maxDepth.toInt < 0 := Int32.lt_iff_toInt_lt
  unfold MinimaxSection.depthBound
  split
  · rename_i h
    have hnegative := hneg.1 h
    simp only [reduceCtorEq, false_iff]
    omega
  · rename_i h
    rw [hneg] at h
    rw [Option.some.injEq]
    omega

theorem withPlayouts_of_ne_zero {c : TreeSearch.Settings} {n : UInt32} (h : n ≠ 0) :
    c.withPlayouts n = { c with playouts := n } := by
  have hmax : max n 1 = n := by
    have hif : max n 1 = if n ≤ 1 then 1 else n := rfl
    rw [hif]
    split
    · rename_i hle
      have hzero : n.toNat ≠ 0 := fun hn => h (UInt32.toNat_inj.1 hn)
      rw [UInt32.le_iff_toNat_le, UInt32.toNat_one] at hle
      exact UInt32.toNat_inj.1 (by rw [UInt32.toNat_one]; omega)
    · rfl
  rw [TreeSearch.Settings.withPlayouts, hmax]

theorem withWorkers_of_ne_zero {c : TreeSearch.Settings} {n : UInt64} (h : n ≠ 0) :
    c.withWorkers n.toNat = { c with workers := n.toNat } := by
  have hzero : n.toNat ≠ 0 := fun hn => h (UInt64.toNat_inj.1 hn)
  rw [TreeSearch.Settings.withWorkers, Nat.max_eq_left (Nat.one_le_iff_ne_zero.2 hzero)]

theorem treeSettings_eq {c : TreeSection} (hplayouts : c.playouts ≠ 0) (hworkers : c.workers ≠ 0) :
    c.settings = ⟨c.exploration, c.playouts, c.workers.toNat, c.workerMode, c.seed,
      c.safetyMargin.toNat⟩ := by
  simp only [TreeSection.settings]
  rw [withPlayouts_of_ne_zero hplayouts, withWorkers_of_ne_zero hworkers]

/-- Nothing is lost on the way from a plan that has passed its check to the engines. -/
theorem seatOptions_honour {x o : Engine} {v : (s : Setting) → s.Value} {c : Configuration}
    (hp : p = ofValues v) (hsound : p.Sound x o) (hsliced : c.get .timeSliced = v .timeSliced)
    (hmargin : c.get .safetyMargin = v .safetyMargin)
    (hexploration : c.get .exploration = v .exploration)
    (htrees : c.get .treeMargin = v .treeMargin) : Honours (p.seatOptions c) v := by
  subst hp
  constructor
  case depth => exact fun d => depthBound_eq_some
  case unbounded => exact depthBound_eq_none
  case alphaBeta =>
    rw [← hsliced, ← hmargin]
    rfl
  case heuristic =>
    rcases hsound.heuristic with h | h
    · refine .inl ⟨h, if_neg ?_⟩
      exact fun hgoal => absurd (h.symm.trans hgoal) (by decide)
    · exact .inr ⟨h, if_pos h⟩
  case mode =>
    rcases hsound.mode with h | h
    · refine .inl ⟨h, if_neg ?_⟩
      exact fun hown => absurd (h.symm.trans hown) (by decide)
    · exact .inr ⟨h, if_pos h⟩
  case trees =>
    rw [← hexploration, ← htrees]
    exact treeSettings_eq (c := (ofValues v).treeSection c) hsound.playouts hsound.workers
  case seed => rfl

/-- The chosen values are what the program goes by. If the command line is accepted and the plan
passes its check, the plan has the chosen values, both engines are known, and the options of the
seats honour the chosen values. A value is taken from an option of the command line, or else from a
variable whose text is a value of the setting, or else from the selected file if it is a useful
document, or else it is built in. A variable changes its own setting only, and it makes no
difference if the variables are looked at twice. -/
theorem settings_chosen (w : Surroundings) (words : List String) :
    (∀ a, CommandLine.read words = .ok a → (ofArguments (load w) a).check = .ok () →
      ∃ given, Spelled words given ∧ (given.map Prod.fst).Nodup ∧
        let p := ofArguments (load w) a
        let v := fun s : Setting => s.chosen w given
        p = ofValues v ∧ Honours (p.seatOptions (load w)) v ∧
        ∃ x o, p.engines = .ok (x, o) ∧ Engine.ofName? (v .xEngine) = some x ∧
          Engine.ofName? (v .oEngine) = some o ∧
          ((p.seatOptions (load w)).depthBound = none → x ≠ .minimax ∧ o ≠ .minimax)) ∧
    (∀ s t : Setting, t ≠ s → ∀ text,
      (load (w.withVariable (stem ++ s.key) text)).get t = (load w).get t ∧
      ∀ c env, (overridden c (Function.update env (stem ++ s.key) text)).get t =
        (overridden c env).get t) ∧
    ∀ c env, (overridden c env).overridden env = overridden c env := by
  refine ⟨fun a hread hcheck => ?_, fun s t hst text => ?_, overridden_overridden⟩
  · obtain ⟨given, hspelled, hgive⟩ := read_eq_ok_iff.1 hread
    obtain ⟨x, o, hsound⟩ := check_eq_ok_iff.1 hcheck
    have hp := ofArguments_eq (w := w) hgive
    have hchosen : ∀ s : Setting, s.flag? = none → (load w).get s = s.chosen w given := by
      intro s hs
      rw [← chosen_eq hgive s, Setting.argument_none hs]
      rfl
    have hhonour := seatOptions_honour hp hsound (hchosen .timeSliced rfl)
      (hchosen .safetyMargin rfl) (hchosen .exploration rfl) (hchosen .treeMargin rfl)
    have hengines := hsound.engines
    rw [hp] at hsound
    exact ⟨given, hspelled, (Arguments.giveAll_nodup hgive).1, hp, hhonour, x, o, hengines,
      hsound.xEngine, hsound.oEngine, fun hnone => hsound.depth (hhonour.unbounded.1 hnone)⟩
  · exact ⟨load_update hst w text, fun c env => overridden_update hst c env text⟩

/-- There is a value for the number of workers on the command line, in the environment and in the
file, one for the limit in the file, one for the heuristic in the environment, and none for the seed.
The variable for the number of plays has no value of that setting, but the file has one. -/
theorem settings_chosen_five_plays :
    let text := "[minimax]\nmax_depth = -1\n[mcts]\nthreads = 2\ndepth_charges = 5\n"
    let w : Surroundings :=
      { env := fun name => List.lookup name [("DELIBERATE_MCTS_THREADS", "3"),
          ("DELIBERATE_MCTS_DEPTH_CHARGES", "many"), ("DELIBERATE_MINIMAX_HEURISTIC", "goal")]
        file := fun path => if path = "../config.toml" then some (.text text) else none }
    let words := ["--threads", "6", "--mcts-mode=independent", "--log-level", "3"]
    let a : Arguments := { workers := some 6, mode := some "independent", logLevel := some "3" }
    let p := ofArguments (load w) a
    CommandLine.read words = .ok a ∧ p.check = .ok () ∧
      p.engines = .ok (.treeSearch, .alphaBeta) ∧ ∃ given, Spelled words given ∧
        Honours (p.seatOptions (load w)) (fun s => s.chosen w given) ∧
        Setting.chosen w given .workers = (6 : UInt64) ∧
        Setting.chosen w given .mode = "independent" ∧
        Setting.chosen w given .heuristic = "goal" ∧
        Setting.chosen w given .maxDepth = (-1 : Int32) ∧
        Setting.chosen w given .playouts = (5 : UInt32) ∧
        Setting.chosen w given .seed = (0 : UInt64) := by
  intro text w words a p
  have hread : CommandLine.read words = .ok a := by decide +kernel
  have hp : p =
      ⟨"3", 20, 10, 1, "mcts", "alphabeta", -1, "goal", 50, 6, "independent", 5, 0⟩ := by
    decide +kernel
  have hcheck : p.check = .ok () := by
    rw [hp]
    decide +kernel
  have hengines : p.engines = .ok (.treeSearch, .alphaBeta) := by
    rw [hp]
    decide +kernel
  obtain ⟨given, hspelled, -, hvalues, hhonours, -⟩ := (settings_chosen w words).1 a hread hcheck
  have hchosen := hvalues.symm.trans hp
  refine ⟨hread, hcheck, hengines, given, hspelled, hhonours, ?_⟩
  exact ⟨congrArg workers hchosen, congrArg mode hchosen, congrArg heuristic hchosen,
    congrArg maxDepth hchosen, congrArg playouts hchosen, congrArg seed hchosen⟩

end Match.Plan

end GameSearch
