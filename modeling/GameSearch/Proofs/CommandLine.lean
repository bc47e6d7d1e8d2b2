import GameSearch.CommandLine.Words

/-!
# GameSearch.Proofs.CommandLine

What the words of a command line say. `Spelled words given` says that the words are options with
their values, in the order of `given`, whatever these values are. A command line is accepted exactly
if its words are spelled so and the options can be given their values one after another.

* `read_eq_ok_iff`: the command lines that are accepted, and the arguments that they give.
* `Arguments.giveAll_nodup`: no option is given twice.
-/

namespace GameSearch.CommandLine

variable {words : List String} {given : List (Flag × String)} {a a' b : Arguments}

/-- A value in a word of its own does not begin with a dash, unless it is a negative number and the
option takes these. -/
def MayBeValue (flag : Flag) (text : String) : Prop :=
  Word.ofText text = .plain ∨
    flag.takesNegative = true ∧ ∃ cs, Word.ofText text = .short cs ∧ isNumber cs = true

inductive Spelled : List String → List (Flag × String) → Prop where
  | none : Spelled [] []
  | escape {text : String} : Word.ofText text = .escape → Spelled [text] []
  | joined {text name value : String} {flag : Flag} {rest : List String}
      {given : List (Flag × String)} : Word.ofText text = .long name (some value) →
      Flag.ofName? name = some flag → Spelled rest given →
      Spelled (text :: rest) ((flag, value) :: given)
  | apart {text name value : String} {flag : Flag} {rest : List String}
      {given : List (Flag × String)} : Word.ofText text = .long name none →
      Flag.ofName? name = some flag → MayBeValue flag value → Spelled rest given →
      Spelled (text :: value :: rest) ((flag, value) :: given)

namespace Arguments

def giveAll (a : Arguments) : List (Flag × String) → Except Refusal Arguments
  | [] => .ok a
  | (flag, text) :: rest =>
    match a.give flag text with
    | .error e => .error e
    | .ok a => a.giveAll rest

theorem giveAll_cons_ok {flag : Flag} {text : String} :
    a.giveAll ((flag, text) :: given) = .ok a' ↔
      ∃ b, a.give flag text = .ok b ∧ b.giveAll given = .ok a' := by
  cases h : a.give flag text <;> simp [giveAll, h]

theorem give_ok {flag : Flag} {text : String} :
    a.give flag text = .ok b ↔ a.isGiven flag = false ∧ a.put? text flag = some b := by
  unfold give
  split
  · rename_i h
    simp [h]
  · rename_i h
    cases a.put? text flag <;> simp [h]

theorem put?_isGiven {flag : Flag} {text : String} (h : a.put? text flag = some b) (g : Flag) :
    b.isGiven g = (decide (g = flag) || a.isGiven g) := by
  cases flag with
  | logLevel | xEngine | oEngine | heuristic | mode =>
    cases h
    cases g <;> rfl
  | startClock | playClock | games | maxDepth | heuristicValue | workers | playouts | seed =>
    obtain ⟨v, -, rfl⟩ := Option.map_eq_some_iff.1 h
    cases g <;> rfl

theorem giveAll_nodup (h : a.giveAll given = .ok a') :
    (given.map Prod.fst).Nodup ∧ ∀ flag ∈ given.map Prod.fst, a.isGiven flag = false := by
  induction given generalizing a with
  | nil => simp
  | cons first rest ih =>
    obtain ⟨flag, text⟩ := first
    obtain ⟨b, hb, hrest⟩ := giveAll_cons_ok.1 h
    obtain ⟨hfree, hput⟩ := give_ok.1 hb
    obtain ⟨hnodup, hothers⟩ := ih hrest
    have hlater : ∀ g ∈ rest.map Prod.fst, g ≠ flag ∧ a.isGiven g = false := by
      intro g hg
      have hb := hothers g hg
      rw [put?_isGiven hput] at hb
      simpa using hb
    rw [List.map_cons, List.nodup_cons]
    refine ⟨⟨fun hmem => (hlater flag hmem).1 rfl, hnodup⟩, fun g hg => ?_⟩
    rcases List.mem_cons.1 hg with rfl | hg
    · exact hfree
    · exact (hlater g hg).2

end Arguments

/-- What the words may say when something is still to be settled about the last option. -/
inductive Continues : Pending → List String → List (Flag × String) → Prop where
  | nothing {words : List String} {given : List (Flag × String)} : Spelled words given →
      Continues .nothing words given
  | awaiting {flag : Flag} {value : String} {rest : List String} {given : List (Flag × String)} :
      MayBeValue flag value → Spelled rest given →
      Continues (.awaiting flag) (value :: rest) ((flag, value) :: given)
  | holding {flag : Flag} {text : String} {words : List String} {given : List (Flag × String)} :
      Spelled words given → Continues (.holding flag text) words ((flag, text) :: given)

theorem continues_of_settle {p : Pending} (hsettle : p.settle a = .ok b)
    (hspelled : Spelled words given) (hgive : b.giveAll given = .ok a') :
    ∃ given', Continues p words given' ∧ a.giveAll given' = .ok a' := by
  cases p with
  | nothing =>
    cases hsettle
    exact ⟨given, .nothing hspelled, hgive⟩
  | awaiting flag => cases hsettle
  | holding flag text =>
    exact ⟨_, .holding hspelled, Arguments.giveAll_cons_ok.2 ⟨b, hsettle, hgive⟩⟩

theorem continues_of_readWords {p : Pending} (h : readWords words p a = .ok a') :
    ∃ given, Continues p words given ∧ a.giveAll given = .ok a' := by
  induction words generalizing p a with
  | nil => exact continues_of_settle h .none rfl
  | cons text rest ih =>
    -- a value in a word of its own is held until the next option
    have hvalue : ∀ {flag : Flag}, p.awaited = some flag → MayBeValue flag text →
        readWords rest (.holding flag text) a = .ok a' →
        ∃ given, Continues p (text :: rest) given ∧ a.giveAll given = .ok a' := by
      intro flag hflag hmay hrest
      obtain ⟨given, hcontinues, hgive⟩ := ih hrest
      cases hcontinues with
      | holding hspelled =>
        cases p with
        | awaiting g =>
          cases hflag
          exact ⟨_, .awaiting hmay hspelled, hgive⟩
        | nothing => cases hflag
        | holding => cases hflag
    rw [readWords] at h
    split at h
    · rename_i hword
      split at h
      · rename_i hrest
        subst hrest
        exact continues_of_settle h (.escape hword) rfl
      · cases h
    · rename_i name value hword
      split at h
      · rename_i flag hflag
        split at h
        · cases h
        · rename_i b hsettle
          split at h
          · obtain ⟨given, hcontinues, hgive⟩ := ih h
            cases hcontinues with
            | awaiting hmay hspelled =>
              exact continues_of_settle hsettle (.apart hword hflag hmay hspelled) hgive
          · rename_i value
            split at h
            · cases h
            · rename_i c hc
              obtain ⟨given, hcontinues, hgive⟩ := ih h
              cases hcontinues with
              | nothing hspelled =>
                exact continues_of_settle hsettle (.joined hword hflag hspelled)
                  (Arguments.giveAll_cons_ok.2 ⟨c, hc, hgive⟩)
      · split at h <;> cases h
    · rename_i cs hword
      split at h
      · rename_i flag hflag
        split at h
        · rename_i hnumber
          rw [Bool.and_eq_true] at hnumber
          exact hvalue hflag (.inr ⟨hnumber.1, cs, hword, hnumber.2⟩) h
        · split at h <;> cases h
      · split at h <;> cases h
    · rename_i hword
      split at h
      · rename_i flag hflag
        exact hvalue hflag (.inl hword) h
      · cases h

theorem readWords_of_spelled {p : Pending} (h : Spelled words given)
    (hsettle : p.settle a = .ok b) (hgive : b.giveAll given = .ok a') :
    readWords words p a = .ok a' := by
  induction h generalizing p a b with
  | none =>
    cases hgive
    exact hsettle
  | escape hword =>
    cases hgive
    simpa [readWords, hword] using hsettle
  | joined hword hflag _ ih =>
    obtain ⟨c, hc, hrest⟩ := Arguments.giveAll_cons_ok.1 hgive
    simp only [readWords, hword, hflag, hsettle, hc]
    exact ih (p := .nothing) rfl hrest
  | @apart _ _ value flag _ _ hword hflag hmay _ ih =>
    obtain ⟨c, hc, hrest⟩ := Arguments.giveAll_cons_ok.1 hgive
    have hheld := ih (p := .holding flag value) (a := b) hc hrest
    rw [readWords]
    simp only [hword, hflag, hsettle]
    rcases hmay with hplain | ⟨hnegative, cs, hshort, hnumber⟩
    · simpa only [readWords, hplain, Pending.awaited] using hheld
    · simpa only [readWords, hshort, Pending.awaited, hnegative, hnumber, Bool.and_self, ↓reduceIte]
        using hheld

/-- A command line is accepted exactly if its words are options with values that can be given. -/
theorem read_eq_ok_iff : read words = .ok a ↔
    ∃ given, Spelled words given ∧ Arguments.giveAll {} given = .ok a := by
  constructor
  · intro h
    obtain ⟨given, hcontinues, hgive⟩ := continues_of_readWords h
    cases hcontinues with
    | nothing hspelled => exact ⟨given, hspelled, hgive⟩
  · rintro ⟨given, hspelled, hgive⟩
    exact readWords_of_spelled hspelled rfl hgive

end GameSearch.CommandLine
