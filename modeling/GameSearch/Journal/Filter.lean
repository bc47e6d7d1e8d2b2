import GameSearch.Journal.Rule

/-!
# GameSearch.Journal.Filter

Which entries of the journal are written down. A filter is a list of rules, and of those that
are for an entry the closest one decides: the one with the longest name, then one with a field,
then the one with the last field in alphabetical order. An entry that no rule is for is left
out. In a text, rules are separated by commas.
-/

namespace GameSearch.Journal

abbrev Filter := List Rule

namespace Filter

def errorsOnly : Filter := [⟨"", none, .error⟩]

/-- Whether a rule is as close to an entry as another one, when both are for it. -/
def isAsClose (r other : Rule) : Bool :=
  if r.name.length ≠ other.name.length then other.name.length < r.name.length
  else
    match r.field, other.field with
    | _, none => true
    | none, some _ => false
    | some field, some otherField => otherField ≤ field

def closer (best : Option Rule) (r : Rule) : Option Rule :=
  match best with
  | none => some r
  | some b => if isAsClose r b then some r else some b

def ruleFor (f : Filter) (e : Entry) : Option Rule := (f.filter (·.isFor e)).foldl closer none

def admits (f : Filter) (e : Entry) : Bool :=
  match f.ruleFor e with
  | none => false
  | some r => e.level.rank ≤ r.level.rank

def parts (text : String) : List String := (text.splitOn ",").filter (· ≠ "")

def ofDirectives (ds : List Directive) : Filter :=
  if ds = [] then errorsOnly else ds.filterMap Directive.rule?

/-- A text without rules lets errors in; one with a faulty rule is no filter. -/
def ofText? (text : String) : Option Filter :=
  ((parts text).mapM Directive.ofText?).map ofDirectives

def ofRest (text : String) : Filter × List String :=
  (ofDirectives ((parts text).filterMap Directive.ofText?),
    (parts text).filter fun part => (Directive.ofText? part).isNone)

end Filter

end GameSearch.Journal
