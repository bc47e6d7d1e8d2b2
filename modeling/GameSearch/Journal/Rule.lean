import GameSearch.Journal.Entry
import GameSearch.Text.Alphanumeric
import GameSearch.Text.Decimal
import GameSearch.Text.Pattern
import GameSearch.Text.Slice

/-!
# GameSearch.Journal.Rule

Rules about the entries of the journal. A rule is for entries whose origin begins with its name,
and maybe only for those that have a certain field; it lets them in up to a level.

A rule is written as a level, as a name, or as a name and a level with an equals sign between
them; without a level it lets everything in. Brackets behind the name, or in its place, narrow
the rule down: to circumstances with a name, to entries with a field in braces, or to
circumstances in which the field has a value. Entries are never made in any circumstances, so
that a rule with a name or a value in its brackets is for none of them.

The marks of a rule are looked for in its text without the blanks around it, but the pieces
between them are taken at these places from the text with its blanks. So a text that begins with
a blank is faulty or says nothing of use.
-/

namespace GameSearch.Journal

structure Rule where
  name : String
  field : Option String := none
  level : Level
  deriving DecidableEq, Repr

def Rule.isFor (r : Rule) (e : Entry) : Bool :=
  r.name.toList.isPrefixOf e.origin.toList &&
    match r.field with
    | none => true
    | some field => e.hasField field

structure Directive where
  name : String
  circumstance : Option String := none
  field : Option String := none
  value : Option String := none
  level : Level
  deriving DecidableEq, Repr

namespace Directive

def rule? (d : Directive) : Option Rule :=
  match d.circumstance, d.value with
  | none, none => some ⟨d.name, d.field, d.level⟩
  | _, _ => none

def isNameStart (c : Char) : Bool :=
  Text.isAlphanumeric c || c == '-' || c == ':' || c == '_'

def levelFrom? (text : List Char) (start : Nat) : Option Level :=
  match Text.afterBytes? text start with
  | none => none
  | some [] => some .trace
  | some level => Level.ofText? (String.ofList level)

def levelBehind? (text : List Char) (here : Nat) : List Char → Option Level
  | [] => some .trace
  | '=' :: _ => levelFrom? text (here + 1)
  | _ => none

/-- A number, or else a pattern. -/
def isValue (text : String) : Bool := (Text.double? text).isSome || Text.isPattern text

/-- A field and its value. There is nothing to say behind a second equals sign. -/
def condition? (text : String) : Option (String × Option String) :=
  if text = "" then none
  else
    match text.splitOn "=" with
    | name :: value :: _ => if isValue value then some (name, some value) else none
    | _ => some (text, none)

/-- Braces that begin before the position `start`, with what follows them. -/
def braced? (text : List Char) (name circumstance : String) (start : Nat) (cs : List Char) :
    Option Directive :=
  let word := cs.takeWhile (· != '\x7d')
  let stop := start + Text.byteSize word
  match cs.dropWhile (· != '\x7d'), (Text.between? start stop text).bind condition? with
  | '\x7d' :: ']' :: rest, some (field, value) =>
    (levelBehind? text (stop + 2) rest).map fun level =>
      ⟨name, if circumstance = "" then none else some circumstance, some field, value, level⟩
  | _, _ => none

def bracketed? (text : List Char) (name : String) (start : Nat) (cs : List Char) :
    Option Directive :=
  let isInside (c : Char) : Bool := c != ']' && c != '\x7b'
  let stop := start + Text.byteSize (cs.takeWhile isInside)
  match cs.dropWhile isInside, Text.between? start stop text with
  | ']' :: rest, some circumstance =>
    (levelBehind? text (stop + 1) rest).map fun level =>
      ⟨name, some circumstance, none, none, level⟩
  | '\x7b' :: rest, some circumstance => braced? text name circumstance (stop + 1) rest
  | _, _ => none

def ofText? (text : String) : Option Directive :=
  let all := text.toList
  match Text.trim all with
  | [] => none
  | '[' :: rest => bracketed? all "" 1 rest
  | c :: rest =>
    let isInside (c : Char) : Bool := c != '=' && c != '['
    let stop := Text.byteSize (c :: rest.takeWhile isInside)
    if !isNameStart c then none
    else
      match rest.dropWhile isInside, Text.between? 0 stop all with
      | [], _ =>
        match Level.ofText? text with
        | some level => some ⟨"", none, none, none, level⟩
        | none => some ⟨text, none, none, none, .trace⟩
      | '=' :: _, some name =>
        (levelFrom? all (stop + 1)).map fun level => ⟨name, none, none, none, level⟩
      | _ :: rest, some name => bracketed? all name (stop + 1) rest
      | _, none => none

end Directive

end GameSearch.Journal
