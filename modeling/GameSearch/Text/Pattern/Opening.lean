import GameSearch.Text.Alphabetic
import GameSearch.Text.Pattern.Modes

/-!
# GameSearch.Text.Pattern.Opening

What an opening parenthesis opens: a group, which can have a name or modes of its own, or only a
change of modes in the group around it.
-/

namespace GameSearch.Text.Pattern

inductive Opening where
  | group (m : Modes) (name : Option (List Char))
  | modes (m : Modes)
  deriving DecidableEq, Repr

def isGroupName : List Char → Bool
  | [] => false
  | c :: rest =>
    (c == '_' || isAlphabetic c) &&
      rest.all fun c => ['_', '.', '[', ']'].contains c || isAlphanumeric c

namespace Opening

def named? (m : Modes) (cs : List Char) : Option (Opening × List Char) :=
  let name := cs.takeWhile (· != '>')
  match cs.dropWhile (· != '>') with
  | _ :: rest => if isGroupName name then some (group m (some name), rest) else none
  | [] => none

/-- Letters of modes, up to the end of the parentheses or to a colon and the rest of a group. -/
def flagged? (m : Modes) (cs : List Char) : Option (Opening × List Char) :=
  let isFlag (c : Char) : Bool := c != ':' && c != ')'
  let flags := cs.takeWhile isFlag
  if !areFlags flags then none
  else
    match cs.dropWhile isFlag with
    | ':' :: rest => some (group (m.change flags) none, rest)
    | ')' :: rest => if flags = [] then none else some (modes (m.change flags), rest)
    | _ => none

def ofText? (m : Modes) (cs : List Char) : Option (Opening × List Char) :=
  match m.skip cs with
  | '?' :: 'P' :: '<' :: rest => named? m rest
  | '?' :: '<' :: rest => named? m rest
  | '?' :: rest => flagged? m rest
  | rest => some (group m none, rest)

end Opening

end GameSearch.Text.Pattern
