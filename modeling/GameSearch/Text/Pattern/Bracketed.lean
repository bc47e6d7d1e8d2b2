import GameSearch.Text.Pattern.Nesting
import GameSearch.Text.Pattern.Symbol

/-!
# GameSearch.Text.Pattern.Bracketed

Classes in brackets. The members of a class are symbols, ranges of characters, classes by their
names, and other classes in brackets. Two signs in a row stand between sets of members: what is in
both, in the first alone, or in one of them.

A class made of bytes cannot be negated, as it would leave ASCII. A class that ignores case has no
members at all.
-/

namespace GameSearch.Text.Pattern

structure OpenClass where
  /-- Depths of the members behind the last operator, the last one first. -/
  members : List Nat := []
  /-- Depth of what is before the last operator. -/
  left : Option Nat := none
  /-- Nothing came yet but dashes, and a dash is a member like others. -/
  isFresh : Bool := true
  deriving DecidableEq, Repr

namespace OpenClass

def depth (c : OpenClass) : Nat :=
  match c.left with
  | none => depthOfRow c.members
  | some left => max left (depthOfRow c.members) + 1

def insert (c : OpenClass) (depth : Nat) : OpenClass :=
  { c with members := depth :: c.members, isFresh := false }

def insertDash (c : OpenClass) : OpenClass := { c with members := 0 :: c.members }

/-- What was read so far becomes the left side of an operator. -/
def operate (c : OpenClass) : OpenClass := ⟨[], some c.depth, false⟩

end OpenClass

def classNames : List String :=
  ["alnum", "alpha", "ascii", "blank", "cntrl", "digit", "graph", "lower", "print", "punct",
    "space", "upper", "word", "xdigit"]

def named? : List Char → Option (Bool × List Char)
  | ':' :: rest =>
    let (isNegated, rest) := match rest with
      | '^' :: rest => (true, rest)
      | rest => (false, rest)
    match rest.dropWhile (· != ':') with
    | ':' :: ']' :: more =>
      if classNames.contains (String.ofList (rest.takeWhile (· != ':'))) then
        some (isNegated, more)
      else none
    | _ => none
  | _ => none

def allowsNamed (m : Modes) (isNegated : Bool) : Bool :=
  if m.isUnicode then !m.ignoresCase else !isNegated

def enter? (m : Modes) (cs : List Char) : Option (List Char) :=
  match m.skip cs with
  | '^' :: rest => if m.isUnicode then some rest else none
  | rest => some rest

def afterMember? (m : Modes) (cs : List Char) : Option (List Char) :=
  match Symbol.ofClass? m cs with
  | none => none
  | some (first, rest) =>
    if !first.isMember m then none
    else
      match m.skip rest with
      | '-' :: more =>
        if m.glance? more = some ']' ∨ m.glance? more = some '-' then some ('-' :: more)
        else
          match first, Symbol.ofClass? m (m.skip more) with
          | .character a _, some (.character b isByte, rest) =>
            if a ≤ b ∧ (Symbol.character b isByte).isMember m then some rest else none
          | _, _ => none
      | rest => some rest

/-- The depth of a class that is inside of others, and what comes behind the outermost of them. -/
def closed? (m : Modes) :
    Nat → List OpenClass → OpenClass → List Char → Option (Nat × List Char)
  | 0, _, _, _ => none
  | n + 1, outer, c, cs =>
    match m.skip cs with
    | [] => none
    | sign :: rest =>
      let isMember := (Symbol.character sign false).isMember m
      if c.isFresh ∧ sign = '-' then
        if isMember then closed? m n outer c.insertDash rest else none
      else if c.isFresh ∧ c.members = [] ∧ sign = ']' then
        if isMember then closed? m n outer (c.insert 0) rest else none
      else if sign = ']' then
        match outer with
        | [] => some (c.depth + 1, rest)
        | parent :: outer => closed? m n outer (parent.insert (c.depth + 1)) rest
      else if sign = '[' then
        match named? rest with
        | some (isNegated, rest) =>
          if allowsNamed m isNegated then closed? m n outer (c.insert 0) rest else none
        | none =>
          match enter? m rest with
          | none => none
          | some rest => closed? m n (c :: outer) {} rest
      else if (sign = '&' ∨ sign = '-' ∨ sign = '~') ∧ rest.head? = some sign then
        closed? m n outer c.operate (rest.drop 1)
      else
        match afterMember? m (sign :: rest) with
        | none => none
        | some rest => closed? m n outer (c.insert 0) rest

def bracketed? (m : Modes) (cs : List Char) : Option (Nat × List Char) :=
  match enter? m cs with
  | none => none
  | some rest => closed? m (rest.length + 1) [] {} rest

end GameSearch.Text.Pattern
