import GameSearch.Text.Pattern.Bracketed
import GameSearch.Text.Pattern.Opening

/-!
# GameSearch.Text.Pattern

Whether a text is a regular expression. Groups and classes are closed, the names of groups differ,
a repetition has something to repeat, and nothing is nested too deep. There are no references to
groups, no looking around and no counted repetitions.
-/

namespace GameSearch.Text.Pattern

/-- A part of a row. A change of modes cannot be repeated. -/
structure Part where
  depth : Nat
  isRepeatable : Bool := true
  deriving DecidableEq, Repr

structure OpenGroup where
  modes : Modes := {}
  /-- The parts of the alternative that is being read, the last one first. -/
  parts : List Part := []
  alternatives : List Nat := []
  deriving DecidableEq, Repr

namespace OpenGroup

def alternativeDepth (g : OpenGroup) : Nat := depthOfRow (g.parts.map (·.depth))

def depth (g : OpenGroup) : Nat := depthOfRow (g.alternativeDepth :: g.alternatives)

def insert (g : OpenGroup) (p : Part) : OpenGroup := { g with parts := p :: g.parts }

def alternate (g : OpenGroup) : OpenGroup :=
  { g with parts := [], alternatives := g.alternativeDepth :: g.alternatives }

def repeated? (g : OpenGroup) : Option OpenGroup :=
  match g.parts with
  | [] => none
  | p :: parts =>
    if p.isRepeatable then some { g with parts := ⟨p.depth + 1, true⟩ :: parts } else none

end OpenGroup

def scan : Nat → List (List Char) → List OpenGroup → OpenGroup → List Char → Bool
  | 0, _, _, _, _ => false
  | n + 1, names, outer, g, cs =>
    match g.modes.skip cs with
    | [] => outer.isEmpty && g.depth ≤ deepest
    | '(' :: rest =>
      match Opening.ofText? g.modes rest with
      | none => false
      | some (.modes m, rest) => scan n names outer { g.insert ⟨0, false⟩ with modes := m } rest
      | some (.group m none, rest) => scan n names (g :: outer) ⟨m, [], []⟩ rest
      | some (.group m (some name), rest) =>
        !names.contains name && scan n (name :: names) (g :: outer) ⟨m, [], []⟩ rest
    | ')' :: rest =>
      match outer with
      | [] => false
      | parent :: outer => scan n names outer (parent.insert ⟨g.depth + 1, true⟩) rest
    | '|' :: rest => scan n names outer g.alternate rest
    | '[' :: rest =>
      match bracketed? g.modes rest with
      | none => false
      | some (depth, rest) => scan n names outer (g.insert ⟨depth, true⟩) rest
    | '\x7b' :: _ => false
    | c :: rest =>
      if c = '?' ∨ c = '*' ∨ c = '+' then
        let rest := match rest with
          | '?' :: rest => rest
          | rest => rest
        match g.repeated? with
        | none => false
        | some g => scan n names outer g rest
      else
        match Symbol.ofText? g.modes (c :: rest) with
        | none => false
        | some (symbol, rest) =>
          symbol.isAllowed g.modes && scan n names outer (g.insert ⟨0, true⟩) rest

end Pattern

def isPattern (s : String) : Bool := Pattern.scan (s.length + 1) [] [] {} s.toList

end GameSearch.Text
