/-!
# GameSearch.Text.Pattern.Nesting

How deep a pattern is nested. A single symbol has no depth. What encloses something is one deeper
than that, and so is a row of things, but one thing alone makes no row.
-/

namespace GameSearch.Text.Pattern

/-- The greatest depth of a pattern. -/
def deepest : Nat := 250

/-- Depth of a row by the depths of what is in it. -/
def depthOfRow : List Nat → Nat
  | [] => 0
  | [depth] => depth
  | depths => depths.foldl max 0 + 1

end GameSearch.Text.Pattern
