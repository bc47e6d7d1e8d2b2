/-!
# GameSearch.Text.Slice

Pieces of a text. Positions in a text are counted in bytes of its encoding, and there is
nothing between two positions when one of them is inside a character.
-/

namespace GameSearch.Text

def isSpace (c : Char) : Bool :=
  c == ' ' || ('\t' ≤ c && c ≤ '\r') || c == '\u0085' || c == '\u00a0' || c == '\u1680' ||
    ('\u2000' ≤ c && c ≤ '\u200a') || c == '\u2028' || c == '\u2029' || c == '\u202f' ||
    c == '\u205f' || c == '\u3000'

def trim (cs : List Char) : List Char :=
  ((cs.dropWhile isSpace).reverse.dropWhile isSpace).reverse

def byteSize : List Char → Nat
  | [] => 0
  | c :: rest => c.utf8Size + byteSize rest

/-- What comes behind the first bytes. -/
def afterBytes? : List Char → Nat → Option (List Char)
  | cs, 0 => some cs
  | [], _ + 1 => none
  | c :: rest, n + 1 =>
    if c.utf8Size ≤ n + 1 then afterBytes? rest (n + 1 - c.utf8Size) else none

def firstBytes? : List Char → Nat → Option (List Char)
  | _, 0 => some []
  | [], _ + 1 => none
  | c :: rest, n + 1 =>
    if c.utf8Size ≤ n + 1 then (firstBytes? rest (n + 1 - c.utf8Size)).map (c :: ·) else none

def between? (start stop : Nat) (cs : List Char) : Option String :=
  ((afterBytes? cs start).bind fun rest => firstBytes? rest (stop - start)).map String.ofList

def lines (s : String) : List String :=
  (s.splitOn "\n").map fun line =>
    match line.toList.reverse with
    | '\r' :: rest => String.ofList rest.reverse
    | _ => line

end GameSearch.Text
