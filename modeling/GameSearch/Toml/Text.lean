import GameSearch.Text.Numeral

/-!
# GameSearch.Toml.Text

The words of a TOML document: blanks, ends of lines, comments, keys and strings. A reader takes
what it can read from the front of a text and gives the rest of the text with it.
-/

namespace GameSearch.Toml

abbrev Reader (β : Type) := List Char → Option (β × List Char)

def isBlank (c : Char) : Bool := c == ' ' || c == '\t'

def isPlain (c : Char) : Bool := c == '\t' || (' ' ≤ c && c != '\x7f')

def skipBlanks (cs : List Char) : List Char := cs.dropWhile isBlank

/-- The end of a line. A carriage return only counts before a line feed. -/
def newline? : List Char → Option (List Char)
  | '\n' :: rest => some rest
  | '\r' :: '\n' :: rest => some rest
  | _ => none

def lineEnd? : List Char → Option (List Char)
  | [] => some []
  | cs => newline? cs

def skipComment : List Char → List Char
  | '#' :: rest => rest.dropWhile isPlain
  | cs => cs

def restOfLine? (cs : List Char) : Option (List Char) := lineEnd? (skipComment (skipBlanks cs))

/-! ## Strings -/

def scalar? (digits : List Char) : Option Char :=
  let isHex (c : Char) : Bool := c.isDigit || ('a' ≤ c && c ≤ 'f') || ('A' ≤ c && c ≤ 'F')
  let n := Text.ofDigits 16 digits
  if digits.all isHex ∧ n.isValidChar then some (Char.ofNat n) else none

/-- The character that stands behind a backslash. -/
def escaped? : Reader Char
  | 'b' :: rest => some ('\x08', rest)
  | 't' :: rest => some ('\t', rest)
  | 'n' :: rest => some ('\n', rest)
  | 'f' :: rest => some ('\x0c', rest)
  | 'r' :: rest => some ('\r', rest)
  | '"' :: rest => some ('"', rest)
  | '\\' :: rest => some ('\\', rest)
  | 'u' :: a :: b :: c :: d :: rest => (scalar? [a, b, c, d]).map fun x => (x, rest)
  | 'U' :: a :: b :: c :: d :: e :: f :: g :: h :: rest =>
    (scalar? [a, b, c, d, e, f, g, h]).map fun x => (x, rest)
  | _ => none

def cons (c : Char) (r : Option (List Char × List Char)) : Option (List Char × List Char) :=
  r.map fun (cs, rest) => (c :: cs, rest)

def basicString : Nat → Reader (List Char)
  | 0, _ => none
  | _ + 1, [] => none
  | _ + 1, '"' :: rest => some ([], rest)
  | n + 1, '\\' :: rest =>
    match escaped? rest with
    | none => none
    | some (c, rest) => cons c (basicString n rest)
  | n + 1, c :: rest => if isPlain c then cons c (basicString n rest) else none

def literalString (cs : List Char) : Option (List Char × List Char) :=
  let isInside (c : Char) : Bool := isPlain c && c != '\x27'
  match cs.dropWhile isInside with
  | '\x27' :: rest => some (cs.takeWhile isInside, rest)
  | _ => none

def closing (quote : Char) : List Char → List Char × List Char
  | a :: b :: rest =>
    if a == quote && b == quote then ([quote, quote], rest)
    else if a == quote then ([quote], b :: rest)
    else ([], a :: b :: rest)
  | [a] => if a == quote then ([quote], []) else ([], [a])
  | [] => ([], [])

def isBlankLine (cs : List Char) : Bool := (newline? (skipBlanks cs)).isSome

def skipLines : Nat → List Char → List Char
  | 0, cs => cs
  | n + 1, cs =>
    match newline? (skipBlanks cs) with
    | none => skipBlanks cs
    | some rest => skipLines n rest

/-- A string between three quotes, behind the first three and the end of their line. With
escapes, a backslash at the end of a line takes away the blanks and ends of lines behind it. -/
def longString (quote : Char) (escapes : Bool) : Nat → Reader (List Char)
  | 0, _ => none
  | _ + 1, [] => none
  | n + 1, c :: rest =>
    if c == quote then
      match rest with
      | d :: e :: rest' =>
        if d == quote && e == quote then some (closing quote rest')
        else cons c (longString quote escapes n rest)
      | _ => none
    else if escapes && c == '\\' then
      if isBlankLine rest then longString quote escapes n (skipLines n rest)
      else
        match escaped? rest with
        | none => none
        | some (x, rest) => cons x (longString quote escapes n rest)
    else if isPlain c then cons c (longString quote escapes n rest)
    else
      match newline? (c :: rest) with
      | none => none
      | some rest => cons '\n' (longString quote escapes n rest)

def afterNewline (cs : List Char) : List Char := (newline? cs).getD cs

def string? (cs : List Char) : Option (String × List Char) :=
  let word (r : Option (List Char × List Char)) : Option (String × List Char) :=
    r.map fun (s, rest) => (String.ofList s, rest)
  let bound := cs.length
  match cs with
  | '"' :: '"' :: '"' :: rest => word (longString '"' true bound (afterNewline rest))
  | '\x27' :: '\x27' :: '\x27' :: rest => word (longString '\x27' false bound (afterNewline rest))
  | '"' :: rest => word (basicString bound rest)
  | '\x27' :: rest => word (literalString rest)
  | _ => none

/-! ## Keys -/

def isKeyChar (c : Char) : Bool := c.isAlphanum || c == '-' || c == '_'

/-- A key that is not dotted. Its quotes do not span lines. -/
def simpleKey? (cs : List Char) : Option (String × List Char) :=
  let word (r : Option (List Char × List Char)) : Option (String × List Char) :=
    r.map fun (s, rest) => (String.ofList s, rest)
  match cs with
  | '"' :: rest => word (basicString cs.length rest)
  | '\x27' :: rest => word (literalString rest)
  | _ =>
    if cs.takeWhile isKeyChar = [] then none
    else word (some (cs.takeWhile isKeyChar, cs.dropWhile isKeyChar))

def dottedKeys : Nat → Reader (List String)
  | 0, _ => none
  | n + 1, cs =>
    match simpleKey? (skipBlanks cs) with
    | none => none
    | some (key, rest) =>
      match skipBlanks rest with
      | '.' :: rest => (dottedKeys n rest).map fun (keys, rest) => (key :: keys, rest)
      | rest => some ([key], rest)

/-- The number of values in each other, and of keys in a dotted key, is below this. -/
def nestingLimit : Nat := 80

def key? (cs : List Char) : Option (List String × List Char) :=
  dottedKeys (nestingLimit - 1) cs

end GameSearch.Toml
