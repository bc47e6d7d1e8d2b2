import GameSearch.Text.Pattern.Modes

/-!
# GameSearch.Text.Pattern.Symbol

The smallest parts of a pattern: characters, kinds of characters and places in a text. A backslash
gives a character its other meaning. Which symbols a pattern may have depends on its modes: there
are no tables of characters by their kinds, their cases and their parts in words, and what is made
of bytes has to stay inside of ASCII.
-/

namespace GameSearch.Text.Pattern

inductive Symbol where
  | character (c : Char) (isByte : Bool)
  | anything
  /-- Digits, blanks or what words are made of, or all but these. -/
  | kind (isNegated : Bool)
  | boundOfWord
  | boundOfText
  deriving DecidableEq, Repr

namespace Symbol

def isAllowed (m : Modes) : Symbol → Bool
  | character c isByte => if m.isUnicode then !m.ignoresCase else !isByte || c.toNat < 0x80
  | anything => m.isUnicode
  | kind isNegated => !m.isUnicode && !isNegated
  | boundOfWord => !m.isUnicode
  | boundOfText => true

/-- Whether a class can have the symbol as its member. -/
def isMember (m : Modes) : Symbol → Bool
  | character c _ => if m.isUnicode then !m.ignoresCase else c.toNat < 0x80
  | kind isNegated => !m.isUnicode && !isNegated
  | _ => false

def hexValue? (c : Char) : Option Nat :=
  if c.isDigit then some (c.toNat - '0'.toNat)
  else if 'a' ≤ c ∧ c ≤ 'f' then some (c.toNat - 'a'.toNat + 10)
  else if 'A' ≤ c ∧ c ≤ 'F' then some (c.toNat - 'A'.toNat + 10)
  else none

/-- A character by its number, which has `n` more hexadecimal digits. -/
def hexadecimal? (m : Modes) (isByte : Bool) :
    Nat → Nat → List Char → Option (Symbol × List Char)
  | 0, value, rest =>
    if value.isValidChar then some (character (Char.ofNat value) isByte, rest) else none
  | n + 1, value, cs =>
    match m.skip cs with
    | [] => none
    | c :: rest =>
      match hexValue? c with
      | none => none
      | some digit => hexadecimal? m isByte n (16 * value + digit) rest

def escaped? (m : Modes) : List Char → Option (Symbol × List Char)
  | [] => none
  | c :: rest =>
    match c with
    | 'x' => hexadecimal? m true 2 0 rest
    | 'u' => hexadecimal? m false 4 0 rest
    | 'U' => hexadecimal? m false 8 0 rest
    | 'a' => some (character '\x07' false, rest)
    | 'f' => some (character '\x0c' false, rest)
    | 't' => some (character '\t' false, rest)
    | 'n' => some (character '\n' false, rest)
    | 'r' => some (character '\r' false, rest)
    | 'v' => some (character '\x0b' false, rest)
    | 'd' | 's' | 'w' => some (kind false, rest)
    | 'D' | 'S' | 'W' => some (kind true, rest)
    | 'b' | 'B' | '<' | '>' => some (boundOfWord, rest)
    | 'A' | 'z' => some (boundOfText, rest)
    | c => if c.toNat < 0x80 ∧ !c.isAlphanum then some (character c false, rest) else none

def ofClass? (m : Modes) : List Char → Option (Symbol × List Char)
  | [] => none
  | '\\' :: rest => escaped? m rest
  | c :: rest => some (character c false, rest)

def ofText? (m : Modes) : List Char → Option (Symbol × List Char)
  | '.' :: rest => some (anything, rest)
  | '^' :: rest => some (boundOfText, rest)
  | '$' :: rest => some (boundOfText, rest)
  | cs => ofClass? m cs

end Symbol

end GameSearch.Text.Pattern
