import GameSearch.Text.Invisible

/-!
# GameSearch.Text.Quoted

Quoted texts, as error messages show them: between double quotes, with a backslash before a
quote or a backslash, short names for the common control characters, and the hexadecimal
number of every invisible code point.
-/

namespace GameSearch.Text

/-- The hexadecimal number of a code point, as in `\u{301}`. -/
def codePoint (c : Char) : String :=
  "\\u\x7b" ++ String.ofList (Nat.toDigits 16 c.toNat) ++ "\x7d"

def escape (c : Char) : String :=
  if c = '"' then "\\\""
  else if c = '\\' then "\\\\"
  else if c = '\n' then "\\n"
  else if c = '\t' then "\\t"
  else if c = '\r' then "\\r"
  else if c.toNat = 0 then "\\0"
  else if isInvisible c then codePoint c
  else c.toString

def quote (s : String) : String :=
  "\"" ++ String.join (s.toList.map escape) ++ "\""

/-- Items between square brackets, separated by a comma and a blank. -/
def bracketed (items : List String) : String :=
  "[" ++ String.intercalate ", " items ++ "]"

def quoteList (items : List String) : String :=
  bracketed (items.map quote)

end GameSearch.Text
