import GameSearch.Text.Decimal
import GameSearch.Toml.Text
import GameSearch.Toml.Value

/-!
# GameSearch.Toml.Number

Numbers, dates and times of a TOML document. A single underscore may stand between two digits
of a number. A decimal number has no superfluous zero in front, and one that is too large for
its type is refused, but for a fraction below the least double.
-/

namespace GameSearch.Toml

/-- Digits behind a digit, each with an underscore before it or not; without the underscores. -/
def moreDigits (isDigit : Char → Bool) : Reader (List Char)
  | '_' :: c :: rest => if isDigit c then cons c (moreDigits isDigit rest) else none
  | ['_'] => none
  | c :: rest => if isDigit c then cons c (moreDigits isDigit rest) else some ([], c :: rest)
  | [] => some ([], [])

def digits? (isDigit : Char → Bool) : Reader (List Char)
  | [] => none
  | c :: rest => if isDigit c then cons c (moreDigits isDigit rest) else none

def wholeDigits? : Reader (List Char)
  | '0' :: rest => some (['0'], rest)
  | cs => digits? Char.isDigit cs

def sign : List Char → List Char × List Char
  | '+' :: rest => ([], rest)
  | '-' :: rest => (['-'], rest)
  | cs => ([], cs)

def integer (i : Int) (rest : List Char) : Option (Value × List Char) :=
  if Int64.minValue.toInt ≤ i ∧ i ≤ Int64.maxValue.toInt then some (.integer i, rest) else none

def based? (base : Nat) (isDigit : Char → Bool) (cs : List Char) : Option (Value × List Char) :=
  match digits? isDigit cs with
  | none => none
  | some (digits, rest) => integer (Text.ofDigits base digits) rest

def places? : Reader (List Char)
  | '.' :: rest => cons '.' (digits? Char.isDigit rest)
  | cs => some ([], cs)

def power? : Reader (List Char)
  | [] => some ([], [])
  | e :: rest =>
    if e != 'e' && e != 'E' then some ([], e :: rest)
    else
      let (minus, rest) := sign rest
      (digits? Char.isDigit rest).map fun (digits, rest) => ('e' :: minus ++ digits, rest)

def fraction (text : List Char) (rest : List Char) : Option (Value × List Char) :=
  match Text.double? (String.ofList text) with
  | none => none
  | some x => if x == 1 / 0 then none else some (.float x, rest)

/-- A decimal number: whole unless it has a point or an exponent. -/
def decimal? (cs : List Char) : Option (Value × List Char) :=
  let (minus, cs) := sign cs
  match wholeDigits? cs with
  | none => none
  | some (whole, rest) =>
    match places? rest with
    | none => none
    | some (places, rest) =>
      match power? rest with
      | none => none
      | some (power, rest) =>
        if places ++ power = [] then
          let n : Int := Text.ofDigits 10 whole
          integer (if minus = [] then n else -n) rest
        else fraction (minus ++ whole ++ places ++ power) rest

def special? (cs : List Char) : Option (Value × List Char) :=
  let (minus, cs) := sign cs
  let signed (x : Float) : Value := .float (if minus = [] then x else -x)
  match cs with
  | 'i' :: 'n' :: 'f' :: rest => some (signed (1 / 0), rest)
  | 'n' :: 'a' :: 'n' :: rest => some (signed (0 / 0), rest)
  | _ => none

def isHexDigit (c : Char) : Bool := c.isDigit || ('a' ≤ c && c ≤ 'f') || ('A' ≤ c && c ≤ 'F')

def number? (cs : List Char) : Option (Value × List Char) :=
  match special? cs with
  | some r => some r
  | none =>
    match cs with
    | '0' :: 'x' :: rest => based? 16 isHexDigit rest
    | '0' :: 'o' :: rest => based? 8 (fun c => '0' ≤ c && c ≤ '7') rest
    | '0' :: 'b' :: rest => based? 2 (fun c => c == '0' || c == '1') rest
    | cs => decimal? cs

/-! ## Dates and times -/

def fixed? (width low high : Nat) (cs : List Char) : Option (Nat × List Char) :=
  match Text.natural? (cs.take width) with
  | none => none
  | some n =>
    if (cs.take width).length = width ∧ low ≤ n ∧ n ≤ high then some (n, cs.drop width) else none

def daysIn (year month : Nat) : Nat :=
  if month = 2 then
    if year % 4 = 0 ∧ (year % 100 ≠ 0 ∨ year % 400 = 0) then 29 else 28
  else if month ∈ [4, 6, 9, 11] then 30
  else 31

def date? (cs : List Char) : Option (List Char) :=
  match fixed? 4 0 9999 cs with
  | some (year, '-' :: rest) =>
    match fixed? 2 1 12 rest with
    | some (month, '-' :: rest) => (fixed? 2 1 (daysIn year month) rest).map Prod.snd
    | _ => none
  | _ => none

def shortTime? (cs : List Char) : Option (List Char) :=
  match fixed? 2 0 23 cs with
  | some (_, ':' :: rest) => (fixed? 2 0 59 rest).map Prod.snd
  | _ => none

/-- Hours, minutes and seconds; a minute may have a leap second. -/
def time? (cs : List Char) : Option (List Char) :=
  match shortTime? cs with
  | some (':' :: rest) =>
    match fixed? 2 0 60 rest with
    | none => none
    | some (_, '.' :: rest) =>
      if rest.takeWhile Char.isDigit = [] then some ('.' :: rest)
      else some (rest.dropWhile Char.isDigit)
    | some (_, rest) => some rest
  | _ => none

/-- The distance from universal time, where it is given. -/
def offset? : List Char → Option (List Char)
  | [] => some []
  | c :: rest =>
    if c == 'Z' || c == 'z' then some rest
    else if c == '+' || c == '-' then shortTime? rest
    else some (c :: rest)

def moment? (cs : List Char) : Option (List Char) :=
  match date? cs with
  | none => time? cs
  | some [] => some []
  | some (c :: rest) =>
    if c == 'T' || c == 't' || c == ' ' then
      match time? rest with
      | none => some (c :: rest)
      | some rest => offset? rest
    else some (c :: rest)

end GameSearch.Toml
