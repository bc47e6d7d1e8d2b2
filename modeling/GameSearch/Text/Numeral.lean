/-!
# GameSearch.Text.Numeral

Whole numbers in a text: ASCII digits after an optional sign, and nothing else. A number that
does not fit its range is not read.
-/

namespace GameSearch.Text

def digitValue (c : Char) : Nat :=
  if c.isDigit then c.toNat - '0'.toNat
  else if 'a' ≤ c ∧ c ≤ 'z' then c.toNat - 'a'.toNat + 10
  else if 'A' ≤ c ∧ c ≤ 'Z' then c.toNat - 'A'.toNat + 10
  else 0

def ofDigits (base : Nat) (digits : List Char) : Nat :=
  digits.foldl (fun n c => n * base + digitValue c) 0

def natural? (digits : List Char) : Option Nat :=
  if digits ≠ [] ∧ digits.all Char.isDigit then some (ofDigits 10 digits) else none

/-- A number below `bound`; a plus sign may stand before it. -/
def unsigned? (bound : Nat) (s : String) : Option Nat :=
  let digits := match s.toList with
    | '+' :: rest => rest
    | cs => cs
  match natural? digits with
  | none => none
  | some n => if n < bound then some n else none

/-- A number from `low` to `high`; a sign may stand before it. -/
def signed? (low high : Int) (s : String) : Option Int :=
  let value := match s.toList with
    | '-' :: rest => (natural? rest).map fun n => -(n : Int)
    | '+' :: rest => (natural? rest).map fun n => (n : Int)
    | cs => (natural? cs).map fun n => (n : Int)
  match value with
  | none => none
  | some i => if low ≤ i ∧ i ≤ high then some i else none

def uint64? (s : String) : Option UInt64 := (unsigned? UInt64.size s).map UInt64.ofNat

def uint32? (s : String) : Option UInt32 := (unsigned? UInt32.size s).map UInt32.ofNat

def int32? (s : String) : Option Int32 :=
  (signed? Int32.minValue.toInt Int32.maxValue.toInt s).map Int32.ofInt

def bool? (s : String) : Option Bool :=
  if s = "true" then some true else if s = "false" then some false else none

end GameSearch.Text
