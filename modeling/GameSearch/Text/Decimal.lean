import GameSearch.Text.Numeral

/-!
# GameSearch.Text.Decimal

Decimal fractions in a text, read as the nearest binary fraction of double precision. Of two
that are equally near the even one is taken. Values beyond the largest are infinite.

A text is a sign, digits with an optional point, and an optional exponent; or a sign and a
word for infinity or for no number at all, in any case.
-/

namespace GameSearch.Text

def roundedQuotient (num den : Nat) : Nat :=
  let q := num / den
  let twice := 2 * (num % den)
  if twice > den ∨ (twice = den ∧ q % 2 = 1) then q + 1 else q

def binaryExponent (num den : Nat) : Int :=
  let e : Int := Int.ofNat num.log2 - Int.ofNat den.log2
  if den <<< e.toNat ≤ num <<< (-e).toNat then e else e - 1

/-- The bits of the double nearest to a quotient. The last place of a double is worth at least
`2 ^ (-1074)`, and a double counts its steps from zero. -/
def nearestBits (num den : Nat) : UInt64 :=
  if num = 0 then 0
  else
    let place := max (binaryExponent num den - 52) (-1074)
    let steps := roundedQuotient (num <<< (-place).toNat) (den <<< place.toNat)
    UInt64.ofNat (min (((place + 1074).toNat <<< 52) + steps) 0x7FF0000000000000)

/-- The double nearest to `digits`, read as a whole number, times a power of ten. A value with
its first digit far outside the range of doubles is not computed. -/
def nearestDouble (digits : List Char) (exponent : Int) : Float :=
  let m := ofDigits 10 digits
  let size := exponent + digits.length
  if m = 0 ∨ size < -400 then 0
  else if 400 + digits.length < size then 1 / 0
  else Float.ofBits (nearestBits (m * Nat.pow 10 exponent.toNat) (Nat.pow 10 (-exponent).toNat))

def exponent? : List Char → Option Int
  | [] => some 0
  | e :: rest =>
    if e != 'e' && e != 'E' then none
    else
      match rest with
      | '-' :: digits => (natural? digits).map fun n => -(n : Int)
      | '+' :: digits => (natural? digits).map fun n => (n : Int)
      | digits => (natural? digits).map fun n => (n : Int)

def fraction? (cs : List Char) : Option Float :=
  let whole := cs.takeWhile Char.isDigit
  let rest := cs.dropWhile Char.isDigit
  let (places, rest) := match rest with
    | '.' :: rest => (rest.takeWhile Char.isDigit, rest.dropWhile Char.isDigit)
    | rest => ([], rest)
  if whole ++ places = [] then none
  else (exponent? rest).map fun e => nearestDouble (whole ++ places) (e - places.length)

def magnitude? (cs : List Char) : Option Float :=
  let word := String.ofList (cs.map Char.toLower)
  if word = "inf" ∨ word = "infinity" then some (1 / 0)
  else if word = "nan" then some (0 / 0)
  else fraction? cs

def double? (s : String) : Option Float :=
  match s.toList with
  | '-' :: rest => (magnitude? rest).map fun x => -x
  | '+' :: rest => magnitude? rest
  | cs => magnitude? cs

end GameSearch.Text
