import GameSearch.CommandLine.Arguments

/-!
# GameSearch.CommandLine.Words

Reading the words of a command line. An option is written with its value behind an equals sign,
or as two words. A value in a word of its own is only looked at when the next option comes, or
at the end; a word that is unknown is refused before that.
-/

namespace GameSearch.CommandLine

inductive Word where
  | escape
  | long (name : String) (value : Option String)
  | short (rest : List Char)
  | plain

def Word.ofText (text : String) : Word :=
  match text.toList with
  | ['-', '-'] => .escape
  | '-' :: '-' :: rest =>
    let name := String.ofList (rest.takeWhile (· != '='))
    match rest.dropWhile (· != '=') with
    | _ :: value => .long name (some (String.ofList value))
    | [] => .long name none
  | '-' :: c :: rest => .short (c :: rest)
  | _ => .plain

def isPower : List Char → Bool
  | [] => true
  | e :: rest => (e == 'e' || e == 'E') && rest != [] && rest.all Char.isDigit

/-- Whether a text has the form of a number without a sign: a digit and more of them, maybe with
a point among them or at the end, and maybe with an exponent without a sign. -/
def isNumber : List Char → Bool
  | [] => false
  | c :: rest =>
    c.isDigit &&
      match rest.dropWhile Char.isDigit with
      | '.' :: rest => isPower (rest.dropWhile Char.isDigit)
      | rest => isPower rest

/-- What is still to be settled about the last option. -/
inductive Pending where
  | nothing
  | awaiting (flag : Flag)
  | holding (flag : Flag) (text : String)

namespace Pending

def settle (p : Pending) (a : Arguments) : Except Refusal Arguments :=
  match p with
  | .nothing => .ok a
  | .awaiting _ => .error .missingValue
  | .holding flag text => a.give flag text

def awaited : Pending → Option Flag
  | .awaiting flag => some flag
  | _ => none

end Pending

def help (p : Pending) (a : Arguments) : Refusal :=
  match p.settle a with
  | .error e => e
  | .ok _ => .help

def readWords : List String → Pending → Arguments → Except Refusal Arguments
  | [], p, a => p.settle a
  | text :: rest, p, a =>
    match Word.ofText text with
    | .escape => if rest = [] then p.settle a else .error .unknownWord
    | .long name value =>
      match Flag.ofName? name with
      | some flag =>
        match p.settle a with
        | .error e => .error e
        | .ok a =>
          match value with
          | none => readWords rest (.awaiting flag) a
          | some value =>
            match a.give flag value with
            | .error e => .error e
            | .ok a => readWords rest .nothing a
      | none =>
        if name = "help" then .error (if value.isSome then .needlessValue else help p a)
        else .error .unknownWord
    | .short cs =>
      match p.awaited with
      | some flag =>
        if flag.takesNegative && isNumber cs then readWords rest (.holding flag text) a
        else if cs.head? = some 'h' then .error (help p a)
        else .error .unknownWord
      | none => if cs.head? = some 'h' then .error (help p a) else .error .unknownWord
    | .plain =>
      match p.awaited with
      | some flag => readWords rest (.holding flag text) a
      | none => .error .unknownWord

def read (words : List String) : Except Refusal Arguments := readWords words .nothing {}

end GameSearch.CommandLine
