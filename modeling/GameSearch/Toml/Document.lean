import GameSearch.Toml.Number

/-!
# GameSearch.Toml.Document

TOML documents. `parse` gives the table of a whole document; a document with any fault in it
gives nothing.

Lists in brackets may span lines and may end with a comma; tables in braces may not. Both count
as one level of nesting.
-/

namespace GameSearch.Toml

def skipSpace : Nat → List Char → List Char
  | 0, cs => cs
  | n + 1, cs =>
    match newline? (skipComment (skipBlanks cs)) with
    | none => skipBlanks cs
    | some rest => skipSpace n rest

mutual

/-- A value at the front of a text, at most `depth` levels deep. -/
def value : Nat → Nat → Reader Value
  | 0, _, _ => none
  | n + 1, depth, cs =>
    match cs with
    | '[' :: rest =>
      match depth with
      | 0 => none
      | depth + 1 => (items n depth rest).map fun (vs, rest) => (.array vs, rest)
    | '\x7b' :: rest =>
      match depth with
      | 0 => none
      | depth + 1 =>
        match skipBlanks rest with
        | '\x7d' :: rest => some (.table .inline [], rest)
        | rest =>
          match pairs n depth rest with
          | none => none
          | some (ps, rest) => (Entries.ofPairs ps).map fun es => (.table .inline es, rest)
    | 't' :: 'r' :: 'u' :: 'e' :: rest => some (.boolean true, rest)
    | 'f' :: 'a' :: 'l' :: 's' :: 'e' :: rest => some (.boolean false, rest)
    | _ =>
      match string? cs with
      | some (s, rest) => some (.string s, rest)
      | none =>
        match moment? cs with
        | some rest => some (.moment, rest)
        | none => number? cs

def items : Nat → Nat → Reader (List Value)
  | 0, _, _ => none
  | n + 1, depth, cs =>
    match skipSpace cs.length cs with
    | ']' :: rest => some ([], rest)
    | cs =>
      match value n depth cs with
      | none => none
      | some (v, rest) =>
        match skipSpace rest.length rest with
        | ',' :: rest => (items n depth rest).map fun (vs, rest) => (v :: vs, rest)
        | ']' :: rest => some ([v], rest)
        | _ => none

def pairs : Nat → Nat → Reader (List (List String × Value))
  | 0, _, _ => none
  | n + 1, depth, cs =>
    match key? cs with
    | some (keys, '=' :: rest) =>
      match value n depth (skipBlanks rest) with
      | none => none
      | some (v, rest) =>
        match skipBlanks rest with
        | ',' :: rest => (pairs n depth rest).map fun (ps, rest) => ((keys, v) :: ps, rest)
        | '\x7d' :: rest => some ([(keys, v)], rest)
        | _ => none
    | _ => none

end

/-- A value; two steps for each character are enough. -/
def value? (cs : List Char) : Option (Value × List Char) :=
  value (2 * cs.length + 2) (nestingLimit - 1) cs

def statement? (cs : List Char) : Option (Statement × List Char) :=
  match cs with
  | '[' :: '[' :: rest =>
    match key? rest with
    | some (path, ']' :: ']' :: rest) =>
      (restOfLine? rest).map fun rest => (.element path, rest)
    | _ => none
  | '[' :: rest =>
    match key? rest with
    | some (path, ']' :: rest) => (restOfLine? rest).map fun rest => (.table path, rest)
    | _ => none
  | cs =>
    match key? cs with
    | some (keys, '=' :: rest) =>
      match value? (skipBlanks rest) with
      | none => none
      | some (v, rest) => (restOfLine? rest).map fun rest => (.entry keys v, rest)
    | _ => none

def statements : Nat → List Char → Option (List Statement)
  | 0, _ => none
  | n + 1, cs =>
    match skipComment (skipBlanks cs) with
    | [] => some []
    | cs' =>
      match newline? cs' with
      | some rest => statements n rest
      | none =>
        match statement? (skipBlanks cs) with
        | none => none
        | some (s, rest) => (statements n rest).map fun ss => s :: ss

def withoutMark : List Char → List Char
  | '\ufeff' :: rest => rest
  | cs => cs

def parse (text : String) : Option Entries :=
  let cs := withoutMark text.toList
  match statements (cs.length + 1) cs with
  | none => none
  | some ss => (Draft.empty.addAll ss).map Draft.entries

end GameSearch.Toml
