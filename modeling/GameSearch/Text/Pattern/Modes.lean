import GameSearch.Text.Slice

/-!
# GameSearch.Text.Pattern.Modes

How the rest of a pattern is read. A pattern can change its modes from one place to the end of the
group around it. The letters that switch a mode on stand before a dash, and those that switch one
off behind it.
-/

namespace GameSearch.Text.Pattern

structure Modes where
  ignoresCase : Bool := false
  /-- Classes are made of characters; without it, of bytes. -/
  isUnicode : Bool := true
  isSpaced : Bool := false
  deriving DecidableEq, Repr

def areFlags (cs : List Char) : Bool :=
  cs.all (['i', 'm', 's', 'U', 'u', 'R', 'x', '-'].contains ·) && cs.eraseDups == cs &&
    cs.getLast? != some '-'

namespace Modes

/-- The other letters say what a pattern matches, and not what a pattern is. -/
def switch (on : Bool) (m : Modes) : Char → Modes
  | 'i' => { m with ignoresCase := on }
  | 'u' => { m with isUnicode := on }
  | 'x' => { m with isSpaced := on }
  | _ => m

def change (m : Modes) (flags : List Char) : Modes :=
  let on := (flags.takeWhile (· != '-')).foldl (switch true) m
  (flags.dropWhile (· != '-')).foldl (switch false) on

def skipRemarks (inRemark : Bool) : List Char → List Char
  | [] => []
  | c :: rest =>
    if inRemark then skipRemarks (c != '\n') rest
    else if c == '#' then skipRemarks true rest
    else if isSpace c then skipRemarks false rest
    else c :: rest

def skip (m : Modes) (cs : List Char) : List Char :=
  if m.isSpaced then skipRemarks false cs else cs

/-- The character that seems to come next. Only the first mark of a remark is looked over, and not
what the remark says. -/
def glance? (m : Modes) (cs : List Char) : Option Char :=
  if m.isSpaced then
    match cs.dropWhile isSpace with
    | '#' :: rest => (rest.dropWhile isSpace).head?
    | rest => rest.head?
  else cs.head?

end Modes

end GameSearch.Text.Pattern
