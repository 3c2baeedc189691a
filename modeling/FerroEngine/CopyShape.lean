import FerroEngine.PinClassifier

set_option autoImplicit false

/-! # The COPY shape check of `ferro-classify`

`copy_direction` and `speaks_copy_stdio` of `copy.rs`.
-/

namespace FerroEngine.CopyShape

open SourceText RegionScanner PinClassifier

inductive CopyDirection where
  | in
  | out
  deriving DecidableEq, Repr

inductive Tok where
  | word (text : Text)
  | quoted
  | open
  | close
  | semicolon
  | other
  deriving DecidableEq, Repr

/-- `u8::is_ascii_whitespace`. -/
def isAsciiWhitespace (c : Char) : Bool :=
  c == ' ' || c == '\t' || c == '\n' || c == '\x0c' || c == '\r'

def isWordStart (c : Char) : Bool :=
  c.isAlpha || c == '_' || 128 ≤ c.toNat

def isWordCont (c : Char) : Bool :=
  c.isAlphanum || c == '_' || c == '$' || 128 ≤ c.toNat

/-- The text after the closing quote of a quoted identifier. -/
def skipQuoted : Text → Option Text
  | [] => none
  | '"' :: '"' :: cs => skipQuoted cs
  | '"' :: cs => some cs
  | _ :: cs => skipQuoted cs

/-- The loop of `tokenize`; every turn drops at least one character. -/
def tokenizeLoop : Nat → Text → List Tok → Option (List Tok)
  | 0, _, out => some out
  | _, [], out => some out
  | fuel + 1, c :: cs, out =>
    if isAsciiWhitespace c then tokenizeLoop fuel cs out
    else if c = '"' then
      match skipQuoted cs with
      | none => none
      | some rest => tokenizeLoop fuel rest (out ++ [.quoted])
    else if isWordStart c then
      tokenizeLoop fuel (cs.dropWhile isWordCont)
        (out ++ [.word (toAsciiUppercase (c :: cs.takeWhile isWordCont))])
    else
      let tok : Tok :=
        if c = '(' then .open else if c = ')' then .close
        else if c = ';' then .semicolon else .other
      tokenizeLoop fuel cs (out ++ [tok])

def tokenize (masked : Text) : Option (List Tok) :=
  tokenizeLoop masked.length masked []

/-- The first top-level `FROM` or `TO` and the tokens after it. -/
def findTarget : Nat → List Tok → Option (CopyDirection × List Tok)
  | _, [] => none
  | depth, .open :: toks => findTarget (depth + 1) toks
  | depth, .close :: toks => if depth = 0 then none else findTarget (depth - 1) toks
  | _, .semicolon :: _ => none
  | depth, .word w :: toks =>
    if depth = 0 ∧ w = "FROM".toList then some (.in, toks)
    else if depth = 0 ∧ w = "TO".toList then some (.out, toks)
    else findTarget depth toks
  | depth, _ :: toks => findTarget depth toks

def CopyDirection.stream : CopyDirection → Text
  | .in => "STDIN".toList
  | .out => "STDOUT".toList

/-- Nothing but separators follows the first separator. -/
def endsOnce (rest : List Tok) : Bool :=
  ((rest.dropWhile fun tok => tok != .semicolon).drop 1).all fun tok => tok == .semicolon

def copyDirection (sql : Text) : Option CopyDirection :=
  let masked := maskedCode (sql ++ ['\n', ';'])
  if masked.getLast? ≠ some ';' then none
  else match tokenize (masked.take (masked.length - 2)) with
    | some (.word w :: toks) =>
      if w = "COPY".toList then
        match findTarget 0 toks with
        | some (dir, .word target :: rest) =>
          if target = dir.stream ∧ endsOnce rest then some dir else none
        | _ => none
      else none
    | _ => none

def speaksCopyStdio (sql : Text) : Bool :=
  (splitTopLevelStatements sql).any fun stmt => (copyDirection stmt).isSome

example : copyDirection "COPY (SELECT 1 FROM s) TO STDOUT;".toList = some .out := by
  decide +kernel

end FerroEngine.CopyShape
