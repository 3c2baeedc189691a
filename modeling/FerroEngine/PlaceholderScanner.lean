import FerroEngine.SourceText
import FerroEngine.StepIteration

set_option autoImplicit false

/-! # The placeholder scanner of `ferro-backend-pg`

`scan` of `placeholder.rs` and the bounded cache in front of it.  The scanner looks at ASCII bytes
and at `0x80` and above alike, and `push_byte` copies whole characters, so a turn of the loop is
modelled on characters.
-/

namespace FerroEngine.PlaceholderScanner

open SourceText

/-- PostgreSQL's `dolq_cont`. -/
def isDolqCont (c : Char) : Bool :=
  c.isAlphanum || c == '_' || 128 ≤ c.toNat

/-- The length of the `$tag$` that opens a dollar quote at the head of the text. -/
def dollarQuoteTagEnd : Text → Option Nat
  | [] => none
  | _ :: after =>
    if (after.head?.map Char.isDigit).getD false then none
    else match after.dropWhile isDolqCont with
      | '$' :: _ => some ((after.takeWhile isDolqCont).length + 2)
      | _ => none

/-- The first index at which `needle` occurs. -/
def findSubslice (needle : Text) : Text → Option Nat
  | [] => none
  | c :: cs =>
    if needle.isPrefixOf (c :: cs) then some 0 else (findSubslice needle cs).map (· + 1)

/-- What the loop of a quoted region copies; a doubled quote stays inside. -/
def copyQuoted (q : Char) : Text → Text
  | [] => []
  | [c] => [c]
  | c :: d :: cs =>
    if c = q then (if d = q then q :: q :: copyQuoted q cs else [q])
    else c :: copyQuoted q (d :: cs)

/-- What the loop of a block comment copies. -/
def copyBlock : Nat → Text → Text
  | 0, _ => []
  | _, [] => []
  | depth, '/' :: '*' :: cs => '/' :: '*' :: copyBlock (depth + 1) cs
  | depth + 1, '*' :: '/' :: cs => '*' :: '/' :: copyBlock depth cs
  | depth, c :: cs => c :: copyBlock depth cs

/-- The locals of the loop of `scan`. -/
structure ScanState where
  rest : Text
  out : Text
  nextParam : Nat
  inIdent : Bool
  deriving DecidableEq, Repr

def ScanState.start (sql : Text) : ScanState where
  rest := sql
  out := []
  nextParam := 1
  inIdent := false

/-- Copies a part of the text that `rest` starts with. -/
def ScanState.push (s : ScanState) (part : Text) : ScanState :=
  { s with
    rest := s.rest.drop part.length
    out := s.out ++ part }

/-- The identifier flag for the character about to be consumed. -/
def continuesIdent (inIdent : Bool) (c : Char) : Bool :=
  if inIdent then isDolqCont c || c == '$' else c.isAlpha || c == '_' || 128 ≤ c.toNat

/-- A dollar quote with its body, or the bare `$`. -/
def scanDollar (s : ScanState) (cs : Text) : ScanState :=
  match dollarQuoteTagEnd ('$' :: cs) with
  | some tagEnd =>
    let opening := ('$' :: cs).take tagEnd
    let after := ('$' :: cs).drop tagEnd
    match findSubslice opening after with
    | some closeAt => s.push (opening ++ after.take (closeAt + opening.length))
    | none => s.push ('$' :: cs)
  | none => s.push ['$']

/-- The `?` of the placeholder, of `??` or of a jsonb operator. -/
def scanQuestion (s : ScanState) (cs : Text) : ScanState :=
  if cs.head? = some '?' then
    { s with
      rest := cs.tail
      out := s.out ++ ['?'] }
  else if cs.head? = some '|' ∨ cs.head? = some '&' then s.push ['?']
  else
    { s with
      rest := cs
      out := s.out ++ '$' :: Nat.toDigits 10 s.nextParam
      -- `next_param` is a `u32`, which wraps in a release build.
      nextParam := (s.nextParam + 1) % 2 ^ 32 }

/-- One turn of the loop of `scan`. -/
def scanStep (s : ScanState) : ScanState :=
  match s.rest with
  | [] => s
  | c :: cs =>
    if c = '$' ∧ s.inIdent then s.push [c]
    else
      let s := { s with inIdent := continuesIdent s.inIdent c }
      if c = '\'' then s.push ('\'' :: copyQuoted '\'' cs)
      else if c = '"' then s.push ('"' :: copyQuoted '"' cs)
      else if c = '-' ∧ cs.head? = some '-' then
        s.push ('-' :: '-' :: cs.tail.takeWhile (· != '\n'))
      else if c = '/' ∧ cs.head? = some '*' then s.push ('/' :: '*' :: copyBlock 1 cs.tail)
      else if c = '$' then scanDollar s cs
      else if c = '?' then scanQuestion s cs
      else s.push [c]

/-- The final state: every turn consumes a character and a state without text is fixed, so the
length of the text is enough turns. -/
def scanEnd (sql : Text) : ScanState :=
  scanStep^[sql.length] (ScanState.start sql)

def scan (sql : Text) : Text :=
  (scanEnd sql).out

example : scan "a ?? 'k?' AND b ?| c AND d = ? -- ?\n, ?".toList =
    "a ? 'k?' AND b ?| c AND d = $1 -- ?\n, $2".toList := by
  decide +kernel

end FerroEngine.PlaceholderScanner
