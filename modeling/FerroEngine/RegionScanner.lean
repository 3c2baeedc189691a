import Mathlib.Logic.Function.Iterate
import FerroEngine.SourceText

set_option autoImplicit false

/-! # The region scanner of `ferro-classify`

`scan` walks a SQL text once, left to right, and tags every position with the lexical region it
lies in.  A `&str` is a list of Unicode scalars; byte offsets are sums of UTF-8 sizes.  Every byte
of a multi-byte scalar is at least `0x80`, so the byte tests of the source are tests on scalars.
-/

namespace FerroEngine.RegionScanner

open SourceText

inductive Region where
  | code
  | doubleQuote
  | singleQuote (eString : Bool)
  | lineComment
  | blockComment (depth : Nat)
  | dollarQuote
  deriving DecidableEq, Repr

inductive Hidden where
  | literal
  | comment
  deriving DecidableEq, Repr

/-- `b >= 0x80`. -/
def isHighByte (c : Char) : Bool :=
  128 ≤ c.toNat

/-- PostgreSQL's `dolq_cont`. -/
def isDolqCont (c : Char) : Bool :=
  c.isAlphanum || c == '_' || isHighByte c

/-- PostgreSQL's `ident_start`. -/
def isPgIdentStart (c : Char) : Bool :=
  c.isAlpha || c == '_' || isHighByte c

/-- PostgreSQL's `ident_cont`. -/
def isPgIdentCont (c : Char) : Bool :=
  isDolqCont c || c == '$'

def isIdentCharByte (c : Char) : Bool :=
  c.isAlphanum || c == '_'

/-- The quote follows a standalone `E`; the consumed text is given most recent character first. -/
def isEStringPrefix : Text → Bool
  | [] => false
  | [e] => e == 'E' || e == 'e'
  | e :: p :: _ => (e == 'E' || e == 'e') && !isIdentCharByte p

/-- The delimiter of a dollar quote that opens at the head of the text. -/
def dollarQuoteTag : Text → Option Text
  | '$' :: after =>
    if (after.head?.map Char.isDigit).getD false then none
    else match after.dropWhile isDolqCont with
      | '$' :: _ => some ('$' :: after.takeWhile isDolqCont ++ ['$'])
      | _ => none
  | _ => none

/-- The locals of the loop of `scan`; `before` is the consumed text, most recent first. -/
structure ScanState where
  before : Text
  rest : Text
  masked : Text
  semicolons : List Nat
  region : Region
  dollarTag : Text
  hidden : List (Nat × Nat × Hidden)
  openHidden : Option (Nat × Hidden)
  inIdent : Bool
  deriving DecidableEq, Repr

def ScanState.start (sql : Text) : ScanState where
  before := []
  rest := sql
  masked := []
  semicolons := []
  region := .code
  dollarTag := []
  hidden := []
  openHidden := none
  inIdent := false

/-- The index `i` of the loop. -/
def ScanState.pos (s : ScanState) : Nat :=
  byteLen s.before

def closeHidden (s : ScanState) : ScanState :=
  match s.openHidden with
  | some (start, kind) =>
    { s with hidden := s.hidden ++ [(start, s.pos, kind)], openHidden := none }
  | none => s

def pushVisibleChar (s : ScanState) : ScanState :=
  match s.rest with
  | [] => s
  | c :: cs => { s with before := c :: s.before, rest := cs, masked := s.masked ++ [c] }

def pushHiddenChar (s : ScanState) : ScanState :=
  match s.rest with
  | [] => s
  | c :: cs => { s with before := c :: s.before, rest := cs, masked := s.masked ++ filler c }

/-- The hidden-character loop `while i < end`. -/
def pushHiddenChars (count : Nat) (s : ScanState) : ScanState :=
  pushHiddenChar^[count] s

def scanCode (c : Char) (cs : Text) (s : ScanState) : ScanState :=
  if c = '\'' then
    let eString := isEStringPrefix s.before
    let opened := if eString then s.pos - 1 else s.pos
    { pushHiddenChar { s with openHidden := some (opened, .literal) } with
      region := .singleQuote eString }
  else if c = '"' then
    { pushVisibleChar s with region := .doubleQuote }
  else if c = '-' ∧ cs.head? = some '-' then
    { pushHiddenChars 2 { s with openHidden := some (s.pos, .comment) } with
      region := .lineComment }
  else if c = '/' ∧ cs.head? = some '*' then
    { pushHiddenChars 2 { s with openHidden := some (s.pos, .comment) } with
      region := .blockComment 1 }
  else if c = '$' then
    match dollarQuoteTag (c :: cs) with
    | some tag =>
      { pushHiddenChars tag.length { s with openHidden := some (s.pos, .literal) } with
        dollarTag := tag, region := .dollarQuote }
    | none => pushVisibleChar s
  else if c = ';' then
    pushVisibleChar { s with semicolons := s.semicolons ++ [s.pos] }
  else
    pushVisibleChar s

def scanDoubleQuote (c : Char) (cs : Text) (s : ScanState) : ScanState :=
  if c = '"' then
    if cs.head? = some '"' then pushVisibleChar (pushVisibleChar s)
    else { pushVisibleChar s with region := .code }
  else
    pushVisibleChar s

def scanSingleQuote (eString : Bool) (c : Char) (cs : Text) (s : ScanState) : ScanState :=
  if c = '\\' ∧ eString ∧ cs.head? = some '\'' then pushHiddenChars 2 s
  else if c = '\'' ∧ cs.head? = some '\'' then pushHiddenChars 2 s
  else if c = '\'' then
    { closeHidden (pushHiddenChar s) with region := .code }
  else
    pushHiddenChar s

def scanLineComment (c : Char) (s : ScanState) : ScanState :=
  if c = '\n' then { closeHidden (pushHiddenChar s) with region := .code }
  else pushHiddenChar s

def scanBlockComment (depth : Nat) (c : Char) (cs : Text) (s : ScanState) : ScanState :=
  if c = '/' ∧ cs.head? = some '*' then
    { pushHiddenChars 2 s with region := .blockComment (depth + 1) }
  else if c = '*' ∧ cs.head? = some '/' then
    if depth ≤ 1 then { closeHidden (pushHiddenChars 2 s) with region := .code }
    else { pushHiddenChars 2 s with region := .blockComment (depth - 1) }
  else
    pushHiddenChar s

def scanDollarQuote (c : Char) (cs : Text) (s : ScanState) : ScanState :=
  if c = '$' ∧ s.dollarTag.isPrefixOf (c :: cs) then
    { closeHidden (pushHiddenChars s.dollarTag.length s) with region := .code }
  else
    pushHiddenChar s

/-- The identifier flag for the character about to be consumed. -/
def continuesIdent (inIdent : Bool) (c : Char) : Bool :=
  if inIdent then isPgIdentCont c else isPgIdentStart c

/-- One turn of the loop of `scan`. -/
def scanStep (s : ScanState) : ScanState :=
  match s.rest with
  | [] => s
  | c :: cs =>
    match s.region with
    | .code =>
      -- `$` inside an identifier is identifier text and leaves the flag as it is.
      if c = '$' ∧ s.inIdent then pushVisibleChar s
      else scanCode c cs { s with inIdent := continuesIdent s.inIdent c }
    | .doubleQuote => scanDoubleQuote c cs { s with inIdent := false }
    | .singleQuote eString => scanSingleQuote eString c cs { s with inIdent := false }
    | .lineComment => scanLineComment c { s with inIdent := false }
    | .blockComment depth => scanBlockComment depth c cs { s with inIdent := false }
    | .dollarQuote => scanDollarQuote c cs { s with inIdent := false }

structure ScanResult where
  masked : Text
  semicolons : List Nat
  hidden : List (Nat × Nat × Hidden)
  deriving DecidableEq, Repr

/-- The final state: every turn consumes a character and a state without text is fixed, so the
length of the text is enough turns. -/
def scanEnd (sql : Text) : ScanState :=
  scanStep^[sql.length] (ScanState.start sql)

def scan (sql : Text) : ScanResult :=
  let s := closeHidden (scanEnd sql)
  { masked := s.masked, semicolons := s.semicolons, hidden := s.hidden }

def maskedCode (sql : Text) : Text :=
  (scan sql).masked

def hiddenSpans (sql : Text) : List (Nat × Nat × Hidden) :=
  (scan sql).hidden

end FerroEngine.RegionScanner
