import Mathlib.Data.List.DropRight
import FerroEngine.RegionScanner

set_option autoImplicit false

/-! # The pin classifier of `ferro-classify`

The text helpers of `scan.rs`, the PostgreSQL rules of `rules.rs` and `classify` at
`Dialect::Postgres`.
-/

namespace FerroEngine.PinClassifier

open SourceText RegionScanner

/-! ## Text helpers -/

/-- `char::is_whitespace`: the Unicode property `White_Space`. -/
def isWhitespace (c : Char) : Bool :=
  let n := c.toNat
  (9 ≤ n && n ≤ 13) || n == 32 || n == 0x85 || n == 0xA0 || n == 0x1680 ||
    (0x2000 ≤ n && n ≤ 0x200A) || n == 0x2028 || n == 0x2029 || n == 0x202F || n == 0x205F ||
    n == 0x3000

def trimStart (text : Text) : Text :=
  text.dropWhile isWhitespace

def trimEnd (text : Text) : Text :=
  text.rdropWhile isWhitespace

def trim (text : Text) : Text :=
  trimEnd (trimStart text)

def toAsciiUppercase (text : Text) : Text :=
  text.map Char.toUpper

def toAsciiLowercase (text : Text) : Text :=
  text.map Char.toLower

/-- `str::find` of a pattern of two characters, as a character index. -/
def findPair (a b : Char) : Text → Option Nat
  | [] => none
  | c :: cs =>
    if c = a ∧ cs.head? = some b then some 0 else (findPair a b cs).map (· + 1)

/-- The loop of `skip_block_comment`; every turn drops at least two characters. -/
def skipBlockCommentLoop : Nat → Nat → Text → Option Text
  | 0, _, _ => none
  | fuel + 1, depth, s =>
    let close (c : Nat) : Option Text :=
      if depth - 1 = 0 then some (s.drop (c + 2))
      else skipBlockCommentLoop fuel (depth - 1) (s.drop (c + 2))
    match findPair '/' '*' s, findPair '*' '/' s with
    | some o, some c =>
      if o < c then skipBlockCommentLoop fuel (depth + 1) (s.drop (o + 2)) else close c
    | none, some c => close c
    | _, none => none

def skipBlockComment (s : Text) : Option Text :=
  skipBlockCommentLoop (s.length + 1) 1 s

/-- The loop of `strip_leading_noise`; every turn but the last drops a comment. -/
def stripLeadingNoiseLoop : Nat → Text → Text
  | 0, rest => rest
  | fuel + 1, rest =>
    match trimStart rest with
    | '-' :: '-' :: after =>
      stripLeadingNoiseLoop fuel ((after.dropWhile fun c => c != '\n').drop 1)
    | '/' :: '*' :: after =>
      match skipBlockComment after with
      | some remaining => stripLeadingNoiseLoop fuel remaining
      | none => []
    | trimmed => trimmed

def stripLeadingNoise (sql : Text) : Text :=
  stripLeadingNoiseLoop (sql.length + 1) sql

def leadingKeyword (sql : Text) : Option Text :=
  let word := (stripLeadingNoise sql).takeWhile Char.isAlpha
  if word = [] then none else some (toAsciiUppercase word)

def skipLeadingKeyword (s : Text) : Text :=
  (stripLeadingNoise s).dropWhile Char.isAlpha

def nextTokenAfterKeyword (sql : Text) : Option Text :=
  if (stripLeadingNoise sql).takeWhile Char.isAlpha = [] then none
  else
    let afterNoise := stripLeadingNoise ((stripLeadingNoise sql).dropWhile Char.isAlpha)
    let token := afterNoise.takeWhile Char.isAlpha
    if token = [] then none
    else match (afterNoise.dropWhile Char.isAlpha).head? with
      | some c => if c = '.' ∨ c.isAlphanum ∨ c = '_' then none else some (toAsciiUppercase token)
      | none => some (toAsciiUppercase token)

/-- Some window of the text equals the needle and has no identifier character next to it; `prior`
is the character before the text. -/
def hasWholeWindow (needle : Text) : Option Char → Text → Bool
  | _, [] => false
  | prior, c :: cs =>
    (needle.isPrefixOf (c :: cs) && !prior.any isIdentCharByte &&
      !((c :: cs).drop needle.length).head?.any isIdentCharByte) ||
      hasWholeWindow needle (some c) cs

def containsIdentifierCi (sql ident : Text) : Bool :=
  if ident = [] then false
  else hasWholeWindow (toAsciiLowercase ident) none (toAsciiLowercase (scan sql).masked)

/-! ## Statements -/

/-- `&sql[..n]`. -/
def takeBytes : Nat → Text → Text
  | _, [] => []
  | n, c :: cs => if c.utf8Size ≤ n then c :: takeBytes (n - c.utf8Size) cs else []

/-- `&sql[n..]`. -/
def dropBytes : Nat → Text → Text
  | _, [] => []
  | n, c :: cs => if c.utf8Size ≤ n then dropBytes (n - c.utf8Size) cs else c :: cs

def pushPiece (out : List Text) (piece : Text) : List Text :=
  if trim piece = [] then out else out ++ [trim piece]

/-- The loop of `split_top_level_statements` over the separators, from byte `start` on. -/
def splitAt (sql : Text) : Nat → List Nat → List Text → List Text
  | start, [], out => pushPiece out (dropBytes start sql)
  | start, pos :: semicolons, out =>
    splitAt sql (pos + 1) semicolons
      (pushPiece out (takeBytes (pos - start) (dropBytes start sql)))

def splitTopLevelStatements (sql : Text) : List Text :=
  splitAt sql 0 (scan sql).semicolons []

/-! ## Rules -/

inductive PinTrigger where
  | pinFunction
  | listen
  | prepare
  | set
  | temp
  | advisoryLock
  | unknown
  deriving DecidableEq, Repr

def PinTrigger.precedence : PinTrigger → Nat
  | .pinFunction => 6
  | .listen => 5
  | .prepare => 4
  | .set => 3
  | .temp => 2
  | .advisoryLock => 1
  | .unknown => 0

def safeLeadingKeywords : List Text :=
  ["SELECT", "INSERT", "UPDATE", "DELETE", "WITH", "VALUES", "TABLE", "SHOW", "EXPLAIN",
    "ANALYZE", "VACUUM", "FETCH", "MOVE", "CLOSE", "COPY", "CALL", "DO", "TRUNCATE", "MERGE",
    "CREATE", "ALTER", "DROP", "GRANT", "REVOKE", "COMMENT", "REFRESH", "REINDEX", "CLUSTER",
    "CHECKPOINT", "RESET", "LOCK", "DISCARD"].map String.toList

def advisorySessionFunctions : List Text :=
  ["pg_advisory_lock", "pg_advisory_lock_shared", "pg_try_advisory_lock",
    "pg_try_advisory_lock_shared"].map String.toList

def isSafeLeadingKeyword (leading : Option Text) : Bool :=
  leading.any fun keyword => safeLeadingKeywords.contains keyword

def tokensAfterLeadingKeyword : Text → Nat → List Text
  | _, 0 => []
  | stmt, max + 1 =>
    match nextTokenAfterKeyword stmt with
    | some token => token :: tokensAfterLeadingKeyword (skipLeadingKeyword stmt) max
    | none => []

/-- The keyword is one of the given words. -/
def isWord (token : Option Text) (words : List String) : Bool :=
  token.any fun text => (words.map String.toList).contains text

def createIsTemp (stmt : Text) : Bool :=
  let tokens := tokensAfterLeadingKeyword stmt 4
  let afterReplace :=
    if isWord tokens[0]? ["OR"] ∧ isWord tokens[1]? ["REPLACE"] then 2 else 0
  let afterScope :=
    if isWord tokens[afterReplace]? ["GLOBAL", "LOCAL"] then afterReplace + 1 else afterReplace
  isWord tokens[afterScope]? ["TEMP", "TEMPORARY"]

def selectIntoTemp (stmt : Text) : Bool :=
  containsIdentifierCi stmt "INTO".toList &&
    (containsIdentifierCi stmt "TEMP".toList || containsIdentifierCi stmt "TEMPORARY".toList)

def classifyOnePg (stmt : Text) (pinFunctions : List Text) (pinOnUnknown : Bool) :
    Option PinTrigger :=
  let leading := leadingKeyword stmt
  if pinFunctions.any (containsIdentifierCi stmt) then some .pinFunction
  else if isWord leading ["LISTEN", "UNLISTEN"] then some .listen
  else if isWord leading ["PREPARE", "EXECUTE", "DEALLOCATE"] then some .prepare
  else if isWord leading ["SET"] then
    if isWord (nextTokenAfterKeyword stmt) ["LOCAL", "TRANSACTION"] then none else some .set
  else if isWord leading ["CREATE"] ∧ createIsTemp stmt then some .temp
  else if isWord leading ["SELECT", "WITH"] ∧ selectIntoTemp stmt then some .temp
  else if advisorySessionFunctions.any (containsIdentifierCi stmt) then some .advisoryLock
  else if isSafeLeadingKeyword leading then none
  else if pinOnUnknown then some .unknown
  else none

/-- `Iterator::max_by_key` at the precedence: the last of the greatest elements. -/
def maxByPrecedence : List PinTrigger → Option PinTrigger
  | [] => none
  | trigger :: rest =>
    match maxByPrecedence rest with
    | none => some trigger
    | some best => if best.precedence < trigger.precedence then some trigger else some best

/-- `classify` at `Dialect::Postgres`. -/
def classify (sql : Text) (pinFunctions : List Text) (pinOnUnknown : Bool) :
    Option PinTrigger :=
  maxByPrecedence ((splitTopLevelStatements sql).filterMap
    fun stmt => classifyOnePg stmt pinFunctions pinOnUnknown)

end FerroEngine.PinClassifier
