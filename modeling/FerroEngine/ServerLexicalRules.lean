import FerroEngine.PostgresLexicalRules

set_option autoImplicit false

/-! # The lexical rules of the three servers

A lexer reads one token at a time.  PostgreSQL's is the reference lexer; MySQL's and SQLite's
differ in their quotes and comments, and MySQL runs the text of a `/*! .. */` comment.
-/

namespace FerroEngine.ServerLexicalRules

open SourceText PostgresLexicalRules

/-! ## Lexers -/

/-- A lexer that always makes progress and reads a separator only at a `;`. -/
structure Lexer where
  State : Type
  start : State
  first : State → Char → Text → Kind × Nat
  next : State → Token → State
  positive : ∀ s c cs, 0 < (first s c cs).2
  separator : ∀ s c cs, (first s c cs).1 = .semicolon → c = ';' ∧ (first s c cs).2 = 1

namespace Lexer

variable (lexer : Lexer)

/-- The first token of `c :: cs`. -/
def token (s : lexer.State) (c : Char) (cs : Text) : Token :=
  { kind := (lexer.first s c cs).1, text := (c :: cs).take (lexer.first s c cs).2 }

def readFrom : Nat → lexer.State → Text → List Token
  | 0, _, _ => []
  | _, _, [] => []
  | fuel + 1, s, c :: cs =>
    lexer.token s c cs ::
      readFrom fuel (lexer.next s (lexer.token s c cs)) ((c :: cs).drop (lexer.first s c cs).2)

/-- The tokens from a state on; every token takes a character, so the length is enough fuel. -/
def tokensFrom (s : lexer.State) (text : Text) : List Token :=
  lexer.readFrom text.length s text

def read (text : Text) : List Token :=
  lexer.tokensFrom lexer.start text

theorem drop_length_le (s : lexer.State) (c : Char) (cs : Text) :
    ((c :: cs).drop (lexer.first s c cs).2).length ≤ cs.length := by
  have progress := lexer.positive s c cs
  rw [List.length_drop, List.length_cons]
  omega

theorem readFrom_text (fuel : Nat) (s : lexer.State) (text : Text) (enough : text.length ≤ fuel) :
    textOf (lexer.readFrom fuel s text) = text := by
  induction fuel generalizing s text with
  | zero =>
    rw [List.eq_nil_of_length_eq_zero (Nat.le_zero.mp enough)]
    rfl
  | succ fuel ih =>
    cases text with
    | nil => rfl
    | cons c cs =>
      have shorter := lexer.drop_length_le s c cs
      rw [List.length_cons] at enough
      rw [readFrom, textOf_cons, ih _ _ (by omega)]
      exact List.take_append_drop _ _

/-- More fuel than characters changes nothing. -/
theorem readFrom_fuel (fuel more : Nat) (s : lexer.State) (text : Text)
    (enough : text.length ≤ fuel) (enough' : text.length ≤ more) :
    lexer.readFrom fuel s text = lexer.readFrom more s text := by
  induction fuel generalizing more s text with
  | zero =>
    rw [List.eq_nil_of_length_eq_zero (Nat.le_zero.mp enough)]
    cases more with
    | zero => rfl
    | succ more => rfl
  | succ fuel ih =>
    cases text with
    | nil =>
      cases more with
      | zero => rfl
      | succ more => rfl
    | cons c cs =>
      have shorter := lexer.drop_length_le s c cs
      rw [List.length_cons] at enough enough'
      cases more with
      | zero => omega
      | succ more => rw [readFrom, readFrom, ih more _ _ (by omega) (by omega)]

theorem tokensFrom_cons (s : lexer.State) (c : Char) (cs : Text) :
    lexer.tokensFrom s (c :: cs) = lexer.token s c cs ::
      lexer.tokensFrom (lexer.next s (lexer.token s c cs))
        ((c :: cs).drop (lexer.first s c cs).2) := by
  unfold tokensFrom
  rw [List.length_cons, readFrom]
  congr 1
  exact lexer.readFrom_fuel _ _ _ _ (lexer.drop_length_le s c cs) (Nat.le_refl _)

theorem tokensFrom_text (s : lexer.State) (text : Text) :
    textOf (lexer.tokensFrom s text) = text :=
  lexer.readFrom_text _ _ _ (Nat.le_refl _)

/-- A piece of text that is the first token wherever it stands. -/
theorem tokensFrom_piece {s : lexer.State} {piece rest : Text} {c : Char} {cs : Text}
    (shape : piece = c :: cs) (whole : (lexer.first s c (cs ++ rest)).2 = piece.length) :
    ∃ s', lexer.tokensFrom s (piece ++ rest) =
      { kind := (lexer.first s c (cs ++ rest)).1, text := piece } :: lexer.tokensFrom s' rest := by
  refine ⟨lexer.next s (lexer.token s c (cs ++ rest)), ?_⟩
  rw [shape, List.cons_append, tokensFrom_cons, token, whole, ← List.cons_append, ← shape,
    List.take_left, List.drop_left]

theorem tokensFrom_separator {s : lexer.State} {text : Text} {token : Token}
    (member : token ∈ lexer.tokensFrom s text) (kind : token.kind = .semicolon) :
    token.text = [';'] := by
  unfold tokensFrom at member
  generalize text.length = fuel at member
  induction fuel generalizing s text with
  | zero => simp [readFrom] at member
  | succ fuel ih =>
    cases text with
    | nil => simp [readFrom] at member
    | cons c cs =>
      rw [readFrom, List.mem_cons] at member
      rcases member with rfl | later
      · obtain ⟨rfl, one⟩ := lexer.separator s c cs kind
        rw [Lexer.token, one]
        rfl
      · exact ih later

end Lexer

def postgres : Lexer where
  State := Context
  start := .plain
  first := firstToken
  next := Context.next
  positive := firstToken_pos
  separator := firstToken_semicolon

theorem postgres_read (text : Text) : postgres.read text = lex text := by
  have general : ∀ fuel context text, postgres.readFrom fuel context text =
      lexFrom fuel context text := by
    intro fuel
    induction fuel with
    | zero => exact fun _ _ => rfl
    | succ fuel ih =>
      intro context text
      cases text with
      | nil => rfl
      | cons c cs =>
        rw [Lexer.readFrom, ih]
        rfl
  exact general text.length .plain text

/-! ## MySQL and SQLite -/

/-- The rest of a comment up to and with the line feed that ends it. -/
def toLineFeed : Text → Nat
  | [] => 0
  | c :: cs => if c = '\n' then 1 else 1 + toLineFeed cs

/-- The rest of a block comment that does not nest. -/
def toClose : Text → Nat
  | [] => 0
  | '*' :: '/' :: _ => 2
  | _ :: cs => 1 + toClose cs

/-- The rest of a text quoted by `q` in which a backslash escapes whatever follows it. -/
def backslashedLen (q : Char) : Text → Nat
  | [] => 0
  | [_] => 1
  | c :: d :: cs =>
    if c = '\\' then 2 + backslashedLen q cs
    else if c = q then (if d = q then 2 + backslashedLen q cs else 1)
    else 1 + backslashedLen q (d :: cs)

/-- The rest of a `[..]` identifier. -/
def bracketLen : Text → Nat
  | [] => 0
  | c :: cs => if c = ']' then 1 else 1 + bracketLen cs

/-- What sets the two servers apart. -/
structure Rules where
  space : Char → Bool
  /-- The length of what a quote opens, and whether it is an identifier. -/
  quote : Char → Option (Bool × (Text → Nat))
  /-- `#` starts a comment, `--` only before white space, and `/*!` is no comment. -/
  mysql : Bool

/-- White space or a control character: what MySQL asks for after `--`. -/
def blankAfterDashes (text : Text) : Bool :=
  match text with
  | [] => true
  | c :: _ => isSpace c || c.toNat < 32 || c.toNat == 127

/-- The mark of a comment that is run, after its `/*`, with the version it asks for. -/
def executableMark : Text → Option Nat
  | '!' :: cs => some (1 + ((cs.take 6).takeWhile Char.isDigit).length)
  | 'M' :: '!' :: cs => some (2 + ((cs.take 6).takeWhile Char.isDigit).length)
  | _ => none

/-- The kind and length of the first token; `inside` a comment that is run, `*/` ends it. -/
def Rules.first (rules : Rules) (inside : Bool) (c : Char) (cs : Text) : Kind × Nat :=
  if rules.space c then (.space, 1)
  else if rules.mysql ∧ c = '#' then (.lineComment, 1 + toLineFeed cs)
  else if c = '-' ∧ cs.head? = some '-' ∧ (rules.mysql = false ∨ blankAfterDashes cs.tail) then
    (.lineComment, 2 + toLineFeed cs.tail)
  else if c = '/' ∧ cs.head? = some '*' then
    match (if rules.mysql then executableMark cs.tail else none) with
    | some mark => (.blockComment, 2 + mark)
    | none => (.blockComment, 2 + toClose cs.tail)
  else if inside ∧ c = '*' ∧ cs.head? = some '/' then (.blockComment, 2)
  else if c = ';' then (.semicolon, 1)
  else match rules.quote c with
    | some (identifier, len) => (if identifier then .quotedIdent else .string, 1 + len cs)
    | none =>
      if isIdentStart c then (.ident, 1 + (cs.takeWhile isIdentCont).length)
      else if c.isDigit then (.number, 1 + (cs.takeWhile isIdentCont).length)
      else (.other, 1)

def Rules.next (rules : Rules) (inside : Bool) (token : Token) : Bool :=
  match token.kind, token.text with
  | .blockComment, '/' :: '*' :: rest => inside || (rules.mysql && (executableMark rest).isSome)
  | .blockComment, _ => false
  | _, _ => inside

theorem Rules.first_pos (rules : Rules) (inside : Bool) (c : Char) (cs : Text) :
    0 < (rules.first inside c cs).2 := by
  unfold Rules.first
  repeat' split
  all_goals
    dsimp only
    omega

theorem Rules.first_separator (rules : Rules) (inside : Bool) (c : Char) (cs : Text)
    (kind : (rules.first inside c cs).1 = .semicolon) :
    c = ';' ∧ (rules.first inside c cs).2 = 1 := by
  revert kind
  unfold Rules.first
  repeat' split
  all_goals intro kind
  all_goals first
    | exact ⟨by assumption, rfl⟩
    | cases kind

def Rules.lexer (rules : Rules) : Lexer where
  State := Bool
  start := false
  first := rules.first
  next := rules.next
  positive := rules.first_pos
  separator := rules.first_separator

def backtick : Char :=
  Char.ofNat 96

def mysqlRules : Rules where
  space := isSpace
  quote c :=
    if c = '\'' ∨ c = '"' then some (false, backslashedLen c)
    else if c = backtick then some (true, quotedLen c)
    else none
  mysql := true

/-- A vertical tab starts no white space of SQLite. -/
def sqliteRules : Rules where
  space c := isSpace c && c != '\x0b'
  quote c :=
    if c = '\'' then some (false, quotedLen c)
    else if c = '"' ∨ c = backtick then some (true, quotedLen c)
    else if c = '[' then some (true, bracketLen)
    else none
  mysql := false

/-- `ferro_classify::Dialect`. -/
inductive Dialect where
  | postgres
  | mySql
  | sqlite
  deriving DecidableEq, Repr

def serverLexer : Dialect → Lexer
  | .postgres => postgres
  | .mySql => mysqlRules.lexer
  | .sqlite => sqliteRules.lexer

example : (((serverLexer .mySql).read "/*!50003 x*/;# ;\n".toList).map Token.kind) =
    [.blockComment, .space, .ident, .blockComment, .semicolon, .lineComment] := by
  decide +kernel

end FerroEngine.ServerLexicalRules
