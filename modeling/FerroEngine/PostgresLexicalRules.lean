import FerroEngine.SourceText

set_option autoImplicit false

/-! # The lexical rules of PostgreSQL

A reference lexer for the tokens whose regions matter to a reader of SQL text, with
`standard_conforming_strings` on.  A run of identifier characters after a digit or a parameter is
one token, an operator is read one character at a time, and a string, identifier or comment that
is never closed runs to the end of the text.
-/

namespace FerroEngine.PostgresLexicalRules

open SourceText

def isSpace (c : Char) : Bool :=
  c == ' ' || c == '\t' || c == '\n' || c == '\r' || c == '\x0b' || c == '\x0c'

def isHigh (c : Char) : Bool :=
  128 ≤ c.toNat

/-- `ident_start`, which is also `dolq_start`. -/
def isIdentStart (c : Char) : Bool :=
  c.isAlpha || c == '_' || isHigh c

/-- `dolq_cont`. -/
def isTagCont (c : Char) : Bool :=
  c.isAlphanum || c == '_' || isHigh c

/-- `ident_cont`. -/
def isIdentCont (c : Char) : Bool :=
  isTagCont c || c == '$'

def isNumberCont (c : Char) : Bool :=
  isTagCont c || c == '.'

inductive Kind where
  | space
  | lineComment
  | blockComment
  | quotedIdent
  | string
  | eString
  /-- A later segment of an `E'..'` literal that is continued on another line. -/
  | eSegment
  | dollarString
  | ident
  | number
  | param
  | semicolon
  | other
  deriving DecidableEq, Repr

structure Token where
  kind : Kind
  text : Text
  deriving DecidableEq, Repr

/-- The rest of a `--` comment with the line terminator that ends it. -/
def lineLen : Text → Nat
  | [] => 0
  | c :: cs =>
    if c = '\n' then 1
    else if c = '\r' then (if cs.head? = some '\n' then 2 else 1)
    else 1 + lineLen cs

/-- The rest of a block comment of the given nesting depth. -/
def blockLen : Nat → Text → Nat
  | _, [] => 0
  | depth, '/' :: '*' :: cs => 2 + blockLen (depth + 1) cs
  | depth, '*' :: '/' :: cs => if depth ≤ 1 then 2 else 2 + blockLen (depth - 1) cs
  | depth, _ :: cs => 1 + blockLen depth cs

/-- The rest of a text quoted by `q`, which `qq` inside it stands for. -/
def quotedLen (q : Char) : Text → Nat
  | [] => 0
  | [_] => 1
  | c :: d :: cs =>
    if c = q then (if d = q then 2 + quotedLen q cs else 1) else 1 + quotedLen q (d :: cs)

/-- The rest of an `E'..'` text: a backslash escapes whatever follows it. -/
def escapedLen : Text → Nat
  | [] => 0
  | [_] => 1
  | c :: d :: cs =>
    if c = '\\' then 2 + escapedLen cs
    else if c = '\'' then (if d = '\'' then 2 + escapedLen cs else 1)
    else 1 + escapedLen (d :: cs)

/-- The rest of a dollar-quoted text up to and with its closing delimiter. -/
def dollarLen (delimiter : Text) : Text → Nat
  | [] => 0
  | c :: cs =>
    if delimiter.isPrefixOf (c :: cs) then delimiter.length else 1 + dollarLen delimiter cs

/-- `dolqdelim` at the head of a text. -/
def dollarDelimiter : Text → Option Text
  | '$' :: after =>
    if (after.head?.map Char.isDigit).getD false then none
    else match after.dropWhile isTagCont with
      | '$' :: _ => some ('$' :: after.takeWhile isTagCont ++ ['$'])
      | _ => none
  | _ => none

/-- What the lexer remembers past a token: an `E'..'` literal was closed and only white space and
comments follow it, and whether they hold a line break. -/
structure Context where
  eClosed : Bool
  newline : Bool
  deriving DecidableEq, Repr

def Context.plain : Context :=
  { eClosed := false, newline := false }

/-- The kind and the length of the first token of `c :: cs`. -/
def firstToken (context : Context) (c : Char) (cs : Text) : Kind × Nat :=
  if isSpace c then (.space, 1)
  else if c = '-' ∧ cs.head? = some '-' then (.lineComment, 2 + lineLen cs.tail)
  else if c = '/' ∧ cs.head? = some '*' then (.blockComment, 2 + blockLen 1 cs.tail)
  else if c = '\'' then
    if context.eClosed ∧ context.newline then (.eSegment, 1 + escapedLen cs)
    else (.string, 1 + quotedLen '\'' cs)
  else if c = '"' then (.quotedIdent, 1 + quotedLen '"' cs)
  else if (c = 'E' ∨ c = 'e') ∧ cs.head? = some '\'' then (.eString, 2 + escapedLen cs.tail)
  else if isIdentStart c then (.ident, 1 + (cs.takeWhile isIdentCont).length)
  else if c.isDigit then (.number, 1 + (cs.takeWhile isNumberCont).length)
  else if c = '$' then
    if (cs.head?.map Char.isDigit).getD false then
      (.param, 1 + (cs.takeWhile isTagCont).length)
    else match dollarDelimiter (c :: cs) with
      | some delimiter =>
        (.dollarString,
          delimiter.length + dollarLen delimiter ((c :: cs).drop delimiter.length))
      | none => (.other, 1)
  else if c = ';' then (.semicolon, 1)
  else (.other, 1)

/-- The context after a token. -/
def Context.next (context : Context) (token : Token) : Context :=
  match token.kind with
  | .eString | .eSegment => { eClosed := true, newline := false }
  | .space | .lineComment =>
    { context with
      newline := context.newline || token.text.any fun c => c == '\n' || c == '\r' }
  | _ => .plain

/-- The tokens of a text; every token takes a character, so the length is enough fuel. -/
def lexFrom : Nat → Context → Text → List Token
  | 0, _, _ => []
  | _ + 1, _, [] => []
  | fuel + 1, context, c :: cs =>
    let first := firstToken context c cs
    let token : Token := { kind := first.1, text := (c :: cs).take first.2 }
    token :: lexFrom fuel (context.next token) ((c :: cs).drop first.2)

def lex (sql : Text) : List Token :=
  lexFrom sql.length .plain sql

def textOf (tokens : List Token) : Text :=
  tokens.flatMap Token.text

@[simp] theorem textOf_cons (token : Token) (tokens : List Token) :
    textOf (token :: tokens) = token.text ++ textOf tokens := rfl

/-- The byte offsets of the statement separators, the first token standing at `offset`. -/
def separators : Nat → List Token → List Nat
  | _, [] => []
  | offset, token :: tokens =>
    (if token.kind = .semicolon then [offset] else []) ++
      separators (offset + byteLen token.text) tokens

/-- A delimiter starts and ends with `$`. -/
theorem dollarDelimiter_shape {text delimiter : Text}
    (found : dollarDelimiter text = some delimiter) :
    (∃ tail, delimiter = '$' :: tail) ∧ delimiter.getLast? = some '$' := by
  unfold dollarDelimiter at found
  split at found
  · split_ifs at found
    split at found
    · cases found
      exact ⟨⟨_, rfl⟩, by simp [List.getLast?_cons]⟩
    · cases found
  · cases found

/-- A character that is a token of its own and belongs to no other kind. -/
structure Single (c : Char) (cs : Text) : Prop where
  line : ¬(c = '-' ∧ cs.head? = some '-')
  block : ¬(c = '/' ∧ cs.head? = some '*')
  quote : c ≠ '\''
  double : c ≠ '"'
  start : isIdentStart c = false
  digit : c.isDigit = false
  dollar : c ≠ '$'
  semicolon : c ≠ ';'

/-- The rules of the lexer: the kind and the length of the first token of a text. -/
inductive FirstToken (context : Context) : Char → Text → Kind × Nat → Prop
  | space {c : Char} {cs : Text} (space : isSpace c = true) : FirstToken context c cs (.space, 1)
  | line {cs : Text} : FirstToken context '-' ('-' :: cs) (.lineComment, 2 + lineLen cs)
  | block {cs : Text} : FirstToken context '/' ('*' :: cs) (.blockComment, 2 + blockLen 1 cs)
  | segment {cs : Text} (closed : context.eClosed = true) (newline : context.newline = true) :
      FirstToken context '\'' cs (.eSegment, 1 + escapedLen cs)
  | string {cs : Text} : FirstToken context '\'' cs (.string, 1 + quotedLen '\'' cs)
  | quotedIdent {cs : Text} : FirstToken context '"' cs (.quotedIdent, 1 + quotedLen '"' cs)
  | eString {e : Char} {cs : Text} (letter : e = 'E' ∨ e = 'e') :
      FirstToken context e ('\'' :: cs) (.eString, 2 + escapedLen cs)
  | ident {c : Char} {cs : Text} (start : isIdentStart c = true)
      (letter : ¬((c = 'E' ∨ c = 'e') ∧ cs.head? = some '\'')) :
      FirstToken context c cs (.ident, 1 + (cs.takeWhile isIdentCont).length)
  | number {c : Char} {cs : Text} (start : isIdentStart c = false) (digit : c.isDigit = true) :
      FirstToken context c cs (.number, 1 + (cs.takeWhile isNumberCont).length)
  | param {cs : Text} (digit : (cs.head?.map Char.isDigit).getD false = true) :
      FirstToken context '$' cs (.param, 1 + (cs.takeWhile isTagCont).length)
  | dollarString {cs delimiter : Text} (found : dollarDelimiter ('$' :: cs) = some delimiter) :
      FirstToken context '$' cs (.dollarString,
        delimiter.length + dollarLen delimiter (('$' :: cs).drop delimiter.length))
  | dollar {cs : Text} (closed : dollarDelimiter ('$' :: cs) = none) :
      FirstToken context '$' cs (.other, 1)
  | semicolon {cs : Text} : FirstToken context ';' cs (.semicolon, 1)
  | single {c : Char} {cs : Text} (single : Single c cs) : FirstToken context c cs (.other, 1)

theorem firstToken_spec (context : Context) (c : Char) (cs : Text) :
    FirstToken context c cs (firstToken context c cs) := by
  unfold firstToken
  by_cases space : isSpace c = true
  · rw [if_pos space]
    exact .space space
  rw [if_neg space]
  by_cases line : c = '-' ∧ cs.head? = some '-'
  · rw [if_pos line]
    obtain ⟨rfl, head⟩ := line
    obtain ⟨ds, rfl⟩ := List.head?_eq_some_iff.mp head
    exact .line
  rw [if_neg line]
  by_cases block : c = '/' ∧ cs.head? = some '*'
  · rw [if_pos block]
    obtain ⟨rfl, head⟩ := block
    obtain ⟨ds, rfl⟩ := List.head?_eq_some_iff.mp head
    exact .block
  rw [if_neg block]
  by_cases quote : c = '\''
  · rw [if_pos quote]
    subst quote
    by_cases segment : context.eClosed = true ∧ context.newline = true
    · rw [if_pos segment]
      exact .segment segment.1 segment.2
    · rw [if_neg segment]
      exact .string
  rw [if_neg quote]
  by_cases double : c = '"'
  · rw [if_pos double]
    subst double
    exact .quotedIdent
  rw [if_neg double]
  by_cases letter : (c = 'E' ∨ c = 'e') ∧ cs.head? = some '\''
  · rw [if_pos letter]
    obtain ⟨isE, head⟩ := letter
    obtain ⟨ds, rfl⟩ := List.head?_eq_some_iff.mp head
    exact .eString isE
  rw [if_neg letter]
  by_cases ident : isIdentStart c = true
  · rw [if_pos ident]
    exact .ident ident letter
  rw [if_neg ident]
  have start : isIdentStart c = false := Bool.eq_false_iff.mpr ident
  by_cases digit : c.isDigit = true
  · rw [if_pos digit]
    exact .number start digit
  rw [if_neg digit]
  by_cases dollar : c = '$'
  · rw [if_pos dollar]
    subst dollar
    by_cases positional : (cs.head?.map Char.isDigit).getD false = true
    · rw [if_pos positional]
      exact .param positional
    · rw [if_neg positional]
      cases found : dollarDelimiter ('$' :: cs) with
      | some delimiter => exact .dollarString found
      | none => exact .dollar found
  rw [if_neg dollar]
  by_cases semi : c = ';'
  · rw [if_pos semi]
    subst semi
    exact .semicolon
  · rw [if_neg semi]
    exact .single ⟨line, block, quote, double, start, Bool.eq_false_iff.mpr digit, dollar, semi⟩

/-- Every token takes at least one character. -/
theorem firstToken_pos (context : Context) (c : Char) (cs : Text) :
    0 < (firstToken context c cs).2 := by
  have spec := firstToken_spec context c cs
  generalize firstToken context c cs = first at spec
  cases spec with
  | dollarString found =>
    obtain ⟨⟨tail, rfl⟩, -⟩ := dollarDelimiter_shape found
    simp only [List.length_cons]
    omega
  | _ =>
    simp only
    omega

theorem lexFrom_text (fuel : Nat) (context : Context) (text : Text)
    (enough : text.length ≤ fuel) : textOf (lexFrom fuel context text) = text := by
  induction fuel generalizing context text with
  | zero =>
    have empty : text = [] := List.eq_nil_of_length_eq_zero (by omega)
    rw [empty]
    rfl
  | succ fuel ih =>
    cases text with
    | nil => rfl
    | cons c cs =>
      have positive := firstToken_pos context c cs
      rw [lexFrom, textOf_cons, ih, List.take_append_drop]
      rw [List.length_drop]
      simp only [List.length_cons] at enough ⊢
      omega

theorem firstToken_semicolon (context : Context) (c : Char) (cs : Text)
    (semicolon : (firstToken context c cs).1 = .semicolon) :
    c = ';' ∧ (firstToken context c cs).2 = 1 := by
  have spec := firstToken_spec context c cs
  generalize firstToken context c cs = first at spec semicolon
  cases spec with
  | semicolon => exact ⟨rfl, rfl⟩
  | _ => cases semicolon

theorem lexFrom_semicolon {fuel : Nat} {context : Context} {text : Text} {token : Token}
    (member : token ∈ lexFrom fuel context text) (semicolon : token.kind = .semicolon) :
    token.text = [';'] := by
  induction fuel generalizing context text with
  | zero => simp [lexFrom] at member
  | succ fuel ih =>
    cases text with
    | nil => simp [lexFrom] at member
    | cons c cs =>
      rw [lexFrom, List.mem_cons] at member
      rcases member with rfl | later
      · obtain ⟨rfl, one⟩ := firstToken_semicolon context c cs semicolon
        simp [one]
      · exact ih later

/-- The tokens of the statements between the separators. -/
def statements : List Token → List (List Token)
  | [] => [[]]
  | token :: tokens =>
    if token.kind = .semicolon then [] :: statements tokens
    else match statements tokens with
      | statement :: others => (token :: statement) :: others
      | [] => [[token]]

theorem statements_ne_nil (tokens : List Token) : statements tokens ≠ [] := by
  cases tokens with
  | nil => simp [statements]
  | cons token tokens =>
    rw [statements]
    split
    · simp
    · split
      · simp
      · simp

/-- A statement stands between two separators or the ends of the text. -/
theorem statements_split {tokens statement : List Token} (member : statement ∈ statements tokens) :
    ∃ before after, tokens = before ++ (statement ++ after) ∧
      (before = [] ∨ ∃ others semi, before = others ++ [semi] ∧ semi.kind = .semicolon) ∧
      (after = [] ∨ ∃ semi others, after = semi :: others ∧ semi.kind = .semicolon) := by
  have general : ∀ first others, statements tokens = first :: others →
      (∃ after, tokens = first ++ after ∧
        (after = [] ∨ ∃ semi others, after = semi :: others ∧ semi.kind = .semicolon)) ∧
      ∀ statement ∈ others, ∃ before semi after, semi.kind = .semicolon ∧
        tokens = before ++ [semi] ++ (statement ++ after) ∧
        (after = [] ∨ ∃ semi others, after = semi :: others ∧ semi.kind = .semicolon) := by
    clear member
    induction tokens with
    | nil =>
      intro first others same
      simp only [statements, List.cons.injEq] at same
      obtain ⟨rfl, rfl⟩ := same
      exact ⟨⟨[], rfl, Or.inl rfl⟩, by simp⟩
    | cons token tokens ih =>
      intro first others same
      rw [statements] at same
      obtain ⟨head, tail, rest⟩ := List.exists_cons_of_ne_nil (statements_ne_nil tokens)
      obtain ⟨⟨after, split, closes⟩, later⟩ := ih head tail rest
      split_ifs at same with semi
      · obtain ⟨rfl, rfl⟩ := List.cons.inj same
        refine ⟨⟨token :: tokens, rfl, Or.inr ⟨token, tokens, rfl, semi⟩⟩, ?_⟩
        intro statement member
        rw [rest, List.mem_cons] at member
        rcases member with rfl | member
        · exact ⟨[], token, after, semi, by rw [split]; rfl, closes⟩
        · obtain ⟨before, semi', after', kind, split', closes'⟩ := later statement member
          exact ⟨token :: before, semi', after', kind, by rw [split']; simp, closes'⟩
      · rw [rest] at same
        simp only [List.cons.injEq] at same
        obtain ⟨rfl, rfl⟩ := same
        refine ⟨⟨after, by rw [split]; rfl, closes⟩, ?_⟩
        intro statement member
        obtain ⟨before, semi', after', kind, split', closes'⟩ := later statement member
        exact ⟨token :: before, semi', after', kind, by rw [split']; simp, closes'⟩
  obtain ⟨first, others, same⟩ := List.exists_cons_of_ne_nil (statements_ne_nil tokens)
  obtain ⟨⟨after, split, closes⟩, later⟩ := general first others same
  rw [same, List.mem_cons] at member
  rcases member with rfl | member
  · exact ⟨[], after, split, Or.inl rfl, closes⟩
  · obtain ⟨before, semi, after', kind, split', closes'⟩ := later statement member
    exact ⟨before ++ [semi], after', split', Or.inr ⟨before, semi, rfl, kind⟩, closes'⟩

/-- Every token of the list is the first token of the text that it starts. -/
theorem lexFrom_at {fuel : Nat} {context : Context} {text : Text} {before after : List Token}
    {token : Token} (enough : text.length ≤ fuel)
    (lexed : lexFrom fuel context text = before ++ token :: after) :
    ∃ context' c cs, token.text ++ textOf after = c :: cs ∧
      token = { kind := (firstToken context' c cs).1,
                text := (c :: cs).take (firstToken context' c cs).2 } ∧
      textOf after = (c :: cs).drop (firstToken context' c cs).2 := by
  induction before generalizing fuel context text with
  | nil =>
    obtain ⟨fuel, rfl⟩ : ∃ n, fuel = n + 1 := by
      cases fuel with
      | zero => simp [lexFrom] at lexed
      | succ n => exact ⟨n, rfl⟩
    cases text with
    | nil => simp [lexFrom] at lexed
    | cons c cs =>
      have whole := lexFrom_text (fuel + 1) context (c :: cs) enough
      rw [lexed] at whole
      rw [lexFrom, List.nil_append, List.cons.injEq] at lexed
      refine ⟨context, c, cs, whole, lexed.1.symm, ?_⟩
      have split : token.text ++ textOf after = c :: cs := whole
      rw [← lexed.1] at split
      have cut := List.take_append_drop (firstToken context c cs).2 (c :: cs)
      exact List.append_cancel_left (split.trans cut.symm)
  | cons first before ih =>
    obtain ⟨fuel, rfl⟩ : ∃ n, fuel = n + 1 := by
      cases fuel with
      | zero => simp [lexFrom] at lexed
      | succ n => exact ⟨n, rfl⟩
    cases text with
    | nil => simp [lexFrom] at lexed
    | cons c cs =>
      have positive := firstToken_pos context c cs
      rw [lexFrom, List.cons_append, List.cons.injEq] at lexed
      refine ih ?_ lexed.2
      rw [List.length_drop]
      simp only [List.length_cons] at enough ⊢
      omega

def headToken (context : Context) (c : Char) (cs : Text) : Token where
  kind := (firstToken context c cs).1
  text := (c :: cs).take (firstToken context c cs).2

/-- The lexer reads the text as the given tokens, one rule after the other. -/
inductive Lexes : Context → Text → List Token → Prop
  | nil (context : Context) : Lexes context [] []
  | cons {context : Context} {c : Char} {cs : Text} {tokens : List Token}
      (later : Lexes (context.next (headToken context c cs))
        ((c :: cs).drop (firstToken context c cs).2) tokens) :
      Lexes context (c :: cs) (headToken context c cs :: tokens)

theorem drop_firstToken_length (context : Context) (c : Char) (cs : Text) {fuel : Nat}
    (enough : (c :: cs).length ≤ fuel + 1) :
    ((c :: cs).drop (firstToken context c cs).2).length ≤ fuel := by
  have positive := firstToken_pos context c cs
  rw [List.length_drop]
  simp only [List.length_cons] at enough ⊢
  omega

theorem lexes_lexFrom (fuel : Nat) (context : Context) (text : Text)
    (enough : text.length ≤ fuel) : Lexes context text (lexFrom fuel context text) := by
  induction fuel generalizing context text with
  | zero =>
    have empty : text = [] := List.eq_nil_of_length_eq_zero (by omega)
    rw [empty]
    exact .nil context
  | succ fuel ih =>
    cases text with
    | nil => exact .nil context
    | cons c cs => exact .cons (ih _ _ (drop_firstToken_length context c cs enough))

theorem Lexes.lexFrom_eq {context : Context} {text : Text} {tokens : List Token}
    (lexes : Lexes context text tokens) (fuel : Nat) (enough : text.length ≤ fuel) :
    lexFrom fuel context text = tokens := by
  induction lexes generalizing fuel with
  | nil =>
    cases fuel with
    | zero => rfl
    | succ fuel => rfl
  | @cons context c cs tokens later ih =>
    cases fuel with
    | zero => simp at enough
    | succ fuel =>
      rw [lexFrom, ← ih fuel (drop_firstToken_length context c cs enough)]
      rfl

theorem Lexes.text {context : Context} {text : Text} {tokens : List Token}
    (lexes : Lexes context text tokens) : textOf tokens = text := by
  rw [← lexes.lexFrom_eq text.length (Nat.le_refl _), lexFrom_text _ _ _ (Nat.le_refl _)]

theorem Lexes.next {context : Context} {text : Text} {token : Token} {tokens : List Token}
    (lexes : Lexes context text (token :: tokens)) : ∃ c cs, text = c :: cs ∧
      token = headToken context c cs ∧
      textOf tokens = (c :: cs).drop (firstToken context c cs).2 ∧
      Lexes (context.next token) (textOf tokens) tokens := by
  cases lexes with
  | @cons _ c cs _ later =>
    refine ⟨c, cs, rfl, rfl, later.text, ?_⟩
    rw [later.text]
    exact later

/-- White space and comments. -/
def Kind.isNoise : Kind → Bool
  | .space | .lineComment | .blockComment => true
  | _ => false

end FerroEngine.PostgresLexicalRules
