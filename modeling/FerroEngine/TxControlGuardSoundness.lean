import FerroEngine.ServerLexicalRules
import FerroEngine.StatementReading
import FerroEngine.TxControlGuard

set_option autoImplicit false

/-! # Soundness of the savepoint passthrough

What a server reads in a text that the transaction-control guard passes through as a savepoint.
-/

namespace FerroEngine.TxControlGuardSoundness

open SourceText PostgresLexicalRules ServerLexicalRules PinClassifier LeadingNoise
open StatementReading TxControlGuard

/-! ## Words -/

/-- A run of letters that no identifier character follows. -/
structure Alone (word rest : Text) : Prop where
  nonempty : word ≠ []
  letters : ∀ c ∈ word, c.isAlpha = true
  ends : ∀ d, rest.head? = some d → isIdentCont d = false

theorem leadingWords_separator {c : Char} (other : c.isAlpha = false) (text : Text) (max : Nat) :
    leadingWords (c :: text) max = leadingWords text max := by
  unfold leadingWords
  rw [List.splitOnP_cons_eq_if_modifyHead, if_pos (by simp [other])]
  rfl

theorem leadingWords_gap (gap text : Text) (letterless : ∀ c ∈ gap, c.isAlpha = false)
    (max : Nat) : leadingWords (gap ++ text) max = leadingWords text max := by
  induction gap with
  | nil => rfl
  | cons c gap ih =>
    rw [List.cons_append, leadingWords_separator (letterless c List.mem_cons_self)]
    exact ih fun d member => letterless d (List.mem_cons_of_mem _ member)

theorem leadingWords_word {word rest : Text} (alone : Alone word rest) (max : Nat) :
    leadingWords (word ++ rest) (max + 1) = toAsciiUppercase word :: leadingWords rest max := by
  have letters : ∀ c ∈ word, (!c.isAlpha) = false := by
    intro c member
    rw [alone.letters c member]
    rfl
  cases rest with
  | nil =>
    unfold leadingWords
    rw [List.append_nil, List.splitOnP_eq_singleton letters]
    simp [alone.nonempty]
  | cons d ds =>
    have other := (alpha_false_of_identCont (alone.ends d rfl)).1
    rw [leadingWords_separator other]
    unfold leadingWords
    rw [List.splitOnP_append_cons_of_forall_mem letters d (by simp [other])]
    simp [alone.nonempty]

/-! ## Noise -/

/-- The piece is one token of noise for the server, whatever follows it. -/
def ServerNoise (lexer : Lexer) (piece : Text) : Prop :=
  ∃ c cs, piece = c :: cs ∧ ∀ s rest,
    (lexer.first s c (cs ++ rest)).2 = piece.length ∧
      (lexer.first s c (cs ++ rest)).1.isNoise = true

/-- The guard skips the piece, whatever follows it. -/
def GuardNoise (piece : Text) : Prop :=
  ∀ rest, skipLeadingNoise (piece ++ rest) = skipLeadingNoise rest

theorem skipLeadingNoise_pieces (pieces : List Text) (noise : ∀ piece ∈ pieces, GuardNoise piece)
    (rest : Text) : skipLeadingNoise (pieces.flatten ++ rest) = skipLeadingNoise rest := by
  induction pieces with
  | nil => rfl
  | cons piece pieces ih =>
    rw [List.flatten_cons, List.append_assoc, noise piece List.mem_cons_self]
    exact ih fun other member => noise other (List.mem_cons_of_mem _ member)

theorem tokensFrom_noise (lexer : Lexer) (pieces : List Text)
    (noise : ∀ piece ∈ pieces, ServerNoise lexer piece) (s : lexer.State) (rest : Text) :
    ∃ tokens s', lexer.tokensFrom s (pieces.flatten ++ rest) = tokens ++ lexer.tokensFrom s' rest ∧
      ∀ token ∈ tokens, token.kind.isNoise = true := by
  induction pieces generalizing s with
  | nil => exact ⟨[], s, rfl, by simp⟩
  | cons piece pieces ih =>
    obtain ⟨c, cs, shape, read⟩ := noise piece List.mem_cons_self
    obtain ⟨whole, kind⟩ := read s (pieces.flatten ++ rest)
    obtain ⟨s', first⟩ := lexer.tokensFrom_piece shape whole
    obtain ⟨tokens, s'', later, noisy⟩ :=
      ih (fun other member => noise other (List.mem_cons_of_mem _ member)) s'
    refine ⟨{ kind := (lexer.first s c (cs ++ (pieces.flatten ++ rest))).1, text := piece } :: tokens,
      s'', ?_, ?_⟩
    · rw [List.flatten_cons, List.append_assoc, first, later, List.cons_append]
    · intro token member
      rcases List.mem_cons.mp member with rfl | inside
      · exact kind
      · exact noisy token inside

theorem dropNoise_append {tokens : List Token} (noisy : ∀ token ∈ tokens, token.kind.isNoise = true)
    (rest : List Token) : dropNoise (tokens ++ rest) = dropNoise rest :=
  List.dropWhile_append_of_pos noisy

/-! ## A word of the server -/

theorem takeWhile_word {word rest : Text} {c : Char} {cs : Text} (alone : Alone word rest)
    (shape : word = c :: cs) : 1 + ((cs ++ rest).takeWhile isIdentCont).length = word.length := by
  have conts : ∀ d ∈ cs, isIdentCont d = true := by
    intro d member
    have alpha := alone.letters d (by rw [shape]; exact List.mem_cons_of_mem _ member)
    simp [isIdentCont, isTagCont, Char.isAlphanum, alpha]
  have stop : rest.takeWhile isIdentCont = [] := by
    cases rest with
    | nil => rfl
    | cons d ds => exact List.takeWhile_cons_of_neg (by simp [alone.ends d rfl])
  rw [List.takeWhile_append_of_pos conts, stop, List.append_nil, shape, List.length_cons]
  omega

theorem ne_of_alpha {c d : Char} (alpha : c.isAlpha = true) (other : d.isAlpha = false) : c ≠ d := by
  rintro rfl
  rw [alpha] at other
  cases other

theorem isSpace_of_alpha {c : Char} (alpha : c.isAlpha = true) : isSpace c = false := by
  rw [Bool.eq_false_iff]
  intro space
  simp only [isSpace, Bool.or_eq_true, beq_iff_eq] at space
  rcases space with ((((rfl | rfl) | rfl) | rfl) | rfl) | rfl
  all_goals exact absurd alpha (by decide)

theorem postgres_word (context : Context) {word rest : Text} {c d : Char} {cs : Text}
    (alone : Alone word rest) (shape : word = c :: d :: cs) :
    firstToken context c (d :: cs ++ rest) = (.ident, word.length) := by
  have alpha := alone.letters c (by rw [shape]; simp)
  have second := alone.letters d (by rw [shape]; simp)
  have start : isIdentStart c = true := by rw [isIdentStart, alpha]; rfl
  have escape : ¬((c = 'E' ∨ c = 'e') ∧ (d :: cs ++ rest).head? = some '\'') := by
    rintro ⟨-, quote⟩
    exact ne_of_alpha second (by decide) (Option.some.inj quote)
  rw [firstToken, if_neg (by simp [isSpace_of_alpha alpha]),
    if_neg fun both => ne_of_alpha alpha (by decide) both.1,
    if_neg fun both => ne_of_alpha alpha (by decide) both.1,
    if_neg (ne_of_alpha alpha (by decide)), if_neg (ne_of_alpha alpha (by decide)),
    if_neg escape, if_pos start, takeWhile_word alone shape]

theorem rules_word (rules : Rules) (inside : Bool) {word rest : Text} {c : Char} {cs : Text}
    (space : rules.space c = true → isSpace c = true)
    (unquoted : c.isAlpha = true → rules.quote c = none)
    (alone : Alone word rest) (shape : word = c :: cs) :
    rules.first inside c (cs ++ rest) = (.ident, word.length) := by
  have alpha := alone.letters c (by rw [shape]; simp)
  have start : isIdentStart c = true := by rw [isIdentStart, alpha]; rfl
  have visible : ¬rules.space c = true := by
    intro white
    rw [isSpace_of_alpha alpha] at space
    exact absurd (space white) (by decide)
  rw [Rules.first, if_neg visible, if_neg fun both => ne_of_alpha alpha (by decide) both.2,
    if_neg fun both => ne_of_alpha alpha (by decide) both.1,
    if_neg fun both => ne_of_alpha alpha (by decide) both.1,
    if_neg fun both => ne_of_alpha alpha (by decide) both.2.1,
    if_neg (ne_of_alpha alpha (by decide)), unquoted alpha]
  simp only [start, if_true, takeWhile_word alone shape]

/-- Every server reads a run of two letters or more that stands alone as one identifier. -/
theorem serverLexer_word (dialect : Dialect) (s : (serverLexer dialect).State) {word rest : Text}
    {c d : Char} {cs : Text} (alone : Alone word rest) (shape : word = c :: d :: cs) :
    (serverLexer dialect).first s c (d :: cs ++ rest) = (.ident, word.length) := by
  have unquoted : ∀ rules : Rules, rules = mysqlRules ∨ rules = sqliteRules →
      c.isAlpha = true → rules.quote c = none := by
    rintro rules (rfl | rfl) alpha
    · simp [mysqlRules, ne_of_alpha alpha (show '\''.isAlpha = false by decide),
        ne_of_alpha alpha (show '"'.isAlpha = false by decide),
        ne_of_alpha alpha (show backtick.isAlpha = false by decide)]
    · simp [sqliteRules, ne_of_alpha alpha (show '\''.isAlpha = false by decide),
        ne_of_alpha alpha (show '"'.isAlpha = false by decide),
        ne_of_alpha alpha (show '['.isAlpha = false by decide),
        ne_of_alpha alpha (show backtick.isAlpha = false by decide)]
  cases dialect with
  | postgres => exact postgres_word s alone shape
  | mySql =>
    exact rules_word mysqlRules s (fun white => white) (unquoted _ (Or.inl rfl)) alone shape
  | sqlite =>
    refine rules_word sqliteRules s ?_ (unquoted _ (Or.inr rfl)) alone shape
    intro white
    exact (Bool.and_eq_true _ _ ▸ white).1

/-! ## One statement -/

theorem statements_whole (tokens : List Token)
    (none' : ∀ token ∈ tokens, token.kind ≠ .semicolon) : statements tokens = [tokens] := by
  induction tokens with
  | nil => rfl
  | cons token tokens ih =>
    rw [statements, if_neg (none' token List.mem_cons_self),
      ih fun other member => none' other (List.mem_cons_of_mem _ member)]

theorem statements_two (before after : List Token) {semi : Token} (kind : semi.kind = .semicolon)
    (none' : ∀ token ∈ before, token.kind ≠ .semicolon)
    (none'' : ∀ token ∈ after, token.kind ≠ .semicolon) :
    statements (before ++ semi :: after) = [before, after] := by
  induction before with
  | nil => rw [List.nil_append, statements, if_pos kind, statements_whole after none'']
  | cons token before ih =>
    rw [List.cons_append, statements, if_neg (none' token List.mem_cons_self),
      ih fun other member => none' other (List.mem_cons_of_mem _ member)]

/-- A lone statement has no separator, or one that only white space follows. -/
theorem lone_split {sql : Text} (lone : isLoneStatement sql = true) :
    ';' ∉ sql ∨ ∃ front back, sql = front ++ ';' :: back ∧ ';' ∉ front ∧
      ∀ c ∈ back, isWhitespace c = true := by
  have white : ∀ c ∈ sql.rtakeWhile isWhitespace, isWhitespace c = true :=
    fun c member => List.mem_rtakeWhile_imp member
  have split : sql = trimEnd sql ++ sql.rtakeWhile isWhitespace :=
    List.rdropWhile_append_rtakeWhile.symm
  rw [isLoneStatement, Bool.not_eq_true', ← Bool.not_eq_true, List.contains_iff_mem] at lone
  unfold stripSemicolon at lone
  by_cases last : (trimEnd sql).getLast? = some ';'
  · rw [if_pos last] at lone
    refine Or.inr ⟨(trimEnd sql).dropLast, sql.rtakeWhile isWhitespace, ?_, lone, white⟩
    nth_rewrite 1 [split]
    nth_rewrite 1 [← List.dropLast_append_getLast? ';' last]
    simp
  · rw [if_neg last] at lone
    refine Or.inl ?_
    rw [split, List.mem_append]
    rintro (early | late)
    · exact lone early
    · exact absurd (white ';' late) (by decide)

/-- The text of a list of tokens without the character holds none of its separators. -/
theorem no_separator {tokens : List Token} (texts : ∀ token ∈ tokens, token.kind = .semicolon →
    token.text = [';']) (free : ';' ∉ textOf tokens) :
    ∀ token ∈ tokens, token.kind ≠ .semicolon := by
  intro token member kind
  apply free
  rw [textOf, List.mem_flatMap]
  exact ⟨token, member, by rw [texts token member kind]; simp⟩

/-- What is left of a list of tokens is what the lexer reads in the text that is left. -/
theorem tokensFrom_suffix (lexer : Lexer) {before after : List Token} {s : lexer.State}
    {text : Text} (read : lexer.tokensFrom s text = before ++ after) :
    ∃ s', after = lexer.tokensFrom s' (textOf after) := by
  induction before generalizing s text with
  | nil =>
    refine ⟨s, ?_⟩
    have whole := lexer.tokensFrom_text s text
    rw [read] at whole
    rw [List.nil_append] at read whole
    rw [whole, read]
  | cons token before ih =>
    cases text with
    | nil => cases read
    | cons c cs =>
      rw [lexer.tokensFrom_cons, List.cons_append, List.cons.injEq] at read
      exact ih read.2

theorem dropNoise_nil_of_noise (lexer : Lexer) (s : lexer.State) (text : Text)
    (noise : ∀ c ∈ text, ServerNoise lexer [c]) : dropNoise (lexer.tokensFrom s text) = [] := by
  obtain ⟨tokens, s', read, noisy⟩ := tokensFrom_noise lexer (text.map fun c => [c])
    (by simpa using noise) s []
  have single : (text.map fun c => [c]).flatten = text := by
    rw [← List.flatMap_def, List.flatMap_singleton']
  rw [single, List.append_nil] at read
  rw [read, dropNoise_append noisy]
  rfl

/-- A word at the head of the tokens is the head of the statement they start. -/
theorem afterWord_statement {words : List String} {statement tail more : List Token}
    (ends : tail = [] ∨ ∃ semi others, tail = semi :: others ∧ semi.kind = .semicolon)
    (found : afterWord words (statement ++ tail) = some more) :
    ∃ rest, afterWord words statement = some rest ∧ more = rest ++ tail := by
  obtain ⟨token, first, keyword⟩ := afterWord_some found
  have ident : token.kind = .ident := by
    rw [isKeyword, Bool.and_eq_true, beq_iff_eq] at keyword
    exact keyword.1
  cases own : dropNoise statement with
  | nil =>
    exfalso
    have noisy : ∀ token ∈ statement, token.kind.isNoise = true := fun other member =>
      List.dropWhile_eq_nil_iff.mp own other member
    rw [dropNoise_append noisy] at first
    rcases ends with rfl | ⟨semi, others, rfl, kind⟩
    · cases first
    · have stays : dropNoise (semi :: others) = semi :: others :=
        List.dropWhile_cons_of_neg (by simp [kind, Kind.isNoise])
      rw [stays] at first
      rw [(List.cons.inj first).1, ident] at kind
      cases kind
  | cons head rest =>
    obtain ⟨noise, split, noisy, -⟩ := dropNoise_split own
    have whole : dropNoise (statement ++ tail) = head :: (rest ++ tail) := by
      rw [split, List.append_assoc, dropNoise_append noisy, List.cons_append]
      refine List.dropWhile_cons_of_neg ?_
      have stays := List.head?_dropWhile_not (fun token : Token => token.kind.isNoise) statement
      rw [show statement.dropWhile (fun token => token.kind.isNoise) = head :: rest from own]
        at stays
      simpa using stays
    rw [first] at whole
    obtain ⟨rfl, rfl⟩ := List.cons.inj whole
    refine ⟨rest, ?_, rfl⟩
    rw [afterWord, own]
    exact if_pos keyword

/-- `SAVEPOINT n`, `RELEASE [SAVEPOINT] n` or `ROLLBACK [WORK | TRANSACTION] TO [SAVEPOINT] n`. -/
def isSavepointCommand (statement : List Token) : Bool :=
  (afterWord ["SAVEPOINT", "RELEASE"] statement).isSome ||
    match afterWord ["ROLLBACK"] statement with
    | some rest => (afterWord ["TO"] ((afterWord ["WORK", "TRANSACTION"] rest).getD rest)).isSome
    | none => false

/-- The tokens are one statement, and it is a savepoint command. -/
def OneSavepoint (tokens : List Token) : Prop :=
  ∃ statement, ((statements tokens).filter fun part => !(dropNoise part).isEmpty) = [statement] ∧
    isSavepointCommand statement = true

/-- The words by which a savepoint command starts. -/
def startsSavepoint (tokens : List Token) : Bool :=
  (afterWord ["SAVEPOINT", "RELEASE"] tokens).isSome ||
    ((afterWord ["ROLLBACK"] tokens).bind (afterWord ["TO"])).isSome

theorem isSavepointCommand_of_starts {statement tail : List Token}
    (ends : tail = [] ∨ ∃ semi others, tail = semi :: others ∧ semi.kind = .semicolon)
    (starts : startsSavepoint (statement ++ tail) = true) :
    isSavepointCommand statement = true ∧ dropNoise statement ≠ [] := by
  rw [startsSavepoint, Bool.or_eq_true, Option.isSome_iff_exists, Option.isSome_iff_exists] at starts
  rcases starts with ⟨more, found⟩ | ⟨more, found⟩
  · obtain ⟨rest, own, -⟩ := afterWord_statement ends found
    obtain ⟨token, first, -⟩ := afterWord_some own
    refine ⟨?_, by rw [first]; simp⟩
    rw [isSavepointCommand, own]
    rfl
  · obtain ⟨middle, rollback, to'⟩ := Option.bind_eq_some_iff.mp found
    obtain ⟨rest, own, rfl⟩ := afterWord_statement ends rollback
    obtain ⟨after, target, -⟩ := afterWord_statement ends to'
    obtain ⟨token, first, -⟩ := afterWord_some own
    refine ⟨?_, by rw [first]; simp⟩
    have plain : afterWord ["WORK", "TRANSACTION"] rest = none := by
      obtain ⟨word, head, keyword⟩ := afterWord_some target
      rw [isKeyword, Bool.and_eq_true] at keyword
      rw [afterWord, head]
      refine if_neg ?_
      rw [isKeyword, isWord_apart (by decide) keyword.2, Bool.and_false]
      decide
    rw [isSavepointCommand, own]
    simp only [plain, Option.getD_none, target, Option.isSome_some, Bool.or_true]

/-- A lone statement that starts as a savepoint command is one. -/
theorem oneSavepoint_of_lone (lexer : Lexer) {sql : Text} (lone : isLoneStatement sql = true)
    (tail : ∀ front back, sql = front ++ ';' :: back → (∀ c ∈ back, isWhitespace c = true) →
      ∀ c ∈ back, ServerNoise lexer [c])
    (starts : startsSavepoint (lexer.read sql) = true) : OneSavepoint (lexer.read sql) := by
  have text : textOf (lexer.read sql) = sql := lexer.tokensFrom_text _ _
  have separators : ∀ token ∈ lexer.read sql, token.kind = .semicolon → token.text = [';'] :=
    fun token member kind => lexer.tokensFrom_separator member kind
  by_cases none' : ∀ token ∈ lexer.read sql, token.kind ≠ .semicolon
  · obtain ⟨command, some'⟩ := isSavepointCommand_of_starts (Or.inl rfl)
      (show startsSavepoint (lexer.read sql ++ []) = true by rw [List.append_nil]; exact starts)
    refine ⟨lexer.read sql, ?_, command⟩
    rw [statements_whole _ none']
    simp [some']
  · push Not at none'
    obtain ⟨semi, member, kind⟩ := none'
    obtain ⟨before, after, split⟩ := List.append_of_mem member
    have semiText := separators semi member kind
    rw [split] at text separators starts
    rw [textOf_append, textOf_cons, semiText] at text
    obtain ⟨command, some'⟩ := isSavepointCommand_of_starts
      (Or.inr ⟨semi, after, rfl, kind⟩) starts
    rcases lone_split lone with free | ⟨front, back, shape, free, white⟩
    · exact absurd (by rw [← text]; simp) free
    · have free' : ';' ∉ back := fun late => absurd (white ';' late) (by decide)
      have parts : textOf before = front ∧ textOf after = back := by
        have same : front ++ ';' :: back = textOf before ++ ';' :: textOf after := by
          rw [← shape, ← text]
          simp
        obtain ⟨left, -, right⟩ := (List.append_cons_inj_of_notMem free free').mp same
        exact ⟨left.symm, right.symm⟩
      have early : ∀ token ∈ before, token.kind ≠ .semicolon :=
        no_separator (fun token inside => separators token (by simp [inside]))
          (by rw [parts.1]; exact free)
      have late : ∀ token ∈ after, token.kind ≠ .semicolon :=
        no_separator (fun token inside => separators token (by simp [inside]))
          (by rw [parts.2]; exact free')
      obtain ⟨s', rest⟩ := tokensFrom_suffix lexer
        (show lexer.tokensFrom lexer.start sql = (before ++ [semi]) ++ after by
          rw [List.append_assoc]; exact split)
      have empty : dropNoise after = [] := by
        rw [rest, parts.2]
        exact dropNoise_nil_of_noise lexer s' back (tail front back shape white)
      refine ⟨before, ?_, command⟩
      rw [split, statements_two before after kind early late]
      simp [some', empty]

/-! ## The passthrough -/

/-- The server reads the words that the guard reads: the noise before the verb ends at the same
place for both, the verb stands alone, so does a `TO` after `ROLLBACK` with only noise between
them, and a separator at the end is followed by nothing but the server's white space. -/
structure Reading (lexer : Lexer) (sql : Text) where
  noise : List Text
  verb : Text
  rest : Text
  split : sql = noise.flatten ++ (verb ++ rest)
  skipped : ∀ piece ∈ noise, ServerNoise lexer piece ∧ GuardNoise piece
  alone : Alone verb rest
  target : toAsciiUppercase verb = "ROLLBACK".toList → leadingWords rest 1 = ["TO".toList] →
    ∃ gap word after, rest = List.flatten gap ++ (word ++ after) ∧ Alone word after ∧
      ∀ piece ∈ gap, ServerNoise lexer piece ∧ ∀ c ∈ piece, c.isAlpha = false
  tail : ∀ front back, sql = front ++ ';' :: back → (∀ c ∈ back, isWhitespace c = true) →
    ∀ c ∈ back, ServerNoise lexer [c]

theorem isWhitespace_of_alpha {c : Char} (alpha : c.isAlpha = true) : isWhitespace c = false := by
  have range := isAlpha_range alpha
  rw [Bool.eq_false_iff]
  intro white
  simp only [isWhitespace, Bool.or_eq_true, Bool.and_eq_true, decide_eq_true_eq,
    beq_iff_eq] at white
  omega

theorem skipLeadingNoise_alone {verb rest : Text} (alone : Alone verb rest) :
    skipLeadingNoise (verb ++ rest) = verb ++ rest := by
  obtain ⟨c, cs, rfl⟩ := List.exists_cons_of_ne_nil alone.nonempty
  have alpha := alone.letters c (by simp)
  have visible := isWhitespace_of_alpha alpha
  have same : trimStart (c :: cs ++ rest) = c :: cs ++ rest :=
    List.dropWhile_cons_of_neg (by simp [visible])
  unfold skipLeadingNoise
  rw [skipLeadingNoiseLoop, same]
  split
  · next shape => exact absurd (List.cons.inj shape).1 (ne_of_alpha alpha (by decide))
  · next shape => exact absurd (List.cons.inj shape).1 (ne_of_alpha alpha (by decide))
  · rfl

theorem long_of_upper {word name : Text} (same : toAsciiUppercase word = name)
    (long : 2 ≤ name.length) : 2 ≤ word.length := by
  rwa [← same, toAsciiUppercase, List.length_map] at long

/-- A word that stands alone after noise is the next word of the server. -/
theorem afterWord_of_alone (dialect : Dialect) (s : (serverLexer dialect).State)
    (pieces : List Text) (noise : ∀ piece ∈ pieces, ServerNoise (serverLexer dialect) piece)
    {word rest : Text} (alone : Alone word rest) {words : List String}
    (listed : isWord (some (toAsciiUppercase word)) words = true) (long : 2 ≤ word.length) :
    ∃ s', afterWord words ((serverLexer dialect).tokensFrom s (pieces.flatten ++ (word ++ rest))) =
      some ((serverLexer dialect).tokensFrom s' rest) := by
  obtain ⟨tokens, s', read, noisy⟩ := tokensFrom_noise (serverLexer dialect) pieces noise s
    (word ++ rest)
  obtain ⟨c, d, cs, shape⟩ : ∃ c d cs, word = c :: d :: cs := by
    match word, long with
    | c :: d :: cs, _ => exact ⟨c, d, cs, rfl⟩
  have first := serverLexer_word dialect s' alone shape
  obtain ⟨s'', next⟩ := (serverLexer dialect).tokensFrom_piece shape (by rw [first])
  rw [first] at next
  refine ⟨s'', ?_⟩
  rw [read, afterWord, dropNoise_append noisy, next]
  have stays : dropNoise ({ kind := .ident, text := word } ::
      (serverLexer dialect).tokensFrom s'' rest) = { kind := .ident, text := word } ::
      (serverLexer dialect).tokensFrom s'' rest := List.dropWhile_cons_of_neg (by simp [Kind.isNoise])
  rw [stays]
  exact if_pos (by rw [isKeyword, listed]; rfl)

/-- Where the server reads the words that the guard reads, a text that passes through as a
savepoint is one savepoint command of the server. -/
theorem passthrough_is_savepoint (dialect : Dialect) (supportsCopy txOpen : Bool) (sql : Text)
    (params : Nat) (alike : Nonempty (Reading (serverLexer dialect) sql))
    (admitted : guardTxControl supportsCopy txOpen sql params = .ok .savepointPassthrough) :
    OneSavepoint ((serverLexer dialect).read sql) := by
  obtain ⟨-, -, cls, lone⟩ := guardTxControl_passthrough admitted
  obtain ⟨noise, verb, rest, split, skipped, alone, target, tail⟩ := alike
  refine oneSavepoint_of_lone (serverLexer dialect) lone tail ?_
  have words : leadingWords (skipLeadingNoise sql) 2 =
      toAsciiUppercase verb :: leadingWords rest 1 := by
    rw [split, skipLeadingNoise_pieces noise fun piece member => (skipped piece member).2,
      skipLeadingNoise_alone alone, leadingWords_word alone]
  have read : (serverLexer dialect).read sql = (serverLexer dialect).tokensFrom
      (serverLexer dialect).start (noise.flatten ++ (verb ++ rest)) := by rw [← split]; rfl
  rw [read, startsSavepoint, Bool.or_eq_true, Option.isSome_iff_exists, Option.isSome_iff_exists]
  have quiet := fun piece member => (skipped piece member).1
  rcases txControlClass_savepoint words cls with ⟨rollback, isTo⟩ | single
  · obtain ⟨s', found⟩ := afterWord_of_alone dialect (serverLexer dialect).start noise quiet alone
      (show isWord (some (toAsciiUppercase verb)) ["ROLLBACK"] = true by rw [rollback]; decide)
      (long_of_upper rollback (by decide))
    obtain ⟨gap, word, after, parts, alone', silent⟩ := target rollback (leadingWords_one isTo)
    have second : toAsciiUppercase word = "TO".toList := by
      rw [parts, leadingWords_gap _ _ (fun c member => by
        obtain ⟨piece, inside, at'⟩ := List.mem_flatten.mp member
        exact (silent piece inside).2 c at'), leadingWords_word alone'] at isTo
      exact Option.some.inj isTo
    obtain ⟨s'', found'⟩ := afterWord_of_alone dialect s' gap
      (fun piece member => (silent piece member).1) alone'
      (show isWord (some (toAsciiUppercase word)) ["TO"] = true by rw [second]; decide)
      (long_of_upper second (by decide))
    refine Or.inr ⟨(serverLexer dialect).tokensFrom s'' after, ?_⟩
    rw [found, Option.bind_some, parts]
    exact found'
  · have known : isWord (some (toAsciiUppercase verb)) ["SAVEPOINT", "RELEASE"] = true := by
      rw [isWord, Option.any_some, List.contains_iff_mem]
      exact single
    have all : ∀ name ∈ savepointSingle, 2 ≤ name.length := by decide
    obtain ⟨s', found⟩ := afterWord_of_alone dialect (serverLexer dialect).start noise quiet alone
      known (long_of_upper rfl (all _ single))
    exact Or.inl ⟨_, found⟩

/-- Comments before the verb and between its words, and a separator at the end. -/
def savepointSample : Text :=
  "/* x */ ROLLBACK /* 1 */ TO s;\n".toList

theorem serverNoise_space : ServerNoise postgres [' '] :=
  ⟨' ', [], rfl, fun _ _ => ⟨rfl, rfl⟩⟩

theorem letterless_of_all {piece : Text} (all : (piece.all fun c => !c.isAlpha) = true) :
    ∀ c ∈ piece, c.isAlpha = false := by
  intro c member
  simpa using List.all_eq_true.mp all c member

def savepointReading : Reading postgres savepointSample where
  noise := ["/* x */".toList, [' ']]
  verb := "ROLLBACK".toList
  rest := " /* 1 */ TO s;\n".toList
  split := by decide +kernel
  skipped := by
    intro piece member
    rcases List.mem_cons.mp member with rfl | later
    · refine ⟨⟨'/', "* x */".toList, rfl, fun _ _ => ⟨rfl, rfl⟩⟩, fun after => ?_⟩
      have ends : findPair '*' '/' (" x */".toList ++ after) = some 3 := rfl
      exact skipLeadingNoise_block ends rfl
    · rw [List.mem_singleton.mp later]
      exact ⟨serverNoise_space, skipLeadingNoise_space rfl⟩
  alone := ⟨by decide, List.all_eq_true.mp (by decide), fun d head => by cases head; decide⟩
  target := by
    intro _ _
    refine ⟨[[' '], "/* 1 */".toList, [' ']], "TO".toList, " s;\n".toList, by decide +kernel,
      ⟨by decide, List.all_eq_true.mp (by decide), fun d head => by cases head; decide⟩, ?_⟩
    intro piece member
    rcases List.mem_cons.mp member with rfl | later
    · exact ⟨serverNoise_space, letterless_of_all (by decide)⟩
    rcases List.mem_cons.mp later with rfl | last
    · exact ⟨⟨'/', "* 1 */".toList, rfl, fun _ _ => ⟨rfl, rfl⟩⟩, letterless_of_all (by decide)⟩
    · rw [List.mem_singleton.mp last]
      exact ⟨serverNoise_space, letterless_of_all (by decide)⟩
  tail := by
    intro front back shape _
    have cut : savepointSample = "/* x */ ROLLBACK /* 1 */ TO s".toList ++ ';' :: ['\n'] := by
      decide +kernel
    obtain ⟨-, -, rfl⟩ := (List.append_cons_inj_of_notMem (by decide) (by decide)).mp
      (cut.symm.trans shape)
    intro c member
    rw [List.mem_singleton.mp member]
    exact ⟨'\n', [], rfl, fun _ _ => ⟨rfl, rfl⟩⟩

theorem passthrough_is_savepoint_on_sample :
    guardTxControl true true savepointSample 0 = .ok .savepointPassthrough ∧
      OneSavepoint (postgres.read savepointSample) := by
  have admitted : guardTxControl true true savepointSample 0 = .ok .savepointPassthrough := by
    decide +kernel
  exact ⟨admitted,
    passthrough_is_savepoint .postgres true true savepointSample 0 ⟨savepointReading⟩ admitted⟩

/-- A `to` in a comment makes the guard take a plain `ROLLBACK` for a savepoint command. -/
theorem rollback_passes_through :
    guardTxControl true true "ROLLBACK -- to".toList 0 = .ok .savepointPassthrough ∧
      ¬OneSavepoint (postgres.read "ROLLBACK -- to".toList) := by
  refine ⟨by decide +kernel, ?_⟩
  rintro ⟨statement, one, command⟩
  have read : ((statements (postgres.read "ROLLBACK -- to".toList)).filter fun part =>
      !(dropNoise part).isEmpty) = [postgres.read "ROLLBACK -- to".toList] := by
    decide +kernel
  rw [read] at one
  rw [← (List.cons.inj one).1] at command
  exact absurd command (by decide +kernel)

end FerroEngine.TxControlGuardSoundness
