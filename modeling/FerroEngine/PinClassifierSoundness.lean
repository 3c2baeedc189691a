import FerroEngine.StatementReading

set_option autoImplicit false

/-! # Soundness of the pin classifier

The statements that pin a session, said of the tokens PostgreSQL reads, and the reason that the
classifier returns for them.
-/

namespace FerroEngine.PinClassifierSoundness

open SourceText RegionScanner PostgresLexicalRules RegionScannerAgreement PinClassifier
open LeadingNoise StatementReading

/-! ## The pieces of the text -/

theorem dropBytes_append (front text : Text) : dropBytes (byteLen front) (front ++ text) = text := by
  induction front with
  | nil =>
    cases text with
    | nil => rfl
    | cons c cs =>
      have positive := Char.utf8Size_pos c
      rw [List.nil_append, dropBytes, if_neg (by rw [byteLen_nil]; omega)]
  | cons c front ih =>
    rw [List.cons_append, dropBytes, byteLen_cons, if_pos (Nat.le_add_right _ _),
      Nat.add_sub_cancel_left]
    exact ih

theorem takeBytes_append (front text : Text) :
    takeBytes (byteLen front) (front ++ text) = front := by
  induction front with
  | nil =>
    cases text with
    | nil => rfl
    | cons c cs =>
      have positive := Char.utf8Size_pos c
      rw [List.nil_append, takeBytes, if_neg (by rw [byteLen_nil]; omega)]
  | cons c front ih =>
    rw [List.cons_append, takeBytes, byteLen_cons, if_pos (Nat.le_add_right _ _),
      Nat.add_sub_cancel_left, ih]

/-- The piece a statement's text is split into, if anything is left of it. -/
def piece (text : Text) : Option Text :=
  if trim text = [] then none else some (trim text)

theorem pushPiece_eq (out : List Text) (text : Text) :
    pushPiece out text = out ++ (piece text).toList := by
  unfold pushPiece piece
  split
  · simp
  · simp

theorem filterMap_piece (text : Text) (others : List Text) :
    (text :: others).filterMap piece = (piece text).toList ++ others.filterMap piece := by
  rw [List.filterMap_cons]
  cases piece text with
  | none => rfl
  | some text => rfl

/-- The loop from byte `start` on, with `open'` read of the statement that starts there. -/
theorem splitAt_statements (tokens : List Token) (front open' : Text) (out : List Text)
    (semicolons : ∀ token ∈ tokens, token.kind = .semicolon → token.text = [';'])
    {first : List Token} {others : List (List Token)}
    (parts : statements tokens = first :: others) :
    splitAt (front ++ (open' ++ textOf tokens)) (byteLen front)
        (separators (byteLen front + byteLen open') tokens) out =
      out ++ ((open' ++ textOf first) :: others.map textOf).filterMap piece := by
  induction tokens generalizing front open' out first others with
  | nil =>
    obtain ⟨rfl, rfl⟩ := List.cons.inj parts
    rw [separators, splitAt, dropBytes_append, pushPiece_eq, List.map_nil, filterMap_piece,
      List.filterMap_nil, List.append_nil]
  | cons token tokens ih =>
    have later := fun other member => semicolons other (List.mem_cons_of_mem token member)
    obtain ⟨head, tail, rest⟩ := List.exists_cons_of_ne_nil (statements_ne_nil tokens)
    rw [statements] at parts
    split_ifs at parts with semi
    · obtain ⟨rfl, rfl⟩ := List.cons.inj parts
      have text := semicolons token List.mem_cons_self semi
      have turn := ih (front ++ (open' ++ [';'])) [] (out ++ (piece open').toList) later rest
      have next : byteLen (front ++ (open' ++ [';'])) = byteLen front + byteLen open' + 1 := by
        rw [byteLen_append, byteLen_append]
        exact (Nat.add_assoc _ _ 1).symm
      rw [next, byteLen_nil, Nat.add_zero, List.nil_append, List.append_assoc,
        List.append_assoc] at turn
      rw [separators, if_pos semi, List.singleton_append, splitAt, dropBytes_append,
        Nat.add_sub_cancel_left, takeBytes_append, pushPiece_eq, textOf_cons, text,
        show byteLen [';'] = 1 from rfl, turn, rest, List.map_cons,
        show textOf ([] : List Token) = [] from rfl, List.append_nil, filterMap_piece open',
        List.nil_append, List.append_assoc]
    · rw [rest] at parts
      simp only [List.cons.injEq] at parts
      obtain ⟨rfl, rfl⟩ := parts
      have turn := ih front (open' ++ token.text) out later rest
      rw [byteLen_append, List.append_assoc, List.append_assoc] at turn
      rw [separators, if_neg semi, List.nil_append, textOf_cons, textOf_cons, Nat.add_assoc]
      exact turn

/-- A clean text is split into the statements PostgreSQL reads in it. -/
theorem splitTopLevelStatements_eq (sql : Text) (holds : clean (lex sql) = true) :
    splitTopLevelStatements sql = (statements (lex sql)).filterMap fun statement =>
      piece (textOf statement) := by
  obtain ⟨first, others, parts⟩ := List.exists_cons_of_ne_nil (statements_ne_nil (lex sql))
  have split := splitAt_statements (lex sql) [] [] []
    (fun token member => lexFrom_semicolon member) parts
  have whole : textOf (lex sql) = sql := lexFrom_text _ _ _ (Nat.le_refl _)
  rw [List.nil_append, List.nil_append, List.nil_append, List.nil_append, whole, byteLen_nil] at split
  rw [splitTopLevelStatements, (scan_of_clean sql holds).2, split, parts, ← List.map_cons,
    List.filterMap_map]
  rfl

/-! ## What pins a session -/

/-- The next significant token is a dot. -/
def dotted (tokens : List Token) : Bool :=
  (dropNoise tokens).head?.any fun token => token.text == ['.']

/-- A `SET` of a parameter that outlives the transaction; `local.x` names a parameter. -/
def setsSession (statement : List Token) : Bool :=
  match afterWord ["SET"] statement with
  | some rest =>
    match afterWord ["LOCAL", "TRANSACTION"] rest with
    | some more => dotted more
    | none => !(dropNoise rest).isEmpty
  | none => false

/-- `CREATE [OR REPLACE] [GLOBAL | LOCAL] {TEMP | TEMPORARY} ..`. -/
def createsTemp (statement : List Token) : Bool :=
  match afterWord ["CREATE"] statement with
  | some rest =>
    let unreplaced := ((afterWord ["OR"] rest).bind (afterWord ["REPLACE"])).getD rest
    let unscoped := (afterWord ["GLOBAL", "LOCAL"] unreplaced).getD unreplaced
    match afterWord ["TEMP", "TEMPORARY"] unscoped with
    | some more => !dotted more
    | none => false
  | none => false

def locksAdvisory (statement : List Token) : Bool :=
  advisorySessionFunctions.any (mentions statement)

/-- The statement is one that pins the session for the given reason. -/
def triggers (statement : List Token) (pinFunctions : List Text) : PinTrigger → Bool
  | .pinFunction => pinFunctions.any (mentions statement)
  | .listen => (afterWord ["LISTEN", "UNLISTEN"] statement).isSome
  | .prepare => (afterWord ["PREPARE", "EXECUTE", "DEALLOCATE"] statement).isSome
  | .set => setsSession statement
  | .temp => createsTemp statement
  | .advisoryLock => locksAdvisory statement
  | .unknown => false

/-- A `SET` whose next word starts with `LOCAL` or `TRANSACTION` is read as PostgreSQL reads it:
the word does not go on with a character that the classifier takes for its end, a dot after it
stands right after it, and a local `SET` takes no advisory lock. -/
def setClear (statement : List Token) : Bool :=
  match afterWord ["SET"] statement with
  | some rest =>
    match dropNoise rest with
    | token :: more =>
      !isWord (some (toAsciiUppercase (token.text.takeWhile Char.isAlpha)))
          ["LOCAL", "TRANSACTION"] ||
        match token.text.dropWhile Char.isAlpha with
        | [] => if dotted more then (textOf more).head? == some '.' else !locksAdvisory statement
        | c :: _ => c.isAlphanum || c == '_'
    | [] => true
  | none => true

/-- No token of the text is of a form that the classifier reads otherwise than PostgreSQL. -/
def readsAlike (sql : Text) : Bool :=
  clean (lex sql) && plainIdents (lex sql) && (statements (lex sql)).all setClear

theorem isWord_length {text : Text} {words : List String} (P : Nat → Prop)
    (all : ∀ word ∈ words, P word.toList.length)
    (listed : isWord (some (toAsciiUppercase text)) words = true) : P text.length := by
  simp only [isWord, Option.any_some, List.contains_iff_mem, List.mem_map] at listed
  obtain ⟨word, known, same⟩ := listed
  have size := congrArg List.length same
  rw [toAsciiUppercase, List.length_map] at size
  rw [← size]
  exact all word known

/-- An identifier character is no noise. -/
theorem strip_identCont {d : Char} (cont : isIdentCont d = true) (visible : isWhitespace d = false)
    (ds : Text) : stripLeadingNoise (d :: ds) = d :: ds := by
  refine stripLeadingNoise_noise [] (by simp) (d :: ds) ⟨⟨d, ds, rfl, visible⟩, ?_, ?_⟩
  · intro rest same
    rw [(List.cons.inj same).1] at cont
    exact absurd cont (by decide)
  · intro rest same
    rw [(List.cons.inj same).1] at cont
    exact absurd cont (by decide)

section Reading

variable {statement : List Token} (readable : Readable statement)

include readable

/-- A run of two letters at a token is the start of an identifier. -/
theorem letters_of_body {front after : List Token} {token : Token}
    (split : statement = front ++ token :: after) (kind : token.kind.isNoise = false)
    (long : 2 ≤ ((trimEnd (token.text ++ textOf after)).takeWhile Char.isAlpha).length) :
    token.kind = .ident ∧
      (trimEnd (token.text ++ textOf after)).takeWhile Char.isAlpha =
        token.text.takeWhile Char.isAlpha ∧
      (trimEnd (token.text ++ textOf after)).dropWhile Char.isAlpha =
        token.text.dropWhile Char.isAlpha ++ trimEnd (textOf after) := by
  have inside : token ∈ statement := by rw [split]; simp
  obtain ⟨c, cs, text, visible⟩ := readable.visible token inside
    (by intro space; rw [space] at kind; cases kind)
  have cut : trimEnd (token.text ++ textOf after) = c :: trimEnd (cs ++ textOf after) := by
    rw [text]
    exact trimEnd_cons visible [] _
  have alpha : c.isAlpha = true := by
    by_contra other
    rw [cut, List.takeWhile_cons_of_neg other] at long
    simp at long
  have ident : token.kind = .ident := by
    rcases readable.letter token inside c cs text alpha with ident | quote
    · exact ident
    · obtain ⟨ds, rfl⟩ := List.head?_eq_some_iff.mp quote
      rw [cut, List.cons_append,
        show trimEnd ('\'' :: (ds ++ textOf after)) = '\'' :: trimEnd (ds ++ textOf after) from
          trimEnd_cons (by decide) [] _, List.takeWhile_cons_of_pos alpha,
        List.takeWhile_cons_of_neg (by decide)] at long
      simp at long
  obtain ⟨nonempty, chars, next, -⟩ := readable.ident front token after split ident
  refine ⟨ident, ?_⟩
  rw [trimEnd_append nonempty fun c member => (chars c member).2]
  have letters : ∀ c ∈ token.text.takeWhile Char.isAlpha, c.isAlpha = true :=
    fun c member => List.mem_takeWhile_imp member
  have stop : ∀ d, (token.text.dropWhile Char.isAlpha ++ trimEnd (textOf after)).head? = some d →
      d.isAlpha = false := by
    intro d head
    cases rest : token.text.dropWhile Char.isAlpha with
    | nil =>
      rw [rest] at head
      exact (alpha_false_of_identCont (next d (trimEnd_head head))).1
    | cons e es =>
      have first := List.head?_dropWhile_not Char.isAlpha token.text
      rw [rest] at head first
      cases head
      exact first
  have parts := takeWhile_alpha _ letters stop
  rw [← List.append_assoc, List.takeWhile_append_dropWhile] at parts
  exact parts

/-- A `SET` that is followed by a word is the whole first token. -/
theorem set_of_leading {after : List Token} {token : Token}
    (found : dropNoise statement = token :: after)
    (leading : isWord (leadingKeyword (trim (textOf statement))) ["SET"] = true)
    (next : nextTokenAfterKeyword (trim (textOf statement)) ≠ none) :
    isKeyword token ["SET"] = true := by
  obtain ⟨noise, split, -, kind⟩ := dropNoise_split found
  rw [leadingKeyword, strip_trim readable found] at leading
  rw [nextTokenAfterKeyword, strip_trim readable found] at next
  split_ifs at leading next with empty
  · cases leading
  obtain ⟨ident, taken, dropped⟩ := letters_of_body readable split kind
    (isWord_length (2 ≤ ·) (by decide) leading)
  rw [taken] at leading
  cases rest : token.text.dropWhile Char.isAlpha with
  | nil =>
    have whole := List.takeWhile_append_dropWhile (p := Char.isAlpha) (l := token.text)
    rw [rest, List.append_nil] at whole
    rw [whole] at leading
    rw [isKeyword, ident, leading]
    rfl
  | cons d ds =>
    exfalso
    apply next
    obtain ⟨-, chars, -, -⟩ := readable.ident noise token after split ident
    have member : d ∈ token.text := by
      rw [← List.takeWhile_append_dropWhile (p := Char.isAlpha) (l := token.text), rest]
      simp
    have other := List.head?_dropWhile_not Char.isAlpha token.text
    rw [rest] at other
    have none' : (d :: (ds ++ trimEnd (textOf after))).takeWhile Char.isAlpha = [] :=
      List.takeWhile_cons_of_neg (by simpa using other)
    rw [dropped, rest, List.cons_append, strip_identCont (chars d member).1 (chars d member).2]
    exact if_pos none'

/-- What the classifier reads as `SET LOCAL` is local and takes no advisory lock. -/
theorem local_of_next {rest more : List Token} {token word : Token}
    (clear : setClear statement = true) (found : dropNoise statement = token :: rest)
    (keyword : isKeyword token ["SET"] = true) (follow : dropNoise rest = word :: more)
    (next : isWord (nextTokenAfterKeyword (trim (textOf statement)))
      ["LOCAL", "TRANSACTION"] = true) :
    isKeyword word ["LOCAL", "TRANSACTION"] = true ∧ dotted more = false ∧
      locksAdvisory statement = false := by
  obtain ⟨noise, split, -, -⟩ := dropNoise_split found
  obtain ⟨noise', split', -, kind⟩ := dropNoise_split follow
  have part : statement = (noise ++ [token]) ++ rest := by rw [split]; simp
  have deep : statement = (noise ++ [token] ++ noise') ++ word :: more := by
    rw [part, split']
    simp
  obtain ⟨cut, taken, dropped, nonempty⟩ := keyword_split readable split (by decide) keyword
  rw [nextTokenAfterKeyword, strip_trim readable found, cut, taken, dropped, if_neg nonempty,
    strip_trimEnd readable part follow] at next
  simp only at next
  split_ifs at next with empty
  · cases next
  have listed : isWord (some (toAsciiUppercase
      ((trimEnd (word.text ++ textOf more)).takeWhile Char.isAlpha)))
      ["LOCAL", "TRANSACTION"] = true := by
    split at next
    · split_ifs at next
      · cases next
      · exact next
    · exact next
  obtain ⟨ident, taken', dropped'⟩ := letters_of_body readable deep kind
    (isWord_length (2 ≤ ·) (by decide) listed)
  rw [taken'] at listed
  rw [dropped'] at next
  have known : afterWord ["SET"] statement = some rest := by
    rw [afterWord, found]
    exact if_pos keyword
  rw [setClear, known] at clear
  simp only [follow, listed] at clear
  cases rest' : word.text.dropWhile Char.isAlpha with
  | nil =>
    have whole := List.takeWhile_append_dropWhile (p := Char.isAlpha) (l := word.text)
    rw [rest', List.append_nil] at whole
    rw [whole] at listed
    rw [rest'] at clear next
    simp only [Bool.not_true, Bool.false_or] at clear
    have undotted : dotted more = false := by
      rw [Bool.eq_false_iff]
      intro dot
      rw [if_pos dot, beq_iff_eq] at clear
      obtain ⟨ds, text⟩ := List.head?_eq_some_iff.mp clear
      rw [text, List.nil_append, show trimEnd ('.' :: ds) = '.' :: trimEnd ds from
        trimEnd_cons (by decide) [] ds] at next
      simp [isWord] at next
    rw [undotted, if_neg Bool.false_ne_true, Bool.not_eq_true'] at clear
    refine ⟨?_, undotted, clear⟩
    rw [isKeyword, ident, listed]
    rfl
  | cons d ds =>
    exfalso
    rw [rest'] at clear next
    simp only [Bool.not_true, Bool.false_or, Bool.or_eq_true, beq_iff_eq] at clear
    rw [List.cons_append, List.head?_cons] at next
    simp only at next
    rw [if_pos (Or.inr clear)] at next
    cases next

/-- A dot right at a part of the statement is its next significant token. -/
theorem dot_of_head {front tokens : List Token} (part : statement = front ++ tokens)
    (head : (textOf tokens).head? = some '.') :
    ∃ token after, dropNoise tokens = token :: after ∧ token.text = ['.'] := by
  cases tokens with
  | nil => cases head
  | cons token after =>
    have inside : token ∈ statement := by rw [part]; simp
    have filled : token.text ≠ [] := by
      by_cases space : token.kind = .space
      · obtain ⟨c, text, -⟩ := readable.space token inside space
        simp [text]
      · obtain ⟨c, cs, text, -⟩ := readable.visible token inside space
        simp [text]
    obtain ⟨c, cs, text⟩ := List.exists_cons_of_ne_nil filled
    have first : token.text.head? = some '.' := by
      rw [textOf_cons, text] at head
      rw [text]
      exact head
    obtain ⟨dot, kind⟩ := readable.dot token inside first
    refine ⟨token, after, ?_, dot⟩
    exact List.dropWhile_cons_of_neg (by simp [kind])

theorem head_of_undotted {front tokens : List Token} (part : statement = front ++ tokens)
    (undotted : dotted tokens = false) : (textOf tokens).head? ≠ some '.' := by
  intro head
  obtain ⟨token, after, first, dot⟩ := dot_of_head readable part head
  simp [dotted, first, dot] at undotted

theorem head_of_afterWord {front tokens after : List Token} {words : List String}
    (part : statement = front ++ tokens) (letters : alphabetic words = true)
    (found : afterWord words tokens = some after) : (textOf tokens).head? ≠ some '.' := by
  intro head
  obtain ⟨token, rest, first, dot⟩ := dot_of_head readable part head
  obtain ⟨word, first', keyword⟩ := afterWord_some found
  rw [first] at first'
  obtain ⟨rfl, -⟩ := List.cons.inj first'
  have alpha := (isKeyword_alpha letters keyword).2 '.' (by rw [dot]; simp)
  exact absurd alpha (by decide)

omit readable in
/-- The text starts with one of the given words, and `after` follows it in the statement. -/
structure StartsWith (statement : List Token) (words : List String) (s : Text)
    (after : List Token) : Prop where
  letters : alphabetic words = true
  at' : ∃ front token, statement = front ++ token :: after ∧ isKeyword token words = true ∧
    stripLeadingNoise s = trimEnd (token.text ++ textOf after)

theorem StartsWith.start {words : List String} {after : List Token}
    (letters : alphabetic words = true) (found : afterWord words statement = some after) :
    StartsWith statement words (trim (textOf statement)) after := by
  obtain ⟨token, first, keyword⟩ := afterWord_some found
  obtain ⟨noise, split, -, -⟩ := dropNoise_split first
  exact ⟨letters, noise, token, split, keyword, strip_trim readable first⟩

omit readable in
theorem StartsWith.part {words : List String} {s : Text} {after : List Token}
    (starts : StartsWith statement words s after) : ∃ front, statement = front ++ after := by
  obtain ⟨front, token, split, -, -⟩ := starts.at'
  exact ⟨front ++ [token], by rw [split]; simp⟩

theorem StartsWith.leading {words : List String} {s : Text} {after : List Token}
    (starts : StartsWith statement words s after) : isWord (leadingKeyword s) words = true := by
  obtain ⟨front, token, split, keyword, stripped⟩ := starts.at'
  obtain ⟨cut, taken, -, nonempty⟩ := keyword_split readable split starts.letters keyword
  rw [leadingKeyword, stripped, cut, taken, if_neg nonempty]
  rw [isKeyword, Bool.and_eq_true] at keyword
  exact keyword.2

/-- One turn of the loop over the words after a keyword. -/
theorem StartsWith.step {words words' : List String} {s : Text} {rest more : List Token}
    (starts : StartsWith statement words s rest) (letters : alphabetic words' = true)
    (follow : afterWord words' rest = some more) (undotted : (textOf more).head? ≠ some '.') :
    StartsWith statement words' (trimEnd (textOf rest)) more ∧
      ∃ text, isWord (some text) words' = true ∧ ∀ n,
        tokensAfterLeadingKeyword s (n + 1) =
          text :: tokensAfterLeadingKeyword (trimEnd (textOf rest)) n := by
  obtain ⟨front, token, split, keyword, stripped⟩ := starts.at'
  obtain ⟨word, first, keyword'⟩ := afterWord_some follow
  obtain ⟨noise, split', -, -⟩ := dropNoise_split first
  have part : statement = (front ++ [token]) ++ rest := by rw [split]; simp
  have deep : statement = (front ++ [token] ++ noise) ++ word :: more := by
    rw [part, split']
    simp
  have stripped' := strip_trimEnd readable part first
  refine ⟨⟨letters, _, word, deep, keyword', stripped'⟩, toAsciiUppercase word.text, ?_, ?_⟩
  · rw [isKeyword, Bool.and_eq_true] at keyword'
    exact keyword'.2
  · intro n
    obtain ⟨cut, taken, dropped, nonempty⟩ := keyword_split readable split starts.letters keyword
    obtain ⟨cut', taken', dropped', nonempty'⟩ := keyword_split readable deep letters keyword'
    have next : nextTokenAfterKeyword s = some (toAsciiUppercase word.text) := by
      rw [nextTokenAfterKeyword, stripped, cut, taken, dropped, if_neg nonempty, stripped', cut']
      simp only [taken', dropped', if_neg nonempty']
      cases head : (trimEnd (textOf more)).head? with
      | none => rfl
      | some c =>
        have raw := trimEnd_head head
        obtain ⟨-, -, after, -⟩ := readable.ident _ word more deep
          (isKeyword_alpha letters keyword').1
        obtain ⟨-, outside⟩ := alpha_false_of_identCont (after c raw)
        rw [isIdentCharByte, Bool.or_eq_false_iff] at outside
        simp only
        rw [if_neg]
        rintro (rfl | alnum | rfl)
        · exact undotted raw
        · rw [alnum] at outside
          exact absurd outside.1 (by decide)
        · exact absurd outside.2 (by decide)
    rw [tokensAfterLeadingKeyword, next, skipLeadingKeyword, stripped, cut, dropped]

omit readable in
theorem StartsWith.after_word {words words' : List String} {s : Text} {rest more : List Token}
    (starts : StartsWith statement words s rest) (follow : afterWord words' rest = some more) :
    ∃ front, statement = front ++ more := by
  obtain ⟨front, token, split, -, -⟩ := starts.at'
  obtain ⟨word, first, -⟩ := afterWord_some follow
  obtain ⟨noise, split', -, -⟩ := dropNoise_split first
  exact ⟨front ++ [token] ++ noise ++ [word], by rw [split, split']; simp⟩

theorem StartsWith.step_word {words words' words'' : List String} {s : Text}
    {rest more after : List Token} (starts : StartsWith statement words s rest)
    (letters : alphabetic words' = true) (follow : afterWord words' rest = some more)
    (letters' : alphabetic words'' = true) (follow' : afterWord words'' more = some after) :
    StartsWith statement words' (trimEnd (textOf rest)) more ∧
      ∃ text, isWord (some text) words' = true ∧ ∀ n,
        tokensAfterLeadingKeyword s (n + 1) =
          text :: tokensAfterLeadingKeyword (trimEnd (textOf rest)) n := by
  obtain ⟨front, part⟩ := starts.after_word follow
  exact starts.step readable letters follow (head_of_afterWord readable part letters' follow')

/-- `[GLOBAL | LOCAL] {TEMP | TEMPORARY}` among the words after a keyword. -/
theorem scope_of_temp {words : List String} {s : Text} {rest more : List Token}
    (starts : StartsWith statement words s rest)
    (temp : afterWord ["TEMP", "TEMPORARY"]
      ((afterWord ["GLOBAL", "LOCAL"] rest).getD rest) = some more)
    (undotted : dotted more = false) (n : Nat) :
    ∃ text others, tokensAfterLeadingKeyword s (n + 2) = text :: others ∧
      isWord (some text) ["OR"] = false ∧
      (isWord (some text) ["GLOBAL", "LOCAL"] = true ∧
          isWord others[0]? ["TEMP", "TEMPORARY"] = true ∨
        isWord (some text) ["GLOBAL", "LOCAL"] = false ∧
          isWord (some text) ["TEMP", "TEMPORARY"] = true) := by
  cases scope : afterWord ["GLOBAL", "LOCAL"] rest with
  | none =>
    rw [scope, Option.getD_none] at temp
    obtain ⟨front, part⟩ := starts.after_word temp
    obtain ⟨-, text, listed, tokens⟩ := starts.step readable (by decide) temp
      (head_of_undotted readable part undotted)
    exact ⟨text, _, tokens (n + 1), isWord_apart (by decide) listed,
      Or.inr ⟨isWord_apart (by decide) listed, listed⟩⟩
  | some inner =>
    rw [scope, Option.getD_some] at temp
    obtain ⟨inside, text, listed, tokens⟩ :=
      starts.step_word readable (by decide) scope (by decide) temp
    obtain ⟨front, part⟩ := inside.after_word temp
    obtain ⟨-, text', listed', tokens'⟩ := inside.step readable (by decide) temp
      (head_of_undotted readable part undotted)
    refine ⟨text, _, tokens (n + 1), isWord_apart (by decide) listed, Or.inl ⟨listed, ?_⟩⟩
    rw [tokens' n]
    exact listed'

/-- The classifier sees a `CREATE` of a temporary object. -/
theorem createIsTemp_of_createsTemp (creates : createsTemp statement = true) :
    isWord (leadingKeyword (trim (textOf statement))) ["CREATE"] = true ∧
      createIsTemp (trim (textOf statement)) = true := by
  unfold createsTemp at creates
  cases create : afterWord ["CREATE"] statement with
  | none =>
    rw [create] at creates
    cases creates
  | some rest =>
    have starts := StartsWith.start readable (by decide) create
    refine ⟨starts.leading readable, ?_⟩
    rw [create] at creates
    simp only at creates
    cases temp : afterWord ["TEMP", "TEMPORARY"] ((afterWord ["GLOBAL", "LOCAL"]
        (((afterWord ["OR"] rest).bind (afterWord ["REPLACE"])).getD rest)).getD
          (((afterWord ["OR"] rest).bind (afterWord ["REPLACE"])).getD rest)) with
    | none =>
      rw [temp] at creates
      cases creates
    | some more =>
      rw [temp] at creates
      have undotted : dotted more = false := by simpa using creates
      cases replace : (afterWord ["OR"] rest).bind (afterWord ["REPLACE"]) with
      | none =>
        rw [replace, Option.getD_none] at temp
        obtain ⟨text, others, tokens, other, cases'⟩ :=
          scope_of_temp readable starts temp undotted 2
        unfold createIsTemp
        rw [tokens]
        rcases cases' with ⟨scope, listed⟩ | ⟨scope, listed⟩
        · simp [other, scope, listed]
        · simp [other, scope, listed]
      | some inner =>
        rw [replace, Option.getD_some] at temp
        obtain ⟨middle, or', replace'⟩ := Option.bind_eq_some_iff.mp replace
        obtain ⟨atOr, first, isOr, tokens⟩ :=
          starts.step_word readable (by decide) or' (by decide) replace'
        obtain ⟨front, part⟩ := atOr.after_word replace'
        have head : (textOf inner).head? ≠ some '.' := by
          cases scope : afterWord ["GLOBAL", "LOCAL"] inner with
          | none =>
            rw [scope, Option.getD_none] at temp
            exact head_of_afterWord readable part (by decide) temp
          | some body => exact head_of_afterWord readable part (by decide) scope
        obtain ⟨atReplace, second, isReplace, tokens'⟩ :=
          atOr.step readable (by decide) replace' head
        obtain ⟨text, others, tokens'', -, cases'⟩ :=
          scope_of_temp readable atReplace temp undotted 0
        unfold createIsTemp
        rw [tokens 3, tokens' 2, tokens'']
        rcases cases' with ⟨scope, listed⟩ | ⟨scope, listed⟩
        · simp [isOr, isReplace, scope, listed]
        · simp [isOr, isReplace, scope, listed]

end Reading

/-! ## The reason of a statement -/

theorem trim_of_significant {statement after : List Token} {token : Token}
    (readable : Readable statement) (found : dropNoise statement = token :: after) :
    trim (textOf statement) ≠ [] := by
  intro empty
  have stripped := strip_trim readable found
  obtain ⟨noise, split, -, kind⟩ := dropNoise_split found
  have significant := significant_trimEnd (readable.significant noise token after split kind)
  rw [empty] at stripped
  exact significant.ne_nil stripped.symm

/-- A statement that mentions a function holds a token that is no noise. -/
theorem significant_of_mentions {statement : List Token} {name : Text}
    (named : mentions statement name = true) :
    ∃ token ∈ statement, token.kind.isNoise = false ∧
      (token.kind = .ident → toAsciiLowercase token.text = toAsciiLowercase name) := by
  rw [mentions, Bool.and_eq_true, List.any_eq_true] at named
  obtain ⟨-, token, member, same⟩ := named
  refine ⟨token, member, ?_⟩
  rw [Bool.or_eq_true, Bool.and_eq_true, Bool.and_eq_true, beq_iff_eq, beq_iff_eq, beq_iff_eq]
    at same
  rcases same with ⟨kind, same⟩ | ⟨kind, -⟩
  · exact ⟨by rw [kind]; rfl, fun _ => same⟩
  · exact ⟨by rw [kind]; rfl, fun ident => by rw [kind] at ident; cases ident⟩

theorem dropNoise_of_mentions {statement : List Token} {name : Text}
    (named : mentions statement name = true) :
    ∃ token after, dropNoise statement = token :: after := by
  obtain ⟨token, member, kind, -⟩ := significant_of_mentions named
  apply List.exists_cons_of_ne_nil
  intro empty
  have noise := List.dropWhile_eq_nil_iff.mp empty token member
  rw [kind] at noise
  cases noise

/-- A keyword alone is no advisory lock. -/
theorem locksAdvisory_of_alone {statement rest : List Token} {token : Token}
    (found : dropNoise statement = token :: rest) (keyword : isKeyword token ["SET"] = true)
    (alone : dropNoise rest = []) : locksAdvisory statement = false := by
  rw [Bool.eq_false_iff]
  intro locks
  obtain ⟨name, known, named⟩ := List.any_eq_true.mp locks
  obtain ⟨noise, split, noisy, -⟩ := dropNoise_split found
  obtain ⟨other, member, kind, same⟩ := significant_of_mentions named
  rw [split, List.mem_append, List.mem_cons] at member
  rcases member with early | rfl | late
  · rw [noisy other early] at kind
    cases kind
  · rw [isKeyword, Bool.and_eq_true, beq_iff_eq] at keyword
    have short := isWord_length (· = 3) (by decide) keyword.2
    have size := congrArg List.length (same keyword.1)
    rw [toAsciiLowercase, toAsciiLowercase, List.length_map, List.length_map, short] at size
    have long : ∀ name ∈ advisorySessionFunctions, 4 ≤ name.length := by decide
    have bound := long name known
    omega
  · rw [List.dropWhile_eq_nil_iff.mp alone other late] at kind
    cases kind

/-- What the classifier reads as a local `SET` sets nothing that outlives the transaction. -/
theorem clear_of_local {statement : List Token} (readable : Readable statement)
    (clear : setClear statement = true)
    (leading : isWord (leadingKeyword (trim (textOf statement))) ["SET"] = true)
    (next : isWord (nextTokenAfterKeyword (trim (textOf statement)))
      ["LOCAL", "TRANSACTION"] = true) :
    setsSession statement = false ∧ locksAdvisory statement = false := by
  cases found : dropNoise statement with
  | nil =>
    constructor
    · rw [setsSession, afterWord, found]
    · rw [Bool.eq_false_iff]
      intro locks
      obtain ⟨name, -, named⟩ := List.any_eq_true.mp locks
      obtain ⟨token, after, first⟩ := dropNoise_of_mentions named
      rw [found] at first
      cases first
  | cons token rest =>
    have keyword := set_of_leading readable found leading fun none' => by
      rw [none'] at next
      cases next
    have known : afterWord ["SET"] statement = some rest := by
      rw [afterWord, found]
      exact if_pos keyword
    cases follow : dropNoise rest with
    | nil =>
      refine ⟨?_, locksAdvisory_of_alone found keyword follow⟩
      have free : afterWord ["LOCAL", "TRANSACTION"] rest = none := by rw [afterWord, follow]
      simp only [setsSession, known, free, follow]
      rfl
    | cons word more =>
      obtain ⟨local', undotted, free⟩ := local_of_next readable clear found keyword follow next
      refine ⟨?_, free⟩
      have known' : afterWord ["LOCAL", "TRANSACTION"] rest = some more := by
        rw [afterWord, follow]
        exact if_pos local'
      simp only [setsSession, known, known', undotted]

/-- What the classifier sees of a statement that pins the session. -/
structure Seen (stmt : Text) (pinFunctions : List Text) (trigger : PinTrigger) : Prop where
  pinFunction : trigger = .pinFunction → pinFunctions.any (containsIdentifierCi stmt) = true
  listen : trigger = .listen → isWord (leadingKeyword stmt) ["LISTEN", "UNLISTEN"] = true
  prepare : trigger = .prepare →
    isWord (leadingKeyword stmt) ["PREPARE", "EXECUTE", "DEALLOCATE"] = true
  set : trigger = .set → isWord (leadingKeyword stmt) ["SET"] = true
  temp : trigger = .temp → isWord (leadingKeyword stmt) ["CREATE"] = true ∧
    createIsTemp stmt = true
  advisoryLock : trigger = .advisoryLock →
    advisorySessionFunctions.any (containsIdentifierCi stmt) = true
  known : trigger ≠ .unknown
  session : isWord (leadingKeyword stmt) ["SET"] = true →
    isWord (nextTokenAfterKeyword stmt) ["LOCAL", "TRANSACTION"] = true →
    trigger ≠ .set ∧ trigger ≠ .advisoryLock

/-- The rules are in the order of their precedence. -/
theorem classifyOnePg_of_seen {stmt : Text} {pinFunctions : List Text} {trigger : PinTrigger}
    (seen : Seen stmt pinFunctions trigger) (pinOnUnknown : Bool) :
    ∃ reason, classifyOnePg stmt pinFunctions pinOnUnknown = some reason ∧
      trigger.precedence ≤ reason.precedence := by
  obtain ⟨pin, listen, prepare, set, temp, advisory, known, session⟩ := seen
  unfold classifyOnePg
  simp only
  by_cases isPin : pinFunctions.any (containsIdentifierCi stmt) = true
  · exact ⟨_, if_pos isPin, by cases trigger <;> decide⟩
  rw [if_neg isPin]
  by_cases isListen : isWord (leadingKeyword stmt) ["LISTEN", "UNLISTEN"] = true
  · refine ⟨_, if_pos isListen, ?_⟩
    cases trigger with
    | pinFunction => exact absurd (pin rfl) isPin
    | _ => decide
  rw [if_neg isListen]
  by_cases isPrepare :
      isWord (leadingKeyword stmt) ["PREPARE", "EXECUTE", "DEALLOCATE"] = true
  · refine ⟨_, if_pos isPrepare, ?_⟩
    cases trigger with
    | pinFunction => exact absurd (pin rfl) isPin
    | listen => exact absurd (listen rfl) isListen
    | _ => decide
  rw [if_neg isPrepare]
  by_cases isSet : isWord (leadingKeyword stmt) ["SET"] = true
  · have other : trigger ≠ .temp := fun same => by
      have both : isWord (leadingKeyword stmt) ["SET"] = false :=
        isWord_apart (by decide) (temp same).1
      rw [isSet] at both
      cases both
    rw [if_pos isSet]
    by_cases isLocal : isWord (nextTokenAfterKeyword stmt) ["LOCAL", "TRANSACTION"] = true
    · obtain ⟨notSet, notLock⟩ := session isSet isLocal
      exfalso
      cases trigger with
      | pinFunction => exact isPin (pin rfl)
      | listen => exact isListen (listen rfl)
      | prepare => exact isPrepare (prepare rfl)
      | set => exact notSet rfl
      | temp => exact other rfl
      | advisoryLock => exact notLock rfl
      | unknown => exact known rfl
    · refine ⟨_, if_neg isLocal, ?_⟩
      cases trigger with
      | pinFunction => exact absurd (pin rfl) isPin
      | listen => exact absurd (listen rfl) isListen
      | prepare => exact absurd (prepare rfl) isPrepare
      | _ => decide
  rw [if_neg isSet]
  by_cases isTemp : isWord (leadingKeyword stmt) ["CREATE"] = true ∧ createIsTemp stmt = true
  · refine ⟨_, if_pos isTemp, ?_⟩
    cases trigger with
    | pinFunction => exact absurd (pin rfl) isPin
    | listen => exact absurd (listen rfl) isListen
    | prepare => exact absurd (prepare rfl) isPrepare
    | set => exact absurd (set rfl) isSet
    | _ => decide
  rw [if_neg isTemp]
  -- Only an advisory lock is left.
  have lock : trigger = .advisoryLock := by
    cases trigger with
    | pinFunction => exact absurd (pin rfl) isPin
    | listen => exact absurd (listen rfl) isListen
    | prepare => exact absurd (prepare rfl) isPrepare
    | set => exact absurd (set rfl) isSet
    | temp => exact absurd (temp rfl) isTemp
    | advisoryLock => rfl
    | unknown => exact absurd rfl known
  subst lock
  split_ifs with into locks
  · exact ⟨_, rfl, by decide⟩
  · exact ⟨_, rfl, by decide⟩
  · exact absurd (advisory rfl) locks
  · exact absurd (advisory rfl) locks
  · exact absurd (advisory rfl) locks

theorem any_of_mentions {sql : Text} {statement : List Token}
    (member : statement ∈ statements (lex sql)) (holds : clean (lex sql) = true)
    (plain : plainIdents (lex sql) = true) {names : List Text}
    (named : names.any (mentions statement) = true) :
    names.any (containsIdentifierCi (trim (textOf statement))) = true := by
  obtain ⟨name, known, mention⟩ := List.any_eq_true.mp named
  exact List.any_eq_true.mpr ⟨name, known, contains_of_mentions member holds plain mention⟩

theorem seen_of_trigger {sql : Text} {statement : List Token}
    (member : statement ∈ statements (lex sql)) (alike : readsAlike sql = true)
    {pinFunctions : List Text} {trigger : PinTrigger}
    (pinned : triggers statement pinFunctions trigger = true) :
    Seen (trim (textOf statement)) pinFunctions trigger := by
  rw [readsAlike, Bool.and_eq_true, Bool.and_eq_true] at alike
  obtain ⟨⟨holds, plain⟩, clear⟩ := alike
  have readable := readable_of_clean member holds plain
  have leading : ∀ {words : List String}, alphabetic words = true →
      (afterWord words statement).isSome = true →
      isWord (leadingKeyword (trim (textOf statement))) words = true := by
    intro words letters found
    obtain ⟨after, follow⟩ := Option.isSome_iff_exists.mp found
    exact (StartsWith.start readable letters follow).leading readable
  refine ⟨?_, ?_, ?_, ?_, ?_, ?_, ?_, ?_⟩
  · rintro rfl
    exact any_of_mentions member holds plain pinned
  · rintro rfl
    exact leading (by decide) pinned
  · rintro rfl
    exact leading (by decide) pinned
  · rintro rfl
    refine leading (by decide) ?_
    change setsSession statement = true at pinned
    unfold setsSession at pinned
    cases found : afterWord ["SET"] statement with
    | none =>
      rw [found] at pinned
      cases pinned
    | some rest => rfl
  · rintro rfl
    exact createIsTemp_of_createsTemp readable pinned
  · rintro rfl
    exact any_of_mentions member holds plain pinned
  · rintro rfl
    cases pinned
  · intro isSet isLocal
    obtain ⟨notSession, notLock⟩ := clear_of_local readable
      (List.all_eq_true.mp clear statement member) isSet isLocal
    constructor
    · rintro rfl
      exact absurd pinned (by rw [triggers, notSession]; decide)
    · rintro rfl
      exact absurd pinned (by rw [triggers, notLock]; decide)

/-! ## The reason of a text -/

theorem maxByPrecedence_spec (reasons : List PinTrigger) (nonempty : reasons ≠ []) :
    ∃ best ∈ reasons, maxByPrecedence reasons = some best ∧
      ∀ other ∈ reasons, other.precedence ≤ best.precedence := by
  induction reasons with
  | nil => exact absurd rfl nonempty
  | cons reason reasons ih =>
    cases reasons with
    | nil => exact ⟨reason, by simp, rfl, by simp⟩
    | cons second others =>
      obtain ⟨best, member, highest, bound⟩ := ih (by simp)
      rw [maxByPrecedence, highest]
      by_cases higher : best.precedence < reason.precedence
      · refine ⟨reason, List.mem_cons_self, if_pos higher, ?_⟩
        intro other inside
        rcases List.mem_cons.mp inside with rfl | later
        · exact Nat.le_refl _
        · have limit := bound other later
          omega
      · refine ⟨best, List.mem_cons_of_mem _ member, if_neg higher, ?_⟩
        intro other inside
        rcases List.mem_cons.mp inside with rfl | later
        · omega
        · exact bound other later

theorem significant_of_trigger {statement : List Token} {pinFunctions : List Text}
    {trigger : PinTrigger} (pinned : triggers statement pinFunctions trigger = true) :
    ∃ token after, dropNoise statement = token :: after := by
  apply List.exists_cons_of_ne_nil
  intro empty
  have unled : ∀ words, afterWord words statement = none := by
    intro words
    rw [afterWord, empty]
  have unnamed : ∀ names : List Text, names.any (mentions statement) = false := by
    intro names
    rw [Bool.eq_false_iff]
    intro named
    obtain ⟨name, -, mention⟩ := List.any_eq_true.mp named
    obtain ⟨token, after, found⟩ := dropNoise_of_mentions mention
    rw [empty] at found
    cases found
  cases trigger with
  | pinFunction | advisoryLock => exact absurd ((unnamed _).symm.trans pinned) (by decide)
  | listen | prepare | set | temp =>
    simp [triggers, setsSession, createsTemp, unled] at pinned
  | unknown => cases pinned

/-- The reason the classifier gives for a statement of the text. -/
def reasonOf (pinFunctions : List Text) (pinOnUnknown : Bool) (statement : List Token) :
    Option PinTrigger :=
  classifyOnePg (trim (textOf statement)) pinFunctions pinOnUnknown

/-- A text with a statement that pins the session is given a reason at least as high as the
statement's, and it is the highest of the reasons given for the statements. -/
def Reports (sql : Text) (pinFunctions : List Text) (pinOnUnknown : Bool) : Prop :=
  ∀ statement ∈ statements (lex sql), ∀ trigger, triggers statement pinFunctions trigger = true →
    ∃ reason, classify sql pinFunctions pinOnUnknown = some reason ∧
      trigger.precedence ≤ reason.precedence ∧
      (∃ source ∈ statements (lex sql),
        reasonOf pinFunctions pinOnUnknown source = some reason) ∧
      ∀ other ∈ statements (lex sql), ∀ lower,
        reasonOf pinFunctions pinOnUnknown other = some lower →
          lower.precedence ≤ reason.precedence

theorem classify_of_clean (sql : Text) (holds : clean (lex sql) = true)
    (pinFunctions : List Text) (pinOnUnknown : Bool) :
    classify sql pinFunctions pinOnUnknown = maxByPrecedence ((statements (lex sql)).filterMap
      fun statement => (piece (textOf statement)).bind fun stmt =>
        classifyOnePg stmt pinFunctions pinOnUnknown) := by
  rw [classify, splitTopLevelStatements_eq sql holds, List.filterMap_filterMap]

theorem classifyOnePg_nil {pinFunctions : List Text} {pinOnUnknown : Bool} {reason : PinTrigger}
    (given : classifyOnePg [] pinFunctions pinOnUnknown = some reason) : reason = .unknown := by
  have unnamed : containsIdentifierCi [] = fun _ => false := by
    funext name
    unfold containsIdentifierCi
    split_ifs
    · rfl
    · rfl
  have unled : leadingKeyword [] = none := rfl
  unfold classifyOnePg at given
  rw [unled, unnamed] at given
  simp only [isWord, isSafeLeadingKeyword, Option.any_none, List.any_eq_true, Bool.false_eq_true,
    and_false, exists_const, false_and, if_false] at given
  split_ifs at given
  exact (Option.some.inj given).symm

/-- Noise, case and literals around the statements that pin the session. -/
def pinnedSample : Text :=
  "select 'listen'; /* /**/ ; */ -- ;
 lIsTeN c; set local x = 1".toList

/-- An escaped backslash before the closing quote hides the statement after it. -/
def hiddenListen : Text :=
  "SELECT E'\\\\'; LISTEN c".toList

end FerroEngine.PinClassifierSoundness
