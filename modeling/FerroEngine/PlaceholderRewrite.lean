import FerroEngine.PlaceholderScannerAgreement
import FerroEngine.ScanComposition

set_option autoImplicit false

/-! # The placeholder rewrite as a rewrite of tokens

What the rewrite is for: every lone `?` of the code becomes a parameter and every `??` the operator
`?`, and PostgreSQL reads nothing else otherwise than before.
-/

namespace FerroEngine.PlaceholderRewrite

open SourceText StepIteration PostgresLexicalRules PlaceholderScanner PlaceholderScannerAgreement
open RegionScannerAgreement (quotedLen_cons take_takeWhile head?_drop_takeWhile)

/-- An operator character on its own. -/
def mark (c : Char) : Token :=
  ⟨.other, [c]⟩

/-- A part of the statement as the rewrite sees it. -/
inductive Piece where
  | token (token : Token)
  /-- `??` -/
  | escaped
  /-- A `?` that stands for a parameter. -/
  | lone
  deriving DecidableEq, Repr

def pieces : List Token → List Piece
  | [] => []
  | [token] => [if token = mark '?' then .lone else .token token]
  | token :: next :: tokens =>
    if token = mark '?' then
      if next = mark '?' then .escaped :: pieces tokens
      else if next = mark '|' ∨ next = mark '&' then .token token :: pieces (next :: tokens)
      else .lone :: pieces (next :: tokens)
    else .token token :: pieces (next :: tokens)

/-- The parameter token `$n`. -/
def parameter (n : Nat) : Token :=
  ⟨.param, '$' :: Nat.toDigits 10 n⟩

/-- The tokens of the rewritten statement, the first parameter being `$n`. -/
def number : Nat → List Piece → List Token
  | _, [] => []
  | n, .token token :: rest => token :: number n rest
  | n, .escaped :: rest => mark '?' :: number n rest
  | n, .lone :: rest => parameter n :: number (n + 1) rest

/-- The lone placeholders of a statement. -/
def placeholders : List Piece → Nat
  | [] => 0
  | .lone :: rest => placeholders rest + 1
  | _ :: rest => placeholders rest

/-- The rewritten statement is the statement with its placeholders numbered, as PostgreSQL reads
both, and the counter has counted them. -/
def Preserves (sql : Text) : Prop :=
  lex (scan sql) = number 1 (pieces (lex sql)) ∧
    (scanEnd sql).nextParam = 1 + placeholders (pieces (lex sql))

/-! ## The text of the rewritten statement -/

/-- No token is of a form that the scanner reads otherwise than PostgreSQL does. -/
def allAlike : List Token → Bool
  | [] => true
  | token :: tokens => readAlike token (textOf tokens).head? && allAlike tokens

theorem headToken_mark (context : Context) {c : Char} (special : c = '?' ∨ c = '|' ∨ c = '&')
    (cs : Text) : firstToken context c cs = (.other, 1) := by
  have letter : isIdentStart c = false ∧ isSpace c = false ∧ c.isDigit = false := by
    rcases special with rfl | rfl | rfl
    · decide
    · decide
    · decide
  obtain ⟨start, space, digit⟩ := letter
  rcases special with rfl | rfl | rfl
  all_goals simp [firstToken, space, start, digit]

/-- The head of the text is such a character just when the first token is that character. -/
theorem head_mark {context : Context} {text : Text} {token : Token} {tokens : List Token}
    (lexes : Lexes context text (token :: tokens)) {c : Char}
    (special : c = '?' ∨ c = '|' ∨ c = '&') : text.head? = some c ↔ token = mark c := by
  cases lexes with
  | @cons _ d cs _ later =>
    constructor
    · rintro ⟨⟩
      rw [headToken, headToken_mark context special]
      rfl
    · intro same
      have shape : (d :: cs).take (firstToken context d cs).2 = [c] := congrArg Token.text same
      obtain ⟨n, len⟩ := Nat.exists_eq_succ_of_ne_zero (firstToken_pos context d cs).ne'
      rw [len, List.take_succ_cons] at shape
      rw [List.head?_cons, (List.cons.inj shape).1]

/-- The scanner has rewritten what was left of the statement. -/
structure Rewritten (s : ScanState) (rest : List Piece) (t : ScanState) : Prop where
  run : Reaches scanStep s t
  done : t.rest = []
  out : t.out = s.out ++ textOf (number s.nextParam rest)
  param : t.nextParam = s.nextParam + placeholders rest

theorem Rewritten.copied {token : Token} {s t u : ScanState} {rest : List Piece}
    (copied : Copied token.text.length s t) (head : s.rest.take token.text.length = token.text)
    (later : Rewritten t rest u) : Rewritten s (.token token :: rest) u where
  run := copied.run.trans later.run
  done := later.done
  out := by
    rw [later.out, copied.out, copied.param, head, number, textOf_cons, List.append_assoc]
  param := by
    rw [later.param, copied.param]
    rfl

theorem scanStep_question {s : ScanState} {cs : Text} (rest : s.rest = '?' :: cs) :
    scanStep s = scanQuestion { s with inIdent := continuesIdent s.inIdent '?' } cs := by
  rw [scanStep, rest]
  simp

theorem continuesIdent_question (flag : Bool) : continuesIdent flag '?' = false := by
  cases flag with
  | false => rfl
  | true => rfl

/-- The `?` of a jsonb operator is copied. -/
theorem operator_copied {s : ScanState} {cs : Text} (rest : s.rest = '?' :: cs)
    (double : cs.head? ≠ some '?') (operator : cs.head? = some '|' ∨ cs.head? = some '&') :
    ∃ t, Copied 1 s t ∧ Ready t := by
  have turn : scanStep s =
      ScanState.push { s with inIdent := continuesIdent s.inIdent '?' } (s.rest.take 1) := by
    rw [scanStep_question rest, scanQuestion, if_neg double, if_pos operator, rest]
    rfl
  obtain ⟨copied, flag⟩ := Copied.push turn
  rw [continuesIdent_question] at flag
  exact ⟨_, copied, .of_flag flag⟩

theorem Rewritten.escaped {s : ScanState} {cs : Text} {rest : List Piece}
    (left : s.rest = '?' :: '?' :: cs)
    (later : ∀ t : ScanState, t.rest = cs → t.nextParam = s.nextParam → Ready t →
      ∃ u, Rewritten t rest u) : ∃ u, Rewritten s (.escaped :: rest) u := by
  have turn := scanStep_question left
  rw [scanQuestion, List.head?_cons, if_pos rfl] at turn
  obtain ⟨u, done⟩ := later (scanStep s) (by rw [turn]; rfl) (by rw [turn])
    (.of_flag (by rw [turn]; exact continuesIdent_question _))
  refine ⟨u, Reaches.head done.run, done.done, ?_, ?_⟩
  · rw [done.out, turn, number, textOf_cons, List.append_assoc]
    rfl
  · rw [done.param, turn]
    rfl

theorem Rewritten.lone {s : ScanState} {cs : Text} {rest : List Piece} (left : s.rest = '?' :: cs)
    (double : cs.head? ≠ some '?') (operator : ¬(cs.head? = some '|' ∨ cs.head? = some '&'))
    (bound : s.nextParam + 1 < 2 ^ 32)
    (later : ∀ t : ScanState, t.rest = cs → t.nextParam = s.nextParam + 1 → Ready t →
      ∃ u, Rewritten t rest u) : ∃ u, Rewritten s (.lone :: rest) u := by
  have turn := scanStep_question left
  rw [scanQuestion, if_neg double, if_neg operator] at turn
  have param : (scanStep s).nextParam = s.nextParam + 1 := by
    rw [turn]
    exact Nat.mod_eq_of_lt bound
  obtain ⟨u, done⟩ := later (scanStep s) (by rw [turn]) param
    (.of_flag (by rw [turn]; exact continuesIdent_question _))
  refine ⟨u, Reaches.head done.run, done.done, ?_, ?_⟩
  · rw [done.out, param, number, textOf_cons, turn, List.append_assoc]
    rfl
  · rw [done.param, param, placeholders]
    omega

/-- A token other than a `?` is copied. -/
theorem headToken_copied {context : Context} {token : Token} {tokens : List Token}
    (lexes : Lexes context (textOf (token :: tokens)) (token :: tokens)) (other : token ≠ mark '?')
    (alike : readAlike token (textOf tokens).head? = true) {s : ScanState}
    (rest : s.rest = textOf (token :: tokens)) (ready : Ready s) :
    ∃ t, Copied token.text.length s t ∧ Ready t ∧ t.rest = textOf tokens := by
  obtain ⟨c, cs, text, first, after, -⟩ := lexes.next
  have question : c ≠ '?' := by
    rintro rfl
    exact other ((head_mark lexes (.inl rfl)).mp (by rw [text]; rfl))
  have shape : token.text = (c :: cs).take (firstToken context c cs).2 := by
    rw [first]
    rfl
  rw [after, first] at alike
  rw [text] at rest
  obtain ⟨t, copied, now⟩ := token_copied context ready rest question alike
  refine ⟨t, copied.congr ?_, now, by rw [copied.rest, rest, after]⟩
  rw [rest, shape]
  exact List.prefix_iff_eq_take.mp (List.take_prefix _ _)

theorem take_head {token : Token} {tokens : List Token} {s : ScanState}
    (rest : s.rest = textOf (token :: tokens)) : s.rest.take token.text.length = token.text := by
  rw [rest, textOf_cons, List.take_left]

theorem pieces_rewritten {tokens : List Token} (alike : allAlike tokens = true)
    {context : Context} (lexes : Lexes context (textOf tokens) tokens) {s : ScanState}
    (rest : s.rest = textOf tokens) (ready : Ready s)
    (bound : s.nextParam + placeholders (pieces tokens) < 2 ^ 32) :
    ∃ u, Rewritten s (pieces tokens) u := by
  induction tokens using pieces.induct generalizing context s with
  | case1 => exact ⟨s, Reaches.refl s, rest, by simp [number, pieces, textOf], rfl⟩
  | case2 token =>
    by_cases lone : token = mark '?'
    · subst lone
      rw [pieces, if_pos rfl] at bound ⊢
      refine Rewritten.lone rest (by simp) (by simp) bound ?_
      intro t left _ _
      exact ⟨t, Reaches.refl t, left, by simp [number, textOf], rfl⟩
    · rw [allAlike, Bool.and_eq_true] at alike
      obtain ⟨t, copied, -, left⟩ := headToken_copied lexes lone alike.1 rest ready
      rw [pieces, if_neg lone]
      exact ⟨t, .copied copied (take_head rest)
        ⟨Reaches.refl t, left, by simp [number, textOf], rfl⟩⟩
  | case3 tokens ih =>
    rw [allAlike, Bool.and_eq_true, allAlike, Bool.and_eq_true] at alike
    rw [pieces, if_pos rfl, if_pos rfl] at bound ⊢
    obtain ⟨-, -, -, -, -, later⟩ := lexes.next
    obtain ⟨-, -, -, -, -, later⟩ := later.next
    refine Rewritten.escaped rest ?_
    intro t left param now
    exact ih alike.2.2 later left now (by rw [param]; exact bound)
  | case4 next tokens double operator ih =>
    rw [allAlike, Bool.and_eq_true] at alike
    rw [pieces, if_pos rfl, if_neg double, if_pos operator] at bound ⊢
    obtain ⟨-, -, -, -, -, later⟩ := lexes.next
    obtain ⟨t, copied, now⟩ := operator_copied rest
      (fun head => double ((head_mark later (.inl rfl)).mp head))
      (operator.imp (head_mark later (.inr (.inl rfl))).mpr (head_mark later (.inr (.inr rfl))).mpr)
    obtain ⟨u, done⟩ := ih alike.2 later (by rw [copied.rest, rest]; rfl) now
      (by rw [copied.param]; exact bound)
    exact ⟨u, .copied copied (take_head rest) done⟩
  | case5 next tokens double operator ih =>
    rw [allAlike, Bool.and_eq_true] at alike
    rw [pieces, if_pos rfl, if_neg double, if_neg operator] at bound ⊢
    obtain ⟨-, -, -, -, -, later⟩ := lexes.next
    rw [placeholders] at bound
    refine Rewritten.lone rest (fun head => double ((head_mark later (.inl rfl)).mp head)) ?_
      (by omega) ?_
    · exact fun head => operator (head.imp (head_mark later (.inr (.inl rfl))).mp
        (head_mark later (.inr (.inr rfl))).mp)
    · intro t left param now
      exact ih alike.2 later left now (by omega)
  | case6 token next tokens other ih =>
    rw [allAlike, Bool.and_eq_true] at alike
    rw [pieces, if_neg other] at bound ⊢
    obtain ⟨-, -, -, -, -, later⟩ := lexes.next
    obtain ⟨t, copied, now, left⟩ := headToken_copied lexes other alike.1 rest ready
    obtain ⟨u, done⟩ := ih alike.2 later left now (by rw [copied.param]; exact bound)
    exact ⟨u, .copied copied (take_head rest) done⟩

theorem push_shorter (s : ScanState) {part : Text} (some : s.rest ≠ []) (nonempty : part ≠ []) :
    (s.push part).rest.length < s.rest.length := by
  have rest := List.length_pos_iff.mpr some
  have taken := List.length_pos_iff.mpr nonempty
  rw [ScanState.push, List.length_drop]
  omega

theorem scanDollar_shorter {left out cs : Text} {param n : Nat} {flag : Bool}
    (shorter : ∀ (flag : Bool) (part : Text), part ≠ [] →
      (ScanState.push ⟨left, out, param, flag⟩ part).rest.length < n) :
    (scanDollar ⟨left, out, param, flag⟩ cs).rest.length < n := by
  rw [scanDollar]
  split
  · rename_i tagEnd found
    simp only
    split
    · refine shorter _ _ ?_
      rw [dollarQuoteTagEnd] at found
      split_ifs at found
      split at found
      · cases found
        simp
      · cases found
    · exact shorter _ _ (by simp)
  · exact shorter _ _ (by simp)

theorem scanQuestion_shorter {left out : Text} {param : Nat} {c : Char} {cs : Text} {flag : Bool}
    (shorter : ∀ (flag : Bool) (part : Text), part ≠ [] →
      (ScanState.push ⟨left, out, param, flag⟩ part).rest.length < (c :: cs).length) :
    (scanQuestion ⟨left, out, param, flag⟩ cs).rest.length < (c :: cs).length := by
  rw [scanQuestion]
  split_ifs
  · simp only [List.length_tail, List.length_cons]
    omega
  · exact shorter _ _ (by simp)
  · simp

theorem scanStep_progress (s : ScanState) :
    scanStep s = s ∨ (scanStep s).rest.length < s.rest.length := by
  obtain ⟨rest, out, nextParam, inIdent⟩ := s
  cases rest with
  | nil => exact .inl rfl
  | cons c cs =>
    right
    have shorter (flag : Bool) (part : Text) (nonempty : part ≠ []) :
        (ScanState.push ⟨c :: cs, out, nextParam, flag⟩ part).rest.length < (c :: cs).length :=
      push_shorter _ (by simp) nonempty
    unfold scanStep
    simp only
    split_ifs
    · exact shorter inIdent [c] (by simp)
    · exact shorter _ ('\'' :: _) (by simp)
    · exact shorter _ ('"' :: _) (by simp)
    · exact shorter _ ('-' :: _) (by simp)
    · exact shorter _ ('/' :: _) (by simp)
    · exact scanDollar_shorter shorter
    · exact scanQuestion_shorter shorter
    · exact shorter _ [c] (by simp)

theorem scanEnd_rewritten {sql : Text} {rest : List Piece} {u : ScanState}
    (done : Rewritten (ScanState.start sql) rest u) : scanEnd sql = u := by
  refine done.run.eq_iterate ?_ _ ?_
  · rw [scanStep, done.done]
  · exact iterate_fixed (fun _ => True) (fun _ _ => trivial) (fun s => s.rest.length)
      (fun s _ => scanStep_progress s) _ _ trivial (Nat.le_refl _)

theorem lex_reads (sql : Text) : Lexes .plain (textOf (lex sql)) (lex sql) := by
  have lexes := lexes_lexFrom sql.length .plain sql (Nat.le_refl _)
  rw [← lex] at lexes
  rw [lexes.text]
  exact lexes

theorem scan_eq_textOf {sql : Text} (alike : allAlike (lex sql) = true)
    (bound : 1 + placeholders (pieces (lex sql)) < 2 ^ 32) :
    scan sql = textOf (number 1 (pieces (lex sql))) ∧
      (scanEnd sql).nextParam = 1 + placeholders (pieces (lex sql)) := by
  have start : (ScanState.start sql).rest = textOf (lex sql) :=
    (lexFrom_text _ _ _ (Nat.le_refl _)).symm
  obtain ⟨u, done⟩ := pieces_rewritten alike (lex_reads sql) start (.of_flag rfl) bound
  rw [scan, scanEnd_rewritten done]
  exact ⟨done.out, done.param⟩

/-! ## A token in front of another text -/

/-- The text after a token is as it was, or starts with the parameter that stands for its `?`. -/
structure Keeps (after after' : Text) : Prop where
  more : after ≠ []
  head : after'.head? = after.head? ∨ (after.head? = some '?' ∧ after'.head? = some '$')

theorem Keeps.other {after after' : Text} (keeps : Keeps after after') {c : Char}
    (other : after.head? ≠ some c) (dollar : c ≠ '$') : after'.head? ≠ some c := by
  rcases keeps.head with same | ⟨-, head⟩
  · rw [same]
    exact other
  · rw [head]
    exact fun same => dollar (Option.some.inj same).symm

theorem lineLen_replace (cs after : Text) (keeps : Keeps (cs.drop (lineLen cs)) after) :
    lineLen (cs.take (lineLen cs) ++ after) = lineLen cs := by
  induction cs with
  | nil => exact absurd rfl keeps.more
  | cons c cs ih =>
    by_cases newline : c = '\n'
    · have len : lineLen (c :: cs) = 1 := by rw [lineLen, if_pos newline]
      rw [len, List.take_succ_cons, List.take_zero, List.singleton_append, lineLen, if_pos newline]
    · by_cases cr : c = '\r'
      · by_cases pair : cs.head? = some '\n'
        · have len : lineLen (c :: cs) = 2 := by
            rw [lineLen, if_neg newline, if_pos cr, if_pos pair]
          obtain ⟨ds, rfl⟩ := List.head?_eq_some_iff.mp pair
          rw [len, List.take_succ_cons, List.take_succ_cons, List.take_zero, List.cons_append,
            lineLen, if_neg newline, if_pos cr]
          rfl
        · have len : lineLen (c :: cs) = 1 := by
            rw [lineLen, if_neg newline, if_pos cr, if_neg pair]
          rw [len] at keeps
          rw [len, List.take_succ_cons, List.take_zero, List.singleton_append, lineLen,
            if_neg newline, if_pos cr, if_neg (keeps.other pair (by decide))]
      · have len : lineLen (c :: cs) = 1 + lineLen cs := by
          rw [lineLen, if_neg newline, if_neg cr]
        rw [len, Nat.add_comm, List.drop_succ_cons] at keeps
        rw [len, Nat.add_comm, List.take_succ_cons, List.cons_append, lineLen, if_neg newline,
          if_neg cr, ih keeps, Nat.add_comm]

theorem blockLen_pos (depth : Nat) (c : Char) (cs : Text) : 0 < blockLen depth (c :: cs) := by
  unfold blockLen
  split
  · simp at *
  · omega
  · split_ifs
    · omega
    · omega
  · omega

theorem head?_take_append {cs after : Text} {n : Nat} (some : cs ≠ []) (positive : 0 < n) :
    (cs.take n ++ after).head? = cs.head? := by
  obtain ⟨n, rfl⟩ := Nat.exists_eq_add_one.mpr positive
  obtain ⟨c, cs, rfl⟩ := List.exists_cons_of_ne_nil some
  rfl

theorem blockLen_replace (depth : Nat) (cs after : Text) (more : cs.drop (blockLen depth cs) ≠ []) :
    blockLen depth (cs.take (blockLen depth cs) ++ after) = blockLen depth cs := by
  induction depth, cs using blockLen.induct with
  | case1 depth => exact absurd rfl more
  | case2 depth cs ih =>
    rw [blockLen, Nat.add_comm 2, List.drop_succ_cons, List.drop_succ_cons] at more
    rw [blockLen, take_pair, List.cons_append, List.cons_append, blockLen, ih more]
  | case3 depth cs shallow =>
    have len : blockLen depth ('*' :: '/' :: cs) = 2 := by rw [blockLen, if_pos shallow]
    rw [len, List.take_succ_cons, List.take_succ_cons, List.take_zero, List.cons_append,
      List.cons_append, blockLen, if_pos shallow]
  | case4 depth cs deep ih =>
    rw [blockLen, if_neg deep, Nat.add_comm 2, List.drop_succ_cons, List.drop_succ_cons] at more
    rw [blockLen, if_neg deep, take_pair, List.cons_append, List.cons_append, blockLen,
      if_neg deep, ih more]
  | case5 depth c cs noOpen noClose ih =>
    rw [blockLen.eq_4 depth c cs noOpen noClose, Nat.add_comm, List.drop_succ_cons] at more
    have some : cs ≠ [] := by
      rintro rfl
      exact more (by simp)
    have head : (cs.take (blockLen depth cs) ++ after).head? = cs.head? := by
      refine head?_take_append some ?_
      obtain ⟨d, ds, rfl⟩ := List.exists_cons_of_ne_nil some
      exact blockLen_pos depth d ds
    have same : ∀ d rest, cs.take (blockLen depth cs) ++ after = d :: rest →
        ∃ ds, cs = d :: ds := by
      intro d rest shape
      rw [shape, List.head?_cons] at head
      exact List.head?_eq_some_iff.mp head.symm
    rw [blockLen.eq_4 depth c cs noOpen noClose, Nat.add_comm, List.take_succ_cons,
      List.cons_append, blockLen.eq_4 depth c, ih more, Nat.add_comm]
    · intro rest open_ shape
      obtain ⟨ds, same⟩ := same _ _ shape
      exact noOpen ds open_ same
    · intro rest close shape
      obtain ⟨ds, same⟩ := same _ _ shape
      exact noClose ds close same

theorem quotedLen_replace (q : Char) (cs after : Text) (dollar : q ≠ '$')
    (keeps : Keeps (cs.drop (quotedLen q cs)) after) :
    quotedLen q (cs.take (quotedLen q cs) ++ after) = quotedLen q cs := by
  induction cs using quotedLen.induct q with
  | case1 => exact absurd rfl keeps.more
  | case2 c => exact absurd rfl keeps.more
  | case3 cs ih =>
    have len : quotedLen q (q :: q :: cs) = 2 + quotedLen q cs := by
      rw [quotedLen, if_pos rfl, if_pos rfl]
    rw [len, Nat.add_comm, List.drop_succ_cons, List.drop_succ_cons] at keeps
    rw [len, take_pair, List.cons_append, List.cons_append, quotedLen, if_pos rfl, if_pos rfl,
      ih keeps]
  | case4 d cs other =>
    have len : quotedLen q (q :: d :: cs) = 1 := by
      rw [quotedLen, if_pos rfl, if_neg other]
    rw [len] at keeps ⊢
    rw [List.take_succ_cons, List.take_zero, List.singleton_append]
    have next := keeps.other (c := q) (by simpa using other) dollar
    cases after with
    | nil => rfl
    | cons e after =>
      rw [quotedLen, if_pos rfl, if_neg (by simpa using next)]
  | case5 c d cs other ih =>
    have len : quotedLen q (c :: d :: cs) = 1 + quotedLen q (d :: cs) := by
      rw [quotedLen, if_neg other]
    rw [len, Nat.add_comm, List.drop_succ_cons] at keeps
    rw [len, Nat.add_comm, List.take_succ_cons, List.cons_append, quotedLen_cons _ other, ih keeps,
      Nat.add_comm]

theorem escapedLen_cons {c : Char} (cs : Text) (backslash : c ≠ '\\') (quote : c ≠ '\'') :
    escapedLen (c :: cs) = 1 + escapedLen cs := by
  cases cs with
  | nil => rfl
  | cons d cs => rw [escapedLen, if_neg backslash, if_neg quote]

theorem escapedLen_replace (cs after : Text) (keeps : Keeps (cs.drop (escapedLen cs)) after) :
    escapedLen (cs.take (escapedLen cs) ++ after) = escapedLen cs := by
  induction cs using escapedLen.induct with
  | case1 => exact absurd rfl keeps.more
  | case2 c => exact absurd rfl keeps.more
  | case3 d cs ih =>
    have len : escapedLen ('\\' :: d :: cs) = 2 + escapedLen cs := by rw [escapedLen, if_pos rfl]
    rw [len, Nat.add_comm, List.drop_succ_cons, List.drop_succ_cons] at keeps
    rw [len, take_pair, List.cons_append, List.cons_append, escapedLen, if_pos rfl, ih keeps]
  | case4 cs backslash ih =>
    have len : escapedLen ('\'' :: '\'' :: cs) = 2 + escapedLen cs := by
      rw [escapedLen, if_neg backslash, if_pos rfl, if_pos rfl]
    rw [len, Nat.add_comm, List.drop_succ_cons, List.drop_succ_cons] at keeps
    rw [len, take_pair, List.cons_append, List.cons_append, escapedLen, if_neg backslash,
      if_pos rfl, if_pos rfl, ih keeps]
  | case5 d cs single backslash =>
    have len : escapedLen ('\'' :: d :: cs) = 1 := by
      rw [escapedLen, if_neg backslash, if_pos rfl, if_neg single]
    rw [len] at keeps ⊢
    rw [List.take_succ_cons, List.take_zero, List.singleton_append]
    have next := keeps.other (c := '\'') (by simpa using single) (by decide)
    cases after with
    | nil => rfl
    | cons e after =>
      rw [escapedLen, if_neg backslash, if_pos rfl, if_neg (by simpa using next)]
  | case6 c d cs backslash quote ih =>
    have len : escapedLen (c :: d :: cs) = 1 + escapedLen (d :: cs) := by
      rw [escapedLen, if_neg backslash, if_neg quote]
    rw [len, Nat.add_comm, List.drop_succ_cons] at keeps
    rw [len, Nat.add_comm, List.take_succ_cons, List.cons_append,
      escapedLen_cons _ backslash quote, ih keeps, Nat.add_comm]

/-- A dollar-quoted text that ends before the text does holds its closing delimiter. -/
theorem dollarLen_closed {delimiter text : Text} (more : text.drop (dollarLen delimiter text) ≠ []) :
    delimiter.length ≤ dollarLen delimiter text := by
  rw [dollarLen_eq] at more ⊢
  cases found : findSubslice delimiter text with
  | none =>
    rw [found] at more
    exact absurd (List.drop_length) more
  | some place => simp

theorem dollarLen_replace (delimiter text after : Text)
    (more : text.drop (dollarLen delimiter text) ≠ []) (nonempty : delimiter ≠ []) :
    dollarLen delimiter (text.take (dollarLen delimiter text) ++ after) =
      dollarLen delimiter text := by
  induction text with
  | nil => exact absurd rfl more
  | cons c text ih =>
    by_cases here : delimiter.isPrefixOf (c :: text) = true
    · have len : dollarLen delimiter (c :: text) = delimiter.length := by
        rw [dollarLen, if_pos here]
      have cut : (c :: text).take delimiter.length = delimiter :=
        (List.prefix_iff_eq_take.mp (List.isPrefixOf_iff_prefix.mp here)).symm
      rw [len, cut]
      obtain ⟨d, delimiter, rfl⟩ := List.exists_cons_of_ne_nil nonempty
      rw [List.cons_append, dollarLen, ← List.cons_append, if_pos]
      exact List.isPrefixOf_iff_prefix.mpr (List.prefix_append _ _)
    · have len : dollarLen delimiter (c :: text) = 1 + dollarLen delimiter text := by
        rw [dollarLen, if_neg here]
      rw [len, Nat.add_comm, List.drop_succ_cons] at more
      rw [len, Nat.add_comm, List.take_succ_cons, List.cons_append, dollarLen, if_neg, ih more,
        Nat.add_comm]
      intro found
      apply here
      rw [List.isPrefixOf_iff_prefix] at found ⊢
      have room := dollarLen_closed more
      have within : dollarLen delimiter text < text.length := by
        by_contra beyond
        exact more (List.drop_eq_nil_of_le (by omega))
      rw [List.prefix_iff_eq_take] at found ⊢
      rw [← List.cons_append, ← List.take_succ_cons, List.take_append_of_le_length, List.take_take,
        Nat.min_eq_left (by omega)] at found
      · exact found
      · rw [List.length_take, List.length_cons]
        omega

theorem takeWhile_replace (word : Char → Bool) (cs after : Text)
    (stops : ∀ d, after.head? = some d → word d = false) :
    (cs.takeWhile word ++ after).takeWhile word = cs.takeWhile word := by
  rw [List.takeWhile_append_of_pos fun _ member => List.mem_takeWhile_imp member]
  cases after with
  | nil => simp
  | cons d after => rw [List.takeWhile_cons_of_neg (by simp [stops d rfl]), List.append_nil]

/-! ## The rules of the lexer, read forwards -/

theorem firstToken_space (context : Context) {c : Char} (space : isSpace c = true) (cs : Text) :
    firstToken context c cs = (.space, 1) := by
  rw [firstToken, if_pos space]

theorem digit_of_space {c : Char} (space : isSpace c = true) : c.isDigit = false := by
  have cases : c = ' ' ∨ c = '\t' ∨ c = '\n' ∨ c = '\r' ∨ c = '\x0b' ∨ c = '\x0c' := by
    simpa [isSpace, or_assoc] using space
  rcases cases with rfl | rfl | rfl | rfl | rfl | rfl
  all_goals decide

theorem not_space {p : Char → Bool} {c : Char} (other : ∀ d, p d = false → c ≠ d)
    (outside : ∀ d, isSpace d = true → p d = false) : ¬isSpace c = true :=
  fun space => other c (outside c space) rfl

theorem firstToken_ident (context : Context) {c : Char} {cs : Text} (start : isIdentStart c = true)
    (letter : ¬((c = 'E' ∨ c = 'e') ∧ cs.head? = some '\'')) :
    firstToken context c cs = (.ident, 1 + (cs.takeWhile isIdentCont).length) := by
  have other : ∀ d, isIdentStart d = false → c ≠ d := by
    rintro d outside rfl
    rw [outside] at start
    cases start
  have space := not_space other fun d white => (inert_of_space white cs).2
  rw [firstToken, if_neg space, if_neg fun both => other _ (by decide) both.1,
    if_neg fun both => other _ (by decide) both.1, if_neg (other _ (by decide)),
    if_neg (other _ (by decide)), if_neg letter, if_pos start]

theorem firstToken_number (context : Context) {c : Char} (cs : Text)
    (start : isIdentStart c = false) (digit : c.isDigit = true) :
    firstToken context c cs = (.number, 1 + (cs.takeWhile isNumberCont).length) := by
  have other : ∀ d, Char.isDigit d = false → c ≠ d := by
    rintro d outside rfl
    rw [outside] at digit
    cases digit
  have space := not_space other fun d white => digit_of_space white
  have letter : ¬((c = 'E' ∨ c = 'e') ∧ cs.head? = some '\'') := by
    rintro ⟨same | same, -⟩
    · exact other _ (by decide) same
    · exact other _ (by decide) same
  rw [firstToken, if_neg space, if_neg fun both => other _ (by decide) both.1,
    if_neg fun both => other _ (by decide) both.1, if_neg (other _ (by decide)),
    if_neg (other _ (by decide)), if_neg letter, if_neg (by simp [start]), if_pos digit]

theorem firstToken_single (context : Context) {c : Char} {cs : Text} (space : isSpace c = false)
    (single : Single c cs) : firstToken context c cs = (.other, 1) := by
  have letter : ¬((c = 'E' ∨ c = 'e') ∧ cs.head? = some '\'') := by
    rintro ⟨rfl | rfl, -⟩
    · exact absurd single.start (by decide)
    · exact absurd single.start (by decide)
  rw [firstToken, if_neg (by simp [space]), if_neg single.line, if_neg single.block,
    if_neg single.quote, if_neg single.double, if_neg letter, if_neg (by simp [single.start]),
    if_neg (by simp [single.digit]), if_neg single.dollar, if_neg single.semicolon]

theorem firstToken_dollar (context : Context) (cs : Text) :
    firstToken context '$' cs =
      if (cs.head?.map Char.isDigit).getD false then (.param, 1 + (cs.takeWhile isTagCont).length)
      else match dollarDelimiter ('$' :: cs) with
        | some delimiter =>
          (.dollarString,
            delimiter.length + dollarLen delimiter (('$' :: cs).drop delimiter.length))
        | none => (.other, 1) := by
  rw [firstToken, if_neg (by decide), if_neg (by simp), if_neg (by simp), if_neg (by decide),
    if_neg (by decide), if_neg (by simp), if_neg (by decide), if_neg (by decide), if_pos rfl]
  all_goals rfl

theorem firstToken_line (context : Context) (cs : Text) :
    firstToken context '-' ('-' :: cs) = (.lineComment, 2 + lineLen cs) := rfl

theorem firstToken_block (context : Context) (cs : Text) :
    firstToken context '/' ('*' :: cs) = (.blockComment, 2 + blockLen 1 cs) := rfl

theorem firstToken_quote (context : Context) (cs : Text) :
    firstToken context '\'' cs =
      if context.eClosed ∧ context.newline then (.eSegment, 1 + escapedLen cs)
      else (.string, 1 + quotedLen '\'' cs) := rfl

theorem firstToken_double (context : Context) (cs : Text) :
    firstToken context '"' cs = (.quotedIdent, 1 + quotedLen '"' cs) := rfl

theorem firstToken_eString (context : Context) {e : Char} (letter : e = 'E' ∨ e = 'e')
    (cs : Text) : firstToken context e ('\'' :: cs) = (.eString, 2 + escapedLen cs) := by
  rcases letter with rfl | rfl
  · rfl
  · rfl

theorem firstToken_separator (context : Context) (cs : Text) :
    firstToken context ';' cs = (.semicolon, 1) := rfl

/-- The delimiter of a dollar quote is read from its own characters. -/
theorem dollarDelimiter_of_prefix {cs cs' delimiter : Text}
    (found : dollarDelimiter ('$' :: cs) = some delimiter) (start : delimiter <+: '$' :: cs') :
    dollarDelimiter ('$' :: cs') = some delimiter := by
  rw [← RegionScannerAgreement.dollarQuoteTag_eq, ScanComposition.dollarQuoteTag_some] at found ⊢
  obtain ⟨digit, closed, rfl⟩ := found
  rw [List.cons_append, List.cons_prefix_cons] at start
  obtain ⟨tail, rfl⟩ := start.2
  have words : ∀ c ∈ cs.takeWhile RegionScanner.isDolqCont, RegionScanner.isDolqCont c = true :=
    fun c member => List.mem_takeWhile_imp member
  refine ⟨?_, ?_, ?_⟩
  · cases tag : cs.takeWhile RegionScanner.isDolqCont with
    | nil => rfl
    | cons c tag =>
      have head : cs.head? = some c := by
        cases cs with
        | nil => cases tag
        | cons d cs =>
          rw [List.takeWhile_cons] at tag
          split_ifs at tag
          rw [List.head?_cons, (List.cons.inj tag).1]
      rw [head] at digit
      exact digit
  · rw [List.append_assoc, List.dropWhile_append_of_pos words]
    rfl
  · rw [List.append_assoc, List.takeWhile_append_of_pos words]
    simp [RegionScanner.isDolqCont, RegionScanner.isHighByte]

theorem dollarDelimiter_start {text delimiter : Text}
    (found : dollarDelimiter text = some delimiter) : delimiter = text.take delimiter.length := by
  cases text with
  | nil => cases found
  | cons c cs =>
    obtain rfl : c = '$' := by
      by_contra other
      rw [dollarDelimiter] at found
      · cases found
      · exact fun after same => absurd (List.cons.inj same).1 other
    rw [← dollarQuoteTagEnd_eq, Option.map_eq_some_iff] at found
    obtain ⟨tagEnd, -, rfl⟩ := found
    exact List.prefix_iff_eq_take.mp (List.take_prefix _ _)

theorem Keeps.whole {cs after : Text} {m : Nat} (keeps : Keeps (cs.drop m) after) :
    Keeps cs (cs.take m ++ after) := by
  cases m with
  | zero => exact keeps
  | succ m =>
    cases cs with
    | nil => exact absurd rfl keeps.more
    | cons c cs => exact ⟨List.cons_ne_nil c cs, .inl rfl⟩

/-- A class of characters without `$` that the text does not start with. -/
theorem Keeps.stops {after after' : Text} (keeps : Keeps after after') {word : Char → Bool}
    (dollar : word '$' = false) (stops : ∀ d, after.head? = some d → word d = false) :
    ∀ d, after'.head? = some d → word d = false := by
  intro d head
  rcases keeps.head with same | ⟨-, other⟩
  · exact stops d (same ▸ head)
  · rw [other] at head
    cases head
    exact dollar

/-- What may follow a token: nothing fuses with it. -/
structure Follows (kind : Kind) (c : Char) (after after' : Text) : Prop extends
    Keeps after after' where
  ident : kind = .ident → after'.head? ≠ some '$'
  dollar : c = '$' → kind = .other → (after'.dropWhile isTagCont).head? ≠ some '$'

theorem digit_replace {cs after : Text} (keeps : Keeps cs after)
    (digit : ¬(cs.head?.map Char.isDigit).getD false = true) :
    ¬(after.head?.map Char.isDigit).getD false = true := by
  have plain : ∀ d, cs.head? = some d → Char.isDigit d = false := by
    intro d head
    rw [head] at digit
    exact Bool.eq_false_iff.mpr digit
  have plain' := keeps.stops (by decide) plain
  cases after with
  | nil => simp
  | cons d after => simp [plain' d rfl]

theorem dollar_replace (context : Context) {cs after : Text}
    (bare : firstToken context '$' cs = (.other, 1)) (follows : Follows .other '$' cs after) :
    firstToken context '$' after = (.other, 1) := by
  rw [firstToken_dollar] at bare ⊢
  split_ifs at bare with digit
  · cases bare
  have closed : dollarDelimiter ('$' :: after) = none := by
    rw [← RegionScannerAgreement.dollarQuoteTag_eq, Option.eq_none_iff_forall_not_mem]
    intro delimiter found
    exact follows.dollar rfl rfl (ScanComposition.dollarQuoteTag_some.mp found).2.1
  rw [if_neg (digit_replace follows.toKeeps digit), closed]

theorem single_replace {c : Char} {cs after : Text} (single : Single c cs)
    (keeps : Keeps cs after) : Single c after := by
  refine { single with line := ?_, block := ?_ }
  · rintro ⟨same, head⟩
    exact keeps.other (fun found => single.line ⟨same, found⟩) (by decide) head
  · rintro ⟨same, head⟩
    exact keeps.other (fun found => single.block ⟨same, found⟩) (by decide) head

theorem take_rest (m : Nat) (cs : Text) : cs.take (1 + m - 1) = cs.take m := by
  rw [Nat.add_sub_cancel_left]

theorem take_rest_pair (m : Nat) (d : Char) (ds : Text) :
    (d :: ds).take (2 + m - 1) = d :: ds.take m := by
  have shift : 2 + m - 1 = m + 1 := by omega
  rw [shift, List.take_succ_cons]

theorem drop_rest (m : Nat) (c : Char) (cs : Text) : (c :: cs).drop (1 + m) = cs.drop m := by
  rw [Nat.add_comm, List.drop_succ_cons]

theorem drop_rest_pair (m : Nat) (c d : Char) (ds : Text) :
    (c :: d :: ds).drop (2 + m) = ds.drop m := by
  rw [Nat.add_comm, List.drop_succ_cons, List.drop_succ_cons]

theorem take_run (word : Char → Bool) (cs : Text) :
    cs.take (cs.takeWhile word).length = cs.takeWhile word :=
  (List.prefix_iff_eq_take.mp (List.takeWhile_prefix word)).symm

theorem quote_replace (context : Context) (cs after : Text) {kind : Kind} {n : Nat}
    (read : firstToken context '\'' cs = (kind, n)) (keeps : Keeps (('\'' :: cs).drop n) after) :
    firstToken context '\'' (cs.take (n - 1) ++ after) = (kind, n) := by
  rw [firstToken_quote] at read ⊢
  split_ifs at read ⊢ with segment
  · cases read
    rw [drop_rest] at keeps
    rw [take_rest, escapedLen_replace cs after keeps]
  · cases read
    rw [drop_rest] at keeps
    rw [take_rest, quotedLen_replace '\'' cs after (by decide) keeps]

theorem dollarString_replace (context : Context) {cs after delimiter : Text}
    (digit : ¬(cs.head?.map Char.isDigit).getD false = true)
    (found : dollarDelimiter ('$' :: cs) = some delimiter)
    (keeps : Keeps (('$' :: cs).drop
      (delimiter.length + dollarLen delimiter (('$' :: cs).drop delimiter.length))) after) :
    firstToken context '$' (cs.take
      (delimiter.length + dollarLen delimiter (('$' :: cs).drop delimiter.length) - 1) ++ after) =
      (.dollarString,
        delimiter.length + dollarLen delimiter (('$' :: cs).drop delimiter.length)) := by
  obtain ⟨⟨tail, shape⟩, -⟩ := dollarDelimiter_shape found
  obtain ⟨n, total⟩ : ∃ n, delimiter.length +
      dollarLen delimiter (('$' :: cs).drop delimiter.length) = n + 1 := by
    rw [shape, List.length_cons]
    exact ⟨_, Nat.add_right_comm _ _ _⟩
  have start := dollarDelimiter_start found
  have text : '$' :: (cs.take n ++ after) =
      delimiter ++ ((('$' :: cs).drop delimiter.length).take
        (dollarLen delimiter (('$' :: cs).drop delimiter.length)) ++ after) := by
    rw [← List.cons_append, ← List.take_succ_cons, ← total, List.take_add, ← start,
      List.append_assoc]
  have inner := dollarLen_replace delimiter (('$' :: cs).drop delimiter.length) after
    (by rw [List.drop_drop]; exact keeps.more) (by rw [shape]; simp)
  rw [total, List.drop_succ_cons] at keeps
  rw [total, Nat.add_sub_cancel, firstToken_dollar, if_neg (digit_replace keeps.whole digit),
    dollarDelimiter_of_prefix found (by rw [text]; exact List.prefix_append _ _), ← total]
  simp only
  rw [text, List.drop_left, inner]

/-- A token is read as before when nothing fuses with it. -/
theorem firstToken_replace (context : Context) (c : Char) (cs after : Text)
    (follows : Follows (firstToken context c cs).1 c
      ((c :: cs).drop (firstToken context c cs).2) after) :
    firstToken context c (cs.take ((firstToken context c cs).2 - 1) ++ after) =
      firstToken context c cs := by
  by_cases space : isSpace c = true
  · rw [firstToken_space context space, firstToken_space context space]
  have spec := firstToken_spec context c cs
  generalize read : firstToken context c cs = first at spec follows ⊢
  have keeps := follows.toKeeps
  cases spec with
  | space white => exact absurd white space
  | @line cs =>
    rw [drop_rest_pair] at keeps
    rw [take_rest_pair, List.cons_append, firstToken_line, lineLen_replace cs after keeps]
  | @block cs =>
    rw [drop_rest_pair] at keeps
    rw [take_rest_pair, List.cons_append, firstToken_block, blockLen_replace 1 cs after keeps.more]
  | segment closed newline => exact quote_replace context cs after read keeps
  | string => exact quote_replace context cs after read keeps
  | quotedIdent =>
    rw [drop_rest] at keeps
    rw [take_rest, firstToken_double, quotedLen_replace '"' cs after (by decide) keeps]
  | @eString _ cs letter =>
    rw [drop_rest_pair] at keeps
    rw [take_rest_pair, List.cons_append, firstToken_eString context letter,
      escapedLen_replace cs after keeps]
  | ident start letter =>
    rw [drop_rest] at keeps
    have stops : ∀ d, after.head? = some d → isIdentCont d = false := by
      intro d head
      rcases keeps.head with same | ⟨-, other⟩
      · exact head?_drop_takeWhile (same ▸ head)
      · exact absurd other (follows.ident rfl)
    rw [take_rest, take_run, firstToken_ident context start, takeWhile_replace _ _ _ stops]
    rintro ⟨isE, head⟩
    refine keeps.whole.other (fun found => letter ⟨isE, found⟩) (by decide) ?_
    rw [take_run]
    exact head
  | number start digit =>
    rw [drop_rest] at keeps
    rw [take_rest, take_run, firstToken_number context _ start digit, takeWhile_replace]
    exact keeps.stops (by decide) fun d head => head?_drop_takeWhile head
  | param digit =>
    rw [drop_rest] at keeps
    have stops : ∀ d, after.head? = some d → isTagCont d = false :=
      keeps.stops (by decide) fun d head => head?_drop_takeWhile head
    have head : (cs.takeWhile isTagCont ++ after).head? = cs.head? := by
      rw [← take_run]
      refine keeps.whole.head.resolve_right ?_
      rintro ⟨question, -⟩
      rw [question] at digit
      exact absurd digit (by decide)
    rw [take_rest, take_run, firstToken_dollar, head, if_pos digit, takeWhile_replace _ _ _ stops]
  | dollarString found =>
    refine dollarString_replace context ?_ found keeps
    intro digit
    rw [firstToken_dollar, if_pos digit] at read
    cases read
  | dollar closed => exact dollar_replace context read follows
  | semicolon => rfl
  | single single =>
    exact firstToken_single context (Bool.eq_false_iff.mpr space) (single_replace single keeps)

/-! ## The tokens of the rewritten statement -/

/-- No parameter is written right after a name or a `$`, or right before a word character. -/
def apart : List Piece → Bool
  | [] => true
  | .token token :: .lone :: rest =>
    !(token.kind == .ident || token == mark '$') && apart (.lone :: rest)
  | .lone :: .token token :: rest =>
    !(token.text.head?.any isTagCont) && apart (.token token :: rest)
  | _ :: rest => apart rest

theorem apart_tail {piece : Piece} {rest : List Piece} (holds : apart (piece :: rest) = true) :
    apart rest = true := by
  unfold apart at holds
  split at holds
  · rename_i none
    cases none
  · rename_i shape
    obtain ⟨-, rfl⟩ := List.cons.inj shape
    exact (Bool.and_eq_true_iff.mp holds).2
  · rename_i shape
    obtain ⟨-, rfl⟩ := List.cons.inj shape
    exact (Bool.and_eq_true_iff.mp holds).2
  · rename_i shape
    obtain ⟨-, rfl⟩ := List.cons.inj shape
    exact holds

theorem Lexes.step {context : Context} {c : Char} {cs after : Text} {token : Token}
    {tokens : List Token} {n : Nat} (first : firstToken context c cs = (token.kind, n))
    (text : (c :: cs).take n = token.text) (rest : (c :: cs).drop n = after)
    (later : Lexes (context.next token) after tokens) : Lexes context (c :: cs) (token :: tokens) := by
  have head : token = headToken context c cs := by
    rw [headToken, first, text]
  rw [head]
  refine .cons ?_
  rw [← head, first, rest]
  exact later

theorem lexes_mark {context : Context} {after : Text} {tokens : List Token}
    (later : Lexes .plain after tokens) : Lexes context ('?' :: after) (mark '?' :: tokens) :=
  Lexes.step (headToken_mark context (.inl rfl) after) rfl rfl later

theorem lexes_parameter {context : Context} (n : Nat) {after : Text} {tokens : List Token}
    (later : Lexes .plain after tokens) (stops : ∀ d, after.head? = some d → isTagCont d = false) :
    Lexes context ((parameter n).text ++ after) (parameter n :: tokens) := by
  have digits : ∀ c ∈ Nat.toDigits 10 n, c.isDigit = true :=
    fun c member => Nat.isDigit_of_mem_toDigits (by omega) (by omega) member
  have tags : ∀ c ∈ Nat.toDigits 10 n, isTagCont c = true := by
    intro c member
    unfold isTagCont Char.isAlphanum
    rw [digits c member]
    simp
  have run : (Nat.toDigits 10 n ++ after).takeWhile isTagCont = Nat.toDigits 10 n := by
    rw [List.takeWhile_append_of_pos tags]
    cases after with
    | nil => simp
    | cons d after => rw [List.takeWhile_cons_of_neg (by simp [stops d rfl]), List.append_nil]
  have head : ((Nat.toDigits 10 n ++ after).head?.map Char.isDigit).getD false = true := by
    obtain ⟨d, ds, shape⟩ := List.exists_cons_of_ne_nil (Nat.toDigits_ne_nil (n := n) (b := 10))
    rw [shape] at digits ⊢
    exact digits d (.head _)
  have shape : (parameter n).text ++ after = '$' :: (Nat.toDigits 10 n ++ after) := rfl
  rw [shape]
  refine Lexes.step (n := 1 + (Nat.toDigits 10 n).length) ?_ ?_ ?_ later
  · rw [firstToken_dollar, if_pos head, run]
    rfl
  · rw [Nat.add_comm, List.take_succ_cons, List.take_left]
    rfl
  · rw [drop_rest, List.drop_left]

theorem token_nonempty {context : Context} {text : Text} {token : Token} {tokens : List Token}
    (lexes : Lexes context text (token :: tokens)) : token.text ≠ [] := by
  obtain ⟨c, cs, -, first, -, -⟩ := lexes.next
  rw [first, headToken]
  obtain ⟨m, len⟩ := Nat.exists_eq_succ_of_ne_zero (firstToken_pos context c cs).ne'
  rw [len]
  exact List.cons_ne_nil _ _

/-- How the rewritten text starts. -/
theorem number_head (n : Nat) (tokens : List Token) {context : Context}
    (lexes : Lexes context (textOf tokens) tokens) :
    (textOf (number n (pieces tokens))).head? = (textOf tokens).head? ∨
      ((textOf tokens).head? = some '?' ∧ (textOf (number n (pieces tokens))).head? = some '$' ∧
        (pieces tokens).head? = some .lone) := by
  induction tokens using pieces.induct with
  | case1 => exact .inl rfl
  | case2 token =>
    rw [pieces]
    split_ifs with lone
    · subst lone
      exact .inr ⟨rfl, rfl, rfl⟩
    · exact .inl rfl
  | case3 tokens =>
    rw [pieces, if_pos rfl, if_pos rfl]
    exact .inl rfl
  | case4 next tokens double operator =>
    rw [pieces, if_pos rfl, if_neg double, if_pos operator]
    exact .inl rfl
  | case5 next tokens double operator =>
    rw [pieces, if_pos rfl, if_neg double, if_neg operator]
    exact .inr ⟨rfl, rfl, rfl⟩
  | case6 token next tokens other =>
    left
    have nonempty := token_nonempty lexes
    rw [pieces, if_neg other, number, textOf_cons, textOf_cons,
      List.head?_append_of_ne_nil _ nonempty, List.head?_append_of_ne_nil _ nonempty]

theorem keeps_number (n : Nat) {tokens : List Token} {context : Context}
    (lexes : Lexes context (textOf tokens) tokens) (more : textOf tokens ≠ []) :
    Keeps (textOf tokens) (textOf (number n (pieces tokens))) := by
  refine ⟨more, (number_head n tokens lexes).imp_right ?_⟩
  rintro ⟨question, dollar, -⟩
  exact ⟨question, dollar⟩

theorem start_or_digit {c : Char} (tag : isTagCont c = true) :
    isIdentStart c = true ∨ c.isDigit = true := by
  unfold isTagCont Char.isAlphanum at tag
  unfold isIdentStart
  grind

/-- An identifier is followed by no character of an identifier. -/
theorem ident_next {context : Context} {token : Token} {tokens : List Token}
    (lexes : Lexes context (textOf (token :: tokens)) (token :: tokens))
    (kind : token.kind = .ident) :
    ∃ c rest, token.text = c :: rest ∧ (∀ d ∈ rest, isIdentCont d = true) ∧
      ∀ d, (textOf tokens).head? = some d → isIdentCont d = false := by
  obtain ⟨c, cs, -, first, after, -⟩ := lexes.next
  have spec := firstToken_spec context c cs
  have named : (firstToken context c cs).1 = .ident := by
    rw [← kind, first]
    rfl
  have shape : token.text = (c :: cs).take (firstToken context c cs).2 := by
    rw [first]
    rfl
  generalize firstToken context c cs = read at spec named shape after
  cases spec with
  | ident start letter =>
    rw [take_takeWhile] at shape
    refine ⟨c, _, shape, fun d member => List.mem_takeWhile_imp member, ?_⟩
    intro d head
    rw [after, drop_rest] at head
    exact head?_drop_takeWhile head
  | _ => cases named

theorem apart_ident {token : Token} {rest : List Piece}
    (holds : apart (.token token :: rest) = true) (kind : token.kind = .ident) :
    rest.head? ≠ some .lone := by
  intro head
  obtain ⟨others, rfl⟩ := List.head?_eq_some_iff.mp head
  rw [apart, kind] at holds
  cases holds

theorem head_dropWhile_append {p : Char → Bool} {front : Text}
    (stops : ∃ c ∈ front, p c = false) (back : Text) :
    ((front ++ back).dropWhile p).head? = (front.dropWhile p).head? := by
  have nonempty : front.dropWhile p ≠ [] := by
    intro none
    obtain ⟨c, member, outside⟩ := stops
    rw [List.dropWhile_eq_nil_iff.mp none c member] at outside
    cases outside
  rw [List.dropWhile_append, if_neg (by simpa using nonempty),
    List.head?_append_of_ne_nil _ nonempty]

theorem pieces_token {token : Token} (other : token ≠ mark '?') (tokens : List Token) :
    pieces (token :: tokens) = .token token :: pieces tokens := by
  cases tokens with
  | nil => simp [pieces, other]
  | cons next tokens => rw [pieces, if_neg other]

/-- A token of word characters that starts as an identifier is one. -/
theorem word_ident {context : Context} {c : Char} {cs : Text} (start : isIdentStart c = true)
    (tags : ∀ d ∈ (headToken context c cs).text, isTagCont d = true) :
    (headToken context c cs).kind = .ident := by
  have letter : ¬((c = 'E' ∨ c = 'e') ∧ cs.head? = some '\'') := by
    rintro ⟨isE, head⟩
    obtain ⟨ds, rfl⟩ := List.head?_eq_some_iff.mp head
    rw [headToken, firstToken_eString context isE, take_pair] at tags
    exact absurd (tags '\'' (by simp)) (by decide)
  rw [headToken, firstToken_ident context start letter]

/-- A `$` that ends the run of word characters at the head of the rewritten text ends it in the
statement, too. -/
theorem run_head {context : Context} {tokens : List Token}
    (lexes : Lexes context (textOf tokens) tokens) (holds : apart (pieces tokens) = true)
    (lone : (pieces tokens).head? ≠ some .lone)
    (digit : ¬((textOf tokens).head?.map Char.isDigit).getD false = true) (n : Nat)
    (found : ((textOf (number n (pieces tokens))).dropWhile isTagCont).head? = some '$') :
    ((textOf tokens).dropWhile isTagCont).head? = some '$' := by
  have heads := (number_head n tokens lexes).resolve_right fun other => lone other.2.2
  cases tokens with
  | nil => cases found
  | cons token tokens =>
    obtain ⟨c, cs, text, first, after, later⟩ := lexes.next
    by_cases tag : isTagCont c = true
    · have other : token ≠ mark '?' := by
        intro same
        have head := (head_mark lexes (.inl rfl)).mpr same
        rw [text] at head
        cases head
        exact absurd tag (by decide)
      have shape := pieces_token other tokens
      rw [shape, number, textOf_cons] at found
      rw [shape] at holds
      rw [textOf_cons]
      by_cases stops : ∃ c ∈ token.text, isTagCont c = false
      · rw [head_dropWhile_append stops] at found ⊢
        exact found
      · have tags : ∀ d ∈ token.text, isTagCont d = true := by
          intro d member
          by_contra outside
          exact stops ⟨d, member, Bool.eq_false_iff.mpr outside⟩
        rw [text] at digit
        have kind : token.kind = .ident := by
          rw [first] at tags ⊢
          exact word_ident ((start_or_digit tag).resolve_right digit) tags
        obtain ⟨-, -, -, -, next⟩ := ident_next lexes kind
        have same := (number_head n tokens later).resolve_right fun other =>
          apart_ident holds kind other.2.2
        rw [List.dropWhile_append_of_pos tags] at found
        cases rest : textOf (number n (pieces tokens)) with
        | nil =>
          rw [rest] at found
          cases found
        | cons d rest' =>
          rw [rest] at found same
          have outside := next d same.symm
          have plain : isTagCont d = false := (Bool.or_eq_false_iff.mp outside).1
          rw [List.dropWhile_cons_of_neg (by simp [plain])] at found
          cases found
          exact absurd outside (by decide)
    · rw [text] at heads ⊢
      rw [List.head?_cons] at heads
      obtain ⟨rest, rewritten⟩ := List.head?_eq_some_iff.mp heads
      rw [rewritten, List.dropWhile_cons_of_neg tag] at found
      rw [List.dropWhile_cons_of_neg tag]
      exact found

theorem bare_dollar {context : Context} {cs : Text}
    (kind : (firstToken context '$' cs).1 = .other) :
    firstToken context '$' cs = (.other, 1) ∧ ¬(cs.head?.map Char.isDigit).getD false = true ∧
      (cs.dropWhile isTagCont).head? ≠ some '$' := by
  rw [firstToken_dollar] at kind ⊢
  split_ifs at kind ⊢ with digit
  cases found : dollarDelimiter ('$' :: cs) with
  | some delimiter =>
    rw [found] at kind
    cases kind
  | none =>
    refine ⟨rfl, digit, fun head => ?_⟩
    have opens : RegionScanner.dollarQuoteTag ('$' :: cs) =
        some ('$' :: cs.takeWhile RegionScanner.isDolqCont ++ ['$']) :=
      ScanComposition.dollarQuoteTag_some.mpr ⟨Bool.eq_false_iff.mpr digit, head, rfl⟩
    rw [RegionScannerAgreement.dollarQuoteTag_eq, found] at opens
    cases opens

theorem apart_dollar {token : Token} {rest : List Piece}
    (holds : apart (.token token :: rest) = true) (dollar : token = mark '$') :
    rest.head? ≠ some .lone := by
  intro head
  obtain ⟨others, rfl⟩ := List.head?_eq_some_iff.mp head
  rw [apart, dollar] at holds
  cases holds

/-- A token that nothing fuses with is read as before. -/
theorem lexes_token {context : Context} {token : Token} {tokens : List Token} (n : Nat)
    (lexes : Lexes context (textOf (token :: tokens)) (token :: tokens))
    (holds : apart (.token token :: pieces tokens) = true)
    (later : Lexes (context.next token) (textOf (number n (pieces tokens)))
      (number n (pieces tokens))) :
    Lexes context (textOf (token :: number n (pieces tokens)))
      (token :: number n (pieces tokens)) := by
  cases tokens with
  | nil => exact lexes
  | cons next tokens =>
    obtain ⟨c, cs, text, first, after, rest⟩ := lexes.next
    have more : textOf (next :: tokens) ≠ [] := by
      rw [textOf_cons]
      exact List.append_ne_nil_of_left_ne_nil (token_nonempty rest) _
    have follows : Follows token.kind c (textOf (next :: tokens))
        (textOf (number n (pieces (next :: tokens)))) := by
      refine ⟨keeps_number n rest more, ?_, ?_⟩
      · intro kind dollar
        obtain ⟨-, -, -, -, outside⟩ := ident_next lexes kind
        rcases number_head n _ rest with same | ⟨-, -, lone⟩
        · exact absurd (outside '$' (same ▸ dollar)) (by decide)
        · exact apart_ident holds kind lone
      · intro dollar kind found
        subst dollar
        rw [first, headToken] at kind
        obtain ⟨read, digit, closed⟩ := bare_dollar kind
        rw [read] at after
        have bare : token = mark '$' := by
          rw [first, headToken, read]
          rfl
        rw [List.drop_succ_cons, List.drop_zero] at after
        rw [← after] at digit closed
        exact closed (run_head rest (apart_tail holds) (apart_dollar holds bare) digit n found)
    rw [after, first] at follows
    have read := firstToken_replace context c cs _ follows
    rw [after] at more
    have within : (firstToken context c cs).2 < (c :: cs).length := by
      by_contra beyond
      exact more (List.drop_eq_nil_of_le (by omega))
    have shape : token.text = (c :: cs).take (firstToken context c cs).2 := by
      rw [first]
      rfl
    have long : token.text.length = (firstToken context c cs).2 := by
      rw [shape, List.length_take]
      omega
    obtain ⟨m, len⟩ := Nat.exists_eq_succ_of_ne_zero (firstToken_pos context c cs).ne'
    have whole : textOf (token :: number n (pieces (next :: tokens))) =
        c :: (cs.take ((firstToken context c cs).2 - 1) ++
          textOf (number n (pieces (next :: tokens)))) := by
      rw [textOf_cons, shape, len, List.take_succ_cons]
      rfl
    rw [whole]
    refine Lexes.step (n := (firstToken context c cs).2) ?_ ?_ ?_ later
    · rw [read, first]
      rfl
    · rw [← whole, textOf_cons, ← long, List.take_left]
    · rw [← whole, textOf_cons, ← long, List.drop_left]

theorem lexes_number {tokens : List Token} {context : Context}
    (lexes : Lexes context (textOf tokens) tokens) (holds : apart (pieces tokens) = true)
    (n : Nat) :
    Lexes context (textOf (number n (pieces tokens))) (number n (pieces tokens)) := by
  induction tokens using pieces.induct generalizing context n with
  | case1 => exact .nil context
  | case2 token =>
    rw [pieces] at holds ⊢
    split_ifs at holds ⊢ with lone
    · exact lexes_parameter n (.nil _) (fun d head => nomatch head)
    · exact lexes
  | case3 tokens ih =>
    rw [pieces, if_pos rfl, if_pos rfl] at holds ⊢
    obtain ⟨-, -, -, -, -, later⟩ := lexes.next
    obtain ⟨-, -, -, -, -, later⟩ := later.next
    exact lexes_mark (ih later (apart_tail holds) n)
  | case4 next tokens double operator ih =>
    rw [pieces, if_pos rfl, if_neg double, if_pos operator] at holds ⊢
    obtain ⟨-, -, -, -, -, later⟩ := lexes.next
    exact lexes_mark (ih later (apart_tail holds) n)
  | case5 next tokens double operator ih =>
    rw [pieces, if_pos rfl, if_neg double, if_neg operator] at holds ⊢
    obtain ⟨-, -, -, -, -, later⟩ := lexes.next
    have free := apart_tail holds
    rw [pieces_token double, apart, Bool.and_eq_true, Bool.not_eq_true'] at holds
    have stops : ∀ d, (textOf (number (n + 1) (pieces (next :: tokens)))).head? = some d →
        isTagCont d = false := by
      intro d head
      rcases number_head (n + 1) _ later with same | ⟨-, dollar, -⟩
      · rw [same, textOf_cons, List.head?_append_of_ne_nil _ (token_nonempty later)] at head
        rw [head] at holds
        exact holds.1
      · rw [dollar] at head
        cases head
        decide
    exact lexes_parameter n (ih later free (n + 1)) stops
  | case6 token next tokens other ih =>
    rw [pieces, if_neg other] at holds ⊢
    obtain ⟨-, -, -, -, -, later⟩ := lexes.next
    exact lexes_token n lexes holds (ih later (apart_tail holds) n)

/-! ## Parameters that fuse -/

/-- A parameter is followed by no word character. -/
theorem param_next {context : Context} {n : Nat} {tokens : List Token}
    (lexes : Lexes context (textOf (parameter n :: tokens)) (parameter n :: tokens)) :
    ∀ d, (textOf tokens).head? = some d → isTagCont d = false := by
  obtain ⟨c, cs, text, first, after, -⟩ := lexes.next
  obtain rfl : '$' = c := (List.cons.inj text).1
  have kind : (firstToken context '$' cs).1 = .param := (congrArg Token.kind first).symm
  rw [firstToken_dollar] at kind after
  split_ifs at kind after with digit
  · intro d head
    rw [after, drop_rest] at head
    exact head?_drop_takeWhile head
  · split at kind
    · cases kind
    · cases kind

theorem apart_token {token : Token} {rest : List Piece} (free : apart rest = true)
    (holds : rest.head? = some .lone → token.kind ≠ .ident ∧ token ≠ mark '$') :
    apart (.token token :: rest) = true := by
  cases rest with
  | nil => rfl
  | cons piece rest =>
    cases piece with
    | lone =>
      obtain ⟨ident, dollar⟩ := holds rfl
      rw [apart, free]
      simp [ident, dollar]
    | escaped => exact free
    | token next => exact free

theorem apart_lone {rest : List Piece} (free : apart rest = true)
    (holds : ∀ token, rest.head? = some (.token token) → token.text.head?.any isTagCont = false) :
    apart (.lone :: rest) = true := by
  cases rest with
  | nil => rfl
  | cons piece rest =>
    cases piece with
    | lone => exact free
    | escaped => exact free
    | token next =>
      rw [apart, free, holds next rfl]
      rfl

/-- Where the rewritten tokens are read back, no parameter fuses with its neighbours. -/
theorem apart_of_lexes {rest : List Piece} {n : Nat} {context : Context}
    (lexes : Lexes context (textOf (number n rest)) (number n rest)) : apart rest = true := by
  induction rest generalizing n context with
  | nil => rfl
  | cons piece rest ih =>
    cases piece with
    | escaped =>
      obtain ⟨-, -, -, -, -, later⟩ := lexes.next
      exact ih later
    | token token =>
      obtain ⟨c, cs, text, first, after, later⟩ := lexes.next
      refine apart_token (ih later) fun head => ?_
      obtain ⟨others, rfl⟩ := List.head?_eq_some_iff.mp head
      refine ⟨?_, ?_⟩
      · intro kind
        obtain ⟨-, -, -, -, outside⟩ := ident_next lexes kind
        exact absurd (outside '$' rfl) (by decide)
      · rintro rfl
        obtain rfl : '$' = c := (List.cons.inj text).1
        have kind : (firstToken context '$' cs).1 = .other := (congrArg Token.kind first).symm
        obtain ⟨read, -, closed⟩ := bare_dollar kind
        rw [read, List.drop_succ_cons, List.drop_zero] at after
        rw [← after] at closed
        exact closed rfl
    | lone =>
      obtain ⟨-, -, -, -, -, later⟩ := lexes.next
      refine apart_lone (ih later) fun token head => ?_
      obtain ⟨others, rfl⟩ := List.head?_eq_some_iff.mp head
      obtain ⟨c, text, shape⟩ := List.exists_cons_of_ne_nil (token_nonempty later)
      rw [shape]
      refine param_next lexes c ?_
      rw [number, textOf_cons, shape]
      rfl

theorem scanDollar_nextParam (s : ScanState) (cs : Text) :
    (scanDollar s cs).nextParam = s.nextParam := by
  rw [scanDollar]
  split
  · simp only
    split
    · rfl
    · rfl
  · rfl

/-- The counter is a `u32`. -/
theorem scanStep_nextParam (s : ScanState) (bound : s.nextParam < 2 ^ 32) :
    (scanStep s).nextParam < 2 ^ 32 := by
  rw [scanStep]
  split
  · exact bound
  · simp only
    split_ifs
    · exact bound
    · exact bound
    · exact bound
    · exact bound
    · exact bound
    · rw [scanDollar_nextParam]
      exact bound
    · rw [scanQuestion]
      split_ifs
      · exact bound
      · exact bound
      · exact Nat.mod_lt _ (by decide)
    · exact bound

/-- Every token of the text is read alike, no parameter fuses with a neighbour and the counter does
not overflow. -/
def rewritable (sql : Text) : Bool :=
  allAlike (lex sql) && apart (pieces (lex sql)) &&
    decide (1 + placeholders (pieces (lex sql)) < 2 ^ 32)

/-- The rewrite preserves every statement that is rewritable, and no statement in which a parameter
fuses or whose placeholders overflow the counter. -/
theorem scan_preserves (sql : Text) :
    (rewritable sql = true → Preserves sql) ∧
      (Preserves sql → apart (pieces (lex sql)) = true ∧
        1 + placeholders (pieces (lex sql)) < 2 ^ 32) := by
  constructor
  · intro holds
    rw [rewritable, Bool.and_eq_true, Bool.and_eq_true, decide_eq_true_iff] at holds
    obtain ⟨⟨alike, free⟩, bound⟩ := holds
    obtain ⟨text, counted⟩ := scan_eq_textOf alike bound
    refine ⟨?_, counted⟩
    rw [lex, text]
    exact (lexes_number (lex_reads sql) free 1).lexFrom_eq _ (Nat.le_refl _)
  · rintro ⟨same, counted⟩
    have reads := lex_reads (scan sql)
    rw [same] at reads
    refine ⟨apart_of_lexes reads, ?_⟩
    rw [← counted]
    exact Reaches.preserves (fun s : ScanState => s.nextParam < 2 ^ 32) scanStep_nextParam ⟨_, rfl⟩
      (show 1 < 2 ^ 32 by decide)

theorem scan_preserves_sample :
    rewritable "SELECT 'a?', x$b$ WHERE j ?? 'k' AND a = ? AND b IN (?, $1) -- ?".toList = true ∧
      Preserves "SELECT 'a?', x$b$ WHERE j ?? 'k' AND a = ? AND b IN (?, $1) -- ?".toList :=
  ⟨by decide +kernel, (scan_preserves _).1 (by decide +kernel)⟩

/-- A backslash escapes the quote of an `E'..'` literal, and the `?` behind it is text. -/
theorem escaped_quote_rewritten : ¬Preserves "SELECT E'it\\'s ?'".toList := by
  rintro ⟨same, -⟩
  exact absurd same (by decide +kernel)

end FerroEngine.PlaceholderRewrite
