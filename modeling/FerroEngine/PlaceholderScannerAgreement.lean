import FerroEngine.PlaceholderScanner
import FerroEngine.RegionScannerAgreement

set_option autoImplicit false

/-! # The placeholder scanner against PostgreSQL's lexical rules

From a token boundary the scanner copies exactly the token that the reference lexer reads, unless
it is one of the forms that the scanner reads otherwise.
-/

namespace FerroEngine.PlaceholderScannerAgreement

open SourceText StepIteration PostgresLexicalRules PlaceholderScanner
open RegionScannerAgreement (escapes quotedLen_eq_escapedLen quotedLen_cons head?_drop_takeWhile
  take_takeWhile numberCont_of_tagCont tagCont_of_identStart)

/-! ## Regions -/

theorem isDolqCont_eq (c : Char) : isDolqCont c = isTagCont c := rfl

theorem copyQuoted_eq (q : Char) (cs : Text) : copyQuoted q cs = cs.take (quotedLen q cs) := by
  induction cs using quotedLen.induct q with
  | case1 => rfl
  | case2 c => rfl
  | case3 cs ih =>
    rw [copyQuoted, quotedLen, if_pos rfl, if_pos rfl, if_pos rfl, if_pos rfl, ih, Nat.add_comm]
    rfl
  | case4 d cs other =>
    rw [copyQuoted, quotedLen, if_pos rfl, if_neg other, if_pos rfl, if_neg other]
    rfl
  | case5 c d cs other ih =>
    rw [copyQuoted, quotedLen, if_neg other, if_neg other, ih, Nat.add_comm]
    rfl

theorem copyBlock_eq (depth : Nat) (cs : Text) (inside : 0 < depth) :
    copyBlock depth cs = cs.take (blockLen depth cs) := by
  induction depth, cs using blockLen.induct with
  | case1 depth =>
    obtain ⟨depth, rfl⟩ := Nat.exists_eq_add_one.mpr inside
    rfl
  | case2 depth cs ih =>
    obtain ⟨depth, rfl⟩ := Nat.exists_eq_add_one.mpr inside
    rw [blockLen, Nat.add_comm 2, List.take_succ_cons, List.take_succ_cons, ← ih (Nat.succ_pos _)]
    rfl
  | case3 depth cs shallow =>
    obtain rfl : depth = 1 := by omega
    rw [blockLen, if_pos shallow, copyBlock, copyBlock]
    rfl
  | case4 depth cs deep ih =>
    obtain ⟨depth, rfl⟩ := Nat.exists_eq_add_one.mpr inside
    rw [Nat.add_sub_cancel] at ih
    rw [blockLen, if_neg deep, Nat.add_comm 2, List.take_succ_cons, List.take_succ_cons,
      Nat.add_sub_cancel, ← ih (by omega)]
    rfl
  | case5 depth c cs noOpen noClose ih =>
    obtain ⟨depth, rfl⟩ := Nat.exists_eq_add_one.mpr inside
    rw [blockLen.eq_4 _ c cs noOpen noClose, Nat.add_comm 1, List.take_succ_cons, ← ih inside,
      copyBlock]
    · exact noOpen
    · exact Nat.succ_ne_zero depth
    · intro d rest _ same tail
      exact noClose rest same tail

/-- The rest of a comment that no lone carriage return ends. -/
theorem take_lineLen (cs : Text) (clean : (cs.take (lineLen cs)).getLast? ≠ some '\r') :
    cs.take (lineLen cs) =
      cs.takeWhile (· != '\n') ++ (cs.dropWhile (· != '\n')).take 1 := by
  induction cs with
  | nil => rfl
  | cons c cs ih =>
    by_cases newline : c = '\n'
    · subst newline
      simp [lineLen]
    rw [List.takeWhile_cons_of_pos (by simp [newline]),
      List.dropWhile_cons_of_pos (by simp [newline]), List.cons_append]
    by_cases cr : c = '\r'
    · have pair : cs.head? = some '\n' := by
        by_contra single
        apply clean
        rw [lineLen, if_neg newline, if_pos cr, if_neg single, cr]
        rfl
      obtain ⟨ds, rfl⟩ := List.head?_eq_some_iff.mp pair
      rw [lineLen, if_neg newline, if_pos cr, if_pos pair]
      simp
    · rw [lineLen, if_neg newline, if_neg cr, Nat.add_comm, List.take_succ_cons] at clean ⊢
      rw [ih]
      intro last
      rw [List.getLast?_cons, last] at clean
      exact clean rfl

theorem dollarQuoteTagEnd_eq (cs : Text) :
    (dollarQuoteTagEnd ('$' :: cs)).map (('$' :: cs).take ·) = dollarDelimiter ('$' :: cs) := by
  rw [dollarQuoteTagEnd, dollarDelimiter]
  split_ifs with digit
  · rfl
  · have same : cs.dropWhile isDolqCont = cs.dropWhile isTagCont := rfl
    rw [same]
    cases found : cs.dropWhile isTagCont with
    | nil => rfl
    | cons d rest =>
      by_cases dollar : d = '$'
      · subst dollar
        have split := List.takeWhile_append_dropWhile (p := isTagCont) (l := cs)
        rw [found] at split
        have tag : cs.takeWhile isDolqCont = cs.takeWhile isTagCont := rfl
        simp only [Option.map_some, tag]
        rw [List.take_succ_cons]
        nth_rewrite 2 [← split]
        rw [List.take_length_add_append]
        rfl
      · simp [dollar]

theorem dollarLen_eq (delimiter text : Text) :
    dollarLen delimiter text =
      ((findSubslice delimiter text).map (· + delimiter.length)).getD text.length := by
  induction text with
  | nil => rfl
  | cons c text ih =>
    rw [dollarLen, findSubslice]
    split_ifs with here
    · simp
    · rw [ih]
      cases findSubslice delimiter text with
      | none =>
        simp only [Option.map_none, Option.getD_none, List.length_cons]
        omega
      | some place =>
        simp only [Option.map_some, Option.getD_some]
        omega

/-! ## Turns of the loop -/

/-- The scanner has copied the next `n` characters. -/
structure Copied (n : Nat) (s t : ScanState) : Prop where
  run : Reaches scanStep s t
  rest : t.rest = s.rest.drop n
  out : t.out = s.out ++ s.rest.take n
  param : t.nextParam = s.nextParam

theorem Copied.zero (s : ScanState) : Copied 0 s s :=
  ⟨Reaches.refl s, rfl, by simp, rfl⟩

theorem Copied.trans {m n : Nat} {s t u : ScanState} (first : Copied m s t)
    (second : Copied n t u) : Copied (m + n) s u where
  run := first.run.trans second.run
  rest := by rw [second.rest, first.rest, List.drop_drop]
  out := by rw [second.out, first.out, first.rest, List.append_assoc, ← List.take_add]
  param := second.param.trans first.param

theorem Copied.congr {m n : Nat} {s t : ScanState} (copied : Copied m s t)
    (same : s.rest.take m = s.rest.take n) : Copied n s t where
  run := copied.run
  rest := by
    have whole := (List.take_append_drop m s.rest).trans (List.take_append_drop n s.rest).symm
    rw [same] at whole
    rw [copied.rest, List.append_cancel_left whole]
  out := by rw [copied.out, same]
  param := copied.param

/-- A turn that copies a part of the text. -/
theorem Copied.push {n : Nat} {s : ScanState} {flag : Bool}
    (turn : scanStep s = ScanState.push { s with inIdent := flag } (s.rest.take n)) :
    Copied n s (scanStep s) ∧ (scanStep s).inIdent = flag := by
  refine ⟨⟨Reaches.single s, ?_, ?_, ?_⟩, ?_⟩
  · rw [turn, ScanState.push, List.length_take]
    simp only
    rcases Nat.le_total n s.rest.length with within | beyond
    · rw [Nat.min_eq_left within]
    · rw [Nat.min_eq_right beyond, List.drop_length, List.drop_eq_nil_of_le beyond]
  · rw [turn]
    rfl
  · rw [turn]
    rfl
  · rw [turn]
    rfl

/-- The scanner stands between two tokens. -/
def Ready (s : ScanState) : Prop :=
  ∀ c, s.rest.head? = some c → isIdentCont c = true → s.inIdent = false

theorem Ready.of_flag {s : ScanState} (flag : s.inIdent = false) : Ready s :=
  fun _ _ _ => flag

/-- No rule but the last one of the loop is for the character. -/
structure Inert (c : Char) (cs : Text) : Prop where
  quote : c ≠ '\''
  double : c ≠ '"'
  line : ¬(c = '-' ∧ cs.head? = some '-')
  block : ¬(c = '/' ∧ cs.head? = some '*')
  dollar : c ≠ '$'
  question : c ≠ '?'

theorem scanStep_inert {s : ScanState} {c : Char} {cs : Text} (rest : s.rest = c :: cs)
    (inert : Inert c cs) :
    scanStep s = ScanState.push { s with inIdent := continuesIdent s.inIdent c } (s.rest.take 1) := by
  rw [scanStep, rest]
  simp only
  rw [if_neg (fun both => inert.dollar both.1), if_neg inert.quote, if_neg inert.double,
    if_neg inert.line, if_neg inert.block, if_neg inert.dollar, if_neg inert.question]
  rfl

theorem inert_of_numberCont {c : Char} (cs : Text) (word : isNumberCont c = true) :
    Inert c cs := by
  refine ⟨?_, ?_, ?_, ?_, ?_, ?_⟩
  · rintro rfl
    exact absurd word (by decide)
  · rintro rfl
    exact absurd word (by decide)
  · rintro ⟨rfl, -⟩
    exact absurd word (by decide)
  · rintro ⟨rfl, -⟩
    exact absurd word (by decide)
  · rintro rfl
    exact absurd word (by decide)
  · rintro rfl
    exact absurd word (by decide)

theorem inert_of_space {c : Char} (space : isSpace c = true) (cs : Text) :
    Inert c cs ∧ isIdentStart c = false := by
  have cases : c = ' ' ∨ c = '\t' ∨ c = '\n' ∨ c = '\r' ∨ c = '\x0b' ∨ c = '\x0c' := by
    simpa [isSpace, or_assoc] using space
  rcases cases with rfl | rfl | rfl | rfl | rfl | rfl
  all_goals exact ⟨by constructor <;> simp, by decide⟩

/-- A character that cannot start an identifier and stands at a boundary lowers the flag. -/
theorem continuesIdent_false {s : ScanState} {c : Char} {cs : Text} (ready : Ready s)
    (rest : s.rest = c :: cs) (start : isIdentStart c = false) :
    continuesIdent s.inIdent c = false := by
  cases flag : s.inIdent with
  | false => exact start
  | true =>
    by_contra cont
    have lowered := ready c (by rw [rest]; rfl) (Bool.eq_true_of_not_eq_false cont)
    rw [flag] at lowered
    cases lowered

theorem single_copied {s : ScanState} {c : Char} {cs : Text} (ready : Ready s)
    (rest : s.rest = c :: cs) (inert : Inert c cs) (start : isIdentStart c = false) :
    ∃ t, Copied 1 s t ∧ Ready t := by
  obtain ⟨copied, flag⟩ := Copied.push (scanStep_inert rest inert)
  rw [continuesIdent_false ready rest start] at flag
  exact ⟨_, copied, .of_flag flag⟩

theorem ident_run (cs : Text) (s : ScanState) (inside : s.inIdent = true) (rest : s.rest = cs) :
    ∃ t, Copied (cs.takeWhile isIdentCont).length s t := by
  induction cs generalizing s with
  | nil => exact ⟨s, .zero s⟩
  | cons c cs ih =>
    by_cases cont : isIdentCont c = true
    · have turn : scanStep s = ScanState.push { s with inIdent := true } (s.rest.take 1) := by
        by_cases dollar : c = '$'
        · have same : { s with inIdent := true } = s := by rw [← inside]
          rw [same, scanStep, rest]
          simp only
          rw [if_pos ⟨dollar, inside⟩]
          rfl
        · have tag : isTagCont c = true := by
            simpa [isIdentCont, dollar] using cont
          rw [scanStep_inert rest (inert_of_numberCont cs (numberCont_of_tagCont tag)), inside]
          have flag : continuesIdent true c = true := cont
          rw [flag]
      obtain ⟨copied, flag⟩ := Copied.push turn
      obtain ⟨t, later⟩ := ih (scanStep s) flag (by rw [copied.rest, rest]; rfl)
      refine ⟨t, ?_⟩
      rw [List.takeWhile_cons_of_pos cont, List.length_cons, Nat.add_comm]
      exact copied.trans later
    · refine ⟨s, ?_⟩
      rw [List.takeWhile_cons_of_neg cont]
      exact .zero s

theorem ident_copied {s : ScanState} {c : Char} {cs : Text} (ready : Ready s)
    (rest : s.rest = c :: cs) (start : isIdentStart c = true) :
    ∃ t, Copied (1 + (cs.takeWhile isIdentCont).length) s t ∧ Ready t := by
  have tag := tagCont_of_identStart start
  have cont : isIdentCont c = true := by rw [isIdentCont, tag, Bool.true_or]
  have lowered := ready c (by rw [rest]; rfl) cont
  obtain ⟨copied, flag⟩ := Copied.push
    (scanStep_inert rest (inert_of_numberCont cs (numberCont_of_tagCont tag)))
  rw [lowered] at flag
  obtain ⟨t, later⟩ := ident_run cs (scanStep s) (flag.trans start) (by rw [copied.rest, rest]; rfl)
  refine ⟨t, copied.trans later, ?_⟩
  intro d head word
  rw [(copied.trans later).rest, rest, Nat.add_comm, List.drop_succ_cons] at head
  rw [head?_drop_takeWhile head] at word
  cases word

/-- A run of word characters and dots raises the flag only by a character that can start an
identifier. -/
theorem word_run (word : Char → Bool) (words : ∀ c, word c = true → isNumberCont c = true)
    (cs : Text) (s : ScanState) (rest : s.rest = cs) :
    ∃ t, Copied (cs.takeWhile word).length s t ∧
      (t.inIdent = true → s.inIdent = true ∨ (cs.takeWhile word).any isIdentStart = true) := by
  induction cs generalizing s with
  | nil => exact ⟨s, .zero s, Or.inl⟩
  | cons c cs ih =>
    by_cases cont : word c = true
    · obtain ⟨copied, flag⟩ := Copied.push (scanStep_inert rest (inert_of_numberCont cs (words c cont)))
      obtain ⟨t, later, raised⟩ := ih (scanStep s) (by rw [copied.rest, rest]; rfl)
      refine ⟨t, ?_, ?_⟩
      · rw [List.takeWhile_cons_of_pos cont, List.length_cons, Nat.add_comm]
        exact copied.trans later
      · intro inside
        rw [List.takeWhile_cons_of_pos cont, List.any_cons, Bool.or_eq_true]
        rcases raised inside with here | after
        · rw [flag] at here
          cases current : s.inIdent with
          | true => exact .inl rfl
          | false =>
            rw [current] at here
            exact .inr (.inl here)
        · exact .inr (.inr after)
    · refine ⟨s, ?_, Or.inl⟩
      rw [List.takeWhile_cons_of_neg cont]
      exact .zero s

/-- A number or a parameter: a first character that cannot start an identifier and a run. -/
theorem run_copied (word : Char → Bool) (words : ∀ c, word c = true → isNumberCont c = true)
    (tags : ∀ c, isTagCont c = true → word c = true) {s t : ScanState} {c : Char} {cs : Text}
    (first : Copied 1 s t) (flag : t.inIdent = false) (rest : s.rest = c :: cs)
    (apart : (cs.takeWhile word).any isIdentStart = true →
      ((c :: cs).drop (1 + (cs.takeWhile word).length)).head? ≠ some '$') :
    ∃ u, Copied (1 + (cs.takeWhile word).length) s u ∧ Ready u := by
  obtain ⟨u, later, raised⟩ := word_run word words cs t (by rw [first.rest, rest]; rfl)
  refine ⟨u, first.trans later, ?_⟩
  intro d head cont
  rw [(first.trans later).rest, rest] at head
  by_contra inside
  rcases raised (Bool.eq_true_of_not_eq_false inside) with before | letter
  · rw [flag] at before
    cases before
  · have stop : word d = false := by
      rw [Nat.add_comm, List.drop_succ_cons] at head
      exact head?_drop_takeWhile head
    have dollar : d = '$' := by
      rw [isIdentCont, Bool.or_eq_true, beq_iff_eq] at cont
      refine cont.resolve_left fun tag => ?_
      rw [tags d tag] at stop
      cases stop
    exact apart letter (by rw [head, dollar])

/-- A turn that opens a region and copies it whole. -/
theorem region_copied {s : ScanState} {c : Char} {cs : Text} {n : Nat} (ready : Ready s)
    (rest : s.rest = c :: cs) (start : isIdentStart c = false)
    (turn : scanStep s = ScanState.push { s with inIdent := continuesIdent s.inIdent c }
      (s.rest.take n)) : ∃ t, Copied n s t ∧ Ready t := by
  obtain ⟨copied, flag⟩ := Copied.push turn
  rw [continuesIdent_false ready rest start] at flag
  exact ⟨_, copied, .of_flag flag⟩

theorem quoted_copied {s : ScanState} {q : Char} {cs : Text} (ready : Ready s)
    (rest : s.rest = q :: cs) (quote : q = '\'' ∨ q = '"') :
    ∃ t, Copied (1 + quotedLen q cs) s t ∧ Ready t := by
  refine region_copied ready rest ?_ ?_
  · rcases quote with rfl | rfl
    · decide
    · decide
  · rw [Nat.add_comm, scanStep, rest]
    rcases quote with rfl | rfl
    · simp [copyQuoted_eq]
    · simp [copyQuoted_eq]

theorem block_copied {s : ScanState} {cs : Text} (ready : Ready s)
    (rest : s.rest = '/' :: '*' :: cs) :
    ∃ t, Copied (2 + blockLen 1 cs) s t ∧ Ready t := by
  refine region_copied ready rest (by decide) ?_
  rw [Nat.add_comm, scanStep, rest]
  simp [copyBlock_eq]

theorem take_pair (a b : Char) (cs : Text) (n : Nat) :
    (a :: b :: cs).take (2 + n) = a :: b :: cs.take n := by
  rw [Nat.add_comm]
  rfl

theorem line_copied {s : ScanState} {cs : Text} (ready : Ready s)
    (rest : s.rest = '-' :: '-' :: cs)
    (clean : (cs.take (lineLen cs)).getLast? ≠ some '\r') :
    ∃ t, Copied (2 + lineLen cs) s t ∧ Ready t := by
  have split := List.takeWhile_append_dropWhile (p := (· != '\n')) (l := cs)
  have cut := take_lineLen cs clean
  have stops : ∀ d, (cs.dropWhile (· != '\n')).head? = some d → d = '\n' := by
    intro d head
    have outside := List.head?_dropWhile_not (· != '\n') cs
    rw [head] at outside
    simpa using outside
  have turn : scanStep s = ScanState.push { s with inIdent := continuesIdent s.inIdent '-' }
      (s.rest.take (2 + (cs.takeWhile (· != '\n')).length)) := by
    have part : s.rest.take (2 + (cs.takeWhile (· != '\n')).length) =
        '-' :: '-' :: cs.takeWhile (· != '\n') := by
      rw [rest, take_pair, ← List.prefix_iff_eq_take.mp (List.takeWhile_prefix _)]
    rw [part, scanStep, rest]
    simp
  obtain ⟨copied, flag⟩ := Copied.push turn
  rw [continuesIdent_false ready rest (by decide)] at flag
  have left : (scanStep s).rest = cs.dropWhile (· != '\n') := by
    rw [copied.rest, rest, Nat.add_comm, List.drop_succ_cons, List.drop_succ_cons]
    nth_rewrite 2 [← split]
    exact List.drop_left
  generalize cs.takeWhile (· != '\n') = front at split cut copied
  generalize cs.dropWhile (· != '\n') = back at split cut stops left
  subst split
  cases back with
  | nil =>
    refine ⟨_, copied.congr ?_, .of_flag flag⟩
    rw [rest, take_pair, take_pair, cut]
    simp
  | cons d back =>
    obtain rfl := stops d rfl
    obtain ⟨t, newline, now⟩ := single_copied (.of_flag flag) left
      (inert_of_space (by decide) back).1 (by decide)
    refine ⟨t, (copied.trans newline).congr ?_, now⟩
    rw [rest, Nat.add_assoc, take_pair, take_pair, cut, List.take_length_add_append]

theorem dollarString_copied {s : ScanState} {cs delimiter : Text} (ready : Ready s)
    (rest : s.rest = '$' :: cs) (found : dollarDelimiter ('$' :: cs) = some delimiter) :
    ∃ t, Copied (delimiter.length + dollarLen delimiter (('$' :: cs).drop delimiter.length)) s t ∧
      Ready t := by
  rw [← dollarQuoteTagEnd_eq, Option.map_eq_some_iff] at found
  obtain ⟨tagEnd, found, rfl⟩ := found
  have after : ('$' :: cs).drop (('$' :: cs).take tagEnd).length = ('$' :: cs).drop tagEnd := by
    have whole := List.take_append_drop tagEnd ('$' :: cs)
    have cut := congrArg (List.drop (('$' :: cs).take tagEnd).length) whole
    rw [List.drop_left] at cut
    exact cut.symm
  have opening : ('$' :: cs).take (('$' :: cs).take tagEnd).length = ('$' :: cs).take tagEnd :=
    (List.prefix_iff_eq_take.mp (List.take_prefix tagEnd ('$' :: cs))).symm
  have lowered : s.inIdent = false := ready '$' (by rw [rest]; rfl) (by decide)
  refine region_copied ready rest (by decide) ?_
  rw [after, dollarLen_eq]
  have turn : scanStep s =
      scanDollar { s with inIdent := continuesIdent s.inIdent '$' } cs := by
    rw [scanStep, rest]
    simp [lowered]
  rw [turn, scanDollar, found]
  simp only
  cases findSubslice (('$' :: cs).take tagEnd) (('$' :: cs).drop tagEnd) with
  | some closeAt =>
    simp only [Option.map_some, Option.getD_some, rest]
    congr 1
    conv_rhs => rw [List.take_add, opening, after]
  | none =>
    simp only [Option.map_none, Option.getD_none, rest]
    congr 1
    conv_rhs => rw [List.take_add, opening, after, List.take_length, List.take_append_drop]

/-! ## Tokens -/

/-- The token, followed by the given character, is none of the forms the placeholder scanner reads
otherwise than PostgreSQL does. -/
def readAlike (token : Token) (next : Option Char) : Bool :=
  match token.kind with
  | .eString => (escapes (token.text.drop 2)).all fun pair => pair.1 != '\''
  | .eSegment => (escapes (token.text.drop 1)).all fun pair => pair.1 != '\''
  | .lineComment => token.text.getLast? != some '\r'
  | .number | .param => !(token.text.any isIdentStart && next == some '$')
  | _ => true

theorem eString_copied {s : ScanState} {e : Char} {cs : Text}
    (rest : s.rest = e :: '\'' :: cs) (letter : e = 'E' ∨ e = 'e')
    (clean : ∀ pair ∈ escapes (cs.take (escapedLen cs)), pair.1 ≠ '\'') :
    ∃ t, Copied (2 + escapedLen cs) s t ∧ Ready t := by
  have start : isNumberCont e = true := by
    rcases letter with rfl | rfl
    · decide
    · decide
  obtain ⟨first, -⟩ := Copied.push (scanStep_inert rest (inert_of_numberCont _ start))
  have left : (scanStep s).rest = '\'' :: cs := by
    rw [first.rest, rest]
    rfl
  have ready' : Ready (scanStep s) := by
    intro d head cont
    rw [left] at head
    cases head
    exact absurd cont (by decide)
  obtain ⟨t, copied, now⟩ := quoted_copied ready' left (.inl rfl)
  rw [quotedLen_eq_escapedLen cs clean] at copied
  refine ⟨t, ?_, now⟩
  have whole := first.trans copied
  rw [← Nat.add_assoc] at whole
  exact whole

/-- The letters of a run that is followed by `$` are looked for in the whole token. -/
theorem run_apart {kind : Kind} (numeric : kind = .number ∨ kind = .param) {word : Char → Bool}
    {c : Char} {cs : Text}
    (alike : readAlike ⟨kind, (c :: cs).take (1 + (cs.takeWhile word).length)⟩
      ((c :: cs).drop (1 + (cs.takeWhile word).length)).head? = true)
    (letter : (cs.takeWhile word).any isIdentStart = true) :
    ((c :: cs).drop (1 + (cs.takeWhile word).length)).head? ≠ some '$' := by
  intro dollar
  rw [dollar, take_takeWhile] at alike
  have any : (c :: cs.takeWhile word).any isIdentStart = true := by
    rw [List.any_cons, letter, Bool.or_true]
  rcases numeric with rfl | rfl
  · simp only [readAlike, any] at alike
    cases alike
  · simp only [readAlike, any] at alike
    cases alike

/-- From a boundary the scanner copies the token that PostgreSQL reads there. -/
theorem token_copied (context : Context) {s : ScanState} {c : Char} {cs : Text} (ready : Ready s)
    (rest : s.rest = c :: cs) (question : c ≠ '?')
    (alike : readAlike
      ⟨(firstToken context c cs).1, (c :: cs).take (firstToken context c cs).2⟩
      ((c :: cs).drop (firstToken context c cs).2).head? = true) :
    ∃ t, Copied (firstToken context c cs).2 s t ∧ Ready t := by
  have spec := firstToken_spec context c cs
  generalize firstToken context c cs = first at spec alike ⊢
  cases spec with
  | space space =>
    obtain ⟨inert, start⟩ := inert_of_space space cs
    exact single_copied ready rest inert start
  | line =>
    refine line_copied ready rest fun last => ?_
    simp only [readAlike, bne_iff_ne, ne_eq] at alike
    apply alike
    rw [take_pair, List.getLast?_cons, List.getLast?_cons, last]
    rfl
  | block => exact block_copied ready rest
  | segment =>
    have clean : ∀ pair ∈ escapes (cs.take (escapedLen cs)), pair.1 ≠ '\'' := by
      intro pair member
      simp only [readAlike, List.all_eq_true, bne_iff_ne, ne_eq] at alike
      rw [Nat.add_comm, List.take_succ_cons] at alike
      exact alike pair member
    rw [← quotedLen_eq_escapedLen cs clean]
    exact quoted_copied ready rest (.inl rfl)
  | string => exact quoted_copied ready rest (.inl rfl)
  | quotedIdent => exact quoted_copied ready rest (.inr rfl)
  | eString letter =>
    refine eString_copied rest letter fun pair member => ?_
    simp only [readAlike, List.all_eq_true, bne_iff_ne, ne_eq] at alike
    rw [take_pair] at alike
    exact alike pair member
  | ident start => exact ident_copied ready rest start
  | number start digit =>
    have number : isNumberCont c = true := by
      unfold isNumberCont isTagCont Char.isAlphanum
      rw [digit]
      simp
    obtain ⟨first, flag⟩ := Copied.push (scanStep_inert rest (inert_of_numberCont cs number))
    rw [continuesIdent_false ready rest start] at flag
    exact run_copied isNumberCont (fun _ word => word) (fun _ => numberCont_of_tagCont) first flag
      rest (run_apart (.inl rfl) alike)
  | param digit =>
    have turn : scanStep s =
        ScanState.push { s with inIdent := continuesIdent s.inIdent '$' } (s.rest.take 1) := by
      have lowered : s.inIdent = false := ready '$' (by rw [rest]; rfl) (by decide)
      rw [scanStep, rest]
      simp [lowered, scanDollar, dollarQuoteTagEnd, digit]
    obtain ⟨first, flag⟩ := Copied.push turn
    rw [continuesIdent_false ready rest (by decide)] at flag
    exact run_copied isTagCont (fun _ => numberCont_of_tagCont) (fun _ word => word) first flag
      rest (run_apart (.inr rfl) alike)
  | dollarString found => exact dollarString_copied ready rest found
  | dollar closed =>
    have turn : scanStep s =
        ScanState.push { s with inIdent := continuesIdent s.inIdent '$' } (s.rest.take 1) := by
      have lowered : s.inIdent = false := ready '$' (by rw [rest]; rfl) (by decide)
      rw [← dollarQuoteTagEnd_eq, Option.map_eq_none_iff] at closed
      rw [scanStep, rest]
      simp [lowered, scanDollar, closed]
    exact region_copied ready rest (by decide) turn
  | semicolon => exact single_copied ready rest (by constructor <;> simp) (by decide)
  | single single =>
    exact single_copied ready rest ⟨single.quote, single.double, single.line, single.block,
      single.dollar, question⟩ single.start

end FerroEngine.PlaceholderScannerAgreement
