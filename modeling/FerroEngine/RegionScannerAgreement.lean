import FerroEngine.RegionScannerSteps
import FerroEngine.PostgresLexicalRules

set_option autoImplicit false

/-! # The region scanner against PostgreSQL's lexical rules

The scanner is followed token by token: from a token boundary it consumes exactly the token that
the reference lexer reads, and stands at the next boundary.
-/

namespace FerroEngine.RegionScannerAgreement

open SourceText StepIteration RegionScanner RegionScannerSteps PostgresLexicalRules

/-! ## Regions other than code -/

/-- The region ended with the character `closer`, or the text did. -/
def Closed (closer : Char) (t : ScanState) : Prop :=
  t.rest = [] ∨ (t.region = .code ∧ t.inIdent = false ∧ t.before.head? = some closer)

/-- The scanner leaves the region it is in after exactly `n` more characters. -/
def Leaves (shown : Char → Text) (closer : Char) (n : Nat) (s : ScanState) : Prop :=
  ∃ t, Reaches scanStep s t ∧ Passed shown n s t ∧ Closed closer t

theorem Leaves.done {shown : Char → Text} {closer : Char} {s : ScanState}
    (empty : s.rest = []) : Leaves shown closer 0 s :=
  ⟨s, Reaches.refl s, Passed.zero shown s, Or.inl empty⟩

theorem Leaves.step {shown : Char → Text} {closer : Char} {m n : Nat} {s : ScanState}
    (passed : Passed shown m s (scanStep s)) (next : Leaves shown closer n (scanStep s)) :
    Leaves shown closer (m + n) s := by
  obtain ⟨t, run, rest, closed⟩ := next
  exact ⟨t, run.head, passed.trans rest, closed⟩

theorem Leaves.close {shown : Char → Text} {closer : Char} {n : Nat} {s : ScanState}
    (passed : Passed shown n s (scanStep s)) (closed : Closed closer (scanStep s)) :
    Leaves shown closer n s :=
  ⟨scanStep s, Reaches.single s, passed, closed⟩

/-- A turn that closes the region with the last of `n` hidden characters. -/
theorem Leaves.closeHidden {closer : Char} {n : Nat} {s : ScanState}
    (turn : scanStep s =
      { closeHidden (pushHiddenChars n { s with inIdent := false }) with region := .code })
    (last : (s.rest.take n).getLast? = some closer) : Leaves filler closer n s := by
  have passed : Passed filler n s (scanStep s) := by
    rw [turn]
    exact closeHidden_passed (pushHiddenChars_passed n { s with inIdent := false })
  refine Leaves.close passed (Or.inr ⟨?_, ?_, ?_⟩)
  · rw [turn]
  · rw [turn]
    exact (closeHidden_inIdent _).trans (pushHiddenChars_frame n _).2.1
  · rw [passed.1, List.head?_append, List.head?_reverse, last]
    rfl

/-- A turn that hides `n` characters and goes to the given region. -/
theorem Leaves.hide {closer : Char} {m n : Nat} {s : ScanState} (region : Region)
    (turn : scanStep s = { pushHiddenChars n { s with inIdent := false } with region := region })
    (next : ∀ t : ScanState, t.region = region → t.dollarTag = s.dollarTag →
      t.rest = s.rest.drop n → Leaves filler closer m t) : Leaves filler closer (n + m) s := by
  have passed : Passed filler n s (scanStep s) := by
    rw [turn]
    exact pushHiddenChars_passed n { s with inIdent := false }
  refine Leaves.step passed (next (scanStep s) ?_ ?_ passed.2.1)
  · rw [turn]
  · rw [turn]
    exact (pushHiddenChars_frame n _).2.2

/-- A turn that hides `n` characters and stays in its region. -/
theorem Leaves.stay {closer : Char} {m n : Nat} {s : ScanState} {region : Region}
    (current : s.region = region)
    (turn : scanStep s = pushHiddenChars n { s with inIdent := false })
    (next : ∀ t : ScanState, t.region = region → t.dollarTag = s.dollarTag →
      t.rest = s.rest.drop n → Leaves filler closer m t) : Leaves filler closer (n + m) s := by
  have same := (pushHiddenChars_frame n { s with inIdent := false }).1.trans current
  refine Leaves.hide region (turn.trans ?_) next
  rw [← same]

theorem blockComment_leaves (depth : Nat) (cs : Text) (s : ScanState)
    (region : s.region = .blockComment depth) (rest : s.rest = cs) :
    Leaves filler '/' (blockLen depth cs) s := by
  induction depth, cs using blockLen.induct generalizing s with
  | case1 depth => exact Leaves.done rest
  | case2 depth cs ih =>
    rw [blockLen]
    refine Leaves.hide (.blockComment (depth + 1)) ?_ fun t now _ left => ?_
    · simp [scanStep, rest, region, scanBlockComment]
    · exact ih t now (by rw [left, rest]; rfl)
  | case3 depth cs shallow =>
    rw [blockLen, if_pos shallow]
    refine Leaves.closeHidden ?_ (by rw [rest]; rfl)
    simp [scanStep, rest, region, scanBlockComment, shallow]
  | case4 depth cs deep ih =>
    rw [blockLen, if_neg deep]
    refine Leaves.hide (.blockComment (depth - 1)) ?_ fun t now _ left => ?_
    · simp [scanStep, rest, region, scanBlockComment, deep]
    · exact ih t now (by rw [left, rest]; rfl)
  | case5 depth c cs noOpen noClose ih =>
    rw [blockLen.eq_4 depth c cs noOpen noClose]
    have notOpen : ¬(c = '/' ∧ cs.head? = some '*') := by
      rintro ⟨rfl, head⟩
      obtain ⟨ds, rfl⟩ := List.head?_eq_some_iff.mp head
      exact noOpen ds rfl rfl
    have notClose : ¬(c = '*' ∧ cs.head? = some '/') := by
      rintro ⟨rfl, head⟩
      obtain ⟨ds, rfl⟩ := List.head?_eq_some_iff.mp head
      exact noClose ds rfl rfl
    refine Leaves.stay region ?_ fun t now _ left => ?_
    · simp only [scanStep, rest, region, scanBlockComment, if_neg notOpen, if_neg notClose]
      rfl
    · exact ih t now (by rw [left, rest]; rfl)

theorem lineComment_leaves (cs : Text) (s : ScanState) (region : s.region = .lineComment)
    (rest : s.rest = cs) (clean : (cs.take (lineLen cs)).getLast? ≠ some '\r') :
    Leaves filler '\n' (lineLen cs) s := by
  induction cs generalizing s with
  | nil => exact Leaves.done rest
  | cons c cs ih =>
    have hidden : c ≠ '\n' → scanStep s = pushHiddenChars 1 { s with inIdent := false } := by
      intro notNewline
      simp only [scanStep, rest, region, scanLineComment, if_neg notNewline]
      rfl
    by_cases newline : c = '\n'
    · rw [lineLen, if_pos newline]
      refine Leaves.closeHidden ?_ (by rw [rest, newline]; rfl)
      simp only [scanStep, rest, region, scanLineComment, if_pos newline]
      rfl
    · by_cases cr : c = '\r'
      · -- Only the pair `\r\n` ends the comment for both sides at one place.
        have pair : cs.head? = some '\n' := by
          by_contra single
          apply clean
          rw [lineLen, if_neg newline, if_pos cr, if_neg single, cr]
          rfl
        obtain ⟨ds, rfl⟩ := List.head?_eq_some_iff.mp pair
        rw [lineLen, if_neg newline, if_pos cr, if_pos pair]
        refine Leaves.stay (m := 1) region (hidden newline) fun t now _ left => ?_
        have rest' : t.rest = '\n' :: ds := by rw [left, rest]; rfl
        refine Leaves.closeHidden ?_ (by rw [rest']; rfl)
        simp only [scanStep, rest', now, scanLineComment, if_true]
        rfl
      · have len : lineLen (c :: cs) = 1 + lineLen cs := by
          rw [lineLen, if_neg newline, if_neg cr]
        rw [len]
        refine Leaves.stay region (hidden newline) fun t now _ left => ?_
        refine ih t now (by rw [left, rest]; rfl) ?_
        intro ends
        apply clean
        rw [len, Nat.add_comm, List.take_succ_cons, List.getLast?_cons, ends]
        rfl

theorem dollarQuote_leaves (tag : Text) (opens : ∃ tail, tag = '$' :: tail)
    (closes : tag.getLast? = some '$') (cs : Text) (s : ScanState)
    (region : s.region = .dollarQuote) (same : s.dollarTag = tag) (rest : s.rest = cs) :
    Leaves filler '$' (dollarLen tag cs) s := by
  induction cs generalizing s with
  | nil => exact Leaves.done rest
  | cons c cs ih =>
    by_cases found : tag.isPrefixOf (c :: cs) = true
    · rw [dollarLen, if_pos found]
      have dollar : c = '$' := by
        obtain ⟨tail, rfl⟩ := opens
        exact (List.cons_prefix_cons.mp (List.isPrefixOf_iff_prefix.mp found)).1.symm
      have taken : (c :: cs).take tag.length = tag :=
        (List.prefix_iff_eq_take.mp (List.isPrefixOf_iff_prefix.mp found)).symm
      refine Leaves.closeHidden ?_ (by rw [rest, taken, closes])
      simp only [scanStep, rest, region, scanDollarQuote, same, dollar]
      rw [dollar] at found
      simp only [found, and_self, if_true]
    · rw [dollarLen, if_neg found]
      have notFound : ¬(c = '$' ∧ s.dollarTag.isPrefixOf (c :: cs) = true) := by
        rw [same]
        exact fun both => found both.2
      refine Leaves.stay region ?_ fun t now tag' left => ?_
      · simp only [scanStep, rest, region, scanDollarQuote, if_neg notFound]
        rfl
      · exact ih t now (tag'.trans same) (by rw [left, rest]; rfl)

theorem Closed.of_empty {shown : Char → Text} {closer : Char} {n : Nat} {s t : ScanState}
    (passed : Passed shown n s t) (all : s.rest.length ≤ n) : Closed closer t := by
  refine Or.inl ?_
  rw [passed.2.1, List.drop_eq_nil_of_le all]

theorem doubleQuote_leaves (cs : Text) (s : ScanState) (region : s.region = .doubleQuote)
    (rest : s.rest = cs) : Leaves (fun c => [c]) '"' (quotedLen '"' cs) s := by
  have shown := pushVisibleChar_passed { s with inIdent := false }
  have stays := pushVisibleChar_frame { s with inIdent := false }
  induction cs using quotedLen.induct (q := '"') generalizing s with
  | case1 => exact Leaves.done rest
  | case2 c =>
    have passed : Passed (fun c => [c]) 1 s (scanStep s) := by
      rw [scanStep_doubleQuote region rest, scanDoubleQuote]
      simp only [List.head?_nil, reduceCtorEq, if_false]
      split_ifs
      · exact shown
      · exact shown
    exact Leaves.close passed (Closed.of_empty passed (by simp [rest]))
  | case3 cs ih =>
    have turn : scanStep s = pushVisibleChar (pushVisibleChar { s with inIdent := false }) := by
      simp [scanStep, rest, region, scanDoubleQuote]
    have passed : Passed (fun c => [c]) 2 s (scanStep s) := by
      rw [turn]
      exact shown.trans (pushVisibleChar_passed _)
    rw [quotedLen, if_pos rfl, if_pos rfl]
    refine Leaves.step passed (ih (scanStep s) ?_ ?_ (pushVisibleChar_passed _)
      (pushVisibleChar_frame _))
    · rw [turn, (pushVisibleChar_frame _).1, stays.1, region]
    · rw [passed.2.1, rest]
      rfl
  | case4 d cs single =>
    have turn : scanStep s =
        { pushVisibleChar { s with inIdent := false } with region := .code } := by
      simp [scanStep, rest, region, scanDoubleQuote, single]
    have passed : Passed (fun c => [c]) 1 s (scanStep s) := by
      rw [turn]
      exact shown
    rw [quotedLen, if_pos rfl, if_neg single]
    refine Leaves.close passed (Or.inr ⟨by rw [turn], by rw [turn, stays.2], ?_⟩)
    rw [passed.1, rest]
    rfl
  | case5 c d cs other ih =>
    have turn : scanStep s = pushVisibleChar { s with inIdent := false } := by
      simp [scanStep, rest, region, scanDoubleQuote, other]
    have passed : Passed (fun c => [c]) 1 s (scanStep s) := by
      rw [turn]
      exact shown
    rw [quotedLen, if_neg other]
    refine Leaves.step passed (ih (scanStep s) ?_ ?_ (pushVisibleChar_passed _)
      (pushVisibleChar_frame _))
    · rw [turn, stays.1, region]
    · rw [passed.2.1, rest]
      rfl

/-- The last character of a text leaves the region whatever it is. -/
theorem singleQuote_leaves_last (eString : Bool) (c : Char) (s : ScanState)
    (region : s.region = .singleQuote eString) (rest : s.rest = [c]) :
    Leaves filler '\'' 1 s := by
  have hidden := pushHiddenChar_passed { s with inIdent := false }
  have passed : Passed filler 1 s (scanStep s) := by
    rw [scanStep_singleQuote region rest, scanSingleQuote]
    simp only [List.head?_nil, reduceCtorEq, and_false, if_false]
    split_ifs
    · exact closeHidden_passed hidden
    · exact hidden
  exact Leaves.close passed (Closed.of_empty passed (by simp [rest]))

/-- A character of a string literal that neither escapes nor quotes is passed over alone. -/
theorem singleQuote_leaves_char {eString : Bool} {c : Char} {cs : Text} {s : ScanState}
    {n : Nat} (region : s.region = .singleQuote eString) (rest : s.rest = c :: cs)
    (escape : ¬(c = '\\' ∧ eString = true ∧ cs.head? = some '\'')) (quote : c ≠ '\'')
    (next : ∀ t : ScanState, t.region = .singleQuote eString → t.rest = cs →
      Leaves filler '\'' n t) : Leaves filler '\'' (1 + n) s := by
  refine Leaves.stay region ?_ fun t now _ left => next t now (by rw [left, rest]; rfl)
  have noPair : ¬(c = '\'' ∧ cs.head? = some '\'') := fun both => quote both.1
  simp only [scanStep, rest, region, scanSingleQuote, if_neg escape, if_neg noPair, if_neg quote]
  rfl

/-- A doubled quote is passed over as a pair. -/
theorem singleQuote_leaves_pair {eString : Bool} {cs : Text} {s : ScanState} {n : Nat}
    (region : s.region = .singleQuote eString) (rest : s.rest = '\'' :: '\'' :: cs)
    (next : ∀ t : ScanState, t.region = .singleQuote eString → t.rest = cs →
      Leaves filler '\'' n t) : Leaves filler '\'' (2 + n) s := by
  refine Leaves.stay region ?_ fun t now _ left => next t now (by rw [left, rest]; rfl)
  simp [scanStep, rest, region, scanSingleQuote]

theorem singleQuote_leaves_close {eString : Bool} {d : Char} {cs : Text} {s : ScanState}
    (region : s.region = .singleQuote eString) (rest : s.rest = '\'' :: d :: cs)
    (single : d ≠ '\'') : Leaves filler '\'' 1 s := by
  refine Leaves.closeHidden ?_ (by rw [rest]; rfl)
  rw [scanStep_singleQuote region rest, scanSingleQuote, if_neg (by simp),
    if_neg (by simp [single]), if_pos rfl]
  rfl

theorem singleQuote_leaves (cs : Text) (s : ScanState) (region : s.region = .singleQuote false)
    (rest : s.rest = cs) : Leaves filler '\'' (quotedLen '\'' cs) s := by
  induction cs using quotedLen.induct (q := '\'') generalizing s with
  | case1 => exact Leaves.done rest
  | case2 c => exact singleQuote_leaves_last false c s region rest
  | case3 cs ih =>
    rw [quotedLen, if_pos rfl, if_pos rfl]
    exact singleQuote_leaves_pair region rest ih
  | case4 d cs single =>
    rw [quotedLen, if_pos rfl, if_neg single]
    exact singleQuote_leaves_close region rest single
  | case5 c d cs other ih =>
    rw [quotedLen, if_neg other]
    exact singleQuote_leaves_char region rest (by simp) other ih

/-- The backslash escapes of an `E'..'` text: the escaped character and the one after it. -/
def escapes : Text → List (Char × Option Char)
  | [] => []
  | [_] => []
  | c :: d :: cs =>
    if c = '\\' then (d, cs.head?) :: escapes cs
    else if c = '\'' ∧ d = '\'' then escapes cs
    else escapes (d :: cs)

theorem escapes_cons {c : Char} (cs : Text) (backslash : c ≠ '\\') (quote : c ≠ '\'') :
    escapes (c :: cs) = escapes cs := by
  cases cs with
  | nil => rfl
  | cons d cs => rw [escapes, if_neg backslash, if_neg (fun both => quote both.1)]

theorem quotedLen_cons {q c : Char} (cs : Text) (other : c ≠ q) :
    quotedLen q (c :: cs) = 1 + quotedLen q cs := by
  cases cs with
  | nil => rfl
  | cons d cs => rw [quotedLen, if_neg other]

theorem head?_take_escapedLen (cs : Text) :
    (cs.take (escapedLen cs)).head? = cs.head? := by
  cases cs with
  | nil => rfl
  | cons c cs =>
    have positive : escapedLen (c :: cs) ≠ 0 := by
      cases cs with
      | nil => simp [escapedLen]
      | cons d cs =>
        rw [escapedLen]
        split_ifs <;> omega
    rw [List.head?_take, if_neg positive]

/-- The scanner reads an `E'..'` text as PostgreSQL does unless a quote directly follows an
escaped backslash. -/
theorem eString_leaves (cs : Text) (s : ScanState) (region : s.region = .singleQuote true)
    (rest : s.rest = cs)
    (clean : ∀ pair ∈ escapes (cs.take (escapedLen cs)), pair ≠ ('\\', some '\'')) :
    Leaves filler '\'' (escapedLen cs) s := by
  induction cs using escapedLen.induct generalizing s with
  | case1 => exact Leaves.done rest
  | case2 c => exact singleQuote_leaves_last true c s region rest
  | case3 d cs ih =>
    have len : escapedLen ('\\' :: d :: cs) = 2 + escapedLen cs := by rw [escapedLen, if_pos rfl]
    rw [len] at clean ⊢
    rw [Nat.add_comm, List.take_succ_cons, List.take_succ_cons, escapes, if_pos rfl,
      head?_take_escapedLen] at clean
    have later : ∀ t : ScanState, t.region = .singleQuote true → t.rest = cs →
        Leaves filler '\'' (escapedLen cs) t := fun t now left =>
      ih t now left fun pair member => clean pair (List.mem_cons_of_mem _ member)
    by_cases quote : d = '\''
    · refine Leaves.stay region ?_ fun t now _ left => later t now (by rw [left, rest]; rfl)
      simp [scanStep, rest, region, scanSingleQuote, quote]
    · -- The backslash and the character it escapes are passed over one by one.
      have split : 2 + escapedLen cs = 1 + (1 + escapedLen cs) := by omega
      rw [split]
      refine singleQuote_leaves_char region rest (by simp [quote]) (by decide) fun t now left => ?_
      refine singleQuote_leaves_char now left ?_ quote later
      rintro ⟨rfl, -, head⟩
      exact clean _ List.mem_cons_self (by rw [head])
  | case4 cs backslash ih =>
    have len : escapedLen ('\'' :: '\'' :: cs) = 2 + escapedLen cs := by
      rw [escapedLen, if_neg backslash, if_pos rfl, if_pos rfl]
    rw [len] at clean ⊢
    rw [Nat.add_comm, List.take_succ_cons, List.take_succ_cons, escapes, if_neg backslash,
      if_pos ⟨rfl, rfl⟩] at clean
    exact singleQuote_leaves_pair region rest fun t now left => ih t now left clean
  | case5 d cs single backslash =>
    rw [escapedLen, if_neg backslash, if_pos rfl, if_neg single]
    exact singleQuote_leaves_close region rest single
  | case6 c d cs backslash quote ih =>
    have len : escapedLen (c :: d :: cs) = 1 + escapedLen (d :: cs) := by
      rw [escapedLen, if_neg backslash, if_neg quote]
    rw [len] at clean ⊢
    rw [Nat.add_comm, List.take_succ_cons, escapes_cons _ backslash quote] at clean
    exact singleQuote_leaves_char region rest (fun both => backslash both.1) quote
      fun t now left => ih t now left clean

/-- Without an escaped quote the escapes of a text do not move its end. -/
theorem quotedLen_eq_escapedLen (cs : Text)
    (clean : ∀ pair ∈ escapes (cs.take (escapedLen cs)), pair.1 ≠ '\'') :
    quotedLen '\'' cs = escapedLen cs := by
  induction cs using escapedLen.induct with
  | case1 => rfl
  | case2 c => rfl
  | case3 d cs ih =>
    have len : escapedLen ('\\' :: d :: cs) = 2 + escapedLen cs := by rw [escapedLen, if_pos rfl]
    rw [len] at clean ⊢
    rw [Nat.add_comm, List.take_succ_cons, List.take_succ_cons, escapes, if_pos rfl] at clean
    have quote : d ≠ '\'' := clean _ List.mem_cons_self
    rw [quotedLen_cons _ (by decide), quotedLen_cons _ quote,
      ih fun pair member => clean pair (List.mem_cons_of_mem _ member)]
    omega
  | case4 cs backslash ih =>
    have len : escapedLen ('\'' :: '\'' :: cs) = 2 + escapedLen cs := by
      rw [escapedLen, if_neg backslash, if_pos rfl, if_pos rfl]
    rw [len] at clean ⊢
    rw [Nat.add_comm, List.take_succ_cons, List.take_succ_cons, escapes, if_neg backslash,
      if_pos ⟨rfl, rfl⟩] at clean
    rw [quotedLen, if_pos rfl, if_pos rfl, ih clean]
  | case5 d cs single backslash =>
    rw [escapedLen, if_neg backslash, if_pos rfl, if_neg single, quotedLen, if_pos rfl,
      if_neg single]
  | case6 c d cs backslash quote ih =>
    have len : escapedLen (c :: d :: cs) = 1 + escapedLen (d :: cs) := by
      rw [escapedLen, if_neg backslash, if_neg quote]
    rw [len] at clean ⊢
    rw [Nat.add_comm, List.take_succ_cons, escapes_cons _ backslash quote] at clean
    rw [quotedLen_cons _ quote, ih clean]

/-! ## Characters of code -/

theorem plain_of_numberCont {c : Char} (cs : Text) (word : isNumberCont c = true) :
    Plain c cs := by
  refine ⟨?_, ?_, ?_, ?_, ?_, ?_⟩
  · rintro rfl
    exact absurd word (by decide)
  · rintro rfl
    exact absurd word (by decide)
  · rintro ⟨rfl, -⟩
    exact absurd word (by decide)
  · rintro ⟨rfl, -⟩
    exact absurd word (by decide)
  · rintro rfl
    exact absurd word (by decide)
  · rintro rfl
    exact absurd word (by decide)

theorem numberCont_of_tagCont {c : Char} (tag : isTagCont c = true) : isNumberCont c = true := by
  rw [isNumberCont, tag, Bool.true_or]

theorem tagCont_of_identStart {c : Char} (start : isIdentStart c = true) :
    isTagCont c = true := by
  unfold isIdentStart at start
  unfold isTagCont Char.isAlphanum
  grind

/-- The scanner walks through the characters of an identifier. -/
theorem ident_run (cs : Text) (s : ScanState) (region : s.region = .code)
    (inside : s.inIdent = true) (rest : s.rest = cs) :
    ∃ t, Reaches scanStep s t ∧ t.region = .code ∧
      Passed (fun c => [c]) (cs.takeWhile isIdentCont).length s t := by
  induction cs generalizing s with
  | nil => exact ⟨s, Reaches.refl s, region, Passed.zero _ s⟩
  | cons c cs ih =>
    by_cases cont : isIdentCont c = true
    · have turn : scanStep s = pushVisibleChar s := by
        by_cases dollar : c = '$'
        · simp only [scanStep, rest, region, inside, dollar, and_self, if_true]
        · have tag : isTagCont c = true := by
            simpa [isIdentCont, dollar] using cont
          have flag : continuesIdent s.inIdent c = s.inIdent := by
            rw [inside]
            exact cont
          rw [scanStep_plain region rest (plain_of_numberCont cs (numberCont_of_tagCont tag)),
            flag]
      have passed : Passed (fun c => [c]) 1 s (scanStep s) := by
        rw [turn]
        exact pushVisibleChar_passed s
      obtain ⟨t, run, now, later⟩ := ih (scanStep s)
        (by rw [turn, (pushVisibleChar_frame s).1, region])
        (by rw [turn, (pushVisibleChar_frame s).2, inside])
        (by rw [passed.2.1, rest]; rfl)
      refine ⟨t, run.head, now, ?_⟩
      rw [List.takeWhile_cons_of_pos cont, List.length_cons, Nat.add_comm]
      exact passed.trans later
    · refine ⟨s, Reaches.refl s, region, ?_⟩
      rw [List.takeWhile_cons_of_neg cont]
      exact Passed.zero _ s

/-- The scanner walks through a run of word characters and dots; the identifier flag is raised
only by a character that can start an identifier. -/
theorem word_run (word : Char → Bool) (words : ∀ c, word c = true → isNumberCont c = true)
    (cs : Text) (s : ScanState) (region : s.region = .code) (rest : s.rest = cs) :
    ∃ t, Reaches scanStep s t ∧ t.region = .code ∧
      Passed (fun c => [c]) (cs.takeWhile word).length s t ∧
      (t.inIdent = true → s.inIdent = true ∨ (cs.takeWhile word).any isIdentStart = true) := by
  induction cs generalizing s with
  | nil => exact ⟨s, Reaches.refl s, region, Passed.zero _ s, Or.inl⟩
  | cons c cs ih =>
    by_cases cont : word c = true
    · have turn := scanStep_plain region rest (plain_of_numberCont cs (words c cont))
      have passed : Passed (fun c => [c]) 1 s (scanStep s) := by
        rw [turn]
        exact pushVisibleChar_passed _
      obtain ⟨t, run, now, later, flag⟩ := ih (scanStep s)
        (by rw [turn, (pushVisibleChar_frame _).1, region])
        (by rw [passed.2.1, rest]; rfl)
      refine ⟨t, run.head, now, ?_, ?_⟩
      · rw [List.takeWhile_cons_of_pos cont, List.length_cons, Nat.add_comm]
        exact passed.trans later
      · intro inside
        rw [List.takeWhile_cons_of_pos cont, List.any_cons, Bool.or_eq_true]
        rcases flag inside with raised | later
        · rw [turn, (pushVisibleChar_frame _).2] at raised
          cases current : s.inIdent with
          | true => exact Or.inl rfl
          | false =>
            rw [continuesIdent, current] at raised
            exact Or.inr (Or.inl raised)
        · exact Or.inr (Or.inr later)
    · refine ⟨s, Reaches.refl s, region, ?_, Or.inl⟩
      rw [List.takeWhile_cons_of_neg cont]
      exact Passed.zero _ s

/-! ## Tokens -/

/-- The mask of one token: literals and comments are blanked, the prefix letter of an `E'..'`
literal and quoted identifiers are not. -/
def tokenMask (token : Token) : Text :=
  match token.kind with
  | .string | .eSegment | .dollarString | .lineComment | .blockComment => blank token.text
  | .eString => token.text.take 1 ++ blank (token.text.drop 1)
  | _ => token.text

/-- An `E` or `e` that ends a longer word and does not follow an ASCII word character. -/
def endsInE (text : Text) : Bool :=
  match text.reverse with
  | e :: p :: _ => (e == 'E' || e == 'e') && !(p.isAlphanum || p == '_')
  | _ => false

/-- The token, followed by the given character, is none of the forms the scanner reads otherwise
than PostgreSQL does. -/
def tokenClean (token : Token) (next : Option Char) : Bool :=
  match token.kind with
  | .eString => (escapes (token.text.drop 2)).all fun pair => pair != ('\\', some '\'')
  | .eSegment => (escapes (token.text.drop 1)).all fun pair => pair.1 != '\''
  | .lineComment => token.text.getLast? != some '\r'
  | .ident => !(endsInE token.text && next == some '\'')
  | .number | .param =>
    !(endsInE token.text && next == some '\'') &&
      !(token.text.any isIdentStart && next == some '$')
  | _ => true

/-- The scanner stands between two tokens. -/
structure Boundary (s : ScanState) : Prop where
  region : s.rest ≠ [] → s.region = .code
  ident : ∀ c, s.rest.head? = some c → isIdentCont c = true → s.inIdent = false
  quote : s.rest.head? = some '\'' → isEStringPrefix s.before = false
  word : ∀ c, s.rest.head? = some c → isIdentStart c = true →
    ∀ p, s.before.head? = some p → isIdentCharByte p = false

theorem Boundary.start (sql : Text) : Boundary (ScanState.start sql) where
  region := fun _ => rfl
  ident := fun _ _ _ => rfl
  quote := fun _ => rfl
  word := fun _ _ _ _ none => nomatch none

theorem isEStringPrefix_cons {c : Char} (before : Text) (upper : c ≠ 'E') (lower : c ≠ 'e') :
    isEStringPrefix (c :: before) = false := by
  cases before with
  | nil => simp [isEStringPrefix, upper, lower]
  | cons p before => simp [isEStringPrefix, upper, lower]

theorem Boundary.of_last {s : ScanState} (last : Char) (region : s.region = .code)
    (ident : s.inIdent = false) (head : s.before.head? = some last)
    (apart : isIdentCharByte last = false) : Boundary s := by
  obtain ⟨before, eq⟩ := List.head?_eq_some_iff.mp head
  refine ⟨fun _ => region, fun _ _ _ => ident, fun _ => ?_, fun _ _ _ p found => ?_⟩
  · rw [eq]
    refine isEStringPrefix_cons before ?_ ?_
    · rintro rfl
      exact absurd apart (by decide)
    · rintro rfl
      exact absurd apart (by decide)
  · rw [head] at found
    cases found
    exact apart

theorem Boundary.of_empty {s : ScanState} (empty : s.rest = []) : Boundary s where
  region := fun some => absurd empty some
  ident := fun _ head => by simp [empty] at head
  quote := fun head => by simp [empty] at head
  word := fun _ head => by simp [empty] at head

theorem Boundary.of_closed {s : ScanState} {closer : Char} (closed : Closed closer s)
    (apart : isIdentCharByte closer = false) : Boundary s := by
  rcases closed with empty | ⟨region, ident, head⟩
  · exact Boundary.of_empty empty
  · exact Boundary.of_last closer region ident head apart

/-- The scanner goes from one boundary to the next by consuming exactly the token. -/
structure Consumed (token : Token) (s t : ScanState) : Prop where
  run : Reaches scanStep s t
  before : t.before = token.text.reverse ++ s.before
  rest : s.rest = token.text ++ t.rest
  masked : t.masked = s.masked ++ tokenMask token
  semicolons : t.semicolons =
    s.semicolons ++ if token.kind = .semicolon then [s.pos] else []
  boundary : Boundary t

theorem Consumed.of_hidden {kind : Kind} {n : Nat} {s t : ScanState}
    (run : Reaches scanStep s t) (passed : Passed filler n s t) (boundary : Boundary t)
    (mask : ∀ text, tokenMask { kind := kind, text := text } = blank text)
    (other : kind ≠ .semicolon) :
    Consumed { kind := kind, text := s.rest.take n } s t where
  run := run
  before := passed.1
  rest := by rw [passed.2.1, List.take_append_drop]
  masked := by rw [passed.2.2.1, mask]; rfl
  semicolons := by rw [passed.2.2.2, if_neg other, List.append_nil]
  boundary := boundary

theorem Consumed.of_visible {kind : Kind} {n : Nat} {s t : ScanState}
    (run : Reaches scanStep s t) (passed : Passed (fun c => [c]) n s t) (boundary : Boundary t)
    (mask : ∀ text, tokenMask { kind := kind, text := text } = text)
    (other : kind ≠ .semicolon) :
    Consumed { kind := kind, text := s.rest.take n } s t where
  run := run
  before := passed.1
  rest := by rw [passed.2.1, List.take_append_drop]
  masked := by rw [passed.2.2.1, mask, List.flatMap_singleton']
  semicolons := by rw [passed.2.2.2, if_neg other, List.append_nil]
  boundary := boundary

theorem continuesIdent_false {s : ScanState} {c : Char} {cs : Text} (boundary : Boundary s)
    (rest : s.rest = c :: cs) (start : isIdentStart c = false) :
    continuesIdent s.inIdent c = false := by
  cases flag : s.inIdent with
  | false => exact start
  | true =>
    have cont : isIdentCont c ≠ true := by
      intro cont
      have lowered := boundary.ident c (by rw [rest]; rfl) cont
      rw [flag] at lowered
      cases lowered
    exact Bool.eq_false_iff.mpr cont

theorem visible_consumed (kind : Kind) {s : ScanState} {c : Char} {cs : Text}
    (rest : s.rest = c :: cs) (turn : scanStep s = pushVisibleChar { s with inIdent := false })
    (region : s.region = .code) (apart : isIdentCharByte c = false)
    (mask : ∀ text, tokenMask { kind := kind, text := text } = text)
    (other : kind ≠ .semicolon) :
    ∃ t, Consumed { kind := kind, text := (c :: cs).take 1 } s t := by
  have passed : Passed (fun c => [c]) 1 s (scanStep s) := by
    rw [turn]
    exact pushVisibleChar_passed _
  refine ⟨scanStep s, ?_⟩
  rw [← rest]
  refine Consumed.of_visible (Reaches.single s) passed ?_ mask other
  refine Boundary.of_last c ?_ ?_ ?_ apart
  · rw [turn, (pushVisibleChar_frame _).1, region]
  · rw [turn, (pushVisibleChar_frame _).2]
  · rw [passed.1, rest]
    rfl

/-- A character of code that is a token of its own. -/
theorem plain_consumed {kind : Kind} {s : ScanState} {c : Char} {cs : Text}
    (boundary : Boundary s) (rest : s.rest = c :: cs) (plain : Plain c cs)
    (start : isIdentStart c = false) (apart : isIdentCharByte c = false)
    (mask : ∀ text, tokenMask { kind := kind, text := text } = text)
    (other : kind ≠ .semicolon) :
    ∃ t, Consumed { kind := kind, text := (c :: cs).take 1 } s t := by
  have region := boundary.region (by simp [rest])
  have turn := scanStep_plain region rest plain
  rw [continuesIdent_false boundary rest start] at turn
  exact visible_consumed kind rest turn region apart mask other

theorem semicolon_consumed {s : ScanState} {cs : Text} (boundary : Boundary s)
    (rest : s.rest = ';' :: cs) :
    ∃ t, Consumed { kind := .semicolon, text := (';' :: cs).take 1 } s t := by
  have region := boundary.region (by simp [rest])
  have turn : scanStep s = pushVisibleChar { s with
      inIdent := continuesIdent s.inIdent ';', semicolons := s.semicolons ++ [s.pos] } := by
    rw [scanStep_code region rest (by simp)]
    rfl
  have passed := pushVisibleChar_passed { s with
    inIdent := continuesIdent s.inIdent ';', semicolons := s.semicolons ++ [s.pos] }
  rw [← turn] at passed
  obtain ⟨before, left, masked, semis⟩ := passed
  refine ⟨scanStep s, Reaches.single s, ?_, ?_, ?_, ?_, ?_⟩
  · rw [before]
    simp only [rest]
  · rw [left]
    simp only [rest]
    rfl
  · rw [masked]
    simp only [rest]
    rfl
  · rw [semis]
    rfl
  · refine Boundary.of_last ';' ?_ ?_ ?_ (by decide)
    · rw [turn, (pushVisibleChar_frame _).1, region]
    · rw [turn, (pushVisibleChar_frame _).2]
      exact continuesIdent_false boundary rest (by decide)
    · rw [before]
      simp only [rest]
      rfl

/-- A region opened by hidden characters and left at its closer is one hidden token. -/
theorem Consumed.of_leaves {kind : Kind} {closer : Char} {m n : Nat} {s : ScanState}
    (passed : Passed filler m s (scanStep s)) (leaves : Leaves filler closer n (scanStep s))
    (apart : isIdentCharByte closer = false)
    (mask : ∀ text, tokenMask { kind := kind, text := text } = blank text)
    (other : kind ≠ .semicolon) :
    ∃ t, Consumed { kind := kind, text := s.rest.take (m + n) } s t := by
  obtain ⟨t, run, later, closed⟩ := leaves
  exact ⟨t, Consumed.of_hidden run.head (passed.trans later) (Boundary.of_closed closed apart)
    mask other⟩

theorem scanStep_quote {s : ScanState} {cs : Text} (region : s.region = .code)
    (rest : s.rest = '\'' :: cs) :
    Passed filler 1 s (scanStep s) ∧
      (scanStep s).region = .singleQuote (isEStringPrefix s.before) ∧
      (scanStep s).rest = cs := by
  have turn := scanStep_code region rest (by simp)
  rw [scanCode, if_pos rfl] at turn
  have passed : Passed filler 1 s (scanStep s) := by
    rw [turn]
    exact pushHiddenChar_passed { s with
      inIdent := continuesIdent s.inIdent '\'',
      openHidden := some (if isEStringPrefix s.before then s.pos - 1 else s.pos, .literal) }
  refine ⟨passed, by rw [turn], ?_⟩
  rw [passed.2.1, rest]
  rfl

theorem string_consumed {s : ScanState} {cs : Text} (boundary : Boundary s)
    (rest : s.rest = '\'' :: cs) :
    ∃ t, Consumed
      { kind := .string, text := ('\'' :: cs).take (1 + quotedLen '\'' cs) } s t := by
  obtain ⟨passed, region, left⟩ := scanStep_quote (boundary.region (by simp [rest])) rest
  rw [boundary.quote (by rw [rest]; rfl)] at region
  rw [← rest]
  exact Consumed.of_leaves passed (singleQuote_leaves cs _ region left) (by decide)
    (fun _ => rfl) (by decide)

theorem eSegment_consumed {s : ScanState} {cs : Text} (boundary : Boundary s)
    (rest : s.rest = '\'' :: cs)
    (clean : ∀ pair ∈ escapes (cs.take (escapedLen cs)), pair.1 ≠ '\'') :
    ∃ t, Consumed { kind := .eSegment, text := ('\'' :: cs).take (1 + escapedLen cs) } s t := by
  obtain ⟨passed, region, left⟩ := scanStep_quote (boundary.region (by simp [rest])) rest
  rw [boundary.quote (by rw [rest]; rfl)] at region
  rw [← rest, ← quotedLen_eq_escapedLen cs clean]
  exact Consumed.of_leaves passed (singleQuote_leaves cs _ region left) (by decide)
    (fun _ => rfl) (by decide)

theorem eString_consumed {s : ScanState} {e : Char} {cs : Text} (boundary : Boundary s)
    (letter : e = 'E' ∨ e = 'e') (rest : s.rest = e :: '\'' :: cs)
    (clean : ∀ pair ∈ escapes (cs.take (escapedLen cs)), pair ≠ ('\\', some '\'')) :
    ∃ t, Consumed
      { kind := .eString, text := (e :: '\'' :: cs).take (2 + escapedLen cs) } s t := by
  have word : isNumberCont e = true := by
    rcases letter with rfl | rfl <;> decide
  have start : isIdentStart e = true := by
    rcases letter with rfl | rfl <;> decide
  have region := boundary.region (by simp [rest])
  have turn := scanStep_plain region rest (plain_of_numberCont _ word)
  have shown := pushVisibleChar_passed { s with inIdent := continuesIdent s.inIdent e }
  rw [← turn] at shown
  obtain ⟨before, left, masked, semis⟩ := shown
  have left' : (scanStep s).rest = '\'' :: cs := by
    rw [left]
    simp only [rest]
    rfl
  have before' : (scanStep s).before = e :: s.before := by
    rw [before]
    simp only [rest]
    rfl
  have region' : (scanStep s).region = .code := by
    rw [turn, (pushVisibleChar_frame _).1, region]
  -- The letter stands at a token boundary, so the scanner takes it for a prefix too.
  have marked : isEStringPrefix (scanStep s).before = true := by
    rw [before']
    cases prior : s.before with
    | nil => rcases letter with rfl | rfl <;> rfl
    | cons p ps =>
      have apart := boundary.word e (by rw [rest]; rfl) start p (by rw [prior]; rfl)
      rcases letter with rfl | rfl <;> simp [isEStringPrefix, apart]
  obtain ⟨passed, quoted, body⟩ := scanStep_quote region' left'
  rw [marked] at quoted
  obtain ⟨t, run, later, closed⟩ := eString_leaves cs _ quoted body clean
  have hidden := passed.trans later
  have taken : (e :: '\'' :: cs).take (2 + escapedLen cs) =
      e :: ('\'' :: cs).take (1 + escapedLen cs) := by
    rw [show 2 + escapedLen cs = (1 + escapedLen cs) + 1 by omega, List.take_succ_cons]
  refine ⟨t, run.head.head, ?_, ?_, ?_, ?_, Boundary.of_closed closed (by decide)⟩
  · rw [hidden.1, left', before', taken]
    simp
  · rw [hidden.2.1, left', taken, List.cons_append, List.take_append_drop, rest]
  · rw [hidden.2.2.1, left', masked, taken]
    simp only [rest]
    simp [tokenMask, blank]
  · rw [hidden.2.2.2, semis]
    simp

theorem quotedIdent_consumed {s : ScanState} {cs : Text} (boundary : Boundary s)
    (rest : s.rest = '"' :: cs) :
    ∃ t, Consumed
      { kind := .quotedIdent, text := ('"' :: cs).take (1 + quotedLen '"' cs) } s t := by
  have turn := scanStep_code (boundary.region (by simp [rest])) rest (by simp)
  rw [scanCode, if_neg (by decide), if_pos rfl] at turn
  have passed : Passed (fun c => [c]) 1 s (scanStep s) := by
    rw [turn]
    exact pushVisibleChar_passed { s with inIdent := continuesIdent s.inIdent '"' }
  obtain ⟨t, run, later, closed⟩ := doubleQuote_leaves cs (scanStep s) (by rw [turn])
    (by rw [passed.2.1, rest]; rfl)
  refine ⟨t, ?_⟩
  rw [← rest]
  exact Consumed.of_visible run.head (passed.trans later)
    (Boundary.of_closed closed (by decide)) (fun _ => rfl) (by decide)

theorem lineComment_consumed {s : ScanState} {cs : Text} (boundary : Boundary s)
    (rest : s.rest = '-' :: '-' :: cs)
    (clean : (cs.take (lineLen cs)).getLast? ≠ some '\r') :
    ∃ t, Consumed
      { kind := .lineComment, text := ('-' :: '-' :: cs).take (2 + lineLen cs) } s t := by
  have turn := scanStep_code (boundary.region (by simp [rest])) rest (by simp)
  rw [scanCode, if_neg (by decide), if_neg (by decide), if_pos (by simp)] at turn
  have passed : Passed filler 2 s (scanStep s) := by
    rw [turn]
    exact pushHiddenChars_passed 2 { s with
      inIdent := continuesIdent s.inIdent '-', openHidden := some (s.pos, .comment) }
  rw [← rest]
  exact Consumed.of_leaves passed
    (lineComment_leaves cs (scanStep s) (by rw [turn]) (by rw [passed.2.1, rest]; rfl) clean)
    (by decide) (fun _ => rfl) (by decide)

theorem blockComment_consumed {s : ScanState} {cs : Text} (boundary : Boundary s)
    (rest : s.rest = '/' :: '*' :: cs) :
    ∃ t, Consumed
      { kind := .blockComment, text := ('/' :: '*' :: cs).take (2 + blockLen 1 cs) } s t := by
  have turn := scanStep_code (boundary.region (by simp [rest])) rest (by simp)
  rw [scanCode, if_neg (by decide), if_neg (by decide), if_neg (by simp), if_pos (by simp)] at turn
  have passed : Passed filler 2 s (scanStep s) := by
    rw [turn]
    exact pushHiddenChars_passed 2 { s with
      inIdent := continuesIdent s.inIdent '/', openHidden := some (s.pos, .comment) }
  rw [← rest]
  exact Consumed.of_leaves passed
    (blockComment_leaves 1 cs (scanStep s) (by rw [turn]) (by rw [passed.2.1, rest]; rfl))
    (by decide) (fun _ => rfl) (by decide)

theorem dollarQuoteTag_eq (text : Text) : dollarQuoteTag text = dollarDelimiter text := rfl

theorem scanStep_dollar {s : ScanState} {cs : Text} (boundary : Boundary s)
    (rest : s.rest = '$' :: cs) :
    scanStep s = match dollarDelimiter ('$' :: cs) with
      | some delimiter =>
        { pushHiddenChars delimiter.length { s with
            inIdent := false, openHidden := some (s.pos, .literal) } with
          dollarTag := delimiter, region := .dollarQuote }
      | none => pushVisibleChar { s with inIdent := false } := by
  have flag := boundary.ident '$' (by rw [rest]; rfl) (by decide)
  have turn := scanStep_code (boundary.region (by simp [rest])) rest (by simp [flag])
  rw [scanCode, if_neg (by decide), if_neg (by decide), if_neg (by simp), if_neg (by simp),
    if_pos rfl, continuesIdent_false boundary rest (by decide), dollarQuoteTag_eq] at turn
  exact turn

theorem dollarString_consumed {s : ScanState} {cs delimiter : Text} (boundary : Boundary s)
    (rest : s.rest = '$' :: cs) (found : dollarDelimiter ('$' :: cs) = some delimiter) :
    ∃ t, Consumed
      { kind := .dollarString, text := ('$' :: cs).take
          (delimiter.length + dollarLen delimiter (('$' :: cs).drop delimiter.length)) } s t := by
  have turn := scanStep_dollar boundary rest
  rw [found] at turn
  have passed : Passed filler delimiter.length s (scanStep s) := by
    rw [turn]
    exact pushHiddenChars_passed delimiter.length { s with
      inIdent := false, openHidden := some (s.pos, .literal) }
  obtain ⟨opens, closes⟩ := dollarDelimiter_shape found
  rw [← rest]
  exact Consumed.of_leaves passed
    (dollarQuote_leaves delimiter opens closes _ (scanStep s) (by rw [turn]) (by rw [turn])
      passed.2.1)
    (by decide) (fun _ => rfl) (by decide)

theorem isEStringPrefix_word (text before : Text) (some : text ≠ []) (long : endsInE text = false)
    (upper : text ≠ ['E']) (lower : text ≠ ['e']) :
    isEStringPrefix (text.reverse ++ before) = false := by
  unfold endsInE at long
  cases reversed : text.reverse with
  | nil => exact absurd (List.reverse_eq_nil_iff.mp reversed) some
  | cons e ps =>
    cases ps with
    | nil =>
      have single : text = [e] := by
        rw [← List.reverse_reverse text, reversed]
        rfl
      refine isEStringPrefix_cons before ?_ ?_
      · rintro rfl
        exact upper single
      · rintro rfl
        exact lower single
    | cons p ps =>
      rw [reversed] at long
      exact long

theorem Boundary.of_word {s t : ScanState} {text : Text} (region : t.region = .code)
    (before : t.before = text.reverse ++ s.before)
    (ident : ∀ d, t.rest.head? = some d → isIdentCont d = true → t.inIdent = false)
    (word : ∀ d, t.rest.head? = some d → isIdentStart d = false)
    (quote : t.rest.head? = some '\'' →
      text ≠ [] ∧ endsInE text = false ∧ text ≠ ['E'] ∧ text ≠ ['e']) : Boundary t where
  region := fun _ => region
  ident := ident
  quote := fun head => by
    obtain ⟨some, long, upper, lower⟩ := quote head
    rw [before]
    exact isEStringPrefix_word text s.before some long upper lower
  word := fun d head start => by
    rw [word d head] at start
    cases start

/-- The character after a maximal run is not of the run. -/
theorem head?_drop_takeWhile {word : Char → Bool} {cs : Text} {d : Char}
    (head : (cs.drop (cs.takeWhile word).length).head? = some d) : word d = false := by
  induction cs with
  | nil => simp at head
  | cons c cs ih =>
    by_cases cont : word c = true
    · rw [List.takeWhile_cons_of_pos cont] at head
      exact ih head
    · rw [List.takeWhile_cons_of_neg cont] at head
      cases head
      exact Bool.eq_false_iff.mpr cont

theorem take_takeWhile (word : Char → Bool) (c : Char) (cs : Text) :
    (c :: cs).take (1 + (cs.takeWhile word).length) = c :: cs.takeWhile word := by
  rw [Nat.add_comm, List.take_succ_cons,
    ← List.prefix_iff_eq_take.mp (List.takeWhile_prefix word)]

theorem ident_consumed {s : ScanState} {c : Char} {cs : Text} (boundary : Boundary s)
    (rest : s.rest = c :: cs) (start : isIdentStart c = true)
    (notPrefix : ¬((c = 'E' ∨ c = 'e') ∧ cs.head? = some '\''))
    (clean : tokenClean
      { kind := .ident, text := (c :: cs).take (1 + (cs.takeWhile isIdentCont).length) }
      ((c :: cs).drop (1 + (cs.takeWhile isIdentCont).length)).head? = true) :
    ∃ t, Consumed
      { kind := .ident, text := (c :: cs).take (1 + (cs.takeWhile isIdentCont).length) } s t := by
  have region := boundary.region (by simp [rest])
  have tag := tagCont_of_identStart start
  have turn := scanStep_plain region rest (plain_of_numberCont cs (numberCont_of_tagCont tag))
  have raised : continuesIdent s.inIdent c = true := by
    have cont : isPgIdentCont c = true := by
      change (isTagCont c || c == '$') = true
      rw [tag, Bool.true_or]
    cases s.inIdent with
    | false => exact start
    | true => exact cont
  have passed : Passed (fun c => [c]) 1 s (scanStep s) := by
    rw [turn]
    exact pushVisibleChar_passed _
  obtain ⟨t, run, code, later⟩ := ident_run cs (scanStep s)
    (by rw [turn, (pushVisibleChar_frame _).1, region])
    (by rw [turn, (pushVisibleChar_frame _).2, raised])
    (by rw [passed.2.1, rest]; rfl)
  have whole := passed.trans later
  have after : t.rest = (c :: cs).drop (1 + (cs.takeWhile isIdentCont).length) := by
    rw [whole.2.1, rest]
  have outside : ∀ d, t.rest.head? = some d → isIdentCont d = false := by
    intro d head
    rw [after, Nat.add_comm, List.drop_succ_cons] at head
    exact head?_drop_takeWhile head
  refine ⟨t, ?_⟩
  rw [← rest]
  refine Consumed.of_visible run.head whole ?_ (fun _ => rfl) (by decide)
  refine Boundary.of_word (s := s) code whole.1 ?_ ?_ ?_
  · intro d head cont
    rw [outside d head] at cont
    cases cont
  · intro d head
    by_contra starts
    have cont : isIdentCont d = true := by
      rw [isIdentCont, tagCont_of_identStart (by simpa using starts), Bool.true_or]
    rw [outside d head] at cont
    cases cont
  · intro head
    rw [rest, take_takeWhile]
    rw [take_takeWhile, ← after, head] at clean
    have single : c :: cs.takeWhile isIdentCont = [c] → cs.head? = some '\'' := by
      intro alone
      rw [← head, after, Nat.add_comm, List.drop_succ_cons, (List.cons.inj alone).2]
      rfl
    refine ⟨by simp, ?_, ?_, ?_⟩
    · simpa [tokenClean] using clean
    · intro alone
      have letter := (List.cons.inj alone).1
      exact notPrefix ⟨Or.inl letter, single (by rw [alone, letter])⟩
    · intro alone
      have letter := (List.cons.inj alone).1
      exact notPrefix ⟨Or.inr letter, single (by rw [alone, letter])⟩

/-- A number or a parameter: a first character that cannot start an identifier and a run. -/
theorem run_consumed (kind : Kind) (word : Char → Bool)
    (words : ∀ c, word c = true → isNumberCont c = true)
    (tags : ∀ c, isTagCont c = true → word c = true) {s : ScanState} {c : Char} {cs : Text}
    (rest : s.rest = c :: cs) (notUpper : c ≠ 'E') (notLower : c ≠ 'e')
    (turn : scanStep s = pushVisibleChar { s with inIdent := false }) (region : s.region = .code)
    (mask : ∀ text, tokenMask { kind := kind, text := text } = text)
    (other : kind ≠ .semicolon)
    (clean : ∀ next, tokenClean { kind := kind, text := c :: cs.takeWhile word } next = true →
      ¬(endsInE (c :: cs.takeWhile word) = true ∧ next = some '\'') ∧
        ¬((cs.takeWhile word).any isIdentStart = true ∧ next = some '$'))
    (holds : tokenClean
      { kind := kind, text := (c :: cs).take (1 + (cs.takeWhile word).length) }
      ((c :: cs).drop (1 + (cs.takeWhile word).length)).head? = true) :
    ∃ t, Consumed
      { kind := kind, text := (c :: cs).take (1 + (cs.takeWhile word).length) } s t := by
  have passed : Passed (fun c => [c]) 1 s (scanStep s) := by
    rw [turn]
    exact pushVisibleChar_passed _
  obtain ⟨t, run, code, later, flag⟩ := word_run word words cs (scanStep s)
    (by rw [turn, (pushVisibleChar_frame _).1, region])
    (by rw [passed.2.1, rest]; rfl)
  rw [turn, (pushVisibleChar_frame _).2] at flag
  have whole := passed.trans later
  have after : t.rest = (c :: cs).drop (1 + (cs.takeWhile word).length) := by
    rw [whole.2.1, rest]
  have outside : ∀ d, t.rest.head? = some d → word d = false := by
    intro d head
    rw [after, Nat.add_comm, List.drop_succ_cons] at head
    exact head?_drop_takeWhile head
  rw [take_takeWhile, ← after] at holds
  obtain ⟨noPrefix, noDollar⟩ := clean _ holds
  refine ⟨t, ?_⟩
  rw [← rest]
  refine Consumed.of_visible run.head whole ?_ mask other
  refine Boundary.of_word (s := s) code whole.1 ?_ ?_ ?_
  · intro d head cont
    -- Only `$` continues an identifier without continuing the run.
    have dollar : d = '$' := by
      by_contra notDollar
      have inRun : word d = true := tags d (by simpa [isIdentCont, notDollar] using cont)
      rw [outside d head] at inRun
      cases inRun
    rw [Bool.eq_false_iff]
    intro inside
    rcases flag inside with raised | letters
    · cases raised
    · exact noDollar ⟨letters, by rw [head, dollar]⟩
  · intro d head
    by_contra starts
    have inRun := tags d (tagCont_of_identStart (by simpa using starts))
    rw [outside d head] at inRun
    cases inRun
  · intro head
    rw [rest, take_takeWhile]
    refine ⟨by simp, ?_, ?_, ?_⟩
    · rw [Bool.eq_false_iff]
      exact fun ends => noPrefix ⟨ends, head⟩
    · exact fun alone => notUpper (List.cons.inj alone).1
    · exact fun alone => notLower (List.cons.inj alone).1

theorem tokenClean_word {kind : Kind} (numeric : kind = .number ∨ kind = .param) {c : Char}
    {text : Text} {next : Option Char} (start : isIdentStart c = false)
    (clean : tokenClean { kind := kind, text := c :: text } next = true) :
    ¬(endsInE (c :: text) = true ∧ next = some '\'') ∧
      ¬(text.any isIdentStart = true ∧ next = some '$') := by
  have both : (!(endsInE (c :: text) && next == some '\'') &&
      !(text.any isIdentStart && next == some '$')) = true := by
    rcases numeric with rfl | rfl
    · simpa [tokenClean, start] using clean
    · simpa [tokenClean, start] using clean
  rw [Bool.and_eq_true, Bool.not_eq_true', Bool.not_eq_true'] at both
  refine ⟨fun ⟨ends, quote⟩ => ?_, fun ⟨letters, dollar⟩ => ?_⟩
  · simp [ends, quote] at both
  · rw [letters, dollar] at both
    exact absurd both.2 (by decide)

theorem number_consumed {s : ScanState} {c : Char} {cs : Text} (boundary : Boundary s)
    (rest : s.rest = c :: cs) (start : isIdentStart c = false) (digit : c.isDigit = true)
    (clean : tokenClean
      { kind := .number, text := (c :: cs).take (1 + (cs.takeWhile isNumberCont).length) }
      ((c :: cs).drop (1 + (cs.takeWhile isNumberCont).length)).head? = true) :
    ∃ t, Consumed
      { kind := .number, text := (c :: cs).take (1 + (cs.takeWhile isNumberCont).length) }
      s t := by
  have region := boundary.region (by simp [rest])
  have number : isNumberCont c = true := by
    simp [isNumberCont, isTagCont, Char.isAlphanum, digit]
  have turn := scanStep_plain region rest (plain_of_numberCont cs number)
  rw [continuesIdent_false boundary rest start] at turn
  refine run_consumed .number isNumberCont (fun _ h => h) (fun _ h => numberCont_of_tagCont h) rest
    ?_ ?_ turn region (fun _ => rfl) (by decide)
    (fun _ => tokenClean_word (Or.inl rfl) start) clean
  · rintro rfl
    exact absurd start (by decide)
  · rintro rfl
    exact absurd start (by decide)

theorem param_consumed {s : ScanState} {cs : Text} (boundary : Boundary s)
    (rest : s.rest = '$' :: cs) (digit : (cs.head?.map Char.isDigit).getD false = true)
    (clean : tokenClean
      { kind := .param, text := ('$' :: cs).take (1 + (cs.takeWhile isTagCont).length) }
      (('$' :: cs).drop (1 + (cs.takeWhile isTagCont).length)).head? = true) :
    ∃ t, Consumed
      { kind := .param, text := ('$' :: cs).take (1 + (cs.takeWhile isTagCont).length) }
      s t := by
  have turn := scanStep_dollar boundary rest
  have closed : dollarDelimiter ('$' :: cs) = none := by
    simp only [dollarDelimiter, if_pos digit]
  rw [closed] at turn
  exact run_consumed .param isTagCont (fun _ h => numberCont_of_tagCont h) (fun _ h => h) rest
    (by decide) (by decide) turn (boundary.region (by simp [rest])) (fun _ => rfl) (by decide)
    (fun _ => tokenClean_word (Or.inr rfl) (by decide)) clean

theorem apart_of_outside {c : Char} (start : isIdentStart c = false) (digit : c.isDigit = false) :
    isIdentCharByte c = false := by
  unfold isIdentStart at start
  unfold isIdentCharByte Char.isAlphanum
  grind

theorem outside_of_space {c : Char} (space : isSpace c = true) (cs : Text) :
    Plain c cs ∧ isIdentStart c = false ∧ isIdentCharByte c = false := by
  have cases : c = ' ' ∨ c = '\t' ∨ c = '\n' ∨ c = '\r' ∨ c = '\x0b' ∨ c = '\x0c' := by
    simpa [isSpace, or_assoc] using space
  rcases cases with rfl | rfl | rfl | rfl | rfl | rfl
  all_goals exact ⟨by simp [Plain], by decide, by decide⟩

/-- From a boundary the scanner consumes the token that PostgreSQL reads there. -/
theorem token_consumed (context : Context) {s : ScanState} {c : Char} {cs : Text}
    (boundary : Boundary s) (rest : s.rest = c :: cs)
    (clean : tokenClean
      { kind := (firstToken context c cs).1, text := (c :: cs).take (firstToken context c cs).2 }
      ((c :: cs).drop (firstToken context c cs).2).head? = true) :
    ∃ t, Consumed
      { kind := (firstToken context c cs).1,
        text := (c :: cs).take (firstToken context c cs).2 } s t := by
  have spec := firstToken_spec context c cs
  generalize firstToken context c cs = first at spec clean ⊢
  cases spec with
  | space space =>
    obtain ⟨plain, start, apart⟩ := outside_of_space space cs
    exact plain_consumed boundary rest plain start apart (fun _ => rfl) (by decide)
  | line =>
    refine lineComment_consumed boundary rest fun last => ?_
    simp only [tokenClean, bne_iff_ne, ne_eq] at clean
    apply clean
    rw [Nat.add_comm, List.take_succ_cons, List.take_succ_cons, List.getLast?_cons,
      List.getLast?_cons, last]
    rfl
  | block => exact blockComment_consumed boundary rest
  | segment =>
    refine eSegment_consumed boundary rest fun pair member => ?_
    simp only [tokenClean, List.all_eq_true, bne_iff_ne, ne_eq] at clean
    rw [Nat.add_comm, List.take_succ_cons] at clean
    exact clean pair member
  | string => exact string_consumed boundary rest
  | quotedIdent => exact quotedIdent_consumed boundary rest
  | eString letter =>
    refine eString_consumed boundary letter rest fun pair member => ?_
    simp only [tokenClean, List.all_eq_true, bne_iff_ne, ne_eq] at clean
    rw [Nat.add_comm, List.take_succ_cons, List.take_succ_cons] at clean
    exact clean pair member
  | ident start letter => exact ident_consumed boundary rest start letter clean
  | number start digit => exact number_consumed boundary rest start digit clean
  | param digit => exact param_consumed boundary rest digit clean
  | dollarString found => exact dollarString_consumed boundary rest found
  | dollar closed =>
    have turn := scanStep_dollar boundary rest
    rw [closed] at turn
    exact visible_consumed .other rest turn (boundary.region (by simp [rest])) (by decide)
      (fun _ => rfl) (by decide)
  | semicolon => exact semicolon_consumed boundary rest
  | single single =>
    exact plain_consumed boundary rest
      ⟨single.quote, single.double, single.line, single.block, single.dollar, single.semicolon⟩
      single.start (apart_of_outside single.start single.digit) (fun _ => rfl) (by decide)

/-! ## Agreement -/

/-- No token of the list is of a form that the scanner reads otherwise than PostgreSQL does. -/
def clean : List Token → Bool
  | [] => true
  | token :: tokens => tokenClean token (textOf tokens).head? && clean tokens

/-- The scanner has consumed the first tokens of what the lexer reads from `s` on. -/
structure Walked (tokens others : List Token) (s u : ScanState) : Prop where
  run : Reaches scanStep s u
  boundary : Boundary u
  before : u.before = (textOf tokens).reverse ++ s.before
  rest : u.rest = textOf others
  masked : u.masked = s.masked ++ tokens.flatMap tokenMask
  semicolons : u.semicolons = s.semicolons ++ separators s.pos tokens
  lexed : ∃ fuel context, u.rest.length ≤ fuel ∧ lexFrom fuel context u.rest = others

theorem Walked.nil {fuel : Nat} {context : Context} {s : ScanState} {others : List Token}
    (boundary : Boundary s) (enough : s.rest.length ≤ fuel)
    (lexed : lexFrom fuel context s.rest = others) : Walked [] others s s where
  run := Reaches.refl s
  boundary := boundary
  before := rfl
  rest := by rw [← lexed, lexFrom_text fuel context s.rest enough]
  masked := by simp
  semicolons := by simp [separators]
  lexed := ⟨fuel, context, enough, lexed⟩

theorem clean_append_right {first second : List Token} (holds : clean (first ++ second) = true) :
    clean second = true := by
  induction first with
  | nil => exact holds
  | cons token tokens ih =>
    rw [List.cons_append, clean, Bool.and_eq_true] at holds
    exact ih holds.2

theorem tokens_consumed (tokens rest : List Token) (fuel : Nat) (context : Context)
    (s : ScanState) (boundary : Boundary s) (enough : s.rest.length ≤ fuel)
    (lexed : lexFrom fuel context s.rest = tokens ++ rest)
    (holds : clean (tokens ++ rest) = true) : ∃ u, Walked tokens rest s u := by
  induction tokens generalizing fuel context s with
  | nil => exact ⟨s, Walked.nil boundary enough lexed⟩
  | cons token tokens ih =>
    obtain ⟨fuel, rfl⟩ : ∃ n, fuel = n + 1 := by
      cases fuel with
      | zero => simp [lexFrom] at lexed
      | succ n => exact ⟨n, rfl⟩
    cases left : s.rest with
    | nil =>
      rw [left] at lexed
      simp [lexFrom] at lexed
    | cons c cs =>
      rw [left] at enough lexed
      rw [lexFrom, List.cons_append, List.cons.injEq] at lexed
      obtain ⟨first, later⟩ := lexed
      rw [List.cons_append, clean, Bool.and_eq_true] at holds
      have positive := firstToken_pos context c cs
      have shorter : ((c :: cs).drop (firstToken context c cs).2).length ≤ fuel := by
        rw [List.length_drop]
        simp only [List.length_cons] at enough ⊢
        omega
      have text := lexFrom_text fuel (context.next
        { kind := (firstToken context c cs).1, text := (c :: cs).take (firstToken context c cs).2 })
        _ shorter
      rw [later] at text
      rw [text, ← first] at holds
      obtain ⟨t, consumed⟩ := token_consumed context boundary left holds.1
      rw [first] at consumed later
      have after : t.rest = (c :: cs).drop (firstToken context c cs).2 := by
        have split := consumed.rest
        rw [left, ← first] at split
        nth_rewrite 1 [← List.take_append_drop (firstToken context c cs).2 (c :: cs)] at split
        exact (List.append_cancel_left split).symm
      rw [← after] at shorter later
      obtain ⟨u, walked⟩ := ih fuel _ t consumed.boundary shorter later holds.2
      refine ⟨u, consumed.run.trans walked.run, walked.boundary, ?_, walked.rest, ?_, ?_,
        walked.lexed⟩
      · rw [walked.before, consumed.before, textOf_cons, List.reverse_append, List.append_assoc]
      · rw [walked.masked, consumed.masked, List.flatMap_cons, List.append_assoc]
      · have pos : t.pos = s.pos + byteLen token.text := by
          rw [ScanState.pos, consumed.before, byteLen_append, byteLen_reverse, Nat.add_comm]
          rfl
        rw [walked.semicolons, consumed.semicolons, pos, separators, List.append_assoc]

/-- The mask that blanks every literal, quoted identifier and comment. -/
def regionMask (token : Token) : Text :=
  match token.kind with
  | .string | .eString | .eSegment | .dollarString | .quotedIdent | .lineComment
  | .blockComment => blank token.text
  | _ => token.text

/-- The mask blanks exactly the literals, quoted identifiers and comments, and the separators are
PostgreSQL's. -/
def AgreesOnRegions (sql : Text) : Prop :=
  (scan sql).masked = (lex sql).flatMap regionMask ∧
    (scan sql).semicolons = separators 0 (lex sql)

theorem scan_eq (sql : Text) :
    (scan sql).masked = (scanEnd sql).masked ∧
      (scan sql).semicolons = (scanEnd sql).semicolons := by
  unfold scan closeHidden
  split
  · exact ⟨rfl, rfl⟩
  · exact ⟨rfl, rfl⟩

/-- The walk over the first tokens of a whole text. -/
theorem walked_of_clean {sql : Text} {tokens rest : List Token} (lexed : lex sql = tokens ++ rest)
    (holds : clean (lex sql) = true) : ∃ u, Walked tokens rest (ScanState.start sql) u :=
  tokens_consumed tokens rest sql.length .plain (ScanState.start sql) (Boundary.start sql)
    (Nat.le_refl _) lexed (lexed ▸ holds)

theorem scan_of_clean (sql : Text) (holds : clean (lex sql) = true) :
    (scan sql).masked = (lex sql).flatMap tokenMask ∧
      (scan sql).semicolons = separators 0 (lex sql) := by
  obtain ⟨u, walked⟩ := walked_of_clean (List.append_nil (lex sql)).symm holds
  obtain ⟨mask, semicolons⟩ := scan_eq sql
  rw [mask, semicolons, scanEnd_eq walked.run walked.rest]
  exact ⟨walked.masked, walked.semicolons⟩

/-- On a clean text the mask blanks exactly the literals and comments of PostgreSQL's lexer, and
the separators are those it sees. -/
theorem scan_agrees_with_postgres (sql : Text) (holds : clean (lex sql) = true) :
    (scan sql).masked = (lex sql).flatMap tokenMask ∧
      (scan sql).semicolons = separators 0 (lex sql) :=
  scan_of_clean sql holds

/-- A text with every kind of region and a separator inside each of them. -/
def regionSample : Text :=
  "E';\\';' \";\"\"\" /*;/*;*/;*/; $t$;$t$ ';''' x$t$; --;\n;".toList

theorem scan_agrees_with_postgres_on_sample :
    clean (lex regionSample) = true ∧
      (scan regionSample).masked = (lex regionSample).flatMap tokenMask ∧
      (scan regionSample).semicolons = separators 0 (lex regionSample) := by
  have holds : clean (lex regionSample) = true := by decide +kernel
  exact ⟨holds, scan_agrees_with_postgres regionSample holds⟩

theorem quotedIdent_not_blanked : ¬AgreesOnRegions ['"', 'a', '"'] := by
  unfold AgreesOnRegions
  decide +kernel

end FerroEngine.RegionScannerAgreement
