import FerroEngine.CopyShape
import FerroEngine.StatementReading

set_option autoImplicit false

/-! # What the COPY shape check admits

The tokens that `copy_direction` finds in the masked text against the tokens that PostgreSQL reads.
A literal leaves no trace in the mask, and the letters that are glued to a number stand there as a
word of their own.
-/

namespace FerroEngine.CopyShapeSoundness

open SourceText RegionScanner PostgresLexicalRules RegionScannerAgreement PinClassifier CopyShape
open StatementReading

/-! ## The tokenizer -/

theorem skipQuoted_shorter {text rest : Text} (found : skipQuoted text = some rest) :
    rest.length < text.length := by
  induction text using skipQuoted.induct with
  | case1 => cases found
  | case2 cs ih =>
    rw [skipQuoted] at found
    have shorter := ih found
    simp only [List.length_cons]
    omega
  | case3 cs other =>
    rw [skipQuoted] at found
    · cases found
      exact Nat.lt_succ_self _
    · exact other
  | case4 c cs first second ih =>
    rw [skipQuoted] at found
    · have shorter := ih found
      simp only [List.length_cons]
      omega
    · exact first
    · exact second

def punctuation (c : Char) : Tok :=
  if c = '(' then .open else if c = ')' then .close else if c = ';' then .semicolon else .other

theorem tokenizeLoop_out (fuel : Nat) (text : Text) (out : List Tok) :
    tokenizeLoop fuel text out = (tokenizeLoop fuel text []).map (out ++ ·) := by
  induction fuel generalizing text out with
  | zero => simp [tokenizeLoop]
  | succ fuel ih =>
    cases text with
    | nil => simp [tokenizeLoop]
    | cons c cs =>
      have grown : ∀ (rest : Text) (tok : Tok), tokenizeLoop fuel rest (out ++ [tok]) =
          (tokenizeLoop fuel rest ([] ++ [tok])).map (out ++ ·) := by
        intro rest tok
        rw [ih rest (out ++ [tok]), ih rest ([] ++ [tok]), Option.map_map]
        congr 1
        funext toks
        simp
      rw [tokenizeLoop, tokenizeLoop]
      split
      · exact ih cs out
      split
      · split
        · rfl
        · exact grown _ _
      split
      · exact grown _ _
      · exact grown _ _

theorem tokenizeLoop_fuel (fuel more : Nat) (text : Text) (out : List Tok)
    (enough : text.length ≤ fuel) (enough' : text.length ≤ more) :
    tokenizeLoop fuel text out = tokenizeLoop more text out := by
  induction fuel generalizing more text out with
  | zero =>
    have empty : text = [] := List.eq_nil_of_length_eq_zero (by omega)
    rw [empty]
    cases more with
    | zero => rfl
    | succ more => rfl
  | succ fuel ih =>
    cases text with
    | nil =>
      cases more with
      | zero => rfl
      | succ more => rfl
    | cons c cs =>
      rw [List.length_cons] at enough enough'
      obtain ⟨more, rfl⟩ := Nat.exists_eq_succ_of_ne_zero (show more ≠ 0 by omega)
      have dropped := (List.dropWhile_sublist isWordCont (l := cs)).length_le
      rw [tokenizeLoop, tokenizeLoop]
      split
      · exact ih more cs out (by omega) (by omega)
      split
      · split
        · rfl
        · rename_i rest found
          have shorter := skipQuoted_shorter found
          exact ih more rest _ (by omega) (by omega)
      split
      · exact ih more _ _ (by omega) (by omega)
      · exact ih more cs _ (by omega) (by omega)

theorem tokenizeLoop_eq (fuel : Nat) (text : Text) (out : List Tok)
    (enough : text.length ≤ fuel) :
    tokenizeLoop fuel text out = (tokenize text).map (out ++ ·) := by
  rw [tokenizeLoop_out, tokenize, tokenizeLoop_fuel fuel text.length text [] enough (Nat.le_refl _)]

theorem tokenize_nil : tokenize [] = some [] := rfl

theorem tokenize_space {c : Char} (space : isAsciiWhitespace c = true) (cs : Text) :
    tokenize (c :: cs) = tokenize cs := by
  rw [tokenize, List.length_cons, tokenizeLoop, if_pos space]
  rfl

theorem tokenize_quote (cs : Text) :
    tokenize ('"' :: cs) =
      (skipQuoted cs).bind fun rest => (tokenize rest).map (.quoted :: ·) := by
  rw [tokenize, List.length_cons, tokenizeLoop, if_neg (by decide), if_pos rfl]
  cases found : skipQuoted cs with
  | none => rfl
  | some rest =>
    have shorter := skipQuoted_shorter found
    exact tokenizeLoop_eq _ rest _ (by omega)

theorem tokenize_word {c : Char} (start : isWordStart c = true) (cs : Text) :
    tokenize (c :: cs) = (tokenize (cs.dropWhile isWordCont)).map
      (.word (toAsciiUppercase (c :: cs.takeWhile isWordCont)) :: ·) := by
  have space : ¬isAsciiWhitespace c = true := by
    intro space
    simp only [isAsciiWhitespace, Bool.or_eq_true, beq_iff_eq] at space
    rcases space with (((rfl | rfl) | rfl) | rfl) | rfl <;> exact absurd start (by decide)
  have quote : c ≠ '"' := by
    rintro rfl
    exact absurd start (by decide)
  have dropped := (List.dropWhile_sublist isWordCont (l := cs)).length_le
  rw [tokenize, List.length_cons, tokenizeLoop, if_neg space, if_neg quote, if_pos start]
  exact tokenizeLoop_eq _ _ _ dropped

theorem tokenize_other {c : Char} (space : isAsciiWhitespace c = false) (quote : c ≠ '"')
    (start : isWordStart c = false) (cs : Text) :
    tokenize (c :: cs) = (tokenize cs).map (punctuation c :: ·) := by
  rw [tokenize, List.length_cons, tokenizeLoop, if_neg (by simp [space]), if_neg quote,
    if_neg (by simp [start])]
  exact tokenizeLoop_eq _ _ _ (Nat.le_refl _)

/-- The tokens of a text that leaves no quoted identifier open. -/
def toks (text : Text) : List Tok :=
  (tokenize text).getD []

theorem toks_of {text : Text} {found : List Tok} (same : tokenize text = some found) :
    toks text = found := by
  rw [toks, same]
  rfl

theorem takeWhile_append_stops {p : Char → Bool} (front back : Text)
    (stops : ∀ d, back.head? = some d → p d = false) :
    (front ++ back).takeWhile p = front.takeWhile p ∧
      (front ++ back).dropWhile p = front.dropWhile p ++ back := by
  induction front with
  | nil =>
    cases back with
    | nil => simp
    | cons d back =>
      have stop := stops d rfl
      simp [stop]
  | cons c front ih =>
    cases holds : p c with
    | true => simp [holds, ih]
    | false => simp [holds]

/-- A text without quotes is read on its own when no word of it goes on. -/
theorem tokenize_append (front back : Text) (plain : '"' ∉ front)
    (apart : (∀ d, back.head? = some d → isWordCont d = false) ∨
      ∀ c ∈ front, isWordStart c = false) :
    tokenize front = some (toks front) ∧
      tokenize (front ++ back) = (tokenize back).map (toks front ++ ·) := by
  induction h : front.length using Nat.strong_induction_on generalizing front with
  | _ n ih =>
    subst h
    cases front with
    | nil =>
      refine ⟨rfl, ?_⟩
      simp [toks, tokenize_nil]
    | cons c front =>
      have plain' : '"' ∉ front := fun member => plain (.tail c member)
      by_cases space : isAsciiWhitespace c = true
      · obtain ⟨alone, joined⟩ := ih front.length (Nat.lt_succ_self _) front plain'
          (apart.imp_right fun none d member => none d (.tail c member)) rfl
        have same : toks (c :: front) = toks front := by rw [toks, tokenize_space space, toks]
        refine ⟨?_, ?_⟩
        · rw [tokenize_space space, same]
          exact alone
        · rw [List.cons_append, tokenize_space space, same]
          exact joined
      · by_cases start : isWordStart c = true
        · have stops : ∀ d, back.head? = some d → isWordCont d = false := by
            rcases apart with stops | none
            · exact stops
            · exact absurd start (by simp [none c (.head front)])
          have shorter := (List.dropWhile_sublist isWordCont (l := front)).length_le
          obtain ⟨alone, joined⟩ := ih (front.dropWhile isWordCont).length
            (Nat.lt_succ_of_le shorter) (front.dropWhile isWordCont)
            (fun member => plain' ((List.dropWhile_sublist isWordCont).subset member)) (.inl stops)
            rfl
          obtain ⟨taken, dropped⟩ := takeWhile_append_stops front back stops
          have found : tokenize (c :: front) =
              some (.word (toAsciiUppercase (c :: front.takeWhile isWordCont)) ::
                toks (front.dropWhile isWordCont)) := by
            rw [tokenize_word start, alone]
            rfl
          rw [toks_of found]
          refine ⟨found, ?_⟩
          rw [List.cons_append, tokenize_word start, taken, dropped, joined, Option.map_map]
          rfl
        · have quote : c ≠ '"' := by
            rintro rfl
            exact plain (.head front)
          have space' : isAsciiWhitespace c = false := Bool.eq_false_iff.mpr space
          have start' : isWordStart c = false := Bool.eq_false_iff.mpr start
          obtain ⟨alone, joined⟩ := ih front.length (Nat.lt_succ_self _) front plain'
            (apart.imp_right fun none d member => none d (.tail c member)) rfl
          have found : tokenize (c :: front) = some (punctuation c :: toks front) := by
            rw [tokenize_other space' quote start', alone]
            rfl
          rw [toks_of found]
          refine ⟨found, ?_⟩
          rw [List.cons_append, tokenize_other space' quote start', joined, Option.map_map]
          rfl

/-! ## The tokens of the mask -/

def toksOf (token : Token) : List Tok :=
  toks (tokenMask token)

theorem isWordStart_eq (c : Char) : isWordStart c = isIdentStart c := rfl

theorem isWordCont_eq (c : Char) : isWordCont c = isIdentCont c := by
  unfold isWordCont isIdentCont isTagCont isHigh
  grind

/-- A quoted identifier that ends before the text does is skipped as a whole. -/
theorem skipQuoted_closed (body back : Text) (closed : quotedLen '"' body < body.length)
    (next : back.head? ≠ some '"') :
    skipQuoted (body.take (quotedLen '"' body) ++ back) = some back := by
  induction body using quotedLen.induct '"' with
  | case1 => exact absurd closed (Nat.lt_irrefl 0)
  | case2 c => exact absurd closed (Nat.lt_irrefl 1)
  | case3 cs ih =>
    rw [quotedLen, if_pos rfl, if_pos rfl] at closed ⊢
    simp only [List.length_cons] at closed
    rw [Nat.add_comm, List.take_succ_cons, List.take_succ_cons, List.cons_append, List.cons_append,
      skipQuoted]
    exact ih (by omega)
  | case4 d cs other =>
    rw [quotedLen, if_pos rfl, if_neg other]
    rw [List.take_succ_cons, List.take_zero, List.singleton_append, skipQuoted]
    intro rest same
    rw [same] at next
    exact next rfl
  | case5 c d cs other ih =>
    rw [quotedLen, if_neg other] at closed ⊢
    simp only [List.length_cons] at closed ih
    rw [Nat.add_comm, List.take_succ_cons, List.cons_append, skipQuoted]
    · exact ih (by omega)
    · rintro rest rfl
      exact fun _ => other rfl
    · exact other

theorem quotedLen_next (body : Text) : (body.drop (quotedLen '"' body)).head? ≠ some '"' := by
  induction body using quotedLen.induct '"' with
  | case1 =>
    intro found
    cases found
  | case2 c =>
    intro found
    cases found
  | case3 cs ih =>
    rw [quotedLen, if_pos rfl, if_pos rfl, Nat.add_comm, List.drop_succ_cons, List.drop_succ_cons]
    exact ih
  | case4 d cs other =>
    rw [quotedLen, if_pos rfl, if_neg other, List.drop_succ_cons, List.drop_zero]
    rintro ⟨⟩
    exact other rfl
  | case5 c d cs other ih =>
    rw [quotedLen, if_neg other, Nat.add_comm, List.drop_succ_cons]
    exact ih

/-- The mask of a token is read on its own in front of the mask of what follows it. -/
def Alone (token : Token) (back : Text) : Prop :=
  tokenize (tokenMask token ++ back) = (tokenize back).map (toksOf token ++ ·)

theorem alone_append {token : Token} {back : Text} (plain : '"' ∉ tokenMask token)
    (apart : (∀ d, back.head? = some d → isWordCont d = false) ∨
      ∀ c ∈ tokenMask token, isWordStart c = false) : Alone token back :=
  (tokenize_append (tokenMask token) back plain apart).2

theorem blank_space (text : Text) (c : Char) (member : c ∈ blank text) : c = ' ' := by
  obtain ⟨d, -, inside⟩ := List.mem_flatMap.mp member
  exact List.eq_of_mem_replicate inside

theorem alone_blank {token : Token} (blanked : tokenMask token = blank token.text) (back : Text) :
    Alone token back := by
  apply alone_append
  · rw [blanked]
    intro member
    exact absurd (blank_space _ _ member) (by decide)
  · right
    rw [blanked]
    intro c member
    rw [blank_space _ _ member]
    decide

theorem alone_single {kind : Kind} {c : Char} (visible : tokenMask ⟨kind, [c]⟩ = [c])
    (quote : c ≠ '"') (start : isIdentStart c = false) (back : Text) : Alone ⟨kind, [c]⟩ back := by
  apply alone_append
  · rw [visible, List.mem_singleton]
    exact fun same => quote same.symm
  · right
    rw [visible]
    intro d member
    rw [List.mem_singleton.mp member]
    exact start

theorem tokenize_blank (text : Text) : tokenize (blank text) = some [] := by
  have spaces := blank_space text
  generalize blank text = spaced at spaces
  induction spaced with
  | nil => rfl
  | cons c spaced ih =>
    rw [spaces c (.head _), tokenize_space (by decide)]
    exact ih fun d member => spaces d (.tail _ member)

theorem eString_read {e : Char} (letter : e = 'E' ∨ e = 'e') (text back : Text) :
    tokenize (tokenMask ⟨.eString, e :: '\'' :: text⟩ ++ back) =
      (tokenize back).map (toks [e] ++ ·) := by
  have mask : tokenMask ⟨.eString, e :: '\'' :: text⟩ = [e] ++ blank ('\'' :: text) := rfl
  have stops : ∀ d, (blank ('\'' :: text) ++ back).head? = some d → isWordCont d = false := by
    intro d head
    have space : d = ' ' := by
      cases head
      rfl
    rw [space]
    decide
  have plain : '"' ∉ [e] := by
    rcases letter with rfl | rfl
    · decide
    · decide
  have spaces := (tokenize_append (blank ('\'' :: text)) back
    (fun member => absurd (blank_space _ _ member) (by decide))
    (.inr fun c member => by rw [blank_space _ _ member]; decide)).2
  rw [toks_of (tokenize_blank _)] at spaces
  rw [mask, List.append_assoc, (tokenize_append [e] _ plain (.inl stops)).2, spaces,
    Option.map_map]
  rfl

theorem toksOf_eString {e : Char} (letter : e = 'E' ∨ e = 'e') (text : Text) :
    toksOf ⟨.eString, e :: '\'' :: text⟩ = toks [e] := by
  have whole := eString_read letter text []
  rw [List.append_nil, tokenize_nil, Option.map_some, List.append_nil] at whole
  exact toks_of whole

theorem alone_eString {e : Char} (letter : e = 'E' ∨ e = 'e') (text back : Text) :
    Alone ⟨.eString, e :: '\'' :: text⟩ back := by
  rw [Alone, toksOf_eString letter]
  exact eString_read letter text back

theorem quoted_read {body back : Text} (closed : quotedLen '"' body < body.length)
    (next : back.head? ≠ some '"') :
    tokenize (tokenMask ⟨.quotedIdent, '"' :: body.take (quotedLen '"' body)⟩ ++ back) =
      (tokenize back).map ([Tok.quoted] ++ ·) := by
  have mask : tokenMask ⟨.quotedIdent, '"' :: body.take (quotedLen '"' body)⟩ =
      '"' :: body.take (quotedLen '"' body) := rfl
  rw [mask, List.cons_append, tokenize_quote, skipQuoted_closed body back closed next]
  rfl

theorem toksOf_quoted {body : Text} (closed : quotedLen '"' body < body.length) :
    toksOf ⟨.quotedIdent, '"' :: body.take (quotedLen '"' body)⟩ = [.quoted] := by
  have whole := quoted_read closed (List.head?_nil.trans_ne (by simp))
  rw [List.append_nil, tokenize_nil, Option.map_some, List.append_nil] at whole
  exact toks_of whole

theorem alone_quoted {body back : Text} (closed : quotedLen '"' body < body.length)
    (next : back.head? ≠ some '"') :
    Alone ⟨.quotedIdent, '"' :: body.take (quotedLen '"' body)⟩ back := by
  rw [Alone, toksOf_quoted closed]
  exact quoted_read closed next

theorem isWordCont_false {d : Char} (tag : isTagCont d = false) (dollar : d ≠ '$') :
    isWordCont d = false := by
  rw [isWordCont_eq, isIdentCont, tag, Bool.false_or]
  exact beq_false_of_ne dollar

/-- A number or a parameter: its letters may go on only after a `$`. -/
theorem alone_run {kind : Kind} (numeric : kind = .number ∨ kind = .param) {c : Char}
    {text rest back : Text} (quote : c ≠ '"') (start : isIdentStart c = false)
    (chars : ∀ d ∈ text, isNumberCont d = true)
    (stops : ∀ d, rest.head? = some d → isTagCont d = false)
    (clean : tokenClean ⟨kind, c :: text⟩ rest.head? = true)
    (head : ∀ d, back.head? = some d → d = ' ' ∨ rest.head? = some d) :
    Alone ⟨kind, c :: text⟩ back := by
  have mask : tokenMask ⟨kind, c :: text⟩ = c :: text := by
    rcases numeric with rfl | rfl
    · rfl
    · rfl
  obtain ⟨-, dollar⟩ := tokenClean_word numeric start clean
  apply alone_append
  · rw [mask]
    intro member
    rcases List.mem_cons.mp member with same | inside
    · exact quote same.symm
    · exact absurd (chars _ inside) (by decide)
  · by_cases next : rest.head? = some '$'
    · right
      rw [mask]
      intro d member
      rcases List.mem_cons.mp member with rfl | inside
      · exact start
      · by_contra starts
        refine dollar ⟨?_, next⟩
        rw [List.any_eq_true]
        exact ⟨d, inside, by rw [← isWordStart_eq]; simpa using starts⟩
    · left
      intro d found
      rcases head d found with rfl | same
      · decide
      · refine isWordCont_false (stops d same) ?_
        rintro rfl
        exact next same

theorem token_alone (context : Context) (c : Char) (cs : Text)
    (clean : tokenClean
      ⟨(firstToken context c cs).1, (c :: cs).take (firstToken context c cs).2⟩
      ((c :: cs).drop (firstToken context c cs).2).head? = true)
    (more : (c :: cs).drop (firstToken context c cs).2 ≠ []) (back : Text)
    (head : ∀ d, back.head? = some d →
      d = ' ' ∨ ((c :: cs).drop (firstToken context c cs).2).head? = some d) :
    Alone ⟨(firstToken context c cs).1, (c :: cs).take (firstToken context c cs).2⟩ back := by
  have spec := firstToken_spec context c cs
  generalize firstToken context c cs = first at spec clean more head ⊢
  cases spec with
  | space space =>
    obtain ⟨-, start, -⟩ := outside_of_space space cs
    refine alone_single rfl ?_ start back
    rintro rfl
    exact absurd space (by decide)
  | line => exact alone_blank rfl back
  | block => exact alone_blank rfl back
  | segment => exact alone_blank rfl back
  | string => exact alone_blank rfl back
  | dollarString => exact alone_blank rfl back
  | @eString _ cs letter =>
    have text : (c :: '\'' :: cs).take (2 + escapedLen cs) =
        c :: '\'' :: cs.take (escapedLen cs) := by
      rw [Nat.add_comm, List.take_succ_cons, List.take_succ_cons]
    rw [text]
    exact alone_eString letter _ back
  | @quotedIdent cs =>
    rw [Nat.add_comm, List.drop_succ_cons] at more head
    rw [Nat.add_comm, List.take_succ_cons]
    refine alone_quoted ?_ ?_
    · by_contra whole
      exact more (List.drop_eq_nil_of_le (by omega))
    · intro found
      rcases head '"' found with same | same
      · exact absurd same (by decide)
      · exact quotedLen_next cs same
  | ident start =>
    rw [take_takeWhile] at clean ⊢
    rw [Nat.add_comm, List.drop_succ_cons] at head
    refine alone_append ?_ (.inl ?_)
    · intro member
      rcases List.mem_cons.mp member with rfl | inside
      · exact absurd start (by decide)
      · exact absurd (List.mem_takeWhile_imp inside) (by decide)
    · intro d found
      rcases head d found with rfl | same
      · decide
      · rw [isWordCont_eq]
        exact head?_drop_takeWhile same
  | number start digit =>
    rw [take_takeWhile] at clean ⊢
    rw [Nat.add_comm, List.drop_succ_cons] at clean head
    refine alone_run (.inl rfl) ?_ start (fun d inside => List.mem_takeWhile_imp inside) ?_ clean
      head
    · rintro rfl
      exact absurd digit (by decide)
    · intro d same
      have outside := head?_drop_takeWhile same
      rw [isNumberCont, Bool.or_eq_false_iff] at outside
      exact outside.1
  | param =>
    rw [take_takeWhile] at clean ⊢
    rw [Nat.add_comm, List.drop_succ_cons] at clean head
    exact alone_run (.inr rfl) (by decide) (by decide)
      (fun d inside => numberCont_of_tagCont (List.mem_takeWhile_imp inside))
      (fun d same => head?_drop_takeWhile same) clean head
  | dollar => exact alone_single rfl (by decide) (by decide) back
  | semicolon => exact alone_single rfl (by decide) (by decide) back
  | single single => exact alone_single rfl single.double single.start back

theorem blank_head (c : Char) (text : Text) : (blank (c :: text)).head? = some ' ' := by
  have size := Char.utf8Size_pos c
  obtain ⟨n, len⟩ := Nat.exists_eq_succ_of_ne_zero (Nat.ne_of_gt size)
  rw [blank_cons, filler, len]
  rfl

theorem tokenMask_head (kind : Kind) (c : Char) (text back : Text) (d : Char)
    (head : (tokenMask ⟨kind, c :: text⟩ ++ back).head? = some d) : d = ' ' ∨ d = c := by
  have blanked : (blank (c :: text) ++ back).head? = some d → d = ' ' := by
    rw [List.head?_append, blank_head]
    rintro ⟨⟩
    rfl
  have shown : (c :: (text ++ back)).head? = some d → d = c := by
    rintro ⟨⟩
    rfl
  cases kind with
  | string | eSegment | dollarString | lineComment | blockComment => exact .inl (blanked head)
  | _ => exact .inr (shown head)

/-- The tokenizer reads the mask of the lexer's tokens one by one. -/
theorem tokens_alone (tokens others : List Token) (fuel : Nat) (context : Context) (text : Text)
    (enough : text.length ≤ fuel) (lexed : lexFrom fuel context text = tokens ++ others)
    (holds : clean (tokens ++ others) = true) (more : textOf others ≠ []) (back : Text)
    (head : ∀ d, back.head? = some d → d = ' ' ∨ (textOf others).head? = some d) :
    tokenize (tokens.flatMap tokenMask ++ back) =
        (tokenize back).map (tokens.flatMap toksOf ++ ·) ∧
      ∀ d, (tokens.flatMap tokenMask ++ back).head? = some d →
        d = ' ' ∨ (textOf (tokens ++ others)).head? = some d := by
  induction tokens generalizing fuel context text with
  | nil => exact ⟨by simp, head⟩
  | cons token tokens ih =>
    obtain ⟨fuel, rfl⟩ : ∃ n, fuel = n + 1 := by
      cases fuel with
      | zero => simp [lexFrom] at lexed
      | succ n => exact ⟨n, rfl⟩
    cases text with
    | nil => simp [lexFrom] at lexed
    | cons c cs =>
      have positive := firstToken_pos context c cs
      have whole := lexFrom_text (fuel + 1) context (c :: cs) enough
      rw [lexed] at whole
      rw [lexFrom, List.cons_append, List.cons.injEq] at lexed
      obtain ⟨first, later⟩ := lexed
      rw [List.cons_append, clean, Bool.and_eq_true] at holds
      have shorter : ((c :: cs).drop (firstToken context c cs).2).length ≤ fuel := by
        rw [List.length_drop]
        simp only [List.length_cons] at enough ⊢
        omega
      have rest : textOf (tokens ++ others) = (c :: cs).drop (firstToken context c cs).2 := by
        rw [← later, lexFrom_text fuel _ _ shorter]
      obtain ⟨read, next⟩ := ih fuel _ _ shorter later holds.2
      rw [rest] at next
      rw [rest, ← first] at holds
      have remains : (c :: cs).drop (firstToken context c cs).2 ≠ [] := by
        rw [← rest, textOf, List.flatMap_append]
        simp only [textOf] at more
        simp [more]
      have alone := token_alone context c cs holds.1 remains _ next
      rw [first] at alone
      refine ⟨?_, ?_⟩
      · rw [List.flatMap_cons, List.append_assoc, List.flatMap_cons, alone, read, Option.map_map]
        congr 1
        funext more
        simp
      · intro d found
        rw [whole]
        rw [List.flatMap_cons, List.append_assoc, ← first] at found
        obtain ⟨n, len⟩ := Nat.exists_eq_succ_of_ne_zero positive.ne'
        rw [len, List.take_succ_cons] at found
        rcases tokenMask_head _ c _ _ d found with space | same
        · exact .inl space
        · exact .inr (by rw [same]; rfl)

/-! ## The end of the text -/

/-- The text with the marker that `copy_direction` appends. -/
def probe (sql : Text) : Text :=
  sql ++ ['\n', ';']

theorem skipQuoted_open (text back : Text) {rest : Text} (found : skipQuoted text = some rest) :
    quotedLen '"' (text ++ '\n' :: back) < (text ++ '\n' :: back).length := by
  induction text using skipQuoted.induct with
  | case1 => cases found
  | case2 cs ih =>
    rw [skipQuoted] at found
    have shorter := ih found
    rw [List.cons_append, List.cons_append, quotedLen, if_pos rfl, if_pos rfl, List.length_cons,
      List.length_cons]
    omega
  | case3 cs other =>
    cases cs with
    | nil =>
      change quotedLen '"' ('"' :: '\n' :: back) < _
      rw [quotedLen, if_pos rfl, if_neg (by decide)]
      simp only [List.nil_append, List.cons_append, List.length_cons]
      omega
    | cons d cs =>
      have apart : d ≠ '"' := by
        rintro rfl
        exact other cs rfl
      rw [List.cons_append, List.cons_append, quotedLen, if_pos rfl, if_neg apart, List.length_cons,
        List.length_cons]
      omega
  | case4 c cs first second ih =>
    rw [skipQuoted] at found
    · have shorter := ih found
      rw [List.cons_append, quotedLen_cons _ second, List.length_cons]
      omega
    · exact first
    · exact second

/-- The last character that a token shows in the mask. -/
theorem mask_last (context : Context) (c : Char) (cs : Text) {d : Char}
    (last : (tokenMask ⟨(firstToken context c cs).1,
      (c :: cs).take (firstToken context c cs).2⟩).getLast? = some d) :
    (firstToken context c cs).1 = .quotedIdent ∨ (firstToken context c cs).1 = .semicolon ∨
      d ≠ ';' := by
  have spec := firstToken_spec context c cs
  generalize firstToken context c cs = first at spec last ⊢
  have blanked : ∀ text : Text, (blank text).getLast? = some d → d ≠ ';' := by
    intro text found same
    rw [same] at found
    exact absurd (blank_space text ';' (List.mem_of_getLast? found)) (by decide)
  have inside : ∀ text : Text, text.getLast? = some d → (∀ e ∈ text, e ≠ ';') → d ≠ ';' :=
    fun text found all => all d (List.mem_of_getLast? found)
  cases spec with
  | space space =>
    refine .inr (.inr (inside _ last ?_))
    intro e member
    rw [List.mem_singleton.mp member]
    rintro rfl
    exact absurd space (by decide)
  | line => exact .inr (.inr (blanked _ last))
  | block => exact .inr (.inr (blanked _ last))
  | segment => exact .inr (.inr (blanked _ last))
  | string => exact .inr (.inr (blanked _ last))
  | dollarString => exact .inr (.inr (blanked _ last))
  | eString letter =>
    refine .inr (.inr (inside _ last ?_))
    intro e member
    rcases List.mem_append.mp member with shown | hidden
    · rw [Nat.add_comm, List.take_succ_cons] at shown
      rw [List.mem_singleton.mp shown]
      rcases letter with rfl | rfl
      · decide
      · decide
    · rw [blank_space _ _ hidden]
      decide
  | quotedIdent => exact .inl rfl
  | ident start =>
    rw [take_takeWhile] at last
    refine .inr (.inr (inside _ last ?_))
    rintro e member rfl
    rcases List.mem_cons.mp member with rfl | run
    · exact absurd start (by decide)
    · exact absurd (List.mem_takeWhile_imp run) (by decide)
  | number start digit =>
    rw [take_takeWhile] at last
    refine .inr (.inr (inside _ last ?_))
    rintro e member rfl
    rcases List.mem_cons.mp member with rfl | run
    · exact absurd digit (by decide)
    · exact absurd (List.mem_takeWhile_imp run) (by decide)
  | param =>
    rw [take_takeWhile] at last
    refine .inr (.inr (inside _ last ?_))
    rintro e member rfl
    rcases List.mem_cons.mp member with same | run
    · exact absurd same (by decide)
    · exact absurd (List.mem_takeWhile_imp run) (by decide)
  | dollar =>
    refine .inr (.inr (inside _ last ?_))
    intro e member
    rw [List.mem_singleton.mp member]
    decide
  | semicolon => exact .inr (.inl rfl)
  | single single =>
    refine .inr (.inr (inside _ last ?_))
    intro e member
    rw [List.mem_singleton.mp member]
    exact single.semicolon

theorem quotedLen_last (body : Text) (closed : quotedLen '"' body < body.length) :
    (body.take (quotedLen '"' body)).getLast? = some '"' := by
  induction body using quotedLen.induct '"' with
  | case1 => exact absurd closed (Nat.lt_irrefl 0)
  | case2 c => exact absurd closed (Nat.lt_irrefl 1)
  | case3 cs ih =>
    rw [quotedLen, if_pos rfl, if_pos rfl] at closed ⊢
    simp only [List.length_cons] at closed
    rw [Nat.add_comm, List.take_succ_cons, List.take_succ_cons, List.getLast?_cons,
      List.getLast?_cons, ih (by omega)]
    rfl
  | case4 d cs other =>
    rw [quotedLen, if_pos rfl, if_neg other, List.take_succ_cons, List.take_zero]
    rfl
  | case5 c d cs other ih =>
    rw [quotedLen, if_neg other] at closed ⊢
    simp only [List.length_cons] at closed ih
    rw [Nat.add_comm, List.take_succ_cons, List.getLast?_cons, ih (by omega)]
    rfl

theorem blank_last (c : Char) (text : Text) : ∃ shown, blank (c :: text) = shown ++ [' '] := by
  have head := blank_head c text
  have spaces := blank_space (c :: text)
  generalize blank (c :: text) = spaced at head spaces
  rcases List.eq_nil_or_concat spaced with rfl | ⟨shown, last, rfl⟩
  · cases head
  · rw [List.concat_eq_append] at spaces ⊢
    exact ⟨shown, by rw [spaces last (by simp)]⟩

/-- A token that is followed by more text and ends in a line feed ends in white space in the
mask. -/
theorem newline_mask (context : Context) (c : Char) (cs : Text)
    (more : (c :: cs).drop (firstToken context c cs).2 ≠ [])
    (newline : ((c :: cs).take (firstToken context c cs).2).getLast? = some '\n') :
    ∃ shown w, isAsciiWhitespace w = true ∧ '"' ∉ shown ∧
      tokenMask ⟨(firstToken context c cs).1, (c :: cs).take (firstToken context c cs).2⟩ =
        shown ++ [w] := by
  have positive := firstToken_pos context c cs
  obtain ⟨n, len⟩ := Nat.exists_eq_succ_of_ne_zero positive.ne'
  have text : (c :: cs).take (firstToken context c cs).2 = c :: cs.take n := by
    rw [len, List.take_succ_cons]
  obtain ⟨shown, blanked⟩ := blank_last c (cs.take n)
  have plain : '"' ∉ shown := by
    intro member
    have inside : '"' ∈ blank (c :: cs.take n) := by
      rw [blanked]
      exact List.mem_append_left _ member
    exact absurd (blank_space _ _ inside) (by decide)
  rw [← text] at blanked
  have single : ∀ d, [d].getLast? = some '\n' →
      ∃ shown w, isAsciiWhitespace w = true ∧ '"' ∉ shown ∧ [d] = shown ++ [w] := by
    rintro d ⟨⟩
    exact ⟨[], '\n', by decide, by simp, rfl⟩
  have outside : ∀ text : Text, text.getLast? = some '\n' → (∀ e ∈ text, e ≠ '\n') → False :=
    fun text found all => all '\n' (List.mem_of_getLast? found) rfl
  have spec := firstToken_spec context c cs
  generalize firstToken context c cs = first at spec more newline blanked len ⊢
  cases spec with
  | space => exact single c newline
  | line => exact ⟨shown, ' ', by decide, plain, blanked⟩
  | block => exact ⟨shown, ' ', by decide, plain, blanked⟩
  | segment => exact ⟨shown, ' ', by decide, plain, blanked⟩
  | string => exact ⟨shown, ' ', by decide, plain, blanked⟩
  | dollarString => exact ⟨shown, ' ', by decide, plain, blanked⟩
  | @eString _ ds letter =>
    obtain ⟨hidden, tail⟩ := blank_last '\'' (ds.take (escapedLen ds))
    refine ⟨c :: hidden, ' ', by decide, ?_, ?_⟩
    · intro member
      rcases List.mem_cons.mp member with same | inside
      · rcases letter with rfl | rfl
        · exact absurd same (by decide)
        · exact absurd same (by decide)
      · have member' : '"' ∈ blank ('\'' :: ds.take (escapedLen ds)) := by
          rw [tail]
          exact List.mem_append_left _ inside
        exact absurd (blank_space _ _ member') (by decide)
    · rw [Nat.add_comm, List.take_succ_cons, List.take_succ_cons, List.cons_append, ← tail]
      rfl
  | quotedIdent =>
    exfalso
    rw [Nat.add_comm, List.drop_succ_cons] at more
    have closed : quotedLen '"' cs < cs.length := by
      by_contra whole
      exact more (List.drop_eq_nil_of_le (by omega))
    rw [Nat.add_comm, List.take_succ_cons, List.getLast?_cons, quotedLen_last cs closed] at newline
    cases newline
  | ident start =>
    rw [take_takeWhile] at newline
    refine (outside _ newline ?_).elim
    rintro e member rfl
    rcases List.mem_cons.mp member with rfl | run
    · exact absurd start (by decide)
    · exact absurd (List.mem_takeWhile_imp run) (by decide)
  | number start digit =>
    rw [take_takeWhile] at newline
    refine (outside _ newline ?_).elim
    rintro e member rfl
    rcases List.mem_cons.mp member with rfl | run
    · exact absurd digit (by decide)
    · exact absurd (List.mem_takeWhile_imp run) (by decide)
  | param =>
    rw [take_takeWhile] at newline
    refine (outside _ newline ?_).elim
    rintro e member rfl
    rcases List.mem_cons.mp member with same | run
    · exact absurd same (by decide)
    · exact absurd (List.mem_takeWhile_imp run) (by decide)
  | dollar => exact single '$' newline
  | semicolon => exact single ';' newline
  | single => exact single c newline

theorem tokenMask_ne_nil (kind : Kind) (c : Char) (text : Text) :
    tokenMask ⟨kind, c :: text⟩ ≠ [] := by
  have blanked : blank (c :: text) ≠ [] := by
    intro empty
    have head := blank_head c text
    rw [empty] at head
    cases head
  cases kind with
  | string | eSegment | dollarString | lineComment | blockComment => exact blanked
  | _ => exact List.cons_ne_nil _ _

theorem lexed_mask_ne_nil {sql : Text} {front after : List Token} {token : Token}
    (lexed : lex sql = front ++ token :: after) : tokenMask token ≠ [] := by
  obtain ⟨context, c, cs, -, shape, -⟩ := lexFrom_at (Nat.le_refl _) lexed
  obtain ⟨n, len⟩ := Nat.exists_eq_succ_of_ne_zero (firstToken_pos context c cs).ne'
  rw [shape, len, List.take_succ_cons]
  exact tokenMask_ne_nil _ c _

/-- An identifier that is never closed hides no marker, but the tokenizer does not end it either. -/
theorem open_quote_unread {sql : Text} {front : List Token} {last : Token}
    (holds : clean (lex (probe sql)) = true) (lexed : lex (probe sql) = front ++ [last])
    (quoted : last.kind = .quotedIdent) :
    tokenize (((front ++ [last]).flatMap tokenMask).take
      (((front ++ [last]).flatMap tokenMask).length - 2)) = none := by
  have whole : textOf (lex (probe sql)) = probe sql :=
    lexFrom_text _ .plain (probe sql) (Nat.le_refl _)
  obtain ⟨context, c, cs, text, shape, rest⟩ := lexFrom_at (Nat.le_refl _) lexed
  have spec := firstToken_spec context c cs
  have drop : (c :: cs).drop (firstToken context c cs).2 = [] := rest.symm
  generalize firstToken context c cs = first at spec shape drop
  rw [shape] at quoted
  cases spec with
  | quotedIdent =>
    have len : cs.length ≤ quotedLen '"' cs := by
      rw [Nat.add_comm, List.drop_succ_cons] at drop
      exact List.drop_eq_nil_iff.mp drop
    have lastText : last.text = '"' :: cs := by
      rw [← text]
      exact (List.append_nil _).symm
    -- The marker is the end of the open identifier.
    obtain ⟨body, split⟩ : ∃ body, cs = body ++ ['\n', ';'] := by
      rw [lexed, textOf, List.flatMap_append, List.flatMap_singleton, lastText, probe] at whole
      rcases List.append_eq_append_iff.mp whole with ⟨middle, -, inside⟩ | ⟨middle, -, inside⟩
      · cases middle with
        | nil => cases inside
        | cons d middle =>
          obtain ⟨-, tail⟩ := List.cons.inj inside
          exact ⟨middle, tail⟩
      · cases middle with
        | nil => cases inside
        | cons d middle =>
          cases middle with
          | nil => cases inside
          | cons e middle =>
            have bound := congrArg List.length inside
            simp only [List.length_cons, List.length_append, List.length_nil] at bound
            omega
    have unread : skipQuoted body = none := by
      cases found : skipQuoted body with
      | none => rfl
      | some after =>
        have shorter := skipQuoted_open body [';'] found
        rw [split] at len
        omega
    have cut : ((front ++ [last]).flatMap tokenMask).take
        (((front ++ [last]).flatMap tokenMask).length - 2) =
          front.flatMap tokenMask ++ '"' :: body := by
      have mask : tokenMask last = ('"' :: body) ++ ['\n', ';'] := by
        rw [tokenMask, shape]
        simp only
        rw [List.take_of_length_le (by simp only [List.length_cons]; omega), split]
        rfl
      rw [List.flatMap_append, List.flatMap_singleton, mask, ← List.append_assoc, List.length_append]
      exact List.take_left' (by simp)
    have others : textOf [last] ≠ [] := by
      rw [textOf, List.flatMap_singleton, lastText]
      exact List.cons_ne_nil _ _
    obtain ⟨read, -⟩ := tokens_alone front [last] _ .plain (probe sql) (Nat.le_refl _) lexed
      (lexed ▸ holds) others ('"' :: body) (by
        rintro d ⟨⟩
        right
        rw [textOf, List.flatMap_singleton, lastText]
        rfl)
    rw [cut, read, tokenize_quote, unread]
    rfl
  | _ => cases quoted

/-- What `copy_direction` tokenizes when the marker is still there. -/
theorem probe_tokens {sql : Text} (holds : clean (lex (probe sql)) = true) {found : List Tok}
    (marker : (maskedCode (probe sql)).getLast? = some ';')
    (read : tokenize ((maskedCode (probe sql)).take ((maskedCode (probe sql)).length - 2)) =
      some found) :
    ∃ front semi, lex (probe sql) = front ++ [semi] ∧ semi.kind = .semicolon ∧
      found = front.flatMap toksOf := by
  have masked : maskedCode (probe sql) = (lex (probe sql)).flatMap tokenMask :=
    (scan_of_clean (probe sql) holds).1
  have whole : textOf (lex (probe sql)) = probe sql :=
    lexFrom_text _ .plain (probe sql) (Nat.le_refl _)
  rcases List.eq_nil_or_concat (lex (probe sql)) with none | ⟨front, last, lexed⟩
  · rw [none] at whole
    simp [probe, textOf] at whole
  rw [List.concat_eq_append] at lexed
  rw [masked, lexed] at marker read
  have semi : last.kind = .semicolon := by
    obtain ⟨context, c, cs, -, shape, -⟩ := lexFrom_at (Nat.le_refl _) lexed
    obtain ⟨shown, d, mask⟩ := List.eq_nil_or_concat (tokenMask last) |>.resolve_left
      (lexed_mask_ne_nil lexed)
    rw [List.concat_eq_append] at mask
    rw [List.flatMap_append, List.flatMap_singleton, mask, ← List.append_assoc,
      List.getLast?_concat] at marker
    have lastMask : (tokenMask last).getLast? = some d := by
      rw [mask, List.getLast?_concat]
    rw [shape] at lastMask
    rcases mask_last context c cs lastMask with quoted | semi | other
    · have unread := open_quote_unread holds lexed (by rw [shape]; exact quoted)
      rw [unread] at read
      cases read
    · rw [shape]
      exact semi
    · exact absurd (Option.some.inj marker) other
  have lastText : last.text = [';'] := lexFrom_semicolon (by
    rw [← lex, lexed]
    simp) semi
  refine ⟨front, last, lexed, semi, ?_⟩
  have before : textOf front = sql ++ ['\n'] := by
    rw [lexed, textOf, List.flatMap_append, List.flatMap_singleton, lastText, probe] at whole
    have shape : sql ++ ['\n', ';'] = (sql ++ ['\n']) ++ [';'] := by simp
    rw [shape] at whole
    exact List.append_cancel_right whole
  rcases List.eq_nil_or_concat front with rfl | ⟨early, feed, rfl⟩
  · simp [textOf] at before
  rw [List.concat_eq_append] at lexed before read ⊢
  rw [List.append_assoc, List.singleton_append] at lexed
  obtain ⟨context, c, cs, text, shape, rest⟩ := lexFrom_at (Nat.le_refl _) lexed
  have lastRest : textOf [last] = [';'] := by
    rw [textOf, List.flatMap_singleton, lastText]
  rw [lastRest] at rest
  have feedText : feed.text.getLast? = some '\n' := by
    have nonempty : feed.text ≠ [] := by
      obtain ⟨n, len⟩ := Nat.exists_eq_succ_of_ne_zero (firstToken_pos context c cs).ne'
      rw [shape, len, List.take_succ_cons]
      exact List.cons_ne_nil _ _
    obtain ⟨first, d, split⟩ := List.eq_nil_or_concat feed.text |>.resolve_left nonempty
    rw [List.concat_eq_append] at split
    rw [textOf, List.flatMap_append, List.flatMap_singleton, split, ← List.append_assoc] at before
    rw [split, List.getLast?_concat]
    exact congrArg some (List.append_inj_right' before rfl |> List.cons.inj).1
  rw [shape] at feedText
  obtain ⟨shown, w, space, plain, mask⟩ := newline_mask context c cs
    (by rw [← rest]; exact List.cons_ne_nil _ _) feedText
  rw [← shape] at mask
  have feedToks : tokenize shown = some (toksOf feed) := by
    have stops : ∀ d, [w].head? = some d → isWordCont d = false := by
      rintro d ⟨⟩
      have cases : w = ' ' ∨ w = '\t' ∨ w = '\n' ∨ w = '\x0c' ∨ w = '\r' := by
        simpa [isAsciiWhitespace, or_assoc] using space
      rcases cases with rfl | rfl | rfl | rfl | rfl
      all_goals decide
    obtain ⟨alone, joined⟩ := tokenize_append shown [w] plain (.inl stops)
    rw [tokenize_space space, tokenize_nil, Option.map_some, List.append_nil] at joined
    rw [alone, toksOf, mask, toks_of joined]
  have cut : ((early ++ [feed] ++ [last]).flatMap tokenMask).take
      (((early ++ [feed] ++ [last]).flatMap tokenMask).length - 2) =
        early.flatMap tokenMask ++ shown := by
    have marked : (early ++ [feed] ++ [last]).flatMap tokenMask =
        (early.flatMap tokenMask ++ shown) ++ [w, ';'] := by
      have lastMask : tokenMask last = [';'] := by
        rw [tokenMask, semi]
        exact lastText
      rw [List.flatMap_append, List.flatMap_append, List.flatMap_singleton, List.flatMap_singleton,
        mask, lastMask]
      simp
    rw [marked, List.length_append]
    exact List.take_left' (by simp)
  obtain ⟨spread, -⟩ := tokens_alone early [feed, last] _ .plain (probe sql) (Nat.le_refl _) lexed
    (lexed ▸ holds) (by simp [textOf, lastText]) shown (by
      intro d head
      have first : (tokenMask feed ++ []).head? = some d := by
        rw [mask, List.append_nil, List.head?_append, head]
        rfl
      obtain ⟨n, len⟩ := Nat.exists_eq_succ_of_ne_zero (firstToken_pos context c cs).ne'
      rw [shape, len, List.take_succ_cons] at first
      refine (tokenMask_head _ c _ [] d first).imp_right fun same => ?_
      rw [textOf_cons, text, same]
      rfl)
  rw [cut, spread, feedToks] at read
  cases read
  rw [List.flatMap_append, List.flatMap_singleton]

/-! ## The reading of PostgreSQL -/

def significant (tokens : List Token) : List Token :=
  tokens.filter fun token => !token.kind.isNoise

def isSeparator (token : Token) : Bool :=
  token.kind == .semicolon

def statementOf (tokens : List Token) : List Token :=
  tokens.takeWhile fun token => !isSeparator token

/-- The first `FROM` or `TO` outside parentheses and the tokens after it. -/
def firstTarget : Nat → List Token → Option (CopyDirection × List Token)
  | _, [] => none
  | depth, token :: tokens =>
    if token = ⟨.other, ['(']⟩ then firstTarget (depth + 1) tokens
    else if token = ⟨.other, [')']⟩ then
      if depth = 0 then none else firstTarget (depth - 1) tokens
    else if depth = 0 ∧ isKeyword token ["FROM"] then some (.in, tokens)
    else if depth = 0 ∧ isKeyword token ["TO"] then some (.out, tokens)
    else firstTarget depth tokens

def streamWord : CopyDirection → List String
  | .in => ["STDIN"]
  | .out => ["STDOUT"]

def copyStatement : List Token → Option CopyDirection
  | [] => none
  | verb :: tokens =>
    if isKeyword verb ["COPY"] then
      match firstTarget 0 tokens with
      | some (dir, stream :: _) => if isKeyword stream (streamWord dir) then some dir else none
      | _ => none
    else none

/-- How PostgreSQL reads the text when a separator on a line of its own ends its last statement: the
separator is a token just when nothing is left open, and only separators may follow the first. -/
def copyReading (sql : Text) : Option CopyDirection :=
  let tokens := lex (probe sql)
  if tokens.getLast?.any isSeparator ∧
      ((significant tokens).dropWhile fun token => !isSeparator token).all isSeparator then
    copyStatement (statementOf (significant tokens))
  else none

example : copyReading "COPY (SELECT 1 FROM s) TO STDOUT;".toList = some .out := by
  decide +kernel

/-- `copy_direction` names a direction only for a text that PostgreSQL reads so. -/
def CopySound (sql : Text) : Prop :=
  ∀ dir, copyDirection sql = some dir → copyReading sql = some dir

/-! ## Where the mask misleads -/

/-- A literal of which the mask shows nothing. -/
def vanishes (token : Token) : Bool :=
  match token.kind with
  | .string | .eSegment | .dollarString => true
  | _ => false

def visible (tokens : List Token) : List Token :=
  tokens.filter fun token => !vanishes token

/-- The first word is `COPY` once such literals are left out. -/
def startsCopy (tokens : List Token) : Bool :=
  (visible tokens).head?.any fun token => isKeyword token ["COPY"]

/-- Such literals and nothing else stand among the separators after the first statement. -/
def literalsAtEnd (tokens : List Token) : Bool :=
  let tail := tokens.dropWhile fun token => !isSeparator token
  tail.any vanishes && tail.all fun token => isSeparator token || vanishes token

/-- Such a literal stands between the first top-level `FROM` or `TO` and its stream. -/
def literalBeforeStream (tokens : List Token) : Bool :=
  match firstTarget 0 (statementOf tokens).tail with
  | some (dir, after) =>
    after.head?.any vanishes &&
      (visible after).head?.any fun token => isKeyword token (streamWord dir)
  | none => false

def isTargetTok (tok : Tok) : Bool :=
  tok == .word "FROM".toList || tok == .word "TO".toList

/-- A number or a parameter with a `FROM` or a `TO` glued to it. -/
def gluesTarget (token : Token) : Bool :=
  match token.kind with
  | .number | .param => (toksOf token).any isTargetTok
  | _ => false

/-- The scanner reads the text as PostgreSQL does, and a text that starts with `COPY` has no literal
that the mask hides where the shape is read and no keyword glued to a number. -/
def copyReadable (sql : Text) : Bool :=
  let tokens := significant (lex (probe sql))
  clean (lex (probe sql)) && (!startsCopy tokens || (!tokens.head?.any vanishes &&
    !literalsAtEnd tokens && !literalBeforeStream tokens && !tokens.any gluesTarget))

/-- What the mask of a token shows the tokenizer. -/
inductive Shows (token : Token) : List Tok → Prop
  | noise (kind : token.kind.isNoise = true) : Shows token []
  /-- A vertical tab is white space for PostgreSQL only. -/
  | tab (kind : token.kind.isNoise = true) : Shows token [.other]
  | literal (gone : vanishes token = true) : Shows token []
  | separator (kind : token.kind = .semicolon) : Shows token [.semicolon]
  | word (kind : token.kind = .ident) : Shows token [.word (toAsciiUppercase token.text)]
  | opens (same : token = ⟨.other, ['(']⟩) : Shows token [.open]
  | closes (same : token = ⟨.other, [')']⟩) : Shows token [.close]
  | inert {first : Tok} {more : List Tok} (noise : token.kind.isNoise = false)
      (separator : token.kind ≠ .semicolon) (word : token.kind ≠ .ident)
      (opens : token ≠ ⟨.other, ['(']⟩) (closes : token ≠ ⟨.other, [')']⟩)
      (head : first = .other ∨ first = .quoted ∨ first = .word ['E'])
      (tail : ∀ tok ∈ more, tok = .other ∨ ∃ w, tok = .word w)
      (free : gluesTarget token = false → ∀ tok ∈ more, isTargetTok tok = false) :
      Shows token (first :: more)

theorem toks_single {c : Char} (space : isAsciiWhitespace c = false) (quote : c ≠ '"')
    (start : isWordStart c = false) : toks [c] = [punctuation c] := by
  apply toks_of
  rw [tokenize_other space quote start, tokenize_nil]
  rfl

theorem toks_word {c : Char} {text : Text} (start : isWordStart c = true)
    (conts : ∀ d ∈ text, isWordCont d = true) :
    toks (c :: text) = [.word (toAsciiUppercase (c :: text))] := by
  apply toks_of
  rw [tokenize_word start, List.takeWhile_eq_self_iff.mpr conts, List.dropWhile_eq_nil_iff.mpr conts,
    tokenize_nil]
  rfl

/-- The letters of a number or a parameter are words, the rest is of no interest. -/
theorem run_toks (text : Text) (chars : ∀ c ∈ text, isNumberCont c = true) :
    ∃ found, tokenize text = some found ∧ ∀ tok ∈ found, tok = .other ∨ ∃ w, tok = .word w := by
  induction h : text.length using Nat.strong_induction_on generalizing text with
  | _ n ih =>
    subst h
    cases text with
    | nil => exact ⟨[], rfl, by simp⟩
    | cons c text =>
      have number := chars c (.head text)
      by_cases start : isWordStart c = true
      · have shorter := (List.dropWhile_sublist isWordCont (l := text)).length_le
        obtain ⟨found, read, words⟩ := ih _ (Nat.lt_succ_of_le shorter) (text.dropWhile isWordCont)
          (fun d member => chars d (.tail c ((List.dropWhile_sublist isWordCont).subset member))) rfl
        refine ⟨_, by rw [tokenize_word start, read, Option.map_some], ?_⟩
        intro tok member
        rcases List.mem_cons.mp member with rfl | later
        · exact .inr ⟨_, rfl⟩
        · exact words tok later
      · obtain ⟨found, read, words⟩ := ih _ (Nat.lt_succ_self _) text
          (fun d member => chars d (.tail c member)) rfl
        have other : ∀ d, isNumberCont d = false → c ≠ d := by
          rintro d outside rfl
          rw [outside] at number
          cases number
        have space : isAsciiWhitespace c = false := by
          simp only [isAsciiWhitespace, Bool.or_eq_false_iff, beq_eq_false_iff_ne]
          exact ⟨⟨⟨⟨other _ (by decide), other _ (by decide)⟩, other _ (by decide)⟩,
            other _ (by decide)⟩, other _ (by decide)⟩
        have punctuated : punctuation c = .other := by
          rw [punctuation, if_neg (other _ (by decide)), if_neg (other _ (by decide)),
            if_neg (other _ (by decide))]
        refine ⟨_, by rw [tokenize_other space (other _ (by decide)) (Bool.eq_false_iff.mpr start),
          read, Option.map_some, punctuated], ?_⟩
        intro tok member
        rcases List.mem_cons.mp member with rfl | later
        · exact .inl rfl
        · exact words tok later

theorem shows_run {kind : Kind} (numeric : kind = .number ∨ kind = .param) {c : Char} {text : Text}
    (space : isAsciiWhitespace c = false) (quote : c ≠ '"') (start : isWordStart c = false)
    (punctuated : punctuation c = .other) (chars : ∀ d ∈ text, isNumberCont d = true) :
    Shows ⟨kind, c :: text⟩ (toksOf ⟨kind, c :: text⟩) := by
  obtain ⟨found, read, words⟩ := run_toks text chars
  have mask : tokenMask ⟨kind, c :: text⟩ = c :: text := by
    rcases numeric with rfl | rfl
    · rfl
    · rfl
  have shown : toksOf ⟨kind, c :: text⟩ = .other :: found := by
    rw [toksOf, mask]
    apply toks_of
    rw [tokenize_other space quote start, read, punctuated]
    rfl
  have free : gluesTarget ⟨kind, c :: text⟩ = false → ∀ tok ∈ found, isTargetTok tok = false := by
    intro free tok member
    have all : (toksOf ⟨kind, c :: text⟩).any isTargetTok = false := by
      rcases numeric with rfl | rfl
      · exact free
      · exact free
    rw [shown, List.any_cons, Bool.or_eq_false_iff, List.any_eq_false] at all
    exact Bool.eq_false_iff.mpr (all.2 tok member)
  rw [shown]
  rcases numeric with rfl | rfl
  · exact .inert rfl nofun nofun nofun nofun (.inl rfl) words free
  · exact .inert rfl nofun nofun nofun nofun (.inl rfl) words free

theorem shows_blank {token : Token} (blanked : tokenMask token = blank token.text)
    (gone : token.kind.isNoise = true ∨ vanishes token = true) : Shows token (toksOf token) := by
  have empty : toksOf token = [] := by
    rw [toksOf, blanked]
    exact toks_of (tokenize_blank _)
  rw [empty]
  rcases gone with noise | literal
  · exact .noise noise
  · exact .literal literal

theorem shows_other {c : Char} (space : isAsciiWhitespace c = false) (quote : c ≠ '"')
    (start : isWordStart c = false) (semicolon : c ≠ ';') :
    Shows ⟨.other, [c]⟩ (toksOf ⟨.other, [c]⟩) := by
  have shown : toksOf ⟨.other, [c]⟩ = [punctuation c] := toks_single space quote start
  rw [shown, punctuation]
  split_ifs with opens closes
  · exact .opens (by rw [opens])
  · exact .closes (by rw [closes])
  · refine .inert rfl nofun nofun ?_ ?_ (.inl rfl) (by simp) (by simp)
    · intro same
      exact opens (List.cons.inj (Token.mk.inj same).2).1
    · intro same
      exact closes (List.cons.inj (Token.mk.inj same).2).1

theorem shows_space {c : Char} (space : isSpace c = true) :
    Shows ⟨.space, [c]⟩ (toksOf ⟨.space, [c]⟩) := by
  by_cases tab : c = '\x0b'
  · subst tab
    exact .tab rfl
  · have ascii : isAsciiWhitespace c = true := by
      simp only [isSpace, Bool.or_eq_true, beq_iff_eq] at space
      simp only [isAsciiWhitespace, Bool.or_eq_true, beq_iff_eq]
      rcases space with ((((same | same) | same) | same) | same) | same
      · exact .inl (.inl (.inl (.inl same)))
      · exact .inl (.inl (.inl (.inr same)))
      · exact .inl (.inl (.inr same))
      · exact .inr same
      · exact absurd same tab
      · exact .inl (.inr same)
    have empty : toksOf ⟨.space, [c]⟩ = [] := by
      apply toks_of
      rw [tokenMask, tokenize_space ascii, tokenize_nil]
    rw [empty]
    exact .noise rfl

theorem isAsciiWhitespace_false {c : Char} (space : isSpace c = false) :
    isAsciiWhitespace c = false := by
  simp only [isSpace, Bool.or_eq_false_iff] at space
  simp only [isAsciiWhitespace, Bool.or_eq_false_iff]
  exact ⟨⟨space.1.1.1, space.2⟩, space.1.1.2⟩

theorem token_shows (context : Context) (c : Char) (cs : Text)
    (more : (c :: cs).drop (firstToken context c cs).2 ≠ []) :
    Shows ⟨(firstToken context c cs).1, (c :: cs).take (firstToken context c cs).2⟩
      (toksOf ⟨(firstToken context c cs).1, (c :: cs).take (firstToken context c cs).2⟩) := by
  by_cases white : isSpace c = true
  · have first : firstToken context c cs = (.space, 1) := by
      rw [firstToken, if_pos white]
    rw [first]
    exact shows_space white
  have space := isAsciiWhitespace_false (Bool.eq_false_iff.mpr white)
  have spec := firstToken_spec context c cs
  generalize firstToken context c cs = first at spec more ⊢
  cases spec with
  | space space => exact absurd space white
  | line => exact shows_blank rfl (.inl rfl)
  | block => exact shows_blank rfl (.inl rfl)
  | segment => exact shows_blank rfl (.inr rfl)
  | string => exact shows_blank rfl (.inr rfl)
  | dollarString => exact shows_blank rfl (.inr rfl)
  | @eString _ cs letter =>
    have text : (c :: '\'' :: cs).take (2 + escapedLen cs) =
        c :: '\'' :: cs.take (escapedLen cs) := by
      rw [Nat.add_comm, List.take_succ_cons, List.take_succ_cons]
    have word : toks [c] = [.word ['E']] := by
      rcases letter with rfl | rfl
      · rfl
      · rfl
    rw [text, toksOf_eString letter, word]
    exact .inert rfl (by simp) (by simp) (by simp) (by simp) (.inr (.inr rfl)) (by simp)
      (by simp)
  | quotedIdent =>
    rw [Nat.add_comm, List.drop_succ_cons] at more
    have closed : quotedLen '"' cs < cs.length := by
      by_contra whole
      exact more (List.drop_eq_nil_of_le (by omega))
    rw [Nat.add_comm, List.take_succ_cons, toksOf_quoted closed]
    exact .inert rfl (by simp) (by simp) (by simp) (by simp) (.inr (.inl rfl)) (by simp)
      (by simp)
  | ident start =>
    rw [take_takeWhile]
    have conts : ∀ d ∈ cs.takeWhile isIdentCont, isWordCont d = true := by
      intro d inside
      rw [isWordCont_eq]
      exact List.mem_takeWhile_imp inside
    rw [toksOf, tokenMask, toks_word start conts]
    exact .word rfl
  | number start digit =>
    rw [take_takeWhile]
    refine shows_run (.inl rfl) space ?_ start ?_ fun d inside => List.mem_takeWhile_imp inside
    · rintro rfl
      exact absurd digit (by decide)
    · rw [punctuation, if_neg, if_neg, if_neg]
      all_goals
        rintro rfl
        exact absurd digit (by decide)
  | param =>
    rw [take_takeWhile]
    exact shows_run (.inr rfl) (by decide) (by decide) (by decide) (by decide)
      fun d inside => numberCont_of_tagCont (List.mem_takeWhile_imp inside)
  | dollar => exact shows_other (by decide) (by decide) (by decide) (by decide)
  | semicolon => exact .separator rfl
  | single single => exact shows_other space single.double single.start single.semicolon

/-! ## The tokens behind what the tokenizer reads -/

/-- Every token of the list shows the tokenizer what its kind says. -/
def AllShow (tokens : List Token) : Prop :=
  ∀ token ∈ tokens, Shows token (toksOf token)

theorem significant_noise {token : Token} (noise : token.kind.isNoise = true)
    (tokens : List Token) : significant (token :: tokens) = significant tokens := by
  rw [significant, List.filter_cons_of_neg (by simp [noise])]
  rfl

theorem significant_cons {token : Token} (noise : token.kind.isNoise = false)
    (tokens : List Token) : significant (token :: tokens) = token :: significant tokens := by
  rw [significant, List.filter_cons_of_pos (by simp [noise])]
  rfl

theorem noise_of_vanishes {token : Token} (gone : vanishes token = true) :
    token.kind.isNoise = false ∧ isSeparator token = false ∧ token.kind ≠ .ident ∧
      token.kind ≠ .other := by
  unfold vanishes at gone
  split at gone
  case h_4 => cases gone
  all_goals
    rename_i kind
    rw [isSeparator, kind]
    exact ⟨rfl, rfl, nofun, nofun⟩

theorem isKeyword_ident {token : Token} (kind : token.kind = .ident) (word : String) :
    isKeyword token [word] = true ↔ toAsciiUppercase token.text = word.toList := by
  rw [isKeyword, kind]
  simp [isWord]

theorem isKeyword_other {token : Token} (kind : token.kind ≠ .ident) (words : List String) :
    isKeyword token words = false := by
  rw [isKeyword, beq_false_of_ne kind, Bool.false_and]

theorem statementOf_cons {token : Token} (separator : isSeparator token = false)
    (tokens : List Token) : statementOf (token :: tokens) = token :: statementOf tokens := by
  rw [statementOf, List.takeWhile_cons_of_pos (by simp [separator])]
  rfl

/-- A token that is neither a parenthesis nor a word is passed over. -/
theorem firstTarget_skip {token : Token} (opens : token ≠ ⟨.other, ['(']⟩)
    (closes : token ≠ ⟨.other, [')']⟩) (word : token.kind ≠ .ident) (depth : Nat)
    (tokens : List Token) : firstTarget depth (token :: tokens) = firstTarget depth tokens := by
  rw [firstTarget, if_neg opens, if_neg closes, isKeyword_other word, isKeyword_other word]
  simp

theorem findTarget_skip (depth : Nat) (front back : List Tok)
    (inert : ∀ tok ∈ front, tok = .other ∨ tok = .quoted ∨
      ∃ w, tok = .word w ∧ isTargetTok tok = false) :
    findTarget depth (front ++ back) = findTarget depth back := by
  induction front with
  | nil => rfl
  | cons tok front ih =>
    have later := ih fun next member => inert next (.tail _ member)
    rw [List.cons_append]
    rcases inert tok (.head _) with rfl | rfl | ⟨w, rfl, target⟩
    · exact later
    · exact later
    · simp only [isTargetTok, Bool.or_eq_false_iff, beq_eq_false_iff_ne, ne_eq,
        Tok.word.injEq] at target
      rw [findTarget, if_neg (fun both => target.1 both.2), if_neg (fun both => target.2 both.2)]
      exact later

/-- What `find_target` finds behind the masks stands in the tokens. -/
structure TargetAt (depth : Nat) (tokens : List Token) (dir : CopyDirection) (after : List Tok)
    (passed later : List Token) : Prop where
  shown : after = later.flatMap toksOf
  split : significant tokens = passed ++ significant later
  single : ∀ token ∈ passed, isSeparator token = false
  target : firstTarget depth (statementOf (significant tokens)) =
    some (dir, statementOf (significant later))
  suffix : later <:+ tokens

theorem TargetAt.noise {depth : Nat} {tokens : List Token} {dir : CopyDirection}
    {after : List Tok} {passed later : List Token} (found : TargetAt depth tokens dir after passed later)
    {token : Token} (noise : token.kind.isNoise = true) :
    TargetAt depth (token :: tokens) dir after passed later where
  shown := found.shown
  split := by
    rw [significant_noise noise]
    exact found.split
  single := found.single
  target := by
    rw [significant_noise noise]
    exact found.target
  suffix := found.suffix.trans (List.suffix_cons _ _)

theorem TargetAt.step {depth next : Nat} {tokens : List Token} {dir : CopyDirection}
    {after : List Tok} {passed later : List Token} (found : TargetAt next tokens dir after passed later)
    {token : Token} (noise : token.kind.isNoise = false) (separator : isSeparator token = false)
    (skips : ∀ others, firstTarget depth (token :: others) = firstTarget next others) :
    TargetAt depth (token :: tokens) dir after (token :: passed) later where
  shown := found.shown
  split := by
    rw [significant_cons noise, found.split, List.cons_append]
  single := by
    intro other member
    rcases List.mem_cons.mp member with rfl | inside
    · exact separator
    · exact found.single other inside
  target := by
    rw [significant_cons noise, statementOf_cons separator, skips]
    exact found.target
  suffix := found.suffix.trans (List.suffix_cons _ _)

/-- The word that `find_target` looks for is found where it stands. -/
theorem TargetAt.here {token : Token} {tokens : List Token} {dir : CopyDirection}
    (kind : token.kind = .ident)
    (found : ∀ others, firstTarget 0 (token :: others) = some (dir, others)) :
    TargetAt 0 (token :: tokens) dir (tokens.flatMap toksOf) [token] tokens := by
  have noise : token.kind.isNoise = false := by
    rw [kind]
    rfl
  have separator : isSeparator token = false := by
    rw [isSeparator, kind]
    rfl
  refine ⟨rfl, significant_cons noise tokens, ?_, ?_, List.suffix_cons _ _⟩
  · intro other member
    rw [List.mem_singleton.mp member]
    exact separator
  · rw [significant_cons noise, statementOf_cons separator, found]

theorem firstTarget_word {token : Token} (kind : token.kind = .ident) (depth : Nat)
    (others : List Token) : firstTarget depth (token :: others) =
      if depth = 0 ∧ toAsciiUppercase token.text = "FROM".toList then some (.in, others)
      else if depth = 0 ∧ toAsciiUppercase token.text = "TO".toList then some (.out, others)
      else firstTarget depth others := by
  have paren : ∀ text, token ≠ ⟨.other, text⟩ := by
    rintro text rfl
    cases kind
  rw [firstTarget, if_neg (paren _), if_neg (paren _)]
  simp only [isKeyword_ident kind]

theorem findTarget_sound {tokens : List Token} (shows : AllShow tokens)
    (apart : tokens.any gluesTarget = false) {depth : Nat} {dir : CopyDirection} {after : List Tok}
    (found : findTarget depth (tokens.flatMap toksOf) = some (dir, after)) :
    ∃ passed later, TargetAt depth tokens dir after passed later := by
  induction tokens generalizing depth with
  | nil => cases found
  | cons token tokens ih =>
    rw [List.any_cons, Bool.or_eq_false_iff] at apart
    have ih := @ih (fun other member => shows other (.tail _ member)) apart.2
    have first := shows token (.head _)
    rw [List.flatMap_cons] at found
    generalize toksOf token = shown at first found
    cases first with
    | noise noise =>
      obtain ⟨passed, later, target⟩ := ih found
      exact ⟨passed, later, target.noise noise⟩
    | tab noise =>
      obtain ⟨passed, later, target⟩ := ih found
      exact ⟨passed, later, target.noise noise⟩
    | literal gone =>
      obtain ⟨passed, later, target⟩ := ih found
      obtain ⟨noise, separator, ident, other⟩ := noise_of_vanishes gone
      refine ⟨token :: passed, later, target.step noise separator (firstTarget_skip ?_ ?_ ident _)⟩
      · rintro rfl
        exact other rfl
      · rintro rfl
        exact other rfl
    | separator kind => cases found
    | word kind =>
      rw [List.singleton_append, findTarget] at found
      split_ifs at found with isFrom isTo
      · obtain ⟨rfl, rfl⟩ := Prod.mk.inj (Option.some.inj found)
        obtain ⟨rfl, word⟩ := isFrom
        refine ⟨_, _, .here kind fun others => ?_⟩
        rw [firstTarget_word kind, if_pos ⟨rfl, word⟩]
      · obtain ⟨rfl, rfl⟩ := Prod.mk.inj (Option.some.inj found)
        obtain ⟨rfl, word⟩ := isTo
        refine ⟨_, _, .here kind fun others => ?_⟩
        rw [firstTarget_word kind, if_neg isFrom, if_pos ⟨rfl, word⟩]
      · obtain ⟨passed, later, target⟩ := ih found
        refine ⟨_, later, target.step (by rw [kind]; rfl) (by rw [isSeparator, kind]; rfl) ?_⟩
        intro others
        rw [firstTarget_word kind, if_neg isFrom, if_neg isTo]
    | opens same =>
      subst same
      obtain ⟨passed, later, target⟩ := ih found
      exact ⟨_, later, target.step rfl rfl fun others => by rw [firstTarget, if_pos rfl]⟩
    | closes same =>
      subst same
      rw [List.singleton_append, findTarget] at found
      split_ifs at found with zero
      obtain ⟨passed, later, target⟩ := ih found
      refine ⟨_, later, target.step rfl rfl fun others => ?_⟩
      rw [firstTarget, if_neg (by decide), if_pos rfl, if_neg zero]
    | @inert head more noise separator word opens closes kind tail free =>
      have skipped := findTarget_skip depth (head :: more) (tokens.flatMap toksOf) (by
        intro tok member
        rcases List.mem_cons.mp member with rfl | inside
        · rcases kind with rfl | rfl | rfl
          · exact .inl rfl
          · exact .inr (.inl rfl)
          · exact .inr (.inr ⟨_, rfl, rfl⟩)
        · refine (tail tok inside).imp_right fun shape => .inr ?_
          obtain ⟨w, same⟩ := shape
          exact ⟨w, same, free apart.1 tok inside⟩)
      rw [skipped] at found
      obtain ⟨passed, later, target⟩ := ih found
      exact ⟨_, later, target.step noise (beq_false_of_ne separator)
        (firstTarget_skip opens closes word depth)⟩

/-- A word that the tokenizer reads first is the first token that is not noise and not a literal
that the mask hides. -/
theorem head_word {tokens : List Token} (shows : AllShow tokens) {w : Text} {rest : List Tok}
    (read : tokens.flatMap toksOf = .word w :: rest) (letter : w ≠ ['E']) :
    ∃ hidden token later, significant tokens = hidden ++ token :: significant later ∧
      (∀ other ∈ hidden, vanishes other = true) ∧ token.kind = .ident ∧
      toAsciiUppercase token.text = w ∧ rest = later.flatMap toksOf ∧ later <:+ tokens := by
  induction tokens with
  | nil => cases read
  | cons token tokens ih =>
    have others : AllShow tokens := fun other member => shows other (.tail _ member)
    have first := shows token (.head _)
    rw [List.flatMap_cons] at read
    generalize toksOf token = shown at first read
    cases first with
    | noise noise =>
      obtain ⟨hidden, verb, later, split, gone, kind, word, same, suffix⟩ := ih others read
      rw [significant_noise noise]
      exact ⟨hidden, verb, later, split, gone, kind, word, same,
        suffix.trans (List.suffix_cons _ _)⟩
    | tab noise => cases read
    | literal literal =>
      obtain ⟨hidden, verb, later, split, gone, kind, word, same, suffix⟩ := ih others read
      rw [significant_cons (noise_of_vanishes literal).1, split]
      refine ⟨token :: hidden, verb, later, rfl, ?_, kind, word, same,
        suffix.trans (List.suffix_cons _ _)⟩
      intro other member
      rcases List.mem_cons.mp member with rfl | inside
      · exact literal
      · exact gone other inside
    | separator kind => cases read
    | word kind =>
      obtain ⟨word, same⟩ := List.cons.inj read
      refine ⟨[], token, tokens, significant_cons ?_ tokens, by simp, kind, Tok.word.inj word,
        same.symm, List.suffix_cons _ _⟩
      rw [kind]
      rfl
    | opens same => cases read
    | closes same => cases read
    | inert noise separator word opens closes kind =>
      obtain ⟨same, -⟩ := List.cons.inj read
      subst same
      rcases kind with kind | kind | kind
      · cases kind
      · cases kind
      · exact absurd (Tok.word.inj kind) letter

theorem only_separators {tokens : List Token} (shows : AllShow tokens)
    (semicolons : (tokens.flatMap toksOf).all (· == .semicolon) = true) :
    (significant tokens).all (fun token => isSeparator token || vanishes token) = true := by
  induction tokens with
  | nil => rfl
  | cons token tokens ih =>
    have first := shows token (.head _)
    rw [List.flatMap_cons, List.all_append, Bool.and_eq_true] at semicolons
    obtain ⟨here, after⟩ := semicolons
    have later := ih (fun other member => shows other (.tail _ member)) after
    generalize toksOf token = shown at first here
    cases first with
    | noise noise =>
      rw [significant_noise noise]
      exact later
    | tab noise => cases here
    | literal gone =>
      rw [significant_cons (noise_of_vanishes gone).1, List.all_cons, later, gone, Bool.or_true]
      rfl
    | separator kind =>
      rw [significant_cons (by rw [kind]; rfl), List.all_cons, later, isSeparator, kind]
      rfl
    | word kind => cases here
    | opens same => cases here
    | closes same => cases here
    | inert noise separator word opens closes kind =>
      rw [List.all_cons, Bool.and_eq_true] at here
      rcases kind with rfl | rfl | rfl
      · cases here.1
      · cases here.1
      · cases here.1

/-- Only separators and literals that the mask hides follow the first separator when `ends_once`
says so. -/
theorem endsOnce_sound {tokens : List Token} (shows : AllShow tokens)
    (once : endsOnce (tokens.flatMap toksOf) = true) :
    ((significant tokens).dropWhile fun token => !isSeparator token).all
      (fun token => isSeparator token || vanishes token) = true := by
  induction tokens with
  | nil => rfl
  | cons token tokens ih =>
    have others : AllShow tokens := fun other member => shows other (.tail _ member)
    have first := shows token (.head _)
    rw [List.flatMap_cons, endsOnce] at once
    generalize toksOf token = shown at first once
    have passes (seen : token.kind.isNoise = false) (separator : isSeparator token = false)
        (skips : ∀ tok ∈ shown, (tok != .semicolon) = true) :
        ((significant (token :: tokens)).dropWhile fun token => !isSeparator token).all
          (fun token => isSeparator token || vanishes token) = true := by
      rw [List.dropWhile_append_of_pos skips] at once
      rw [significant_cons seen, List.dropWhile_cons_of_pos (by rw [separator]; rfl)]
      exact ih others once
    cases first with
    | noise noise =>
      rw [significant_noise noise]
      exact ih others once
    | tab noise =>
      rw [significant_noise noise]
      exact ih others once
    | literal gone =>
      obtain ⟨noise, separator, -⟩ := noise_of_vanishes gone
      exact passes noise separator (by simp)
    | separator kind =>
      have separator : isSeparator token = true := by
        rw [isSeparator, kind]
        rfl
      rw [significant_cons (by rw [kind]; rfl),
        List.dropWhile_cons_of_neg (by rw [separator]; decide), List.all_cons, separator,
        only_separators others once]
      rfl
    | word kind => exact passes (by rw [kind]; rfl) (by rw [isSeparator, kind]; rfl) (by simp)
    | opens same => exact passes (by rw [same]; rfl) (by rw [same]; rfl) (by simp)
    | closes same => exact passes (by rw [same]; rfl) (by rw [same]; rfl) (by simp)
    | inert noise separator word opens closes kind tail =>
      refine passes noise (beq_false_of_ne separator) ?_
      intro tok member
      rcases List.mem_cons.mp member with rfl | inside
      · rcases kind with rfl | rfl | rfl
        · rfl
        · rfl
        · rfl
      · rcases tail tok inside with rfl | ⟨w, rfl⟩
        · rfl
        · rfl

theorem copyDirection_cases {sql : Text} {dir : CopyDirection}
    (found : copyDirection sql = some dir) :
    (maskedCode (probe sql)).getLast? = some ';' ∧ ∃ toks rest,
      tokenize ((maskedCode (probe sql)).take ((maskedCode (probe sql)).length - 2)) =
        some (.word "COPY".toList :: toks) ∧
      findTarget 0 toks = some (dir, .word dir.stream :: rest) ∧ endsOnce rest = true := by
  unfold copyDirection at found
  simp only at found
  split_ifs at found with marker
  rw [Decidable.not_not] at marker
  refine ⟨marker, ?_⟩
  split at found
  · rename_i w toks read
    split_ifs at found with copy
    split at found
    · rename_i target stream rest target
      split_ifs at found with ends
      obtain ⟨rfl, once⟩ := ends
      cases found
      exact ⟨toks, rest, copy ▸ read, target, once⟩
    · cases found
  · cases found

/-- A token in front of the marker shows the tokenizer what its kind says. -/
theorem front_shows {sql : Text} {front : List Token} {semi : Token}
    (lexed : lex (probe sql) = front ++ [semi]) (last : semi.kind = .semicolon) :
    AllShow front := by
  intro token member
  obtain ⟨before, after, rfl⟩ := List.append_of_mem member
  have split : lexFrom (probe sql).length .plain (probe sql) =
      before ++ token :: (after ++ [semi]) := by
    rw [← List.cons_append, ← List.append_assoc]
    exact lexed
  obtain ⟨context, c, cs, -, shape, rest⟩ := lexFrom_at (Nat.le_refl _) split
  have text : semi.text = [';'] := lexFrom_semicolon (by
    rw [← lex, lexed]
    simp) last
  rw [shape]
  apply token_shows
  rw [← rest]
  simp [textOf, text]

theorem statementOf_skip (front : List Token) (single : ∀ token ∈ front, isSeparator token = false)
    (back : List Token) : statementOf (front ++ back) = front ++ statementOf back := by
  rw [statementOf, List.takeWhile_append_of_pos]
  · rfl
  · intro token member
    rw [single token member]
    rfl

theorem statementOf_marker (tokens : List Token) {semi : Token} (last : isSeparator semi = true) :
    statementOf (tokens ++ [semi]) = statementOf tokens := by
  induction tokens with
  | nil =>
    rw [List.nil_append, statementOf, List.takeWhile_cons_of_neg (by rw [last]; decide)]
    rfl
  | cons token tokens ih =>
    rw [List.cons_append]
    by_cases separator : isSeparator token = true
    · rw [statementOf, statementOf, List.takeWhile_cons_of_neg (by rw [separator]; decide),
        List.takeWhile_cons_of_neg (by rw [separator]; decide)]
    · rw [statementOf_cons (Bool.eq_false_iff.mpr separator),
        statementOf_cons (Bool.eq_false_iff.mpr separator), ih]

theorem dropWhile_marker (tokens : List Token) {semi : Token} (last : isSeparator semi = true) :
    (tokens ++ [semi]).dropWhile (fun token => !isSeparator token) =
      tokens.dropWhile (fun token => !isSeparator token) ++ [semi] := by
  induction tokens with
  | nil =>
    rw [List.nil_append, List.dropWhile_cons_of_neg (by rw [last]; decide)]
    rfl
  | cons token tokens ih =>
    rw [List.cons_append]
    by_cases separator : isSeparator token = true
    · rw [List.dropWhile_cons_of_neg (by rw [separator]; decide),
        List.dropWhile_cons_of_neg (by rw [separator]; decide), List.cons_append]
    · have single := Bool.eq_false_iff.mpr separator
      rw [List.dropWhile_cons_of_pos (by rw [single]; rfl),
        List.dropWhile_cons_of_pos (by rw [single]; rfl), ih]

theorem ident_seen {token : Token} (kind : token.kind = .ident) :
    vanishes token = false ∧ isSeparator token = false := by
  rw [vanishes, isSeparator, kind]
  exact ⟨rfl, rfl⟩

/-- The first token that is shown stands behind the literals that are hidden. -/
theorem visible_head {hidden : List Token} (gone : ∀ token ∈ hidden, vanishes token = true)
    {token : Token} (seen : vanishes token = false) (later : List Token) :
    (visible (hidden ++ token :: later)).head? = some token := by
  have empty : hidden.filter (fun token => !vanishes token) = [] := by
    rw [List.filter_eq_nil_iff]
    intro other member
    simp [gone other member]
  rw [visible, List.filter_append, empty, List.nil_append,
    List.filter_cons_of_pos (by rw [seen]; rfl)]
  rfl

theorem hidden_nil {hidden : List Token} (gone : ∀ token ∈ hidden, vanishes token = true)
    {later : List Token} (first : (hidden ++ later).head?.any vanishes = false) : hidden = [] := by
  cases hidden with
  | nil => rfl
  | cons token hidden =>
    rw [List.cons_append, List.head?_cons, Option.any_some, gone token (.head _)] at first
    cases first

theorem glues_significant {tokens : List Token}
    (apart : (significant tokens).any gluesTarget = false) : tokens.any gluesTarget = false := by
  rw [List.any_eq_false] at apart ⊢
  intro token member glues
  refine apart token (List.mem_filter.mpr ⟨member, ?_⟩) glues
  unfold gluesTarget at glues
  split at glues
  case h_3 => cases glues
  all_goals
    rename_i kind
    rw [kind]
    rfl

theorem AllShow.suffix {tokens later : List Token} (shows : AllShow tokens)
    (suffix : later <:+ tokens) : AllShow later :=
  fun token member => shows token (suffix.subset member)

theorem isKeyword_stream {token : Token} (kind : token.kind = .ident) {dir : CopyDirection}
    (word : toAsciiUppercase token.text = dir.stream) :
    isKeyword token (streamWord dir) = true := by
  cases dir with
  | «in» => exact (isKeyword_ident kind _).mpr word
  | out => exact (isKeyword_ident kind _).mpr word

/-- The stream stands right after the target, and only separators and hidden literals follow the
first separator. -/
theorem stream_read {tokens : List Token} (shows : AllShow tokens)
    (apart : tokens.any gluesTarget = false) {dir : CopyDirection} {rest : List Tok}
    (target : findTarget 0 (tokens.flatMap toksOf) = some (dir, .word dir.stream :: rest))
    (once : endsOnce rest = true)
    (direct : ∀ after, firstTarget 0 (statementOf (significant tokens)) = some (dir, after) →
      (after.head?.any vanishes && (visible after).head?.any
        fun token => isKeyword token (streamWord dir)) = false) :
    ∃ stream after, firstTarget 0 (statementOf (significant tokens)) = some (dir, stream :: after) ∧
      isKeyword stream (streamWord dir) = true ∧
      ((significant tokens).dropWhile fun token => !isSeparator token).all
        (fun token => isSeparator token || vanishes token) = true := by
  obtain ⟨passed, after, found⟩ := findTarget_sound shows apart target
  have letter : dir.stream ≠ ['E'] := by
    cases dir with
    | «in» => decide
    | out => decide
  obtain ⟨hidden, stream, later, split, gone, kind, word, rfl, suffix⟩ :=
    head_word (shows.suffix found.suffix) found.shown.symm letter
  have keyword := isKeyword_stream kind word
  have single : ∀ token ∈ hidden, isSeparator token = false :=
    fun token member => (noise_of_vanishes (gone token member)).2.1
  have statement : statementOf (significant after) =
      hidden ++ stream :: statementOf (significant later) := by
    rw [split, statementOf_skip hidden single, statementOf_cons (ident_seen kind).2]
  have reached := found.target
  rw [statement] at reached
  have near := direct _ reached
  rw [visible_head gone (ident_seen kind).1, Option.any_some, keyword, Bool.and_true] at near
  obtain rfl := hidden_nil gone near
  refine ⟨stream, _, reached, keyword, ?_⟩
  have ends := endsOnce_sound (shows.suffix (suffix.trans found.suffix)) once
  rw [found.split, split, List.nil_append, List.dropWhile_append_of_pos,
    List.dropWhile_cons_of_pos (by rw [(ident_seen kind).2]; rfl)]
  · exact ends
  · intro token member
    rw [found.single token member]
    rfl

/-- A direction is what PostgreSQL reads when the text is readable. -/
theorem copyDirection_sound (sql : Text) (alike : copyReadable sql = true) : CopySound sql := by
  intro dir found
  obtain ⟨marker, toks, rest, read, target, once⟩ := copyDirection_cases found
  rw [copyReadable, Bool.and_eq_true] at alike
  obtain ⟨holds, alike⟩ := alike
  obtain ⟨front, semi, lexed, last, same⟩ := probe_tokens holds marker read
  have shows := front_shows lexed last
  have separator : isSeparator semi = true := by
    rw [isSeparator, last]
    rfl
  obtain ⟨hidden, verb, body, split, gone, verbKind, verbWord, rfl, suffix⟩ :=
    head_word shows same.symm (by decide)
  have single := (ident_seen verbKind).2
  have tokens : significant (lex (probe sql)) =
      hidden ++ verb :: (significant body ++ [semi]) := by
    rw [lexed, significant, List.filter_append, ← significant, split,
      List.filter_cons_of_pos (by rw [last]; rfl), List.append_assoc]
    rfl
  have starts : startsCopy (significant (lex (probe sql))) = true := by
    rw [startsCopy, tokens, visible_head gone (ident_seen verbKind).1, Option.any_some,
      isKeyword_ident verbKind]
    exact verbWord
  rw [starts, Bool.not_true, Bool.false_or] at alike
  simp only [Bool.and_eq_true, Bool.not_eq_true'] at alike
  obtain ⟨⟨⟨first, atEnd⟩, beforeStream⟩, apart⟩ := alike
  rw [tokens] at first
  obtain rfl := hidden_nil gone first
  rw [List.nil_append] at tokens
  have statement : statementOf (significant (lex (probe sql))) =
      verb :: statementOf (significant body) := by
    rw [tokens, statementOf_cons single, statementOf_marker _ separator]
  have free : body.any gluesTarget = false := by
    rw [tokens, List.any_cons, List.any_append, Bool.or_eq_false_iff, Bool.or_eq_false_iff] at apart
    exact glues_significant apart.2.1
  obtain ⟨stream, after, reached, keyword, ends⟩ := stream_read (shows.suffix suffix) free target once
    (by
      intro after reached
      rw [literalBeforeStream, statement, List.tail_cons, reached] at beforeStream
      exact beforeStream)
  have tail : (significant (lex (probe sql))).dropWhile (fun token => !isSeparator token) =
      (significant body).dropWhile (fun token => !isSeparator token) ++ [semi] := by
    rw [tokens, List.dropWhile_cons_of_pos (by rw [single]; rfl), dropWhile_marker _ separator]
  have separated : ((significant (lex (probe sql))).dropWhile fun token => !isSeparator token).all
      isSeparator = true := by
    rw [literalsAtEnd, tail, List.all_append, ends, List.all_cons, separator, Bool.and_eq_false_iff]
      at atEnd
    have none := atEnd.resolve_right (by simp)
    rw [← tail] at none
    rw [List.all_eq_true]
    intro token member
    have kept : isSeparator token || vanishes token := by
      rw [tail, List.mem_append] at member
      rcases member with inside | marked
      · exact List.all_eq_true.mp ends token inside
      · rw [List.mem_singleton.mp marked, separator]
        rfl
    rw [Bool.eq_false_iff.mpr (List.any_eq_false.mp none token member), Bool.or_false] at kept
    exact kept
  have marked : (lex (probe sql)).getLast?.any isSeparator = true := by
    rw [lexed, List.getLast?_concat, Option.any_some, separator]
  rw [copyReading, if_pos ⟨marked, separated⟩, statement, copyStatement,
    if_pos ((isKeyword_ident verbKind _).mpr verbWord), reached]
  simp only
  rw [if_pos keyword]

theorem copyDirection_sound_options :
    copyReadable "copy t (a, b) FROM stdin WITH (FORMAT csv, NULL E'\\N'); -- x".toList = true ∧
      copyReading "copy t (a, b) FROM stdin WITH (FORMAT csv, NULL E'\\N'); -- x".toList =
        some .in :=
  ⟨by decide +kernel, copyDirection_sound _ (by decide +kernel) _ (by decide +kernel)⟩

/-- The scanner takes the backslash before the quote for an escape, and with it the second
statement for a part of the literal. -/
theorem copyDirection_backslash :
    ¬CopySound "COPY t FROM STDIN (NULL E'\\\\'); DROP TABLE t --'".toList := by
  intro sound
  have wrong := sound .in (by decide +kernel)
  exact absurd wrong (by decide +kernel)

end FerroEngine.CopyShapeSoundness
