import Mathlib.Tactic.IntervalCases
import FerroEngine.PinClassifier
import FerroEngine.RegionScannerAgreement

set_option autoImplicit false

/-! # Leading noise

`strip_leading_noise` removes exactly the white space and comments that PostgreSQL's lexer reads
before the first other token.
-/

namespace FerroEngine.LeadingNoise

open SourceText PostgresLexicalRules RegionScannerAgreement PinClassifier

/-! ## Block comments -/

theorem findPair_cons {a b c : Char} {cs : Text} (other : ¬(c = a ∧ cs.head? = some b)) :
    findPair a b (c :: cs) = (findPair a b cs).map (· + 1) := by
  rw [findPair, if_neg other]

theorem findPair_head {a b : Char} (cs : Text) : findPair a b (a :: b :: cs) = some 0 := by
  rw [findPair, if_pos ⟨rfl, rfl⟩]

/-- A comment that ends before the text does has a closing marker. -/
theorem findPair_of_closed (depth : Nat) (s : Text) (closed : blockLen depth s < s.length) :
    ∃ c, findPair '*' '/' s = some c := by
  induction depth, s using blockLen.induct with
  | case1 depth => simp at closed
  | case2 depth cs ih =>
    rw [blockLen] at closed
    simp only [List.length_cons] at closed
    obtain ⟨c, found⟩ := ih (by omega)
    rw [findPair_cons (by simp)]
    by_cases slash : cs.head? = some '/'
    · obtain ⟨ds, rfl⟩ := List.head?_eq_some_iff.mp slash
      exact ⟨1, by rw [findPair_head]; rfl⟩
    · exact ⟨c + 2, by rw [findPair_cons (by simp [slash]), found]; rfl⟩
  | case3 depth cs shallow => exact ⟨0, findPair_head cs⟩
  | case4 depth cs deep ih => exact ⟨0, findPair_head cs⟩
  | case5 depth c cs noOpen noClose ih =>
    rw [blockLen.eq_4 depth c cs noOpen noClose] at closed
    simp only [List.length_cons] at closed
    obtain ⟨k, found⟩ := ih (by omega)
    refine ⟨k + 1, ?_⟩
    rw [findPair_cons, found]
    · rfl
    · rintro ⟨rfl, head⟩
      obtain ⟨ds, rfl⟩ := List.head?_eq_some_iff.mp head
      exact noClose ds rfl rfl

/-- A character that starts no marker does not matter to the loop. -/
theorem skipBlockCommentLoop_cons (fuel depth : Nat) {c : Char} {cs : Text}
    (noOpen : ¬(c = '/' ∧ cs.head? = some '*')) (noClose : ¬(c = '*' ∧ cs.head? = some '/')) :
    skipBlockCommentLoop (fuel + 1) depth (c :: cs) = skipBlockCommentLoop (fuel + 1) depth cs := by
  rw [skipBlockCommentLoop, skipBlockCommentLoop, findPair_cons noOpen, findPair_cons noClose]
  cases findPair '/' '*' cs with
  | none =>
    cases findPair '*' '/' cs with
    | none => rfl
    | some k => rfl
  | some o =>
    cases findPair '*' '/' cs with
    | none => rfl
    | some k =>
      simp only [Option.map_some, Nat.add_lt_add_iff_right]
      rfl

theorem skipBlockCommentLoop_closed (fuel depth : Nat) (s : Text) (inside : 1 ≤ depth)
    (enough : s.length < fuel) (closed : blockLen depth s < s.length) :
    skipBlockCommentLoop fuel depth s = some (s.drop (blockLen depth s)) := by
  induction depth, s using blockLen.induct generalizing fuel with
  | case1 depth => simp at closed
  | case2 depth cs ih =>
    obtain ⟨fuel, rfl⟩ : ∃ n, fuel = n + 1 := ⟨fuel - 1, by omega⟩
    obtain ⟨k, found⟩ := findPair_of_closed depth _ closed
    rw [blockLen] at closed ⊢
    simp only [List.length_cons] at closed enough
    rw [skipBlockCommentLoop, findPair_head, found]
    have later : 0 < k := by
      rw [findPair_cons (by simp)] at found
      obtain ⟨j, -, rfl⟩ := Option.map_eq_some_iff.mp found
      omega
    simp only [if_pos later]
    rw [Nat.add_comm 2, List.drop_succ_cons, List.drop_succ_cons]
    exact ih fuel (by omega) (by omega) (by omega)
  | case3 depth cs shallow =>
    obtain ⟨fuel, rfl⟩ : ∃ n, fuel = n + 1 := ⟨fuel - 1, by omega⟩
    have last : depth - 1 = 0 := by omega
    rw [skipBlockCommentLoop, findPair_head, blockLen, if_pos shallow]
    cases findPair '/' '*' ('*' :: '/' :: cs) with
    | none => simp only [if_pos last]
    | some o => simp only [if_pos last, Nat.not_lt_zero, if_false]
  | case4 depth cs deep ih =>
    obtain ⟨fuel, rfl⟩ : ∃ n, fuel = n + 1 := ⟨fuel - 1, by omega⟩
    have more : depth - 1 ≠ 0 := by omega
    rw [blockLen, if_neg deep] at closed ⊢
    simp only [List.length_cons] at closed enough
    have next := ih fuel (by omega) (by omega) (by omega)
    rw [Nat.add_comm 2, List.drop_succ_cons, List.drop_succ_cons, ← next]
    rw [skipBlockCommentLoop, findPair_head]
    cases findPair '/' '*' ('*' :: '/' :: cs) with
    | none =>
      simp only [if_neg more]
      rfl
    | some o =>
      simp only [if_neg more, Nat.not_lt_zero, if_false]
      rfl
  | case5 depth c cs noOpen noClose ih =>
    obtain ⟨fuel, rfl⟩ : ∃ n, fuel = n + 1 := ⟨fuel - 1, by omega⟩
    rw [blockLen.eq_4 depth c cs noOpen noClose] at closed ⊢
    simp only [List.length_cons] at closed enough
    have notOpen : ¬(c = '/' ∧ cs.head? = some '*') := by
      rintro ⟨rfl, head⟩
      obtain ⟨ds, rfl⟩ := List.head?_eq_some_iff.mp head
      exact noOpen ds rfl rfl
    have notClose : ¬(c = '*' ∧ cs.head? = some '/') := by
      rintro ⟨rfl, head⟩
      obtain ⟨ds, rfl⟩ := List.head?_eq_some_iff.mp head
      exact noClose ds rfl rfl
    rw [skipBlockCommentLoop_cons fuel depth notOpen notClose, Nat.add_comm 1,
      List.drop_succ_cons]
    exact ih (fuel + 1) inside (by omega) (by omega)

/-- The comment skipper stops where the lexer's comment does. -/
theorem skipBlockComment_closed (s : Text) (closed : blockLen 1 s < s.length) :
    skipBlockComment s = some (s.drop (blockLen 1 s)) :=
  skipBlockCommentLoop_closed (s.length + 1) 1 s (Nat.le_refl 1) (Nat.lt_succ_self _) closed

/-! ## Noise tokens -/

/-- The token is white space or a comment that is closed. -/
inductive Noise : Token → Prop
  | space {c : Char} (white : isWhitespace c = true) : Noise { kind := .space, text := [c] }
  | line {body : Text} (single : '\n' ∉ body) :
      Noise { kind := .lineComment, text := '-' :: '-' :: body ++ ['\n'] }
  | block {body : Text}
      (closed : ∀ after : Text, after ≠ [] → skipBlockComment (body ++ after) = some after) :
      Noise { kind := .blockComment, text := '/' :: '*' :: body }

/-- The text starts with something that is neither white space nor a comment. -/
structure Significant (text : Text) : Prop where
  head : ∃ c cs, text = c :: cs ∧ isWhitespace c = false
  line : ∀ cs, text ≠ '-' :: '-' :: cs
  block : ∀ cs, text ≠ '/' :: '*' :: cs

theorem Significant.ne_nil {text : Text} (significant : Significant text) : text ≠ [] := by
  obtain ⟨c, cs, rfl, -⟩ := significant.head
  simp

theorem Significant.trimStart {text : Text} (significant : Significant text) :
    trimStart text = text := by
  obtain ⟨c, cs, rfl, visible⟩ := significant.head
  rw [PinClassifier.trimStart, List.dropWhile_cons_of_neg (by simp [visible])]

theorem trimStart_line (body : Text) : trimStart ('-' :: body) = '-' :: body := rfl

theorem trimStart_block (body : Text) : trimStart ('/' :: body) = '/' :: body := rfl

theorem trimStart_space {c : Char} (white : isWhitespace c = true) (text : Text) :
    trimStart (c :: text) = trimStart text := by
  rw [trimStart, List.dropWhile_cons_of_pos white, trimStart]

theorem drop_line {body : Text} (single : '\n' ∉ body) (after : Text) :
    ((body ++ '\n' :: after).dropWhile fun c => c != '\n').drop 1 = after := by
  have skipped : (body ++ '\n' :: after).dropWhile (fun c => c != '\n') = '\n' :: after := by
    rw [List.dropWhile_append_of_pos]
    · rfl
    · intro c member
      rw [bne_iff_ne]
      rintro rfl
      exact single member
  rw [skipped]
  rfl

theorem stripLeadingNoiseLoop_space {c : Char} (white : isWhitespace c = true) (fuel : Nat)
    (text : Text) :
    stripLeadingNoiseLoop (fuel + 1) (c :: text) = stripLeadingNoiseLoop (fuel + 1) text := by
  rw [stripLeadingNoiseLoop, stripLeadingNoiseLoop, trimStart_space white]

theorem stripLeadingNoiseLoop_significant (fuel : Nat) {text : Text}
    (significant : Significant text) : stripLeadingNoiseLoop (fuel + 1) text = text := by
  rw [stripLeadingNoiseLoop, significant.trimStart]
  split
  next after => exact absurd rfl (significant.line after)
  next after => exact absurd rfl (significant.block after)
  next => rfl

/-- The loop removes closed noise up to the first significant text. -/
theorem stripLeadingNoiseLoop_noise (tokens : List Token) (noise : ∀ token ∈ tokens, Noise token)
    (text : Text) (significant : Significant text) (fuel : Nat)
    (enough : (textOf tokens ++ text).length < fuel) :
    stripLeadingNoiseLoop fuel (textOf tokens ++ text) = text := by
  induction tokens generalizing fuel with
  | nil =>
    obtain ⟨fuel, rfl⟩ : ∃ n, fuel = n + 1 := ⟨fuel - 1, by omega⟩
    exact stripLeadingNoiseLoop_significant fuel significant
  | cons token tokens ih =>
    obtain ⟨fuel, rfl⟩ : ∃ n, fuel = n + 1 := ⟨fuel - 1, by omega⟩
    have later := ih fun token member => noise token (List.mem_cons_of_mem _ member)
    have first := noise token List.mem_cons_self
    rw [textOf_cons] at enough ⊢
    cases first with
    | space white =>
      change stripLeadingNoiseLoop (fuel + 1) (_ :: (textOf tokens ++ text)) = text
      rw [stripLeadingNoiseLoop_space white]
      exact later (fuel + 1) (by simp at enough ⊢; omega)
    | line single =>
      rename_i body
      have shape : ('-' :: '-' :: body ++ ['\n'] ++ textOf tokens) ++ text =
          '-' :: '-' :: (body ++ '\n' :: (textOf tokens ++ text)) := by simp
      rw [shape] at enough ⊢
      rw [stripLeadingNoiseLoop, trimStart_line]
      simp only
      rw [drop_line single]
      exact later fuel (by simp at enough ⊢; omega)
    | block closed =>
      rename_i body
      have shape : ('/' :: '*' :: body ++ textOf tokens) ++ text =
          '/' :: '*' :: (body ++ (textOf tokens ++ text)) := by simp
      rw [shape] at enough ⊢
      have some : textOf tokens ++ text ≠ [] := by simp [significant.ne_nil]
      rw [stripLeadingNoiseLoop, trimStart_block]
      simp only
      rw [closed _ some]
      exact later fuel (by simp at enough ⊢; omega)

theorem stripLeadingNoise_noise (tokens : List Token) (noise : ∀ token ∈ tokens, Noise token)
    (text : Text) (significant : Significant text) :
    stripLeadingNoise (textOf tokens ++ text) = text :=
  stripLeadingNoiseLoop_noise tokens noise text significant _ (Nat.lt_succ_self _)

/-! ## Noise of a lexed text -/

theorem isWhitespace_of_isSpace {c : Char} (space : isSpace c = true) : isWhitespace c = true := by
  have cases : c = ' ' ∨ c = '\t' ∨ c = '\n' ∨ c = '\r' ∨ c = '\x0b' ∨ c = '\x0c' := by
    simpa [isSpace, or_assoc] using space
  rcases cases with rfl | rfl | rfl | rfl | rfl | rfl
  all_goals decide

/-- White space below `0x80` is white space to PostgreSQL too. -/
theorem isSpace_of_isWhitespace {c : Char} (white : isWhitespace c = true)
    (low : isHigh c = false) : isSpace c = true := by
  have small : c.toNat < 128 := by
    simpa [isHigh] using low
  have range : (9 ≤ c.toNat ∧ c.toNat ≤ 13) ∨ c.toNat = 32 := by
    simp only [isWhitespace, Bool.or_eq_true, Bool.and_eq_true, decide_eq_true_eq,
      beq_iff_eq] at white
    omega
  have same : c = Char.ofNat c.toNat := (Char.ofNat_toNat c).symm
  rw [same]
  generalize c.toNat = n at range
  rcases range with ⟨low, high⟩ | rfl
  · interval_cases n
    all_goals decide
  · decide

/-- A line comment that is followed by text ends with a line feed, or with a lone carriage
return. -/
theorem lineLen_closed (cs : Text) (more : lineLen cs < cs.length)
    (ends : (cs.take (lineLen cs)).getLast? ≠ some '\r') :
    ∃ body, cs.take (lineLen cs) = body ++ ['\n'] ∧ '\n' ∉ body := by
  induction cs with
  | nil => simp at more
  | cons c cs ih =>
    by_cases newline : c = '\n'
    · rw [lineLen, if_pos newline, newline]
      exact ⟨[], rfl, by simp⟩
    by_cases cr : c = '\r'
    · rw [lineLen, if_neg newline, if_pos cr] at ends ⊢
      by_cases pair : cs.head? = some '\n'
      · obtain ⟨ds, rfl⟩ := List.head?_eq_some_iff.mp pair
        rw [if_pos pair, cr]
        exact ⟨['\r'], rfl, by simp⟩
      · rw [if_neg pair, cr] at ends
        exact absurd rfl ends
    · have len : lineLen (c :: cs) = lineLen cs + 1 := by
        rw [lineLen, if_neg newline, if_neg cr, Nat.add_comm]
      rw [len] at ends more ⊢
      rw [List.take_succ_cons] at ends ⊢
      simp only [List.length_cons] at more
      obtain ⟨body, shape, single⟩ := ih (by omega) (by
        intro last
        apply ends
        rw [List.getLast?_cons, last]
        rfl)
      refine ⟨c :: body, by rw [shape]; rfl, ?_⟩
      rw [List.mem_cons, not_or]
      exact ⟨fun same => newline same.symm, single⟩

theorem blockLen_pos (depth : Nat) {s : Text} (some : s ≠ []) : 0 < blockLen depth s := by
  unfold blockLen
  split
  · exact absurd rfl some
  · omega
  · split <;> omega
  · omega

/-- A closed comment ends at the same place whatever follows it. -/
theorem blockLen_append (depth : Nat) (s after : Text) (closed : blockLen depth s < s.length) :
    blockLen depth (s.take (blockLen depth s) ++ after) = blockLen depth s := by
  induction depth, s using blockLen.induct with
  | case1 depth => simp at closed
  | case2 depth cs ih =>
    rw [blockLen] at closed ⊢
    simp only [List.length_cons] at closed
    rw [Nat.add_comm 2, List.take_succ_cons, List.take_succ_cons, List.cons_append,
      List.cons_append, blockLen, ih (by omega), Nat.add_comm]
  | case3 depth cs shallow =>
    rw [blockLen, if_pos shallow, List.take_succ_cons, List.take_succ_cons, List.cons_append,
      List.cons_append, blockLen, if_pos shallow]
  | case4 depth cs deep ih =>
    rw [blockLen, if_neg deep] at closed ⊢
    simp only [List.length_cons] at closed
    rw [Nat.add_comm 2, List.take_succ_cons, List.take_succ_cons, List.cons_append,
      List.cons_append, blockLen, if_neg deep, ih (by omega), Nat.add_comm]
  | case5 depth c cs noOpen noClose ih =>
    rw [blockLen.eq_4 depth c cs noOpen noClose] at closed ⊢
    simp only [List.length_cons] at closed
    have nonempty : cs ≠ [] := List.length_pos_iff.mp (by omega)
    obtain ⟨d, ds, rfl⟩ := List.exists_cons_of_ne_nil nonempty
    obtain ⟨m, len⟩ := Nat.exists_eq_succ_of_ne_zero (blockLen_pos depth nonempty).ne'
    have next := ih (by omega)
    rw [len] at next ⊢
    rw [List.take_succ_cons, List.cons_append] at next
    rw [Nat.add_comm 1, List.take_succ_cons, List.take_succ_cons, List.cons_append,
      List.cons_append, blockLen.eq_4, next, Nat.add_comm]
    · intro rest slash star
      obtain ⟨rfl, -⟩ := List.cons.inj star
      exact noOpen ds slash rfl
    · intro rest star slash
      obtain ⟨rfl, -⟩ := List.cons.inj slash
      exact noClose ds star rfl

theorem block_noise {cs : Text} (closed : blockLen 1 cs < cs.length) :
    Noise { kind := .blockComment, text := '/' :: '*' :: cs.take (blockLen 1 cs) } := by
  refine Noise.block fun after some => ?_
  have taken : (cs.take (blockLen 1 cs)).length = blockLen 1 cs := by
    rw [List.length_take]
    omega
  have same := blockLen_append 1 cs after closed
  have positive := List.length_pos_iff.mpr some
  rw [skipBlockComment_closed _ (by rw [same, List.length_append, taken]; omega), same]
  rw [List.drop_append_of_le_length (by omega), List.drop_eq_nil_of_le (by omega),
    List.nil_append]

/-- White space and comments of a clean text are noise when text follows them. -/
theorem noise_of_lexed {fuel : Nat} {context : Context} {text : Text}
    {before after : List Token} {token : Token} (enough : text.length ≤ fuel)
    (lexed : lexFrom fuel context text = before ++ token :: after)
    (noise : token.kind.isNoise = true) (clean : tokenClean token (textOf after).head? = true)
    (more : textOf after ≠ []) : Noise token := by
  obtain ⟨context', c, cs, -, shape, rest⟩ := lexFrom_at enough lexed
  have spec := firstToken_spec context' c cs
  generalize firstToken context' c cs = first at spec shape rest
  have longer : first.2 < (c :: cs).length := by
    by_contra short
    exact more (by rw [rest, List.drop_eq_nil_of_le (by omega)])
  subst shape
  cases spec with
  | space space => exact Noise.space (isWhitespace_of_isSpace space)
  | line =>
    rename_i cs
    simp only [List.length_cons] at longer
    simp only [tokenClean, bne_iff_ne, ne_eq] at clean
    rw [Nat.add_comm, List.take_succ_cons, List.take_succ_cons] at clean ⊢
    obtain ⟨body, taken, single⟩ := lineLen_closed cs (by omega) (by
      intro last
      apply clean
      rw [List.getLast?_cons, List.getLast?_cons, last]
      rfl)
    rw [taken]
    exact Noise.line single
  | block =>
    rename_i cs
    simp only [List.length_cons] at longer
    rw [Nat.add_comm, List.take_succ_cons, List.take_succ_cons]
    exact block_noise (by omega)
  | _ => cases noise

/-- No identifier holds a character that `char::is_whitespace` takes for white space. -/
def plainIdents (tokens : List Token) : Bool :=
  tokens.all fun token => token.kind != .ident || token.text.all fun c => !isWhitespace c

/-- A token that is neither white space nor a comment starts with a visible character. -/
theorem head_of_lexed {fuel : Nat} {context : Context} {text : Text}
    {before after : List Token} {token : Token} (enough : text.length ≤ fuel)
    (lexed : lexFrom fuel context text = before ++ token :: after)
    (significant : token.kind.isNoise = false)
    (plain : plainIdents [token] = true) :
    ∃ c cs, token.text ++ textOf after = c :: cs ∧ isWhitespace c = false ∧
      ¬(c = '-' ∧ cs.head? = some '-') ∧ ¬(c = '/' ∧ cs.head? = some '*') := by
  obtain ⟨context', c, cs, whole, shape, rest⟩ := lexFrom_at enough lexed
  have spec := firstToken_spec context' c cs
  have positive := firstToken_pos context' c cs
  refine ⟨c, cs, whole, ?_, ?_, ?_⟩
  · rw [Bool.eq_false_iff]
    intro white
    cases high : isHigh c with
    | false =>
      have space := isSpace_of_isWhitespace white high
      have kind : (firstToken context' c cs).1 = .space := by rw [firstToken, if_pos space]
      rw [shape, kind] at significant
      cases significant
    | true =>
      generalize firstToken context' c cs = first at spec shape positive
      have start : isIdentStart c = true := by rw [isIdentStart, high, Bool.or_true]
      have head : c ∈ token.text := by
        rw [shape]
        obtain ⟨n, len⟩ := Nat.exists_eq_succ_of_ne_zero positive.ne'
        simp [len]
      cases spec with
      | ident =>
        rw [shape] at plain head
        simp only [plainIdents, List.all_cons, List.all_nil, Bool.and_true, bne_self_eq_false,
          Bool.false_or, List.all_eq_true] at plain
        have visible := plain c head
        rw [white] at visible
        cases visible
      | space space =>
        have low := isWhitespace_of_isSpace space
        rw [shape] at significant
        cases significant
      | number start' => exact absurd start (by rw [start']; decide)
      | single single => exact absurd start (by rw [single.start]; decide)
      | eString letter =>
        rcases letter with rfl | rfl
        · exact absurd high (by decide)
        · exact absurd high (by decide)
      | _ => exact absurd high (by decide)
  · rintro ⟨rfl, head⟩
    have kind : (firstToken context' '-' cs).1 = .lineComment := by
      rw [firstToken, if_neg (by decide), if_pos ⟨rfl, head⟩]
    rw [shape, kind] at significant
    cases significant
  · rintro ⟨rfl, head⟩
    have kind : (firstToken context' '/' cs).1 = .blockComment := by
      rw [firstToken, if_neg (by decide), if_neg (by simp), if_pos ⟨rfl, head⟩]
    rw [shape, kind] at significant
    cases significant

/-- An identifier takes every character that can continue it. -/
theorem ident_of_lexed {fuel : Nat} {context : Context} {text : Text}
    {before after : List Token} {token : Token} (enough : text.length ≤ fuel)
    (lexed : lexFrom fuel context text = before ++ token :: after)
    (ident : token.kind = .ident) :
    (∃ c cs, token.text = c :: cs ∧ isIdentStart c = true ∧ ∀ d ∈ cs, isIdentCont d = true) ∧
      ∀ d, (textOf after).head? = some d → isIdentCont d = false := by
  obtain ⟨context', c, cs, -, shape, rest⟩ := lexFrom_at enough lexed
  have spec := firstToken_spec context' c cs
  generalize firstToken context' c cs = first at spec shape rest
  subst shape
  cases spec with
  | ident start =>
    refine ⟨⟨c, cs.takeWhile isIdentCont, take_takeWhile isIdentCont c cs, start, ?_⟩, ?_⟩
    · exact fun d member => List.mem_takeWhile_imp member
    · intro d head
      rw [rest, Nat.add_comm, List.drop_succ_cons] at head
      exact head?_drop_takeWhile head
  | _ => cases ident

end FerroEngine.LeadingNoise
