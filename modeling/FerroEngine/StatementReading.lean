import FerroEngine.LeadingNoise
import FerroEngine.ScanComposition

set_option autoImplicit false

/-! # Reading a statement

What the text helpers of the classifier read in a statement, in terms of the tokens PostgreSQL
reads there.
-/

namespace FerroEngine.StatementReading

open SourceText StepIteration RegionScanner RegionScannerSteps PostgresLexicalRules
open RegionScannerAgreement ScanComposition PinClassifier LeadingNoise

/-! ## Trimmed text -/

theorem trimEnd_cons {c : Char} (visible : isWhitespace c = false) (front back : Text) :
    trimEnd (front ++ c :: back) = front ++ c :: trimEnd back := by
  unfold trimEnd List.rdropWhile
  rw [List.reverse_append, List.reverse_cons, List.append_assoc, List.dropWhile_append]
  split_ifs with empty
  · rw [List.isEmpty_iff] at empty
    rw [empty, List.singleton_append, List.dropWhile_cons_of_neg (by simp [visible])]
    simp
  · simp

theorem trimEnd_append {word : Text} (some : word ≠ [])
    (visible : ∀ c ∈ word, isWhitespace c = false) (back : Text) :
    trimEnd (word ++ back) = word ++ trimEnd back := by
  obtain ⟨front, last, rfl⟩ := List.eq_nil_or_concat word |>.resolve_left some
  rw [List.concat_eq_append] at visible ⊢
  rw [List.append_assoc, List.singleton_append, trimEnd_cons (visible last (by simp)),
    List.append_assoc, List.singleton_append]

theorem trimEnd_prefix (text : Text) : trimEnd text <+: text :=
  List.rdropWhile_prefix isWhitespace text

theorem trimEnd_head {text : Text} {c : Char} (head : (trimEnd text).head? = some c) :
    text.head? = some c := by
  obtain ⟨back, split⟩ := trimEnd_prefix text
  rw [← split, List.head?_append, head]
  rfl

/-- A text is its trimmed part between two stretches of white space. -/
theorem trim_split (text : Text) :
    ∃ back, text = text.takeWhile isWhitespace ++ (trim text ++ back) ∧
      ∀ c ∈ back, isWhitespace c = true := by
  refine ⟨(trimStart text).rtakeWhile isWhitespace, ?_, ?_⟩
  · have cut : trim text ++ (trimStart text).rtakeWhile isWhitespace = trimStart text :=
      List.rdropWhile_append_rtakeWhile
    rw [cut]
    exact List.takeWhile_append_dropWhile.symm
  · exact fun c member => List.mem_rtakeWhile_imp member

/-! ## Statements of a clean text -/

/-- What the lexer says about each token of a statement. -/
structure Readable (statement : List Token) : Prop where
  space : ∀ token ∈ statement, token.kind = .space → ∃ c, token.text = [c] ∧ isSpace c = true
  visible : ∀ token ∈ statement, token.kind ≠ .space →
    ∃ c cs, token.text = c :: cs ∧ isWhitespace c = false
  noise : ∀ before token after, statement = before ++ token :: after →
    token.kind.isNoise = true → textOf after ≠ [] → Noise token
  significant : ∀ before token after, statement = before ++ token :: after →
    token.kind.isNoise = false → Significant (token.text ++ textOf after)
  ident : ∀ before token after, statement = before ++ token :: after → token.kind = .ident →
    token.text ≠ [] ∧ (∀ c ∈ token.text, isIdentCont c = true ∧ isWhitespace c = false) ∧
      (∀ d, (textOf after).head? = some d → isIdentCont d = false) ∧
      (∀ p, (before.flatMap tokenMask).getLast? = some p → isIdentCharByte p = false)
  dot : ∀ token ∈ statement, token.text.head? = some '.' →
    token.text = ['.'] ∧ token.kind.isNoise = false
  letter : ∀ token ∈ statement, ∀ c cs, token.text = c :: cs → c.isAlpha = true →
    token.kind = .ident ∨ cs.head? = some '\''

theorem textOf_append (first second : List Token) :
    textOf (first ++ second) = textOf first ++ textOf second :=
  List.flatMap_append

theorem tokenClean_of_clean {before after : List Token} {token : Token}
    (holds : clean (before ++ token :: after) = true) :
    tokenClean token (textOf after).head? = true := by
  have rest := clean_append_right holds
  rw [clean, Bool.and_eq_true] at rest
  exact rest.1

theorem visible_of_lexed {sql : Text} {before after : List Token} {token : Token}
    (lexed : lex sql = before ++ token :: after) (plain : plainIdents [token] = true)
    (other : token.kind ≠ .space) :
    ∃ c cs, token.text = c :: cs ∧ isWhitespace c = false := by
  obtain ⟨context, c, cs, whole, shape, rest⟩ := lexFrom_at (Nat.le_refl _) lexed
  have spec := firstToken_spec context c cs
  obtain ⟨n, len⟩ := Nat.exists_eq_succ_of_ne_zero (firstToken_pos context c cs).ne'
  have text : token.text = c :: cs.take n := by rw [shape, len]; rfl
  refine ⟨c, cs.take n, text, ?_⟩
  cases noise : token.kind.isNoise with
  | false =>
    obtain ⟨d, ds, whole', visible, -⟩ := head_of_lexed (Nat.le_refl _) lexed noise plain
    rw [whole] at whole'
    cases whole'
    exact visible
  | true =>
    generalize firstToken context c cs = first at spec shape
    rw [shape] at noise other
    cases spec with
    | space => exact absurd rfl other
    | line => decide
    | block => decide
    | _ => cases noise

/-- The statements of a clean text are readable. -/
theorem readable_of_clean {sql : Text} {statement : List Token}
    (member : statement ∈ statements (lex sql)) (holds : clean (lex sql) = true)
    (plain : plainIdents (lex sql) = true) : Readable statement := by
  obtain ⟨pre, post, whole, -, -⟩ := statements_split member
  have at' : ∀ before token after, statement = before ++ token :: after →
      lex sql = (pre ++ before) ++ token :: (after ++ post) := by
    intro before token after split
    rw [whole, split]
    simp
  have plainToken : ∀ token ∈ statement, plainIdents [token] = true := by
    intro token inside
    have all := List.all_eq_true.mp plain token (by rw [whole]; simp [inside])
    simpa [plainIdents] using all
  refine ⟨?_, ?_, ?_, ?_, ?_, ?_, ?_⟩
  · intro token inside space
    obtain ⟨before, after, split⟩ := List.append_of_mem inside
    obtain ⟨context, c, cs, -, shape, -⟩ := lexFrom_at (Nat.le_refl _) (at' before token after split)
    have spec := firstToken_spec context c cs
    generalize firstToken context c cs = first at spec shape
    subst shape
    cases spec with
    | space white => exact ⟨c, rfl, white⟩
    | _ => cases space
  · intro token inside other
    obtain ⟨before, after, split⟩ := List.append_of_mem inside
    exact visible_of_lexed (at' before token after split) (plainToken token inside) other
  · intro before token after split noise more
    have lexed := at' before token after split
    refine noise_of_lexed (Nat.le_refl _) lexed noise
      (tokenClean_of_clean (lexed ▸ holds)) ?_
    rw [textOf_append]
    simp [more]
  · intro before token after split significant
    have inside : token ∈ statement := by rw [split]; simp
    obtain ⟨c, cs, text, visible, line, block⟩ := head_of_lexed (Nat.le_refl _)
      (at' before token after split) significant (plainToken token inside)
    obtain ⟨d, ds, shape, -⟩ := visible_of_lexed (at' before token after split)
      (plainToken token inside) (by rintro h; rw [h] at significant; cases significant)
    rw [textOf_append, shape, List.cons_append] at text
    obtain ⟨rfl, rfl⟩ := List.cons.inj text
    have early : ∀ e, (ds ++ textOf after).head? = some e →
        (ds ++ (textOf after ++ textOf post)).head? = some e := by
      intro e head
      rw [← List.append_assoc, List.head?_append, head]
      rfl
    refine ⟨⟨d, ds ++ textOf after, by rw [shape]; rfl, visible⟩, ?_, ?_⟩
    · intro rest same
      rw [shape, List.cons_append] at same
      obtain ⟨rfl, tail⟩ := List.cons.inj same
      exact line ⟨rfl, early '-' (by rw [tail]; rfl)⟩
    · intro rest same
      rw [shape, List.cons_append] at same
      obtain ⟨rfl, tail⟩ := List.cons.inj same
      exact block ⟨rfl, early '*' (by rw [tail]; rfl)⟩
  · intro before token after split ident
    have inside : token ∈ statement := by rw [split]; simp
    have lexed := at' before token after split
    obtain ⟨⟨c, cs, text, start, conts⟩, next⟩ := ident_of_lexed (Nat.le_refl _) lexed ident
    have plain' := plainToken token inside
    rw [plainIdents, List.all_cons, List.all_nil, Bool.and_true, ident] at plain'
    simp only [bne_self_eq_false, Bool.false_or, List.all_eq_true, Bool.not_eq_true'] at plain'
    refine ⟨by simp [text], ?_, ?_, ?_⟩
    · intro d member
      refine ⟨?_, plain' d member⟩
      rw [text, List.mem_cons] at member
      rcases member with rfl | later
      · rw [isIdentCont, tagCont_of_identStart start, Bool.true_or]
      · exact conts d later
    · intro d head
      refine next d ?_
      rw [textOf_append, List.head?_append, head]
      rfl
    · intro p last
      obtain ⟨u, walked⟩ := walked_of_clean lexed holds
      have shown := reaches_lastShown walked.run
      have final : u.masked.getLast? = some p := by
        rw [walked.masked, List.flatMap_append, List.getLast?_append, List.getLast?_append, last]
        rfl
      rcases shown p final with rfl | head
      · decide
      · refine walked.boundary.word c ?_ start p head
        rw [walked.rest, textOf_cons, text]
        rfl
  · intro token inside head
    obtain ⟨before, after, split⟩ := List.append_of_mem inside
    obtain ⟨context, c, cs, -, shape, -⟩ := lexFrom_at (Nat.le_refl _) (at' before token after split)
    obtain ⟨n, len⟩ := Nat.exists_eq_succ_of_ne_zero (firstToken_pos context c cs).ne'
    rw [shape, len, List.take_succ_cons] at head
    cases head
    have first : firstToken context '.' cs = (.other, 1) := by
      simp [firstToken, isSpace, isIdentStart, isHigh]
    rw [shape, first]
    exact ⟨rfl, rfl⟩
  · intro token inside c cs text alpha
    obtain ⟨before, after, split⟩ := List.append_of_mem inside
    obtain ⟨context, d, ds, -, shape, -⟩ := lexFrom_at (Nat.le_refl _) (at' before token after split)
    obtain ⟨n, len⟩ := Nat.exists_eq_succ_of_ne_zero (firstToken_pos context d ds).ne'
    have parts : d = c ∧ ds.take n = cs := by
      rw [shape, len, List.take_succ_cons, List.cons.injEq] at text
      exact text
    obtain ⟨rfl, rfl⟩ := parts
    have start : isIdentStart d = true := by rw [isIdentStart, alpha, Bool.true_or, Bool.true_or]
    have spec := firstToken_spec context d ds
    generalize firstToken context d ds = first at spec shape len
    cases spec with
    | ident => exact Or.inl (by rw [shape])
    | eString letter =>
      refine Or.inr ?_
      obtain ⟨m, rfl⟩ : ∃ m, n = m + 1 := ⟨n - 1, by simp only at len; omega⟩
      rfl
    | space white =>
      have apart := (outside_of_space white ds).2.1
      rw [start] at apart
      cases apart
    | number start' => exact absurd start (by rw [start']; decide)
    | single single => exact absurd start (by rw [single.start]; decide)
    | _ => exact absurd alpha (by decide)

/-! ## Keywords -/

def dropNoise (tokens : List Token) : List Token :=
  tokens.dropWhile fun token => token.kind.isNoise

theorem dropNoise_split {tokens after : List Token} {token : Token}
    (found : dropNoise tokens = token :: after) :
    ∃ noise, tokens = noise ++ token :: after ∧ (∀ other ∈ noise, other.kind.isNoise = true) ∧
      token.kind.isNoise = false := by
  refine ⟨tokens.takeWhile fun token => token.kind.isNoise, ?_, ?_, ?_⟩
  · rw [← found]
    exact List.takeWhile_append_dropWhile.symm
  · exact fun other member =>
      List.mem_takeWhile_imp (p := fun token : Token => token.kind.isNoise) member
  · have stopped := List.head?_dropWhile_not (fun token : Token => token.kind.isNoise) tokens
    rw [show tokens.dropWhile (fun token => token.kind.isNoise) = token :: after from found]
      at stopped
    exact stopped

theorem significant_trimEnd {text : Text} (significant : Significant text) :
    Significant (trimEnd text) := by
  obtain ⟨c, cs, rfl, visible⟩ := significant.head
  have cut : trimEnd (c :: cs) = c :: trimEnd cs := trimEnd_cons visible [] cs
  rw [cut]
  refine ⟨⟨c, trimEnd cs, rfl, visible⟩, ?_, ?_⟩
  · intro rest same
    obtain ⟨rfl, tail⟩ := List.cons.inj same
    obtain ⟨ds, rfl⟩ := List.head?_eq_some_iff.mp
      (trimEnd_head (show (trimEnd cs).head? = some '-' by rw [tail]; rfl))
    exact significant.line ds rfl
  · intro rest same
    obtain ⟨rfl, tail⟩ := List.cons.inj same
    obtain ⟨ds, rfl⟩ := List.head?_eq_some_iff.mp
      (trimEnd_head (show (trimEnd cs).head? = some '*' by rw [tail]; rfl))
    exact significant.block ds rfl

theorem trimEnd_append_significant {text : Text} (significant : Significant text) (front : Text) :
    trimEnd (front ++ text) = front ++ trimEnd text := by
  obtain ⟨c, cs, rfl, visible⟩ := significant.head
  rw [trimEnd_cons visible]
  exact congrArg (front ++ ·) (trimEnd_cons visible [] cs).symm

theorem trimStart_noise (tokens : List Token) (noise : ∀ token ∈ tokens, Noise token) (text : Text)
    (significant : Significant text) :
    ∃ others, (∀ token ∈ others, Noise token) ∧
      trimStart (textOf tokens ++ text) = textOf others ++ text := by
  induction tokens with
  | nil => exact ⟨[], by simp, significant.trimStart⟩
  | cons token tokens ih =>
    obtain ⟨others, still, same⟩ := ih fun token member => noise token (List.mem_cons_of_mem _ member)
    have first := noise token List.mem_cons_self
    cases first with
    | space white => exact ⟨others, still, by rw [← same]; exact trimStart_space white _⟩
    | line single => exact ⟨_ :: tokens, noise, rfl⟩
    | block closed => exact ⟨_ :: tokens, noise, rfl⟩

/-- The token is one of the given words, in any case. -/
def isKeyword (token : Token) (words : List String) : Bool :=
  token.kind == .ident && isWord (some (toAsciiUppercase token.text)) words

/-- The tokens after one of the given words, when the part of a statement starts with it. -/
def afterWord (words : List String) (tokens : List Token) : Option (List Token) :=
  match dropNoise tokens with
  | token :: after => if isKeyword token words then some after else none
  | [] => none

theorem afterWord_some {words : List String} {tokens after : List Token}
    (found : afterWord words tokens = some after) :
    ∃ token, dropNoise tokens = token :: after ∧ isKeyword token words = true := by
  unfold afterWord at found
  cases first : dropNoise tokens with
  | nil =>
    rw [first] at found
    cases found
  | cons token rest =>
    rw [first] at found
    simp only at found
    split_ifs at found with keyword
    cases found
    exact ⟨token, rfl, keyword⟩

theorem isWord_apart {token : Option Text} {words others : List String}
    (apart : ∀ word ∈ words, word ∉ others) (listed : isWord token words = true) :
    isWord token others = false := by
  unfold isWord at listed ⊢
  cases token with
  | none => rfl
  | some text =>
    simp only [Option.any_some, List.contains_iff_mem, List.mem_map] at listed
    obtain ⟨word, known, rfl⟩ := listed
    rw [Option.any_some, Bool.eq_false_iff]
    intro also
    simp only [List.contains_iff_mem, List.mem_map] at also
    obtain ⟨other, known', same⟩ := also
    rw [String.toList_injective same] at known'
    exact apart word known known'

def alphabetic (words : List String) : Bool :=
  words.all fun word => word.toList.all Char.isAlpha

theorem isKeyword_alpha {token : Token} {words : List String} (letters : alphabetic words = true)
    (keyword : isKeyword token words = true) :
    token.kind = .ident ∧ ∀ c ∈ token.text, c.isAlpha = true := by
  rw [isKeyword, Bool.and_eq_true, beq_iff_eq] at keyword
  refine ⟨keyword.1, fun c member => ?_⟩
  have listed := keyword.2
  simp only [isWord, Option.any_some, List.contains_iff_mem, List.mem_map] at listed
  obtain ⟨word, known, same⟩ := listed
  have all := List.all_eq_true.mp letters word known
  rw [same, toAsciiUppercase, List.all_map] at all
  have upper := List.all_eq_true.mp all c member
  simpa [isAlpha_toUpper] using upper

theorem takeWhile_alpha {word : Text} (rest : Text) (letters : ∀ c ∈ word, c.isAlpha = true)
    (stop : ∀ d, rest.head? = some d → d.isAlpha = false) :
    (word ++ rest).takeWhile Char.isAlpha = word ∧ (word ++ rest).dropWhile Char.isAlpha = rest := by
  rw [List.takeWhile_append_of_pos letters, List.dropWhile_append_of_pos letters]
  cases rest with
  | nil => simp
  | cons d ds =>
    have other : ¬d.isAlpha = true := by rw [stop d rfl]; decide
    rw [List.takeWhile_cons_of_neg other, List.dropWhile_cons_of_neg other, List.append_nil]
    exact ⟨rfl, rfl⟩

theorem alpha_false_of_identCont {d : Char} (outside : isIdentCont d = false) :
    d.isAlpha = false ∧ isIdentCharByte d = false := by
  unfold isIdentCont isTagCont Char.isAlphanum at outside
  unfold isIdentCharByte Char.isAlphanum
  grind

section Keywords

variable {statement : List Token} (readable : Readable statement)

include readable

/-- The noise before the first significant token of a part of the statement. -/
theorem noise_of_readable {front tokens after : List Token} {token : Token}
    (split : statement = front ++ tokens) (found : dropNoise tokens = token :: after) :
    ∃ noise, textOf tokens = textOf noise ++ (token.text ++ textOf after) ∧
      (∀ other ∈ noise, Noise other) ∧ Significant (token.text ++ textOf after) := by
  obtain ⟨noise, parts, noisy, kind⟩ := dropNoise_split found
  have significant := readable.significant (front ++ noise) token after
    (by rw [split, parts, List.append_assoc]) kind
  refine ⟨noise, by rw [parts, textOf_append, textOf_cons], ?_, significant⟩
  intro other member
  obtain ⟨early, late, inside⟩ := List.append_of_mem member
  refine readable.noise (front ++ early) other (late ++ token :: after)
    (by rw [split, parts, inside]; simp) (noisy other member) ?_
  rw [textOf_append, textOf_cons]
  simp [significant.ne_nil]

theorem strip_trimEnd {front tokens after : List Token} {token : Token}
    (split : statement = front ++ tokens) (found : dropNoise tokens = token :: after) :
    stripLeadingNoise (trimEnd (textOf tokens)) = trimEnd (token.text ++ textOf after) := by
  obtain ⟨noise, text, noisy, significant⟩ := noise_of_readable readable split found
  rw [text, trimEnd_append_significant significant]
  exact stripLeadingNoise_noise noise noisy _ (significant_trimEnd significant)

theorem strip_trim {after : List Token} {token : Token}
    (found : dropNoise statement = token :: after) :
    stripLeadingNoise (trim (textOf statement)) = trimEnd (token.text ++ textOf after) := by
  obtain ⟨noise, text, noisy, significant⟩ :=
    noise_of_readable readable (List.nil_append statement).symm found
  obtain ⟨others, noisy', start⟩ := trimStart_noise noise noisy _ significant
  rw [trim, text, start, trimEnd_append_significant significant]
  exact stripLeadingNoise_noise others noisy' _ (significant_trimEnd significant)

/-- A keyword at the head of the stripped text is read as it stands. -/
theorem keyword_split {front after : List Token} {token : Token} {words : List String}
    (split : statement = front ++ token :: after) (letters : alphabetic words = true)
    (keyword : isKeyword token words = true) :
    trimEnd (token.text ++ textOf after) = token.text ++ trimEnd (textOf after) ∧
      (token.text ++ trimEnd (textOf after)).takeWhile Char.isAlpha = token.text ∧
      (token.text ++ trimEnd (textOf after)).dropWhile Char.isAlpha = trimEnd (textOf after) ∧
      token.text ≠ [] := by
  obtain ⟨ident, alpha⟩ := isKeyword_alpha letters keyword
  obtain ⟨nonempty, chars, next, -⟩ := readable.ident front token after split ident
  obtain ⟨taken, dropped⟩ := takeWhile_alpha (trimEnd (textOf after)) alpha fun d head =>
    (alpha_false_of_identCont (next d (trimEnd_head head))).1
  exact ⟨trimEnd_append nonempty (fun c member => (chars c member).2) _, taken, dropped, nonempty⟩

theorem leadingKeyword_trim {after : List Token} {token : Token} {words : List String}
    (found : dropNoise statement = token :: after) (letters : alphabetic words = true)
    (keyword : isKeyword token words = true) :
    leadingKeyword (trim (textOf statement)) = some (toAsciiUppercase token.text) ∧
      skipLeadingKeyword (trim (textOf statement)) = trimEnd (textOf after) := by
  obtain ⟨noise, split, -, -⟩ := dropNoise_split found
  obtain ⟨cut, taken, dropped, nonempty⟩ := keyword_split readable split letters keyword
  rw [leadingKeyword, skipLeadingKeyword, strip_trim readable found, cut, taken, dropped,
    if_neg nonempty]
  exact ⟨rfl, rfl⟩

theorem leadingKeyword_trimEnd {front tokens after : List Token} {token : Token}
    {words : List String} (part : statement = front ++ tokens)
    (found : dropNoise tokens = token :: after) (letters : alphabetic words = true)
    (keyword : isKeyword token words = true) :
    (stripLeadingNoise (trimEnd (textOf tokens))).takeWhile Char.isAlpha = token.text ∧
      skipLeadingKeyword (trimEnd (textOf tokens)) = trimEnd (textOf after) := by
  obtain ⟨noise, split, -, -⟩ := dropNoise_split found
  obtain ⟨cut, taken, dropped, -⟩ := keyword_split readable
    (show statement = (front ++ noise) ++ token :: after by rw [part, split, List.append_assoc])
    letters keyword
  rw [skipLeadingKeyword, strip_trimEnd readable part found, cut, taken, dropped]
  exact ⟨rfl, rfl⟩

end Keywords

/-! ## Identifiers -/

theorem isIdentCharByte_toLower (c : Char) : isIdentCharByte c.toLower = isIdentCharByte c := by
  unfold isIdentCharByte
  rw [isAlphanum_toLower]
  congr 1
  rw [Bool.eq_iff_iff, beq_iff_eq, beq_iff_eq]
  exact toLower_eq_underscore c

/-- A needle with no identifier character on either side is found. -/
theorem hasWholeWindow_of_split (needle front back : Text) (nonempty : needle ≠ [])
    (prior : Option Char) (left : ∀ p, (front.getLast?.or prior) = some p →
      isIdentCharByte p = false)
    (right : ∀ d, back.head? = some d → isIdentCharByte d = false) :
    hasWholeWindow needle prior (front ++ (needle ++ back)) = true := by
  induction front generalizing prior with
  | nil =>
    obtain ⟨c, cs, rfl⟩ := List.exists_cons_of_ne_nil nonempty
    have before : prior.any isIdentCharByte = false := by
      cases prior with
      | none => rfl
      | some p => exact left p rfl
    have after : back.head?.any isIdentCharByte = false := by
      cases back with
      | nil => rfl
      | cons d ds => exact right d rfl
    have whole : (c :: cs).isPrefixOf (c :: cs ++ back) = true :=
      List.isPrefixOf_iff_prefix.mpr (List.prefix_append _ _)
    have rest : (c :: cs ++ back).drop (c :: cs).length = back := List.drop_left
    change hasWholeWindow (c :: cs) prior (c :: (cs ++ back)) = true
    rw [hasWholeWindow, ← List.cons_append, whole, before, rest, after]
    rfl
  | cons c front ih =>
    rw [List.cons_append, hasWholeWindow, ih, Bool.or_true]
    intro p last
    refine left p ?_
    rw [List.getLast?_cons]
    cases final : front.getLast? with
    | none =>
      rw [final] at last
      exact last
    | some q =>
      rw [final] at last
      exact last

theorem contains_of_masked {piece name front word back : Text} (nonempty : name ≠ [])
    (same : toAsciiLowercase word = toAsciiLowercase name)
    (masked : (scan piece).masked = front ++ (word ++ back))
    (left : ∀ p, front.getLast? = some p → isIdentCharByte p = false)
    (right : ∀ d, back.head? = some d → isIdentCharByte d = false) :
    containsIdentifierCi piece name = true := by
  rw [containsIdentifierCi, if_neg nonempty, masked]
  have lowered : toAsciiLowercase (front ++ (word ++ back)) =
      toAsciiLowercase front ++ (toAsciiLowercase name ++ toAsciiLowercase back) := by
    rw [← same]
    simp [toAsciiLowercase]
  rw [lowered]
  refine hasWholeWindow_of_split _ _ _ (by simpa [toAsciiLowercase] using nonempty) none ?_ ?_
  · intro p last
    rw [Option.or_none, toAsciiLowercase, List.getLast?_map] at last
    obtain ⟨q, final, rfl⟩ := Option.map_eq_some_iff.mp last
    rw [isIdentCharByte_toLower]
    exact left q final
  · intro d head
    rw [toAsciiLowercase, List.head?_map] at head
    obtain ⟨e, first, rfl⟩ := Option.map_eq_some_iff.mp head
    rw [isIdentCharByte_toLower]
    exact right e first

/-- A visible stretch between white space lies in the part between it. -/
theorem inner_of_white {lead inner trail front word back : Text}
    (same : lead ++ (inner ++ trail) = front ++ (word ++ back)) (nonempty : word ≠ [])
    (leading : ∀ c ∈ lead, isWhitespace c = true) (trailing : ∀ c ∈ trail, isWhitespace c = true)
    (first : ∀ c, word.head? = some c → isWhitespace c = false)
    (last : ∀ c, word.getLast? = some c → isWhitespace c = false) :
    ∃ front' back', inner = front' ++ (word ++ back') ∧ front = lead ++ front' ∧
      back = back' ++ trail := by
  obtain ⟨front', rfl, cut⟩ : ∃ front', front = lead ++ front' ∧
      inner ++ trail = front' ++ (word ++ back) := by
    rcases List.append_eq_append_iff.mp same with ⟨extra, longer, cut⟩ | ⟨extra, shorter, cut⟩
    · exact ⟨extra, longer, cut⟩
    · cases extra with
      | nil => exact ⟨[], by simpa using shorter.symm, by simpa using cut.symm⟩
      | cons c extra =>
        exfalso
        obtain ⟨d, ds, rfl⟩ := List.exists_cons_of_ne_nil nonempty
        obtain ⟨rfl, -⟩ := List.cons.inj cut
        have white := leading d (by rw [shorter]; simp)
        rw [first d rfl] at white
        cases white
  rw [← List.append_assoc] at cut
  rcases List.append_eq_append_iff.mp cut with ⟨extra, whole, after⟩ | ⟨extra, whole, after⟩
  · cases extra with
    | nil => exact ⟨front', [], by simpa using whole.symm, rfl, by simpa using after.symm⟩
    | cons c extra =>
      exfalso
      obtain ⟨begin', final, split⟩ := List.eq_nil_or_concat word |>.resolve_left nonempty
      have inTrail : final ∈ trail := by
        have ends := congrArg List.getLast? whole
        rw [List.getLast?_append, List.getLast?_append, split, List.concat_eq_append,
          List.getLast?_concat, List.getLast?_cons] at ends
        rw [after]
        have member : final ∈ c :: extra := by
          rw [Option.some_or, Option.some_or, Option.some.injEq] at ends
          rw [ends]
          cases ended : extra.getLast? with
          | none => exact List.mem_cons_self
          | some e => exact List.mem_cons_of_mem _ (List.mem_of_getLast? ended)
        exact List.mem_append_left _ member
      have white := trailing final inTrail
      rw [last final (by rw [split, List.concat_eq_append, List.getLast?_concat])] at white
      cases white
  · exact ⟨front', extra, by rw [whole, List.append_assoc], rfl, after⟩

theorem leading_spaces (tokens : List Token)
    (space : ∀ token ∈ tokens, token.kind = .space → ∃ c, token.text = [c] ∧ isSpace c = true)
    (visible : ∀ token ∈ tokens, token.kind ≠ .space →
      ∃ c cs, token.text = c :: cs ∧ isWhitespace c = false) :
    ∀ c ∈ (textOf tokens).takeWhile isWhitespace, isSpace c = true := by
  induction tokens with
  | nil => simp [textOf]
  | cons token tokens ih =>
    have later := ih (fun token member => space token (List.mem_cons_of_mem _ member))
      (fun token member => visible token (List.mem_cons_of_mem _ member))
    intro c member
    rw [textOf_cons] at member
    by_cases kind : token.kind = .space
    · obtain ⟨d, text, white⟩ := space token List.mem_cons_self kind
      rw [text, List.singleton_append,
        List.takeWhile_cons_of_pos (isWhitespace_of_isSpace white), List.mem_cons] at member
      rcases member with rfl | member
      · exact white
      · exact later c member
    · obtain ⟨d, ds, text, shown⟩ := visible token List.mem_cons_self kind
      rw [text, List.cons_append, List.takeWhile_cons_of_neg (by simp [shown])] at member
      cases member

theorem blank_head {text : Text} (some : text ≠ []) : (blank text).head? = Option.some ' ' := by
  obtain ⟨c, cs, rfl⟩ := List.exists_cons_of_ne_nil some
  obtain ⟨n, size⟩ := Nat.exists_eq_succ_of_ne_zero (Char.utf8Size_pos c).ne'
  rw [blank_cons, filler, size]
  rfl

/-- The mask of a token starts with a blank or as the token does. -/
theorem tokenMask_head {token : Token} (nonempty : token.text ≠ []) :
    (tokenMask token).head? = some ' ' ∨ (tokenMask token).head? = token.text.head? := by
  obtain ⟨kind, text⟩ := token
  obtain ⟨c, cs, rfl⟩ := List.exists_cons_of_ne_nil nonempty
  cases kind
  case string | eSegment | dollarString | lineComment | blockComment =>
    exact Or.inl (blank_head nonempty)
  all_goals exact Or.inr rfl

theorem mask_head {tokens : List Token} (nonempty : ∀ token ∈ tokens, token.text ≠ []) {d : Char}
    (head : (tokens.flatMap tokenMask).head? = some d) :
    d = ' ' ∨ (textOf tokens).head? = some d := by
  cases tokens with
  | nil => simp at head
  | cons token tokens =>
    have here := nonempty token List.mem_cons_self
    obtain ⟨c, cs, text⟩ := List.exists_cons_of_ne_nil here
    rw [List.flatMap_cons, List.head?_append] at head
    rw [textOf_cons, text]
    rcases tokenMask_head here with space | same
    · rw [space] at head
      exact Or.inl (Option.some.inj head).symm
    · rw [same, text] at head
      exact Or.inr head

/-- The mask of the trimmed statement holds what stands visible in the statement. -/
theorem masked_trim {sql : Text} {statement : List Token}
    (member : statement ∈ statements (lex sql)) (holds : clean (lex sql) = true)
    (plain : plainIdents (lex sql) = true) {front word back : Text}
    (shown : statement.flatMap tokenMask = front ++ (word ++ back)) (nonempty : word ≠ [])
    (first : ∀ c, word.head? = some c → isWhitespace c = false)
    (last : ∀ c, word.getLast? = some c → isWhitespace c = false) :
    ∃ lead front' back' trail,
      (scan (trim (textOf statement))).masked = front' ++ (word ++ back') ∧
        front = lead ++ front' ∧ back = back' ++ trail := by
  have readable := readable_of_clean member holds plain
  obtain ⟨trail, split, trailing⟩ := trim_split (textOf statement)
  have leading := leading_spaces statement readable.space readable.visible
  have inert : Inert trail := by
    refine inert_of_avoids fun c inTrail special => ?_
    have white := trailing c inTrail
    simp only [List.mem_cons, List.not_mem_nil, or_false] at special
    rcases special with rfl | rfl | rfl | rfl | rfl | rfl
    all_goals exact absurd white (by decide)
  obtain ⟨added, extended, origin⟩ := scan_append_inert (trim (textOf statement)) trail inert
  have whole := statement_masked member holds
  rw [split, scan_spaces _ _ leading, extended, shown] at whole
  obtain ⟨front', back', inner, before, after⟩ := inner_of_white whole nonempty
    (fun c inLead => isWhitespace_of_isSpace (leading c inLead))
    (fun c inAdded => (origin c inAdded).elim (fun blank => by rw [blank]; decide) (trailing c))
    first last
  exact ⟨_, front', back', added, inner, before, after⟩

/-- The statement names the identifier, bare in any case or quoted. -/
def mentions (statement : List Token) (name : Text) : Bool :=
  name != [] && statement.any fun token =>
    (token.kind == .ident && toAsciiLowercase token.text == toAsciiLowercase name) ||
      (token.kind == .quotedIdent && token.text == '"' :: name ++ ['"'])

theorem contains_of_mentions {sql : Text} {statement : List Token}
    (member : statement ∈ statements (lex sql)) (holds : clean (lex sql) = true)
    (plain : plainIdents (lex sql) = true) {name : Text}
    (named : mentions statement name = true) :
    containsIdentifierCi (trim (textOf statement)) name = true := by
  have readable := readable_of_clean member holds plain
  rw [mentions, Bool.and_eq_true, bne_iff_ne, List.any_eq_true] at named
  obtain ⟨nonempty, token, inside, matches'⟩ := named
  obtain ⟨before, after, split⟩ := List.append_of_mem inside
  have shown : statement.flatMap tokenMask =
      before.flatMap tokenMask ++ (tokenMask token ++ after.flatMap tokenMask) := by
    rw [split, List.flatMap_append, List.flatMap_cons]
  rw [Bool.or_eq_true, Bool.and_eq_true, Bool.and_eq_true, beq_iff_eq, beq_iff_eq, beq_iff_eq,
    beq_iff_eq] at matches'
  rcases matches' with ⟨kind, same⟩ | ⟨kind, quoted⟩
  · obtain ⟨filled, chars, next, prior⟩ := readable.ident before token after split kind
    have mask : tokenMask token = token.text := by rw [tokenMask, kind]
    rw [mask] at shown
    obtain ⟨lead, front', back', trail, masked, front, back⟩ := masked_trim member holds plain shown
      filled (fun c head => (chars c (List.mem_of_mem_head? head)).2)
      (fun c last => (chars c (List.mem_of_getLast? last)).2)
    refine contains_of_masked nonempty same masked ?_ ?_
    · intro p last
      refine prior p ?_
      rw [front, List.getLast?_append, last]
      rfl
    · intro d head
      have tokens : ∀ token ∈ after, token.text ≠ [] := by
        intro other later
        have here : other ∈ statement := by rw [split]; simp [later]
        by_cases space : other.kind = .space
        · obtain ⟨c, text, -⟩ := readable.space other here space
          simp [text]
        · obtain ⟨c, cs, text, -⟩ := readable.visible other here space
          simp [text]
      have first : (after.flatMap tokenMask).head? = some d := by
        rw [back, List.head?_append, head]
        rfl
      rcases mask_head tokens first with rfl | raw
      · decide
      · exact (alpha_false_of_identCont (next d raw)).2
  · have mask : tokenMask token = token.text := by rw [tokenMask, kind]
    rw [mask, quoted] at shown
    obtain ⟨lead, front', back', trail, masked, -, -⟩ := masked_trim member holds plain shown
      (by simp) (fun c head => by cases head; decide)
      (fun c last => by
        rw [List.cons_append, List.getLast?_cons, List.getLast?_concat] at last
        cases last
        decide)
    have shape : (scan (trim (textOf statement))).masked =
        (front' ++ ['"']) ++ (name ++ ('"' :: back')) := by
      rw [masked]
      simp
    refine contains_of_masked nonempty rfl shape ?_ ?_
    · intro p last
      rw [List.getLast?_concat] at last
      cases last
      decide
    · intro d head
      cases head
      decide

end FerroEngine.StatementReading
