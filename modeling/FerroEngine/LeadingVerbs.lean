import FerroEngine.TxControlGuardSoundness

set_option autoImplicit false

/-! # Verbs behind leading noise

Which leading white space and comments of a server hide the first keyword of a text from the
transaction-control guard.
-/

namespace FerroEngine.LeadingVerbs

open SourceText PostgresLexicalRules ServerLexicalRules PinClassifier StatementReading
open TxControlGuard TxControlGuardSoundness

/-! ## What the server reads -/

/-- The white space and the comments before the first other token. -/
def leadOf (dialect : Dialect) (sql : Text) : Text :=
  textOf (((serverLexer dialect).read sql).takeWhile fun token => token.kind.isNoise)

/-- The first keyword, in upper case, and the tokens after it. -/
def keywordOf (dialect : Dialect) (sql : Text) : Option (Text × List Token) :=
  match dropNoise ((serverLexer dialect).read sql) with
  | token :: after =>
    if token.kind = .ident then some (toAsciiUppercase token.text, after) else none
  | [] => none

/-- The word that the server reads next. -/
def nextWord (tokens : List Token) : Option Text :=
  match dropNoise tokens with
  | token :: _ => if token.kind = .ident then some (toAsciiUppercase token.text) else none
  | [] => none

/-- The class of a verb, with the word after it. -/
def verbClass (word : Text) (next : Option Text) : Option TxControlClass :=
  if word = "ROLLBACK".toList then
    if next = some "TO".toList then some .savepoint else some .boundary
  else if word ∈ boundarySingle then some .boundary
  else if word ∈ savepointSingle then some .savepoint
  else match next with
    | some second => if (word, second) ∈ boundaryPair then some .boundary else none
    | none => none

/-- When the server's first keyword is a verb, the guard gives the text the class of the verb. -/
def Classified (dialect : Dialect) (sql : Text) : Prop :=
  ∀ word after cls, keywordOf dialect sql = some (word, after) →
    verbClass word (nextWord after) = some cls → txControlClass sql = some cls

/-- The next run of letters, which is the second word of the guard. -/
def nextLetters (tokens : List Token) : Option Text :=
  (leadingWords (textOf tokens) 1).head?

/-- Where the second word decides, the guard and the server read it alike. -/
def SecondWordAlike (dialect : Dialect) (sql : Text) : Prop :=
  ∀ word after, keywordOf dialect sql = some (word, after) →
    (word = "ROLLBACK".toList →
      (nextLetters after = some "TO".toList ↔ nextWord after = some "TO".toList)) ∧
    (word = "START".toList ∨ word = "PREPARE".toList →
      nextWord after = some "TRANSACTION".toList →
        nextLetters after = some "TRANSACTION".toList)

/-- White space, `--` comments up to a line feed and block comments up to the first end mark, and
then a rest that starts with none of them. -/
inductive Skips : Text → Text → Prop where
  | space {c : Char} {text rest : Text} (white : isWhitespace c = true) (later : Skips text rest) :
      Skips (c :: text) rest
  | line {body text rest : Text} (single : '\n' ∉ body) (later : Skips text rest) :
      Skips ('-' :: '-' :: (body ++ '\n' :: text)) rest
  | block {inside rest : Text} {i : Nat} (found : findPair '*' '/' inside = some i)
      (later : Skips (inside.drop (i + 2)) rest) : Skips ('/' :: '*' :: inside) rest
  | stop {rest : Text} (visible : ∀ c, rest.head? = some c → isWhitespace c = false)
      (line : ∀ after, rest ≠ '-' :: '-' :: after)
      (block : ∀ after, rest ≠ '/' :: '*' :: after) : Skips rest rest

/-- The lead is made of what the guard skips, and of a rest without letters. -/
def Plain (lead : Text) : Prop :=
  ∃ rest, Skips lead rest ∧ ∀ c ∈ rest, c.isAlpha = false

/-- The server reads the text as white space and comments in front of some keyword. -/
def IsLead (dialect : Dialect) (lead : Text) : Prop :=
  ∃ sql, leadOf dialect sql = lead ∧ (keywordOf dialect sql).isSome = true

/-! ## The lead does not depend on what follows it -/

/-- The text starts an identifier. -/
def Opens (text : Text) : Prop :=
  ∃ c cs, text = c :: cs ∧ isIdentStart c = true

theorem ne_of_start {c d : Char} (start : isIdentStart c = true)
    (other : isIdentStart d = false) : c ≠ d := by
  rintro rfl
  rw [start] at other
  cases other

theorem Opens.head? {text : Text} (opens : Opens text) (x : Text) {d : Char}
    (other : isIdentStart d = false) : (x ++ text).head? = some d ↔ x.head? = some d := by
  obtain ⟨c, cs, rfl, start⟩ := opens
  cases x with
  | nil =>
    constructor
    · intro same
      exact absurd (Option.some.inj same) (ne_of_start start other)
    · intro same
      cases same
  | cons e x => exact Iff.rfl

theorem lineLen_stable {x y y' : Text} (opens : Opens y) (opens' : Opens y')
    (within : lineLen (x ++ y) ≤ x.length) : lineLen (x ++ y') = lineLen (x ++ y) := by
  induction x with
  | nil =>
    obtain ⟨c, cs, rfl, start⟩ := opens
    rw [List.nil_append, lineLen, if_neg (ne_of_start start (by decide)),
      if_neg (ne_of_start start (by decide)), List.length_nil] at within
    omega
  | cons e x ih =>
    rw [List.cons_append, lineLen] at within
    rw [List.cons_append, List.cons_append, lineLen, lineLen]
    by_cases feed : e = '\n'
    · rw [if_pos feed, if_pos feed]
    rw [if_neg feed] at within
    rw [if_neg feed, if_neg feed]
    by_cases cr : e = '\r'
    · rw [if_pos cr, if_pos cr]
      simp only [opens.head? x (show isIdentStart '\n' = false by decide),
        opens'.head? x (show isIdentStart '\n' = false by decide)]
    · rw [if_neg cr, List.length_cons] at within
      rw [if_neg cr, if_neg cr, ih (by omega)]

theorem toLineFeed_stable {x y : Text} (opens : Opens y) (y' : Text)
    (within : toLineFeed (x ++ y) ≤ x.length) : toLineFeed (x ++ y') = toLineFeed (x ++ y) := by
  induction x with
  | nil =>
    obtain ⟨c, cs, rfl, start⟩ := opens
    rw [List.nil_append, toLineFeed, if_neg (ne_of_start start (by decide)),
      List.length_nil] at within
    omega
  | cons e x ih =>
    rw [List.cons_append, toLineFeed] at within
    rw [List.cons_append, List.cons_append, toLineFeed, toLineFeed]
    by_cases feed : e = '\n'
    · rw [if_pos feed, if_pos feed]
    · rw [if_neg feed, List.length_cons] at within
      rw [if_neg feed, if_neg feed, ih (by omega)]

theorem blockLen_nil_append (depth : Nat) {y : Text} (opens : Opens y) : 0 < blockLen depth y := by
  obtain ⟨c, cs, rfl, -⟩ := opens
  exact LeadingNoise.blockLen_pos depth (List.cons_ne_nil c cs)

/-- A single character before an identifier is no mark of a comment. -/
theorem blockLen_single (depth : Nat) (e : Char) {y : Text} (opens : Opens y) :
    blockLen depth (e :: y) = 1 + blockLen depth y := by
  obtain ⟨c, cs, rfl, start⟩ := opens
  rw [blockLen.eq_4]
  · rintro rest rfl same
    exact ne_of_start start (by decide) (List.cons.inj same).1
  · rintro rest rfl same
    exact ne_of_start start (by decide) (List.cons.inj same).1

theorem blockLen_stable (depth : Nat) {x y y' : Text} (opens : Opens y) (opens' : Opens y')
    (within : blockLen depth (x ++ y) ≤ x.length) :
    blockLen depth (x ++ y') = blockLen depth (x ++ y) := by
  induction depth, x using blockLen.induct with
  | case1 depth =>
    have positive := blockLen_nil_append depth opens
    rw [List.nil_append, List.length_nil] at within
    omega
  | case2 depth cs ih =>
    simp only [List.cons_append, blockLen, List.length_cons] at within ⊢
    rw [ih (by omega)]
  | case3 depth cs shallow =>
    simp only [List.cons_append, blockLen, if_pos shallow]
  | case4 depth cs deep ih =>
    simp only [List.cons_append, blockLen, if_neg deep, List.length_cons] at within ⊢
    rw [ih (by omega)]
  | case5 depth c cs noOpen noClose ih =>
    have next : ∀ {z : Text}, Opens z → blockLen depth (c :: (cs ++ z)) =
        1 + blockLen depth (cs ++ z) := by
      intro z opensZ
      cases cs with
      | nil => exact blockLen_single depth c opensZ
      | cons d ds =>
        rw [blockLen.eq_4]
        · rintro rest rfl same
          exact noOpen ds rfl (by rw [(List.cons.inj same).1])
        · rintro rest rfl same
          exact noClose ds rfl (by rw [(List.cons.inj same).1])
    rw [List.cons_append, next opens, List.length_cons] at within
    rw [List.cons_append, List.cons_append, next opens, next opens', ih (by omega)]

theorem toClose_stable {x y : Text} (opens : Opens y) {y' : Text} (opens' : Opens y')
    (within : toClose (x ++ y) ≤ x.length) : toClose (x ++ y') = toClose (x ++ y) := by
  have single : ∀ (e : Char) {z : Text}, Opens z → toClose (e :: z) = 1 + toClose z := by
    rintro e z ⟨c, cs, rfl, start⟩
    rw [toClose]
    rintro rest rfl same
    exact ne_of_start start (by decide) (List.cons.inj same).1
  induction x using toClose.induct with
  | case1 =>
    obtain ⟨c, cs, rfl, start⟩ := opens
    rw [List.nil_append, toClose, List.length_nil] at within
    · omega
    · rintro rest rfl
      exact absurd start (by decide)
  | case2 cs => simp only [List.cons_append, toClose]
  | case3 c cs noClose ih =>
    have next : ∀ {z : Text}, Opens z → toClose (c :: (cs ++ z)) = 1 + toClose (cs ++ z) := by
      intro z opensZ
      cases cs with
      | nil => exact single c opensZ
      | cons d ds =>
        rw [List.cons_append, toClose]
        rintro rest rfl same
        exact noClose ds rfl (by rw [(List.cons.inj same).1])
    rw [List.cons_append, next opens, List.length_cons] at within
    rw [List.cons_append, List.cons_append, next opens, next opens', ih (by omega)]

theorem isDigit_of_start {c : Char} (start : isIdentStart c = true) : c.isDigit = false := by
  rw [Bool.eq_false_iff]
  intro digit
  have range : 48 ≤ c.toNat ∧ c.toNat ≤ 57 := by
    simpa [Char.isDigit, UInt32.le_iff_toNat_le] using digit
  rw [← Char.ofNat_toNat c] at start
  generalize c.toNat = n at range start
  obtain ⟨low, high⟩ := range
  interval_cases n
  all_goals exact absurd start (by decide)

theorem digits_stable (n : Nat) (x : Text) {y : Text} (opens : Opens y) :
    ((x ++ y).take n).takeWhile Char.isDigit = (x.take n).takeWhile Char.isDigit := by
  induction x generalizing n with
  | nil =>
    obtain ⟨c, cs, rfl, start⟩ := opens
    cases n with
    | zero => rfl
    | succ n =>
      rw [List.nil_append, List.take_succ_cons, List.takeWhile_cons_of_neg]
      · rfl
      · rw [isDigit_of_start start]
        exact Bool.noConfusion
  | cons e x ih =>
    cases n with
    | zero => rfl
    | succ n =>
      rw [List.cons_append, List.take_succ_cons, List.take_succ_cons, List.takeWhile_cons,
        List.takeWhile_cons, ih n]

theorem executableMark_bang (cs : Text) :
    executableMark ('!' :: cs) = some (1 + ((cs.take 6).takeWhile Char.isDigit).length) := rfl

theorem executableMark_maria (cs : Text) :
    executableMark ('M' :: '!' :: cs) =
      some (2 + ((cs.take 6).takeWhile Char.isDigit).length) := rfl

theorem executableMark_none {a b : Char} (bang : a ≠ '!') (maria : ¬(a = 'M' ∧ b = '!'))
    (cs : Text) : executableMark (a :: b :: cs) = none := by
  unfold executableMark
  split
  · next same => exact absurd (List.cons.inj same).1 bang
  · next same =>
    obtain ⟨rfl, rest⟩ := List.cons.inj same
    exact absurd ⟨rfl, (List.cons.inj rest).1⟩ maria
  · rfl

/-- What follows a mark that is whole does not change it. -/
theorem executableMark_some {x y : Text} {m : Nat} (opens : Opens y) {y' : Text}
    (opens' : Opens y') (found : executableMark (x ++ y) = some m) (within : m ≤ x.length) :
    executableMark (x ++ y') = some m := by
  unfold executableMark at found
  split at found
  · next cs same =>
    cases x with
    | nil =>
      cases found
      rw [List.length_nil] at within
      omega
    | cons a x =>
      rw [List.cons_append] at same
      obtain ⟨rfl, rfl⟩ := List.cons.inj same
      rw [List.cons_append, executableMark_bang, digits_stable 6 x opens']
      rw [digits_stable 6 x opens] at found
      exact found
  · next cs same =>
    match x with
    | [] =>
      cases found
      rw [List.length_nil] at within
      omega
    | [a] =>
      cases found
      rw [List.length_singleton] at within
      omega
    | a :: b :: x =>
      rw [List.cons_append, List.cons_append] at same
      obtain ⟨rfl, rest⟩ := List.cons.inj same
      obtain ⟨rfl, rfl⟩ := List.cons.inj rest
      rw [List.cons_append, List.cons_append, executableMark_maria, digits_stable 6 x opens']
      rw [digits_stable 6 x opens] at found
      exact found
  · cases found

theorem executableMark_stable {x y : Text} (opens : Opens y) (y' : Text)
    (found : executableMark (x ++ y) = none) (within : toClose (x ++ y) ≤ x.length) :
    executableMark (x ++ y') = none := by
  have positive : 0 < toClose y := by
    obtain ⟨c, cs, rfl, start⟩ := opens
    rw [toClose]
    · omega
    · rintro rest rfl
      exact absurd start (by decide)
  match x with
  | [] =>
    rw [List.nil_append, List.length_nil] at within
    omega
  | [a] =>
    obtain ⟨c, cs, rfl, start⟩ := opens
    rw [List.singleton_append, toClose, List.length_singleton] at within
    · omega
    · rintro rest rfl same
      exact ne_of_start start (by decide) (List.cons.inj same).1
  | a :: b :: x =>
    apply executableMark_none
    · rintro rfl
      cases found
    · rintro ⟨rfl, rfl⟩
      cases found

/-! ### First tokens -/

theorem postgres_stable (context : Context) (c : Char) {x y y' : Text} (opens : Opens y)
    (opens' : Opens y') (noise : (firstToken context c (x ++ y)).1.isNoise = true)
    (within : (firstToken context c (x ++ y)).2 ≤ (c :: x).length) :
    firstToken context c (x ++ y') = firstToken context c (x ++ y) := by
  rw [List.length_cons] at within
  by_cases space : isSpace c = true
  · rw [firstToken, firstToken, if_pos space, if_pos space]
  have dash : isIdentStart '-' = false := by decide
  have star : isIdentStart '*' = false := by decide
  by_cases line : c = '-' ∧ x.head? = some '-'
  · obtain ⟨rfl, head⟩ := line
    obtain ⟨x, rfl⟩ := List.head?_eq_some_iff.mp head
    have read : ∀ z : Text, firstToken context '-' ('-' :: x ++ z) =
        (.lineComment, 2 + lineLen (x ++ z)) := fun z => rfl
    rw [read, List.length_cons] at within
    rw [read, read, lineLen_stable opens opens' (by dsimp only at within; omega)]
  by_cases block : c = '/' ∧ x.head? = some '*'
  · obtain ⟨rfl, head⟩ := block
    obtain ⟨x, rfl⟩ := List.head?_eq_some_iff.mp head
    have read : ∀ z : Text, firstToken context '/' ('*' :: x ++ z) =
        (.blockComment, 2 + blockLen 1 (x ++ z)) := fun z => rfl
    rw [read, List.length_cons] at within
    rw [read, read, blockLen_stable 1 opens opens' (by dsimp only at within; omega)]
  have spec := firstToken_spec context c (x ++ y)
  generalize firstToken context c (x ++ y) = first at spec noise
  generalize whole : x ++ y = cs at spec
  cases spec with
  | space white => exact absurd white space
  | line => exact absurd ⟨rfl, (opens.head? x dash).mp (by rw [whole]; rfl)⟩ line
  | block => exact absurd ⟨rfl, (opens.head? x star).mp (by rw [whole]; rfl)⟩ block
  | _ => cases noise

theorem blank_of_start {c : Char} (start : isIdentStart c = true) (cs : Text) :
    blankAfterDashes (c :: cs) = false := by
  rw [Bool.eq_false_iff]
  intro blank
  have range : c.toNat < 33 ∨ c.toNat = 127 := by
    rw [blankAfterDashes, Bool.or_eq_true, Bool.or_eq_true, decide_eq_true_eq,
      beq_iff_eq] at blank
    rcases blank with (space | low) | delete
    · simp only [isSpace, Bool.or_eq_true, beq_iff_eq] at space
      rcases space with ((((rfl | rfl) | rfl) | rfl) | rfl) | rfl
      all_goals exact absurd start (by decide)
    · omega
    · exact .inr delete
  rw [← Char.ofNat_toNat c] at start
  generalize c.toNat = n at range start
  rcases range with low | rfl
  · interval_cases n
    all_goals exact absurd start (by decide)
  · exact absurd start (by decide)

theorem blankAfterDashes_stable {x y y' : Text} (opens : Opens y) (opens' : Opens y') :
    blankAfterDashes (x ++ y') = blankAfterDashes (x ++ y) := by
  cases x with
  | nil =>
    obtain ⟨c, cs, rfl, start⟩ := opens
    obtain ⟨c', cs', rfl, start'⟩ := opens'
    rw [List.nil_append, List.nil_append, blank_of_start start, blank_of_start start']
  | cons e x => rfl

/-- The white space and the comments among the first tokens. -/
def noiseOf (rules : Rules) (inside : Bool) (c : Char) (cs : Text) : Option (Kind × Nat) :=
  if rules.space c then some (.space, 1)
  else if rules.mysql ∧ c = '#' then some (.lineComment, 1 + toLineFeed cs)
  else if c = '-' ∧ cs.head? = some '-' ∧ (rules.mysql = false ∨ blankAfterDashes cs.tail) then
    some (.lineComment, 2 + toLineFeed cs.tail)
  else if c = '/' ∧ cs.head? = some '*' then
    match (if rules.mysql then executableMark cs.tail else none) with
    | some mark => some (.blockComment, 2 + mark)
    | none => some (.blockComment, 2 + toClose cs.tail)
  else if inside ∧ c = '*' ∧ cs.head? = some '/' then some (.blockComment, 2)
  else none

theorem noiseOf_first (rules : Rules) (inside : Bool) (c : Char) (cs : Text) :
    noiseOf rules inside c cs = some (rules.first inside c cs) ∨
      noiseOf rules inside c cs = none ∧ (rules.first inside c cs).1.isNoise = false := by
  unfold noiseOf Rules.first
  by_cases space : rules.space c = true
  · rw [if_pos space, if_pos space]
    exact .inl rfl
  rw [if_neg space, if_neg space]
  by_cases hash : rules.mysql = true ∧ c = '#'
  · rw [if_pos hash, if_pos hash]
    exact .inl rfl
  rw [if_neg hash, if_neg hash]
  by_cases line : c = '-' ∧ cs.head? = some '-' ∧
      (rules.mysql = false ∨ blankAfterDashes cs.tail = true)
  · rw [if_pos line, if_pos line]
    exact .inl rfl
  rw [if_neg line, if_neg line]
  by_cases block : c = '/' ∧ cs.head? = some '*'
  · rw [if_pos block, if_pos block]
    cases (if rules.mysql = true then executableMark cs.tail else none) with
    | some mark => exact .inl rfl
    | none => exact .inl rfl
  rw [if_neg block, if_neg block]
  by_cases close : inside = true ∧ c = '*' ∧ cs.head? = some '/'
  · rw [if_pos close, if_pos close]
    exact .inl rfl
  rw [if_neg close, if_neg close]
  refine .inr ⟨rfl, ?_⟩
  by_cases semi : c = ';'
  · rw [if_pos semi]
    rfl
  rw [if_neg semi]
  cases rules.quote c with
  | some quoted =>
    obtain ⟨identifier, len⟩ := quoted
    cases identifier with
    | true => rfl
    | false => rfl
  | none =>
    dsimp only
    split_ifs
    · rfl
    · rfl
    · rfl

theorem noiseOf_stable (rules : Rules) (inside : Bool) (c : Char) {x y y' : Text} {kind : Kind}
    {len : Nat} (opens : Opens y) (opens' : Opens y')
    (noise : noiseOf rules inside c (x ++ y) = some (kind, len)) (within : len ≤ (c :: x).length) :
    noiseOf rules inside c (x ++ y') = some (kind, len) := by
  have head : ∀ d, isIdentStart d = false → ((x ++ y').head? = some d ↔ (x ++ y).head? = some d) :=
    fun d other => (opens'.head? x other).trans (opens.head? x other).symm
  have tails : ∀ d z, x.head? = some d → (x ++ z).tail = x.tail ++ z := by
    intro d z first
    obtain ⟨x', rfl⟩ := List.head?_eq_some_iff.mp first
    rfl
  have dash : isIdentStart '-' = false := by decide
  have star : isIdentStart '*' = false := by decide
  have lines : (c = '-' ∧ (x ++ y').head? = some '-' ∧
      (rules.mysql = false ∨ blankAfterDashes (x ++ y').tail = true)) ↔
      (c = '-' ∧ (x ++ y).head? = some '-' ∧
        (rules.mysql = false ∨ blankAfterDashes (x ++ y).tail = true)) := by
    rw [head '-' dash]
    by_cases first : x.head? = some '-'
    · rw [tails '-' y first, tails '-' y' first, blankAfterDashes_stable opens opens']
    · rw [opens.head? x dash]
      tauto
  rw [List.length_cons] at within
  unfold noiseOf at noise ⊢
  by_cases space : rules.space c = true
  · rw [if_pos space] at noise ⊢
    exact noise
  rw [if_neg space] at noise ⊢
  by_cases hash : rules.mysql = true ∧ c = '#'
  · rw [if_pos hash, Option.some.injEq, Prod.mk.injEq] at noise
    rw [if_pos hash, toLineFeed_stable opens y' (by omega), noise.1, noise.2]
  rw [if_neg hash] at noise ⊢
  by_cases line : c = '-' ∧ (x ++ y).head? = some '-' ∧
      (rules.mysql = false ∨ blankAfterDashes (x ++ y).tail = true)
  · have first := (opens.head? x dash).mp line.2.1
    rw [if_pos line, tails '-' y first, Option.some.injEq, Prod.mk.injEq] at noise
    have size : x.tail.length + 1 = x.length := by
      obtain ⟨x', rfl⟩ := List.head?_eq_some_iff.mp first
      rfl
    rw [if_pos (lines.mpr line), tails '-' y' first, toLineFeed_stable opens y' (by omega),
      noise.1, noise.2]
  rw [if_neg line] at noise
  rw [if_neg (mt lines.mp line)]
  by_cases block : c = '/' ∧ (x ++ y).head? = some '*'
  · have first := (opens.head? x star).mp block.2
    have size : x.tail.length + 1 = x.length := by
      obtain ⟨x', rfl⟩ := List.head?_eq_some_iff.mp first
      rfl
    rw [if_pos block, tails '*' y first] at noise
    rw [if_pos ⟨block.1, (head '*' star).mpr block.2⟩, tails '*' y' first]
    cases mysql : rules.mysql with
    | false =>
      rw [mysql] at noise
      simp only [Bool.false_eq_true, if_false, Option.some.injEq, Prod.mk.injEq] at noise ⊢
      rw [toClose_stable opens opens' (by omega)]
      exact noise
    | true =>
      rw [mysql] at noise
      simp only [if_true] at noise ⊢
      cases mark : executableMark (x.tail ++ y) with
      | some m =>
        rw [mark] at noise
        simp only [Option.some.injEq, Prod.mk.injEq] at noise
        rw [executableMark_some opens opens' mark (by omega)]
        simp only [Option.some.injEq, Prod.mk.injEq]
        exact noise
      | none =>
        rw [mark] at noise
        simp only [Option.some.injEq, Prod.mk.injEq] at noise
        rw [executableMark_stable opens y' mark (by omega)]
        simp only [Option.some.injEq, Prod.mk.injEq]
        rw [toClose_stable opens opens' (by omega)]
        exact noise
  rw [if_neg block] at noise
  rw [if_neg fun both => block ⟨both.1, (head '*' star).mp both.2⟩]
  simp only [head '/' (by decide)]
  exact noise

theorem rules_stable (rules : Rules) (inside : Bool) (c : Char) {x y y' : Text} (opens : Opens y)
    (opens' : Opens y') (noise : (rules.first inside c (x ++ y)).1.isNoise = true)
    (within : (rules.first inside c (x ++ y)).2 ≤ (c :: x).length) :
    rules.first inside c (x ++ y') = rules.first inside c (x ++ y) := by
  rcases noiseOf_first rules inside c (x ++ y) with found | ⟨-, significant⟩
  · have found' := noiseOf_stable rules inside c opens opens' found within
    rcases noiseOf_first rules inside c (x ++ y') with same | ⟨none', -⟩
    · exact Option.some.inj (same.symm.trans found')
    · rw [none'] at found'
      cases found'
  · rw [significant] at noise
    cases noise

/-- A token of noise that ends before an identifier is the same before every identifier. -/
theorem first_stable (dialect : Dialect) (s : (serverLexer dialect).State) (c : Char)
    {x y y' : Text} (opens : Opens y) (opens' : Opens y')
    (noise : ((serverLexer dialect).first s c (x ++ y)).1.isNoise = true)
    (within : ((serverLexer dialect).first s c (x ++ y)).2 ≤ (c :: x).length) :
    (serverLexer dialect).first s c (x ++ y') = (serverLexer dialect).first s c (x ++ y) := by
  cases dialect with
  | postgres => exact postgres_stable s c opens opens' noise within
  | mySql => exact rules_stable mysqlRules s c opens opens' noise within
  | sqlite => exact rules_stable sqliteRules s c opens opens' noise within

/-- The first token and what is read after it. -/
theorem tokensFrom_next (lexer : Lexer) {s : lexer.State} {piece rest : Text} {c : Char} {cs : Text}
    (shape : piece = c :: cs) (whole : (lexer.first s c (cs ++ rest)).2 = piece.length) :
    lexer.tokensFrom s (piece ++ rest) =
      { kind := (lexer.first s c (cs ++ rest)).1, text := piece } ::
        lexer.tokensFrom
          (lexer.next s { kind := (lexer.first s c (cs ++ rest)).1, text := piece }) rest := by
  rw [shape, List.cons_append, lexer.tokensFrom_cons, Lexer.token, whole, ← List.cons_append,
    ← shape, List.take_left, List.drop_left]

/-- A token that is read before more text is the first token of the lexer. -/
theorem first_of_read (lexer : Lexer) {s : lexer.State} {token : Token} {tokens : List Token}
    {rest : Text} (more : rest ≠ [])
    (read : lexer.tokensFrom s (token.text ++ rest) = token :: tokens) :
    ∃ c cs, token.text = c :: cs ∧ lexer.first s c (cs ++ rest) = (token.kind, token.text.length) := by
  cases whole : token.text ++ rest with
  | nil => exact absurd (List.append_eq_nil_iff.mp whole).2 more
  | cons c cs =>
    rw [whole, lexer.tokensFrom_cons, List.cons.injEq] at read
    have same := read.1
    have text : (c :: cs).take (lexer.first s c cs).2 = token.text := congrArg Token.text same
    have kind : (lexer.first s c cs).1 = token.kind := congrArg Token.kind same
    have positive := lexer.positive s c cs
    have size : (lexer.first s c cs).2 = token.text.length := by
      have taken := congrArg List.length text
      have total := congrArg List.length whole
      have some := List.length_pos_of_ne_nil more
      rw [List.length_take] at taken
      rw [List.length_append] at total
      omega
    obtain ⟨n, len⟩ := Nat.exists_eq_succ_of_ne_zero positive.ne'
    rw [len, List.take_succ_cons] at text
    refine ⟨c, cs.take n, text.symm, ?_⟩
    rw [← text, List.cons_append] at whole
    have tail := (List.cons.inj whole).2
    rw [tail, ← kind, ← size]

/-- Noise in front of an identifier is read as the same noise in front of every other one. -/
theorem tokensFrom_transfer (dialect : Dialect) {noise rest : List Token}
    {s : (serverLexer dialect).State} {y y' : Text} (opens : Opens y) (opens' : Opens y')
    (noisy : ∀ token ∈ noise, token.kind.isNoise = true)
    (read : (serverLexer dialect).tokensFrom s (textOf noise ++ y) = noise ++ rest) :
    ∃ s', (serverLexer dialect).tokensFrom s (textOf noise ++ y') =
      noise ++ (serverLexer dialect).tokensFrom s' y' := by
  induction noise generalizing s with
  | nil => exact ⟨s, rfl⟩
  | cons token noise ih =>
    have more : textOf noise ++ y ≠ [] := by
      obtain ⟨c, cs, rfl, -⟩ := opens
      exact List.append_ne_nil_of_right_ne_nil _ (List.cons_ne_nil c cs)
    rw [textOf_cons, List.append_assoc, List.cons_append] at read
    obtain ⟨c, x, text, first⟩ := first_of_read (serverLexer dialect) more read
    have kind := noisy token List.mem_cons_self
    have stable := first_stable dialect s c (x := x ++ textOf noise) opens opens'
      (by rw [List.append_assoc, first]; exact kind)
      (by rw [List.append_assoc, first, text]; simp)
    rw [List.append_assoc, List.append_assoc, first] at stable
    have before := tokensFrom_next (serverLexer dialect) text (congrArg Prod.snd first)
    have after := tokensFrom_next (serverLexer dialect) text (congrArg Prod.snd stable)
    rw [first] at before
    rw [stable] at after
    rw [read] at before
    obtain ⟨s', later⟩ := ih (fun other member => noisy other (List.mem_cons_of_mem _ member))
      (List.cons.inj before).2.symm
    refine ⟨s', ?_⟩
    rw [textOf_cons, List.append_assoc, after, later, List.cons_append]

/-! ## Skipping -/

theorem findPair_append {a b : Char} {x : Text} {i : Nat} (found : findPair a b x = some i)
    (y : Text) : findPair a b (x ++ y) = some i := by
  induction x generalizing i with
  | nil => cases found
  | cons c x ih =>
    rw [List.cons_append, findPair]
    rw [findPair] at found
    by_cases here : c = a ∧ x.head? = some b
    · rw [if_pos here] at found
      rw [if_pos ⟨here.1, by rw [List.head?_append, here.2]; rfl⟩, found]
    · rw [if_neg here, Option.map_eq_some_iff] at found
      obtain ⟨j, later, rfl⟩ := found
      have next : x ≠ [] := by
        rintro rfl
        cases later
      have there : ¬(c = a ∧ (x ++ y).head? = some b) := by
        rwa [List.head?_append_of_ne_nil _ next]
      rw [if_neg there, ih later]
      rfl

theorem findPair_le {a b : Char} {x : Text} {i : Nat} (found : findPair a b x = some i) :
    i + 2 ≤ x.length := by
  induction x generalizing i with
  | nil => cases found
  | cons c x ih =>
    rw [findPair] at found
    by_cases here : c = a ∧ x.head? = some b
    · rw [if_pos here] at found
      cases found
      obtain ⟨ds, rfl⟩ := List.head?_eq_some_iff.mp here.2
      simp
    · rw [if_neg here, Option.map_eq_some_iff] at found
      obtain ⟨j, later, rfl⟩ := found
      have bound := ih later
      rw [List.length_cons]
      omega

/-- Letters do not end a block comment that the text leaves open. -/
theorem findPair_letters {x y : Text} (none' : findPair '*' '/' x = none)
    (letters : ∀ c ∈ y, c.isAlpha = true) : findPair '*' '/' (x ++ y) = none := by
  have slash : ∀ {z : Text}, (∀ c ∈ z, c.isAlpha = true) → z.head? ≠ some '/' := by
    intro z alpha head
    obtain ⟨zs, rfl⟩ := List.head?_eq_some_iff.mp head
    exact absurd (alpha '/' List.mem_cons_self) (by decide)
  induction x with
  | nil =>
    rw [List.nil_append]
    induction y with
    | nil => rfl
    | cons c y ih =>
      have other : ¬(c = '*' ∧ y.head? = some '/') := by
        rintro ⟨rfl, -⟩
        exact absurd (letters '*' List.mem_cons_self) (by decide)
      rw [findPair, if_neg other, ih fun d member => letters d (List.mem_cons_of_mem _ member)]
      rfl
  | cons c x ih =>
    rw [findPair] at none'
    by_cases here : c = '*' ∧ x.head? = some '/'
    · rw [if_pos here] at none'
      cases none'
    rw [if_neg here, Option.map_eq_none_iff] at none'
    have there : ¬(c = '*' ∧ (x ++ y).head? = some '/') := by
      rintro ⟨star, head⟩
      cases x with
      | nil => exact slash letters head
      | cons d x => exact here ⟨star, head⟩
    rw [List.cons_append, findPair, if_neg there, ih none']
    rfl

theorem skipLeadingNoise_line {body : Text} (single : '\n' ∉ body) (after : Text) :
    skipLeadingNoise ('-' :: '-' :: (body ++ '\n' :: after)) = skipLeadingNoise after := by
  have same : trimStart ('-' :: '-' :: (body ++ '\n' :: after)) =
      '-' :: '-' :: (body ++ '\n' :: after) := rfl
  unfold skipLeadingNoise
  rw [skipLeadingNoiseLoop, same]
  change skipLeadingNoiseLoop _ (((body ++ '\n' :: after).dropWhile fun c => c != '\n').drop 1) = _
  rw [LeadingNoise.drop_line single]
  apply skipLeadingNoiseLoop_fuel
  · simp only [List.length_cons, List.length_append]
    omega
  · omega

theorem skipLeadingNoise_stop {text : Text}
    (visible : ∀ c, text.head? = some c → isWhitespace c = false)
    (line : ∀ after, text ≠ '-' :: '-' :: after) (block : ∀ after, text ≠ '/' :: '*' :: after) :
    skipLeadingNoise text = text := by
  have same : trimStart text = text := by
    cases text with
    | nil => rfl
    | cons c cs => exact List.dropWhile_cons_of_neg (by simp [visible c rfl])
  unfold skipLeadingNoise
  rw [skipLeadingNoiseLoop, same]
  split
  · next after => exact absurd rfl (line after)
  · next after => exact absurd rfl (block after)
  · rfl

/-- The text starts with a letter. -/
def Lettered (text : Text) : Prop :=
  ∃ c cs, text = c :: cs ∧ c.isAlpha = true

/-- A rest that starts with no noise starts with none in front of a letter. -/
theorem skipLeadingNoise_rest {rest y : Text} (lettered : Lettered y)
    (visible : ∀ c, rest.head? = some c → isWhitespace c = false)
    (line : ∀ after, rest ≠ '-' :: '-' :: after) (block : ∀ after, rest ≠ '/' :: '*' :: after) :
    skipLeadingNoise (rest ++ y) = rest ++ y := by
  obtain ⟨c, cs, rfl, alpha⟩ := lettered
  apply skipLeadingNoise_stop
  · intro d head
    cases rest with
    | nil =>
      rw [← Option.some.inj head]
      exact isWhitespace_of_alpha alpha
    | cons e rest => exact visible d head
  · intro after same
    match rest with
    | [] => exact ne_of_alpha alpha (by decide) (List.cons.inj same).1
    | [e] => exact ne_of_alpha alpha (by decide) (List.cons.inj (List.cons.inj same).2).1
    | e :: f :: rest =>
      obtain ⟨rfl, tail⟩ := List.cons.inj same
      exact line rest (by rw [(List.cons.inj tail).1])
  · intro after same
    match rest with
    | [] => exact ne_of_alpha alpha (by decide) (List.cons.inj same).1
    | [e] => exact ne_of_alpha alpha (by decide) (List.cons.inj (List.cons.inj same).2).1
    | e :: f :: rest =>
      obtain ⟨rfl, tail⟩ := List.cons.inj same
      exact block rest (by rw [(List.cons.inj tail).1])

/-- The guard skips what the rules say, in front of every letter. -/
theorem Skips.skipLeadingNoise {lead rest y : Text} (skips : Skips lead rest)
    (lettered : Lettered y) : skipLeadingNoise (lead ++ y) = rest ++ y := by
  induction skips with
  | space white later ih => rw [List.cons_append, skipLeadingNoise_space white, ih]
  | @line body text rest single later ih =>
    have shape : ('-' :: '-' :: (body ++ '\n' :: text)) ++ y =
        '-' :: '-' :: (body ++ '\n' :: (text ++ y)) := by simp
    rw [shape, skipLeadingNoise_line single, ih]
  | @block inside rest i found later ih =>
    have bound := findPair_le found
    have shape : ('/' :: '*' :: inside) ++ y =
        '/' :: '*' :: (inside.take (i + 2) ++ (inside.drop (i + 2) ++ y)) := by
      rw [← List.append_assoc, List.take_append_drop]
      rfl
    have found' : findPair '*' '/' (inside.take (i + 2) ++ (inside.drop (i + 2) ++ y)) =
        some i := by
      rw [← List.append_assoc, List.take_append_drop]
      exact findPair_append found y
    rw [shape, skipLeadingNoise_block found' (by rw [List.length_take]; omega), ih]
  | stop visible line block => exact skipLeadingNoise_rest lettered visible line block

theorem skipLeadingNoise_nil : skipLeadingNoise [] = [] := rfl

theorem skipLeadingNoise_openLine {text : Text} (single : '\n' ∉ text) :
    skipLeadingNoise ('-' :: '-' :: text) = [] := by
  have same : trimStart ('-' :: '-' :: text) = '-' :: '-' :: text := rfl
  have gone : text.dropWhile (fun c => c != '\n') = [] := by
    rw [List.dropWhile_eq_nil_iff]
    intro c member
    rw [bne_iff_ne]
    rintro rfl
    exact single member
  unfold skipLeadingNoise
  rw [skipLeadingNoiseLoop, same]
  change skipLeadingNoiseLoop _ ((text.dropWhile fun c => c != '\n').drop 1) = _
  rw [gone]
  rfl

theorem skipLeadingNoise_openBlock {text : Text} (none' : findPair '*' '/' text = none) :
    skipLeadingNoise ('/' :: '*' :: text) = [] := by
  have same : trimStart ('/' :: '*' :: text) = '/' :: '*' :: text := rfl
  unfold skipLeadingNoise
  rw [skipLeadingNoiseLoop, same]
  simp only [none']
  rfl

/-- Either the rules read the lead, or a comment that it leaves open hides every word. -/
theorem skips_total (lead : Text) :
    (∃ rest, Skips lead rest) ∨
      ∀ y : Text, (∀ c ∈ y, c.isAlpha = true) → skipLeadingNoise (lead ++ y) = [] := by
  have noFeed : ∀ y : Text, (∀ c ∈ y, c.isAlpha = true) → '\n' ∉ y :=
    fun y letters member => absurd (letters '\n' member) (by decide)
  induction h : lead.length using Nat.strongRecOn generalizing lead with
  | ind n ih =>
    by_cases line : ∃ after, lead = '-' :: '-' :: after
    · obtain ⟨after, rfl⟩ := line
      by_cases feed : '\n' ∈ after
      · obtain ⟨body, text, rfl, single⟩ := List.eq_append_cons_of_mem feed
        rcases ih text.length (by rw [← h]; simp; omega) text rfl with ⟨rest, skips⟩ | hidden
        · exact .inl ⟨rest, .line single skips⟩
        · refine .inr fun y letters => ?_
          have shape : ('-' :: '-' :: (body ++ '\n' :: text)) ++ y =
              '-' :: '-' :: (body ++ '\n' :: (text ++ y)) := by simp
          rw [shape, skipLeadingNoise_line single, hidden y letters]
      · refine .inr fun y letters => skipLeadingNoise_openLine fun member => ?_
        rcases List.mem_append.mp member with inside | later
        · exact feed inside
        · exact noFeed y letters later
    by_cases block : ∃ after, lead = '/' :: '*' :: after
    · obtain ⟨inside, rfl⟩ := block
      cases found : findPair '*' '/' inside with
      | some i =>
        have bound := findPair_le found
        rcases ih (inside.drop (i + 2)).length (by rw [← h]; simp; omega) _ rfl with
          ⟨rest, skips⟩ | hidden
        · exact .inl ⟨rest, .block found skips⟩
        · refine .inr fun y letters => ?_
          have shape : ('/' :: '*' :: inside) ++ y =
              '/' :: '*' :: (inside.take (i + 2) ++ (inside.drop (i + 2) ++ y)) := by
            rw [← List.append_assoc, List.take_append_drop]
            rfl
          have found' : findPair '*' '/' (inside.take (i + 2) ++ (inside.drop (i + 2) ++ y)) =
              some i := by
            rw [← List.append_assoc, List.take_append_drop]
            exact findPair_append found y
          rw [shape, skipLeadingNoise_block found' (by rw [List.length_take]; omega),
            hidden y letters]
      | none => exact .inr fun y letters => skipLeadingNoise_openBlock (findPair_letters found letters)
    by_cases white : ∃ c text, lead = c :: text ∧ isWhitespace c = true
    · obtain ⟨c, text, rfl, blank⟩ := white
      rcases ih text.length (by rw [← h]; exact Nat.lt_succ_self _) text rfl with
        ⟨rest, skips⟩ | hidden
      · exact .inl ⟨rest, .space blank skips⟩
      · refine .inr fun y letters => ?_
        rw [List.cons_append, skipLeadingNoise_space blank, hidden y letters]
    refine .inl ⟨lead, .stop ?_ (fun after same => line ⟨after, same⟩)
      fun after same => block ⟨after, same⟩⟩
    intro c head
    obtain ⟨text, rfl⟩ := List.head?_eq_some_iff.mp head
    rw [Bool.eq_false_iff]
    intro blank
    exact white ⟨c, text, rfl, blank⟩

/-! ## Words -/

/-- A run of letters that no letter follows. -/
structure Run (word rest : Text) : Prop where
  nonempty : word ≠ []
  letters : ∀ c ∈ word, c.isAlpha = true
  ends : ∀ d, rest.head? = some d → d.isAlpha = false

theorem leadingWords_run {word rest : Text} (run : Run word rest) (max : Nat) :
    leadingWords (word ++ rest) (max + 1) = toAsciiUppercase word :: leadingWords rest max := by
  have letters : ∀ c ∈ word, (!c.isAlpha) = false := by
    intro c member
    rw [run.letters c member]
    rfl
  cases rest with
  | nil =>
    unfold leadingWords
    rw [List.append_nil, List.splitOnP_eq_singleton letters]
    simp [run.nonempty]
  | cons d ds =>
    have other := run.ends d rfl
    rw [leadingWords_separator other]
    unfold leadingWords
    rw [List.splitOnP_append_cons_of_forall_mem letters d (by simp [other])]
    simp [run.nonempty]

/-- The first run of letters of a text that has a letter. -/
theorem run_split {text : Text} (some : ∃ c ∈ text, c.isAlpha = true) :
    ∃ gap word rest, text = gap ++ (word ++ rest) ∧ (∀ c ∈ gap, c.isAlpha = false) ∧
      Run word rest := by
  induction text with
  | nil =>
    obtain ⟨c, member, -⟩ := some
    cases member
  | cons c text ih =>
    cases alpha : c.isAlpha with
    | true =>
      refine ⟨[], c :: text.takeWhile Char.isAlpha, text.dropWhile Char.isAlpha, ?_, ?_, ?_⟩
      · rw [List.nil_append, List.cons_append, List.takeWhile_append_dropWhile]
      · intro d member
        cases member
      · refine ⟨List.cons_ne_nil _ _, ?_, ?_⟩
        · intro d member
          rcases List.mem_cons.mp member with rfl | later
          · exact alpha
          · exact List.mem_takeWhile_imp later
        · intro d head
          have stop := List.head?_dropWhile_not Char.isAlpha text
          rw [head] at stop
          simpa using stop
    | false =>
      obtain ⟨d, member, letter⟩ := some
      have later : ∃ d ∈ text, d.isAlpha = true := by
        rcases List.mem_cons.mp member with rfl | inside
        · rw [alpha] at letter
          cases letter
        · exact ⟨d, inside, letter⟩
      obtain ⟨gap, word, rest, rfl, silent, run⟩ := ih later
      refine ⟨c :: gap, word, rest, rfl, ?_, run⟩
      intro e inside
      rcases List.mem_cons.mp inside with rfl | deeper
      · exact alpha
      · exact silent e deeper

theorem txControlClass_words {sql word : Text} {rest : List Text}
    (words : leadingWords (skipLeadingNoise sql) 2 = word :: rest) :
    txControlClass sql = verbClass word rest.head? := by
  rw [txControlClass, words]
  rfl

/-- Only `ROLLBACK` is in both classes, and the word after it decides. -/
theorem verbClass_both {word : Text} {next next' : Option Text}
    (boundary : verbClass word next = some .boundary)
    (savepoint : verbClass word next' = some .savepoint) :
    next' = some "TO".toList ∧ next ≠ next' := by
  unfold verbClass at boundary savepoint
  by_cases rollback : word = "ROLLBACK".toList
  · rw [if_pos rollback] at boundary savepoint
    by_cases target : next' = some "TO".toList
    · refine ⟨target, ?_⟩
      rintro rfl
      rw [if_pos target] at boundary
      cases boundary
    · rw [if_neg target] at savepoint
      cases savepoint
  rw [if_neg rollback] at boundary savepoint
  by_cases single : word ∈ boundarySingle
  · rw [if_pos single] at savepoint
    cases savepoint
  rw [if_neg single] at boundary savepoint
  by_cases single' : word ∈ savepointSingle
  · rw [if_pos single'] at boundary
    cases boundary
  rw [if_neg single'] at savepoint
  cases next' with
  | none => cases savepoint
  | some second =>
    dsimp only at savepoint
    split_ifs at savepoint
    cases savepoint

theorem Run.before {word rest : Text} (run : Run word rest) (more : rest ≠ []) (after : Text) :
    Run word (rest ++ after) := by
  refine ⟨run.nonempty, run.letters, ?_⟩
  intro d head
  rw [List.head?_append_of_ne_nil _ more] at head
  exact run.ends d head

theorem Run.glued {word verb : Text} (run : Run word []) (letters : ∀ c ∈ verb, c.isAlpha = true) :
    Run (word ++ verb) [] := by
  refine ⟨List.append_ne_nil_of_left_ne_nil run.nonempty _, ?_, fun d head => by cases head⟩
  intro c member
  rcases List.mem_append.mp member with first | second
  · exact run.letters c first
  · exact letters c second

theorem toAsciiUppercase_append (first second : Text) :
    toAsciiUppercase (first ++ second) = toAsciiUppercase first ++ toAsciiUppercase second :=
  List.map_append

theorem not_verb_glued {front : Text} (some' : front ≠ []) :
    verbClass (front ++ "BEGIN".toList) none = none := by
  have apart : ∀ verb : Text, verb.reverse.head? ≠ some 'N' → front ++ "BEGIN".toList ≠ verb := by
    rintro verb last rfl
    exact last (by rw [List.reverse_append]; rfl)
  have longer : front ++ "BEGIN".toList ≠ "BEGIN".toList := by
    intro same
    have size := congrArg List.length same
    rw [List.length_append] at size
    exact some' (List.eq_nil_of_length_eq_zero (by omega))
  have boundary : front ++ "BEGIN".toList ∉ boundarySingle := by
    intro member
    simp only [boundarySingle, List.map_cons, List.map_nil, List.mem_cons, List.not_mem_nil,
      or_false] at member
    rcases member with same | same | same | same
    · exact longer same
    · exact apart _ (by decide) same
    · exact apart _ (by decide) same
    · exact apart _ (by decide) same
  have savepoint : front ++ "BEGIN".toList ∉ savepointSingle := by
    intro member
    simp only [savepointSingle, List.map_cons, List.map_nil, List.mem_cons, List.not_mem_nil,
      or_false] at member
    rcases member with same | same
    · exact apart _ (by decide) same
    · exact apart _ (by decide) same
  rw [verbClass, if_neg (apart _ (by decide)), if_neg boundary, if_neg savepoint]

/-- A rest that hides neither `BEGIN` nor `SAVEPOINT` has no letter. -/
theorem letterless_of_both {rest : Text} {first first' : Text} {words words' : List Text}
    (reads : leadingWords (rest ++ "BEGIN".toList) 2 = first :: words)
    (reads' : leadingWords (rest ++ "SAVEPOINT".toList) 2 = first' :: words')
    (boundary : verbClass first words.head? = some .boundary)
    (savepoint : verbClass first' words'.head? = some .savepoint) :
    ∀ c ∈ rest, c.isAlpha = false := by
  have letters : ∀ c ∈ "BEGIN".toList, c.isAlpha = true := List.all_eq_true.mp rfl
  have letters' : ∀ c ∈ "SAVEPOINT".toList, c.isAlpha = true := List.all_eq_true.mp rfl
  by_contra some'
  push Not at some'
  obtain ⟨c, member, letter⟩ := some'
  obtain ⟨gap, word, tail, rfl, silent, run⟩ :=
    run_split ⟨c, member, by simpa using letter⟩
  rw [List.append_assoc, leadingWords_gap _ _ silent, List.append_assoc] at reads reads'
  by_cases empty : tail = []
  · rw [empty] at run
    rw [empty, List.nil_append] at reads
    have whole := leadingWords_run (run.glued letters) 1
    rw [List.append_nil, reads] at whole
    obtain ⟨rfl, rfl⟩ := List.cons.inj whole
    have some'' : toAsciiUppercase word ≠ [] := by simp [toAsciiUppercase, run.nonempty]
    have glued := not_verb_glued some''
    rw [toAsciiUppercase_append] at boundary
    exact absurd (boundary.symm.trans glued) (by simp)
  rw [leadingWords_run (run.before empty _)] at reads reads'
  obtain ⟨rfl, rfl⟩ := List.cons.inj reads
  obtain ⟨rfl, rfl⟩ := List.cons.inj reads'
  obtain ⟨target, differ⟩ := verbClass_both boundary savepoint
  by_cases silent' : ∀ d ∈ tail, d.isAlpha = false
  · rw [leadingWords_gap _ _ silent'] at target
    exact absurd target (by decide +kernel)
  · push Not at silent'
    obtain ⟨d, inside, letter'⟩ := silent'
    obtain ⟨gap', word', tail', rfl, quiet, run'⟩ :=
      run_split ⟨d, inside, by simpa using letter'⟩
    rw [List.append_assoc, leadingWords_gap _ _ quiet, List.append_assoc] at target
    by_cases empty' : tail' = []
    · rw [empty'] at run'
      have whole := leadingWords_run (run'.glued letters') 0
      rw [List.append_nil] at whole
      rw [empty', List.nil_append, whole] at target
      have size := congrArg List.length (Option.some.inj target)
      simp [toAsciiUppercase] at size
    · have same : ∀ after, (leadingWords (gap' ++ (word' ++ tail') ++ after) 1).head? =
          some (toAsciiUppercase word') := by
        intro after
        rw [List.append_assoc, leadingWords_gap _ _ quiet, List.append_assoc,
          leadingWords_run (run'.before empty' after)]
        rfl
      exact differ ((same _).trans (same _).symm)

/-! ## Keywords -/

theorem ident_shape (dialect : Dialect) (s : (serverLexer dialect).State) (c : Char) (cs : Text)
    (ident : ((serverLexer dialect).first s c cs).1 = .ident) :
    isIdentStart c = true ∧
      ((serverLexer dialect).first s c cs).2 = 1 + (cs.takeWhile isIdentCont).length := by
  have rules : ∀ (rules : Rules) (inside : Bool), (rules.first inside c cs).1 = .ident →
      isIdentStart c = true ∧
        (rules.first inside c cs).2 = 1 + (cs.takeWhile isIdentCont).length := by
    intro rules inside
    unfold Rules.first
    repeat' split
    all_goals intro ident
    all_goals first
      | exact ⟨by assumption, rfl⟩
      | cases ident
  cases dialect with
  | postgres =>
    have spec := firstToken_spec s c cs
    change (firstToken s c cs).1 = .ident at ident
    change _ ∧ (firstToken s c cs).2 = _
    generalize firstToken s c cs = first at spec ident
    cases spec with
    | ident start => exact ⟨start, rfl⟩
    | _ => cases ident
  | mySql => exact rules mysqlRules s ident
  | sqlite => exact rules sqliteRules s ident

/-- The lead, the keyword and the rest of a text. -/
structure Parts (dialect : Dialect) (sql : Text) (noise : List Token) (token : Token)
    (after : List Token) : Prop where
  read : (serverLexer dialect).read sql = noise ++ token :: after
  noisy : ∀ other ∈ noise, other.kind.isNoise = true
  lead : leadOf dialect sql = textOf noise
  ident : token.kind = .ident
  text : sql = textOf noise ++ (token.text ++ textOf after)
  opens : Opens (token.text ++ textOf after)
  ends : ∀ d, (textOf after).head? = some d → isIdentCont d = false

theorem parts_of_keyword {dialect : Dialect} {sql word : Text} {after : List Token}
    (found : keywordOf dialect sql = some (word, after)) :
    ∃ noise token, toAsciiUppercase token.text = word ∧ Parts dialect sql noise token after := by
  unfold keywordOf at found
  cases first : dropNoise ((serverLexer dialect).read sql) with
  | nil =>
    rw [first] at found
    cases found
  | cons token tokens =>
    rw [first] at found
    dsimp only at found
    split_ifs at found with ident
    cases found
    obtain ⟨noise, split, noisy, significant⟩ := dropNoise_split first
    have text : textOf ((serverLexer dialect).read sql) = sql :=
      (serverLexer dialect).tokensFrom_text _ _
    rw [split, textOf_append, textOf_cons] at text
    obtain ⟨s', rest⟩ := tokensFrom_suffix (serverLexer dialect) split
    rw [textOf_cons] at rest
    refine ⟨noise, token, rfl, split, noisy, ?_, ident, text.symm, ?_, ?_⟩
    · rw [leadOf, split, List.takeWhile_append_of_pos noisy,
        List.takeWhile_cons_of_neg (by rw [significant]; exact Bool.noConfusion), List.append_nil]
    · cases whole : token.text ++ textOf after with
      | nil =>
        rw [whole] at rest
        cases rest
      | cons c cs =>
        rw [whole, (serverLexer dialect).tokensFrom_cons, List.cons.injEq] at rest
        rw [rest.1] at ident
        exact ⟨c, cs, rfl, (ident_shape dialect s' c cs ident).1⟩
    · intro d head
      have more : textOf after ≠ [] := by
        intro none'
        rw [none'] at head
        cases head
      obtain ⟨c, cs, shape, read⟩ := first_of_read (serverLexer dialect) more rest.symm
      have size := (ident_shape dialect s' c (cs ++ textOf after) (by rw [read]; exact ident)).2
      rw [read, shape, List.length_cons] at size
      obtain ⟨ds, tail⟩ := List.head?_eq_some_iff.mp head
      rw [tail] at size
      rw [Bool.eq_false_iff]
      intro cont
      dsimp only at size
      have whole : ((cs ++ d :: ds).takeWhile isIdentCont).length = cs.length := by omega
      have own : (cs ++ d :: ds).takeWhile isIdentCont = cs := by
        have isPrefix := List.takeWhile_prefix isIdentCont (l := cs ++ d :: ds)
        have isPrefix' : cs <+: cs ++ d :: ds := List.prefix_append cs _
        exact (List.prefix_of_prefix_length_le isPrefix isPrefix' (by omega)).eq_of_length whole
      have conts : ∀ e ∈ cs, isIdentCont e = true := by
        intro e member
        rw [← own] at member
        exact List.mem_takeWhile_imp member
      rw [List.takeWhile_append_of_pos conts, List.takeWhile_cons_of_pos cont] at own
      have longer := congrArg List.length own
      rw [List.length_append, List.length_cons] at longer
      omega

/-- Upper case letters come from letters. -/
theorem letters_of_upper {text : Text}
    (letters : ∀ c ∈ toAsciiUppercase text, c.isAlpha = true) : ∀ c ∈ text, c.isAlpha = true := by
  intro c member
  rw [← isAlpha_toUpper]
  exact letters _ (List.mem_map_of_mem member)

/-- Behind a lead that the guard skips, it reads the keyword of the server. -/
theorem words_of_plain {dialect : Dialect} {sql word : Text} {after : List Token}
    (found : keywordOf dialect sql = some (word, after)) (plain : Plain (leadOf dialect sql))
    (some' : word ≠ []) (letters : ∀ c ∈ word, c.isAlpha = true) :
    leadingWords (skipLeadingNoise sql) 2 = word :: leadingWords (textOf after) 1 := by
  obtain ⟨noise, token, rfl, parts⟩ := parts_of_keyword found
  obtain ⟨rest, skips, silent⟩ := plain
  have letters' := letters_of_upper letters
  have nonempty : token.text ≠ [] := by
    intro none'
    rw [none'] at some'
    exact some' rfl
  have alone : Alone token.text (textOf after) := ⟨nonempty, letters', parts.ends⟩
  have lettered : Lettered (token.text ++ textOf after) := by
    obtain ⟨c, cs, shape⟩ := List.exists_cons_of_ne_nil nonempty
    refine ⟨c, cs ++ textOf after, by rw [shape]; rfl, letters' c ?_⟩
    rw [shape]
    exact List.mem_cons_self
  rw [parts.lead] at skips
  have read := skips.skipLeadingNoise lettered
  rw [← parts.text] at read
  rw [read, leadingWords_gap _ _ silent, leadingWords_word alone]

theorem verb_letters {word : Text} {next : Option Text} {cls : TxControlClass}
    (verb : verbClass word next = some cls) : word ≠ [] ∧ ∀ c ∈ word, c.isAlpha = true := by
  have listed : word ∈ ["ROLLBACK", "BEGIN", "COMMIT", "END", "ABORT", "SAVEPOINT", "RELEASE",
      "START", "PREPARE"].map String.toList := by
    unfold verbClass at verb
    split_ifs at verb with rollback target single single'
    · rw [rollback]
      decide
    · rw [rollback]
      decide
    · revert single
      simp [boundarySingle]
      tauto
    · revert single'
      simp [savepointSingle]
      tauto
    · split at verb
      · split_ifs at verb with pair
        revert pair
        simp [boundaryPair]
        tauto
      · cases verb
  have all : (["ROLLBACK", "BEGIN", "COMMIT", "END", "ABORT", "SAVEPOINT", "RELEASE", "START",
      "PREPARE"].map String.toList).all (fun word => word ≠ [] ∧ word.all Char.isAlpha) = true := by
    decide
  have own := List.all_eq_true.mp all word listed
  rw [decide_eq_true_eq] at own
  exact ⟨own.1, List.all_eq_true.mp own.2⟩

theorem verbClass_pair {word : Text} (pair : word = "START".toList ∨ word = "PREPARE".toList)
    (next : Option Text) :
    verbClass word next = if next = some "TRANSACTION".toList then some .boundary else none := by
  have listed : ∀ second : Text, (word, second) ∈ boundaryPair ↔ second = "TRANSACTION".toList := by
    intro second
    rcases pair with rfl | rfl
    · simp [boundaryPair]
    · simp [boundaryPair]
  have apart : word ≠ "ROLLBACK".toList ∧ word ∉ boundarySingle ∧ word ∉ savepointSingle := by
    rcases pair with rfl | rfl
    · decide
    · decide
  unfold verbClass
  rw [if_neg apart.1, if_neg apart.2.1, if_neg apart.2.2]
  cases next with
  | none => rfl
  | some second =>
    dsimp only
    by_cases same : second = "TRANSACTION".toList
    · rw [if_pos ((listed second).mpr same), if_pos (by rw [same])]
    · rw [if_neg (mt (listed second).mp same), if_neg fun both => same (Option.some.inj both)]

theorem verbClass_rollback (next : Option Text) :
    verbClass "ROLLBACK".toList next =
      if next = some "TO".toList then some .savepoint else some .boundary :=
  if_pos rfl

/-! ## Which verbs are hidden -/

/-- Behind a plain lead the class of a verb follows from the next run of letters. -/
theorem class_of_plain {dialect : Dialect} {sql word : Text} {after : List Token}
    (found : keywordOf dialect sql = some (word, after)) (plain : Plain (leadOf dialect sql))
    {next : Option Text} {cls : TxControlClass} (verb : verbClass word next = some cls) :
    txControlClass sql = verbClass word (nextLetters after) := by
  obtain ⟨some', letters⟩ := verb_letters verb
  exact txControlClass_words (words_of_plain found plain some' letters)

theorem classified_iff {dialect : Dialect} {sql : Text} (plain : Plain (leadOf dialect sql)) :
    Classified dialect sql ↔ SecondWordAlike dialect sql := by
  constructor
  · intro classified word after found
    constructor
    · rintro rfl
      have own := verbClass_rollback (nextWord after)
      by_cases target : nextWord after = some "TO".toList
      · rw [if_pos target] at own
        have read := classified _ after _ found own
        rw [class_of_plain found plain own, verbClass_rollback] at read
        refine ⟨fun _ => target, fun _ => ?_⟩
        by_contra other
        rw [if_neg other] at read
        cases read
      · rw [if_neg target] at own
        have read := classified _ after _ found own
        rw [class_of_plain found plain own, verbClass_rollback] at read
        refine ⟨fun same => ?_, fun target' => absurd target' target⟩
        rw [if_pos same] at read
        cases read
    · intro pair target
      have own := verbClass_pair pair (nextWord after)
      rw [if_pos target] at own
      have read := classified _ after _ found own
      rw [class_of_plain found plain own, verbClass_pair pair] at read
      split_ifs at read with same
      exact same
  · intro alike word after cls found verb
    rw [class_of_plain found plain verb]
    obtain ⟨rollback, pair⟩ := alike word after found
    by_cases isRollback : word = "ROLLBACK".toList
    · have same := rollback isRollback
      rw [isRollback, verbClass_rollback] at verb ⊢
      rw [← verb]
      simp only [same]
    by_cases isPair : word = "START".toList ∨ word = "PREPARE".toList
    · have read := verbClass_pair isPair (nextWord after)
      rw [verb] at read
      by_cases target : nextWord after = some "TRANSACTION".toList
      · rw [if_pos target] at read
        rw [verbClass_pair isPair, if_pos (pair isPair target), read]
      · rw [if_neg target] at read
        cases read
    · -- The second word of the other verbs does not matter.
      unfold verbClass at verb ⊢
      rw [if_neg isRollback] at verb ⊢
      by_cases single : word ∈ boundarySingle
      · rw [if_pos single] at verb ⊢
        exact verb
      rw [if_neg single] at verb ⊢
      by_cases single' : word ∈ savepointSingle
      · rw [if_pos single'] at verb ⊢
        exact verb
      rw [if_neg single'] at verb
      split at verb
      · split_ifs at verb with listed
        exfalso
        apply isPair
        simp only [boundaryPair, List.mem_cons, Prod.mk.injEq, List.not_mem_nil, or_false] at listed
        exact listed.imp And.left And.left
      · cases verb

/-- A verb alone behind a lead is read as the first keyword. -/
theorem verb_behind {dialect : Dialect} {lead verb : Text} (isLead : IsLead dialect lead)
    (long : 2 ≤ verb.length) (letters : ∀ e ∈ verb, e.isAlpha = true) :
    leadOf dialect (lead ++ verb) = lead ∧
      keywordOf dialect (lead ++ verb) = some (toAsciiUppercase verb, []) := by
  obtain ⟨c, d, cs, shape⟩ : ∃ c d cs, verb = c :: d :: cs := by
    match verb with
    | [] => simp at long
    | [c] => simp at long
    | c :: d :: cs => exact ⟨c, d, cs, rfl⟩
  obtain ⟨sql, rfl, some'⟩ := isLead
  obtain ⟨⟨word, after⟩, found⟩ := Option.isSome_iff_exists.mp some'
  obtain ⟨noise, token, -, parts⟩ := parts_of_keyword found
  have alone : Alone verb [] := ⟨by rw [shape]; simp, letters, fun e head => by cases head⟩
  have opens : Opens verb := by
    refine ⟨c, d :: cs, shape, ?_⟩
    have alpha := letters c (by rw [shape]; exact List.mem_cons_self)
    rw [isIdentStart, alpha]
    rfl
  have whole := parts.read
  rw [parts.text] at whole
  obtain ⟨s', read⟩ := tokensFrom_transfer dialect parts.opens opens parts.noisy whole
  have first := serverLexer_word dialect s' alone shape
  have one := tokensFrom_next (serverLexer dialect) shape (congrArg Prod.snd first)
  rw [List.append_nil, first] at one
  have rest : ∀ s'', (serverLexer dialect).tokensFrom s'' [] = [] := fun _ => rfl
  rw [rest] at one
  have tokens : (serverLexer dialect).read (leadOf dialect sql ++ verb) =
      noise ++ [{ kind := .ident, text := verb }] := by
    rw [parts.lead, ← one]
    exact read
  constructor
  · rw [leadOf, tokens, List.takeWhile_append_of_pos parts.noisy, parts.lead]
    rw [List.takeWhile_cons_of_neg (by exact Bool.noConfusion), List.append_nil]
  · rw [keywordOf, tokens, dropNoise_append parts.noisy]
    rfl

/-- Nothing follows a verb that stands alone, for the server and for the guard. -/
theorem alike_alone {dialect : Dialect} {sql verb : Text}
    (found : keywordOf dialect sql = some (verb, [])) : SecondWordAlike dialect sql := by
  intro word after same
  rw [found] at same
  obtain ⟨rfl, rfl⟩ := Prod.mk.inj (Option.some.inj same)
  constructor
  · intro _
    constructor
    · intro next
      cases next
    · intro next
      cases next
  · intro _ next
    cases next

theorem plain_of_classified {dialect : Dialect} {lead : Text} (isLead : IsLead dialect lead)
    (all : ∀ sql, leadOf dialect sql = lead → SecondWordAlike dialect sql →
      Classified dialect sql) : Plain lead := by
  have letters : ∀ c ∈ "BEGIN".toList, c.isAlpha = true := List.all_eq_true.mp rfl
  have letters' : ∀ c ∈ "SAVEPOINT".toList, c.isAlpha = true := List.all_eq_true.mp rfl
  obtain ⟨lead₁, begin₁⟩ := verb_behind isLead (by decide) letters
  obtain ⟨lead₂, savepoint₂⟩ := verb_behind isLead (by decide) letters'
  have boundary := all _ lead₁ (alike_alone begin₁) _ _ .boundary begin₁ (by decide +kernel)
  have savepoint := all _ lead₂ (alike_alone savepoint₂) _ _ .savepoint savepoint₂
    (by decide +kernel)
  rcases skips_total lead with ⟨rest, skips⟩ | hidden
  · refine ⟨rest, skips, ?_⟩
    have skip := skips.skipLeadingNoise (y := "BEGIN".toList) ⟨'B', _, rfl, by decide⟩
    have skip' := skips.skipLeadingNoise (y := "SAVEPOINT".toList) ⟨'S', _, rfl, by decide⟩
    cases reads : leadingWords (rest ++ "BEGIN".toList) 2 with
    | nil =>
      rw [txControlClass, skip, reads] at boundary
      cases boundary
    | cons first words =>
      cases reads' : leadingWords (rest ++ "SAVEPOINT".toList) 2 with
      | nil =>
        rw [txControlClass, skip', reads'] at savepoint
        cases savepoint
      | cons first' words' =>
        rw [txControlClass_words (by rw [skip, reads])] at boundary
        rw [txControlClass_words (by rw [skip', reads'])] at savepoint
        exact letterless_of_both reads reads' boundary savepoint
  · rw [txControlClass, hidden _ letters] at boundary
    cases boundary

/-- The leads behind which every verb is read are the plain ones; behind a plain lead, a verb is
given its class exactly when the second word, where it matters, is read alike. -/
theorem leadingNoise_hides_iff (dialect : Dialect) :
    (∀ lead, IsLead dialect lead →
      ((∀ sql, leadOf dialect sql = lead → SecondWordAlike dialect sql →
        Classified dialect sql) ↔ Plain lead)) ∧
    ∀ sql, Plain (leadOf dialect sql) →
      (Classified dialect sql ↔ SecondWordAlike dialect sql) := by
  refine ⟨fun lead isLead => ⟨plain_of_classified isLead, ?_⟩, fun sql => classified_iff⟩
  intro plain sql same alike
  exact (classified_iff (by rw [same]; exact plain)).mpr alike

theorem leadingNoise_hides_sample :
    IsLead .postgres "-- c\n".toList ∧ Plain "-- c\n".toList ∧
      Classified .postgres "-- c\nROLLBACK".toList := by
  have lead : leadOf .postgres "-- c\nROLLBACK".toList = "-- c\n".toList := by decide +kernel
  have found : keywordOf .postgres "-- c\nROLLBACK".toList = some ("ROLLBACK".toList, []) := by
    decide +kernel
  have plain : Plain "-- c\n".toList :=
    ⟨[], @Skips.line [' ', 'c'] [] [] (by decide) (.stop (fun c head => by cases head)
      (fun after same => by cases same) fun after same => by cases same), by simp⟩
  have isLead : IsLead .postgres "-- c\n".toList := ⟨_, lead, by rw [found]; rfl⟩
  have all := ((leadingNoise_hides_iff .postgres).1 _ isLead).mpr plain
  exact ⟨isLead, plain, all _ lead (alike_alone found)⟩

/-- A nested comment hides the verb from the guard, and so do MySQL's own comments. -/
theorem nestedComment_hides :
    ¬Classified .postgres "/* /* */ x */ BEGIN".toList ∧
      ¬Classified .mySql "# x\nBEGIN".toList ∧ ¬Classified .mySql "/*! BEGIN */".toList := by
  have hides : ∀ dialect sql after, keywordOf dialect sql = some ("BEGIN".toList, after) →
      txControlClass sql = none → ¬Classified dialect sql := by
    intro dialect sql after found none' classified
    have read := classified _ after .boundary found rfl
    rw [none'] at read
    cases read
  refine ⟨hides _ _ [] ?_ ?_, hides _ _ [] ?_ ?_, ?_⟩
  · decide +kernel
  · decide +kernel
  · decide +kernel
  · decide +kernel
  · obtain ⟨after, found⟩ : ∃ after, keywordOf .mySql "/*! BEGIN */".toList =
        some ("BEGIN".toList, after) := ⟨_, rfl⟩
    exact hides _ _ after found (by decide +kernel)

end FerroEngine.LeadingVerbs
