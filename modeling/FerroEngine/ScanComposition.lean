import FerroEngine.RegionScannerAgreement

set_option autoImplicit false

/-! # Scanning a piece of a text

The scan of a piece is the slice of the scan of the whole text, when the piece starts where the
scanner is in code and nothing that follows it can complete a marker of the piece.
-/

namespace FerroEngine.ScanComposition

open SourceText StepIteration RegionScanner RegionScannerSteps PostgresLexicalRules
open RegionScannerAgreement

/-- What surrounds a piece: the text on both sides and the output before it. -/
structure Frame where
  outer : Text
  after : Text
  masked : Text
  semicolons : List Nat
  hidden : List (Nat × Nat × Hidden)

def Frame.shift (frame : Frame) (span : Nat × Nat × Hidden) : Nat × Nat × Hidden :=
  (byteLen frame.outer + span.1, byteLen frame.outer + span.2.1, span.2.2)

/-- The state of the whole scan that corresponds to a state of the scan of the piece. -/
def Frame.embed (frame : Frame) (tag : Text) (t : ScanState) : ScanState where
  before := t.before ++ frame.outer
  rest := t.rest ++ frame.after
  masked := frame.masked ++ t.masked
  semicolons := frame.semicolons ++ t.semicolons.map (byteLen frame.outer + ·)
  region := t.region
  dollarTag := tag
  hidden := frame.hidden ++ t.hidden.map frame.shift
  openHidden := t.openHidden.map fun span => (byteLen frame.outer + span.1, span.2)
  inIdent := t.inIdent

/-- No character at the head of the text completes a marker begun before it. -/
structure Inert (after : Text) : Prop where
  head : ∀ c ∈ ['\'', '"', '-', '*', '/'], after.head? ≠ some c
  tag : (after.dropWhile isDolqCont).head? ≠ some '$'

/-- The outer text ends like an empty one for the test of an `E` prefix. -/
def Apart (outer : Text) : Prop :=
  ∀ before : Text, isEStringPrefix (before ++ outer) = isEStringPrefix before

theorem apart_nil : Apart [] := fun before => by rw [List.append_nil]

theorem apart_cons {c : Char} {outer : Text} (word : isIdentCharByte c = false) :
    Apart (c :: outer) := by
  intro before
  have upper : c ≠ 'E' := by
    rintro rfl
    exact absurd word (by decide)
  have lower : c ≠ 'e' := by
    rintro rfl
    exact absurd word (by decide)
  match before with
  | [] => exact isEStringPrefix_cons outer upper lower
  | [e] => simp [isEStringPrefix, word]
  | e :: p :: ps => rfl

variable {frame : Frame} {tag : Text} {t : ScanState} {c : Char} {cs : Text}

theorem embed_pos : (frame.embed tag t).pos = byteLen frame.outer + t.pos := by
  rw [ScanState.pos, Frame.embed, byteLen_append, Nat.add_comm]
  rfl

theorem Inert.head?_append (inert : Inert frame.after) (c : Char) (cs : Text)
    (special : c ∈ ['\'', '"', '-', '*', '/']) :
    (cs ++ frame.after).head? = some c ↔ cs.head? = some c := by
  cases cs with
  | nil => simpa using inert.head c special
  | cons d ds => rfl

/-- A marker of two characters lies inside the piece. -/
theorem Inert.pair_append (inert : Inert frame.after) (p : Prop) (c : Char) (cs : Text)
    (special : c ∈ ['\'', '"', '-', '*', '/']) :
    (p ∧ (cs ++ frame.after).head? = some c) ↔ (p ∧ cs.head? = some c) :=
  and_congr_right fun _ => inert.head?_append c cs special

theorem pushVisibleChar_embed (frame : Frame) (tag : Text) {t : ScanState} (some : t.rest ≠ []) :
    pushVisibleChar (frame.embed tag t) = frame.embed tag (pushVisibleChar t) := by
  obtain ⟨c, cs, rest⟩ := List.exists_cons_of_ne_nil some
  simp [pushVisibleChar, Frame.embed, rest]

theorem pushHiddenChar_embed (some : t.rest ≠ []) :
    pushHiddenChar (frame.embed tag t) = frame.embed tag (pushHiddenChar t) := by
  obtain ⟨c, cs, rest⟩ := List.exists_cons_of_ne_nil some
  simp [pushHiddenChar, Frame.embed, rest]

theorem pushHiddenChars_embed (frame : Frame) (tag : Text) (n : Nat) (t : ScanState) (enough : n ≤ t.rest.length) :
    pushHiddenChars n (frame.embed tag t) = frame.embed tag (pushHiddenChars n t) := by
  unfold pushHiddenChars
  induction n generalizing t with
  | zero => rfl
  | succ n ih =>
    have some : t.rest ≠ [] := List.length_pos_iff.mp (by omega)
    rw [Function.iterate_succ_apply, Function.iterate_succ_apply, pushHiddenChar_embed some]
    apply ih
    rw [(pushHiddenChar_passed t).2.1, List.length_drop]
    omega

theorem closeHidden_embed (t : ScanState) :
    closeHidden (frame.embed tag t) = frame.embed tag (closeHidden t) := by
  cases current : t.openHidden with
  | none => simp [closeHidden, Frame.embed, current]
  | some span =>
    obtain ⟨start, kind⟩ := span
    simp [closeHidden, Frame.embed, current, Frame.shift, ScanState.pos, Nat.add_comm]

theorem dropWhile_append_inert (inert : Inert frame.after) (cs : Text) :
    ((cs ++ frame.after).dropWhile isDolqCont).head? = some '$' ↔
      (cs.dropWhile isDolqCont).head? = some '$' := by
  induction cs with
  | nil => simpa using inert.tag
  | cons c cs ih =>
    by_cases cont : isDolqCont c = true
    · rw [List.cons_append, List.dropWhile_cons_of_pos cont, List.dropWhile_cons_of_pos cont]
      exact ih
    · rw [List.cons_append, List.dropWhile_cons_of_neg cont, List.dropWhile_cons_of_neg cont]
      rfl

theorem takeWhile_append_stop (cs after : Text) (stop : cs.dropWhile isDolqCont ≠ []) :
    (cs ++ after).takeWhile isDolqCont = cs.takeWhile isDolqCont := by
  induction cs with
  | nil => exact absurd rfl stop
  | cons c cs ih =>
    by_cases cont : isDolqCont c = true
    · rw [List.dropWhile_cons_of_pos cont] at stop
      rw [List.cons_append, List.takeWhile_cons_of_pos cont, List.takeWhile_cons_of_pos cont,
        ih stop]
    · rw [List.cons_append, List.takeWhile_cons_of_neg cont, List.takeWhile_cons_of_neg cont]

/-- The delimiter at the head of a text, when the run of word characters is closed. -/
theorem dollarQuoteTag_some {cs tag : Text} :
    dollarQuoteTag ('$' :: cs) = some tag ↔
      (cs.head?.map Char.isDigit).getD false = false ∧
        (cs.dropWhile isDolqCont).head? = some '$' ∧
        '$' :: cs.takeWhile isDolqCont ++ ['$'] = tag := by
  rw [dollarQuoteTag]
  by_cases digit : (cs.head?.map Char.isDigit).getD false = true
  · simp [digit]
  · rw [if_neg digit, Bool.eq_false_iff]
    split
    next tail found => simp [digit, found]
    next other =>
      have closed : (cs.dropWhile isDolqCont).head? ≠ some '$' := by
        intro head
        obtain ⟨tail, found⟩ := List.head?_eq_some_iff.mp head
        exact other tail found
      simp [closed]

theorem dollarQuoteTag_append (inert : Inert frame.after) (cs : Text) :
    dollarQuoteTag ('$' :: (cs ++ frame.after)) = dollarQuoteTag ('$' :: cs) := by
  refine Option.ext fun tag => ?_
  rw [dollarQuoteTag_some, dollarQuoteTag_some, dropWhile_append_inert inert]
  cases cs with
  | nil => simp
  | cons c cs =>
    constructor
    · rintro ⟨digit, closed, same⟩
      have stop : (c :: cs).dropWhile isDolqCont ≠ [] := by
        intro none
        simp [none] at closed
      exact ⟨digit, closed, by rw [← takeWhile_append_stop _ frame.after stop]; exact same⟩
    · rintro ⟨digit, closed, same⟩
      have stop : (c :: cs).dropWhile isDolqCont ≠ [] := by
        intro none
        simp [none] at closed
      exact ⟨digit, closed, by rw [takeWhile_append_stop _ frame.after stop]; exact same⟩

theorem dollarQuoteTag_prefix {cs tag : Text} (found : dollarQuoteTag ('$' :: cs) = some tag) :
    tag.length ≤ ('$' :: cs).length := by
  obtain ⟨-, closed, rfl⟩ := dollarQuoteTag_some.mp found
  obtain ⟨tail, rest⟩ := List.head?_eq_some_iff.mp closed
  have whole := congrArg List.length (List.takeWhile_append_dropWhile (p := isDolqCont) (l := cs))
  rw [rest, List.length_append] at whole
  simp only [List.length_append, List.length_cons, List.length_nil] at whole ⊢
  omega

/-- A closing delimiter lies inside the piece. -/
theorem tag_prefix_append (inert : Inert frame.after) (shape : TagShape tag) (cs : Text) :
    tag.isPrefixOf ('$' :: (cs ++ frame.after)) = tag.isPrefixOf ('$' :: cs) := by
  obtain ⟨body, rfl, words⟩ := shape
  have closes : ∀ (body cs : Text), (∀ c ∈ body, isDolqCont c = true) →
      (body ++ ['$'] <+: cs ++ frame.after ↔ body ++ ['$'] <+: cs) := by
    intro body
    induction body with
    | nil =>
      intro cs _
      cases cs with
      | nil =>
        simp only [List.nil_append, List.prefix_nil, List.cons_ne_nil, iff_false]
        rintro ⟨tail, eq⟩
        apply inert.tag
        rw [← eq]
        rfl
      | cons c cs => simp
    | cons b body ih =>
      intro cs words
      cases cs with
      | nil =>
        simp only [List.nil_append, List.prefix_nil, List.cons_append, List.cons_ne_nil, iff_false]
        rintro ⟨tail, eq⟩
        apply inert.tag
        rw [← eq]
        have skip : ((b :: body ++ '$' :: tail).dropWhile isDolqCont) = '$' :: tail := by
          rw [List.dropWhile_append_of_pos words]
          rfl
        simpa using congrArg List.head? skip
      | cons c cs =>
        rw [List.cons_append, List.cons_append, List.cons_prefix_cons, List.cons_prefix_cons,
          ih cs fun c member => words c (List.mem_cons_of_mem _ member)]
  rw [Bool.eq_iff_iff, List.isPrefixOf_iff_prefix, List.isPrefixOf_iff_prefix]
  simp only [List.cons_append, List.cons_prefix_cons, true_and]
  exact closes body cs words

/-- The state of the whole scan matches that of the piece; a stale delimiter may differ. -/
def Framed (frame : Frame) (s t : ScanState) : Prop :=
  ∃ tag, s = frame.embed tag t ∧ (t.region = .dollarQuote → tag = t.dollarTag)

theorem Framed.of_region {s t : ScanState} {region : Region} (tag : Text)
    (same : s = frame.embed tag t) (current : t.region = region) (other : region ≠ .dollarQuote) :
    Framed frame s t :=
  ⟨tag, same, fun quoted => absurd (current.symm.trans quoted) other⟩

/-- Opening a hidden span and hiding its first characters. -/
theorem open_embed (frame : Frame) (tag : Text) {t : ScanState} (n : Nat) (start : Nat) (kind : Hidden) (region : Region)
    (enough : n ≤ t.rest.length) :
    { pushHiddenChars n { frame.embed tag t with
        openHidden := some (byteLen frame.outer + start, kind) } with region := region } =
      frame.embed tag { pushHiddenChars n { t with openHidden := some (start, kind) } with
        region := region } := by
  have pushed := pushHiddenChars_embed frame tag n
    { t with openHidden := some (start, kind) } enough
  change { pushHiddenChars n (frame.embed tag { t with openHidden := some (start, kind) }) with
    region := region } = _
  rw [pushed]
  rfl

theorem eString_pos (marked : isEStringPrefix t.before = true) : 0 < t.pos := by
  unfold ScanState.pos
  cases before : t.before with
  | nil =>
    rw [before] at marked
    cases marked
  | cons e ps =>
    rw [byteLen_cons]
    have := Char.utf8Size_pos e
    omega

theorem scanCode_framed (inert : Inert frame.after) (apart : Apart frame.outer)
    (rest : t.rest = c :: cs) (code : t.region = .code) :
    Framed frame (scanCode c (cs ++ frame.after) (frame.embed tag t)) (scanCode c cs t) := by
  have nonempty : t.rest ≠ [] := by simp [rest]
  have one : 1 ≤ t.rest.length := by simp [rest]
  have two : ∀ d, cs.head? = some d → 2 ≤ t.rest.length := by
    intro d head
    obtain ⟨ds, rfl⟩ := List.head?_eq_some_iff.mp head
    simp [rest]
  have visible : Framed frame (pushVisibleChar (frame.embed tag t)) (pushVisibleChar t) :=
    Framed.of_region tag (pushVisibleChar_embed frame tag nonempty)
      ((pushVisibleChar_frame t).1.trans code) (by simp)
  unfold scanCode
  by_cases quote : c = '\''
  · rw [if_pos quote, if_pos quote]
    refine Framed.of_region tag ?_ rfl (by simp)
    have marked : isEStringPrefix (frame.embed tag t).before = isEStringPrefix t.before :=
      apart t.before
    have opened : (if isEStringPrefix t.before = true then (frame.embed tag t).pos - 1
        else (frame.embed tag t).pos) =
        byteLen frame.outer + (if isEStringPrefix t.before = true then t.pos - 1 else t.pos) := by
      rw [embed_pos]
      split_ifs with marked
      · have := eString_pos marked
        omega
      · rfl
    dsimp only
    rw [marked, opened]
    exact open_embed frame tag 1 _ .literal _ one
  rw [if_neg quote, if_neg quote]
  by_cases double : c = '"'
  · rw [if_pos double, if_pos double]
    refine Framed.of_region tag ?_ rfl (by simp)
    rw [pushVisibleChar_embed frame tag nonempty]
    rfl
  rw [if_neg double, if_neg double]
  have dashes := inert.pair_append (c = '-') '-' cs (by simp)
  by_cases line : c = '-' ∧ cs.head? = some '-'
  · rw [if_pos line, if_pos (dashes.mpr line), embed_pos]
    exact Framed.of_region tag (open_embed frame tag 2 _ .comment _ (two _ line.2)) rfl (by simp)
  rw [if_neg line, if_neg (line ∘ dashes.mp)]
  have stars := inert.pair_append (c = '/') '*' cs (by simp)
  by_cases block : c = '/' ∧ cs.head? = some '*'
  · rw [if_pos block, if_pos (stars.mpr block), embed_pos]
    exact Framed.of_region tag (open_embed frame tag 2 _ .comment _ (two _ block.2)) rfl (by simp)
  rw [if_neg block, if_neg (block ∘ stars.mp)]
  by_cases dollar : c = '$'
  · subst dollar
    rw [if_pos rfl, if_pos rfl, dollarQuoteTag_append inert, embed_pos]
    cases found : dollarQuoteTag ('$' :: cs) with
    | none => exact visible
    | some delimiter =>
      refine ⟨delimiter, ?_, fun _ => rfl⟩
      have enough : delimiter.length ≤ t.rest.length := by
        rw [rest]
        exact dollarQuoteTag_prefix found
      have opened := open_embed frame tag delimiter.length t.pos .literal
        .dollarQuote enough
      exact congrArg (fun s : ScanState => { s with dollarTag := delimiter }) opened
  rw [if_neg dollar, if_neg dollar]
  by_cases semi : c = ';'
  · rw [if_pos semi, if_pos semi]
    refine Framed.of_region tag ?_ ((pushVisibleChar_frame _).1.trans code) (by simp)
    rw [← pushVisibleChar_embed frame tag
      (t := { t with semicolons := t.semicolons ++ [t.pos] }) nonempty, embed_pos]
    simp [Frame.embed]
  · rw [if_neg semi, if_neg semi]
    exact visible

theorem close_embed (n : Nat) (enough : n ≤ t.rest.length) :
    { closeHidden (pushHiddenChars n (frame.embed tag t)) with region := .code } =
      frame.embed tag { closeHidden (pushHiddenChars n t) with region := .code } := by
  rw [pushHiddenChars_embed frame _ n t enough, closeHidden_embed]
  rfl

theorem scanDoubleQuote_embed (inert : Inert frame.after) (rest : t.rest = c :: cs) :
    scanDoubleQuote c (cs ++ frame.after) (frame.embed tag t) =
      frame.embed tag (scanDoubleQuote c cs t) := by
  have nonempty : t.rest ≠ [] := by simp [rest]
  have quotes := inert.head?_append '"' cs (by simp)
  unfold scanDoubleQuote
  by_cases quote : c = '"'
  · rw [if_pos quote, if_pos quote]
    by_cases double : cs.head? = some '"'
    · rw [if_pos double, if_pos (quotes.mpr double), pushVisibleChar_embed frame tag nonempty,
        pushVisibleChar_embed frame tag]
      obtain ⟨ds, rfl⟩ := List.head?_eq_some_iff.mp double
      rw [(pushVisibleChar_passed t).2.1, rest]
      simp
    · rw [if_neg double, if_neg (double ∘ quotes.mp), pushVisibleChar_embed frame tag nonempty]
      rfl
  · rw [if_neg quote, if_neg quote, pushVisibleChar_embed frame tag nonempty]

theorem scanSingleQuote_embed (inert : Inert frame.after) (eString : Bool)
    (rest : t.rest = c :: cs) :
    scanSingleQuote eString c (cs ++ frame.after) (frame.embed tag t) =
      frame.embed tag (scanSingleQuote eString c cs t) := by
  have one : 1 ≤ t.rest.length := by simp [rest]
  have two : cs.head? = some '\'' → 2 ≤ t.rest.length := by
    intro head
    obtain ⟨ds, rfl⟩ := List.head?_eq_some_iff.mp head
    simp [rest]
  have quotes := inert.head?_append '\'' cs (by simp)
  have escapes : c = '\\' ∧ eString = true ∧ (cs ++ frame.after).head? = some '\'' ↔
      c = '\\' ∧ eString = true ∧ cs.head? = some '\'' := by rw [quotes]
  have pairs := inert.pair_append (c = '\'') '\'' cs (by simp)
  unfold scanSingleQuote
  by_cases escape : c = '\\' ∧ eString = true ∧ cs.head? = some '\''
  · rw [if_pos escape, if_pos (escapes.mpr escape), pushHiddenChars_embed frame _ 2 t (two escape.2.2)]
  rw [if_neg escape, if_neg (escape ∘ escapes.mp)]
  by_cases pair : c = '\'' ∧ cs.head? = some '\''
  · rw [if_pos pair, if_pos (pairs.mpr pair), pushHiddenChars_embed frame _ 2 t (two pair.2)]
  rw [if_neg pair, if_neg (pair ∘ pairs.mp)]
  by_cases quote : c = '\''
  · rw [if_pos quote, if_pos quote]
    exact close_embed 1 one
  · rw [if_neg quote, if_neg quote]
    exact pushHiddenChars_embed frame _ 1 t one

theorem scanLineComment_embed (rest : t.rest = c :: cs) :
    scanLineComment c (frame.embed tag t) = frame.embed tag (scanLineComment c t) := by
  have one : 1 ≤ t.rest.length := by simp [rest]
  unfold scanLineComment
  split_ifs
  · exact close_embed 1 one
  · exact pushHiddenChars_embed frame _ 1 t one

theorem scanBlockComment_embed (inert : Inert frame.after) (depth : Nat)
    (rest : t.rest = c :: cs) :
    scanBlockComment depth c (cs ++ frame.after) (frame.embed tag t) =
      frame.embed tag (scanBlockComment depth c cs t) := by
  have one : 1 ≤ t.rest.length := by simp [rest]
  have two : ∀ d, cs.head? = some d → 2 ≤ t.rest.length := by
    intro d head
    obtain ⟨ds, rfl⟩ := List.head?_eq_some_iff.mp head
    simp [rest]
  have opens := inert.pair_append (c = '/') '*' cs (by simp)
  have closes := inert.pair_append (c = '*') '/' cs (by simp)
  unfold scanBlockComment
  by_cases open' : c = '/' ∧ cs.head? = some '*'
  · rw [if_pos open', if_pos (opens.mpr open'), pushHiddenChars_embed frame _ 2 t (two _ open'.2)]
    rfl
  rw [if_neg open', if_neg (open' ∘ opens.mp)]
  by_cases close : c = '*' ∧ cs.head? = some '/'
  · rw [if_pos close, if_pos (closes.mpr close)]
    split_ifs
    · exact close_embed 2 (two _ close.2)
    · rw [pushHiddenChars_embed frame _ 2 t (two _ close.2)]
      rfl
  · rw [if_neg close, if_neg (close ∘ closes.mp)]
    exact pushHiddenChars_embed frame _ 1 t one

theorem scanDollarQuote_embed (inert : Inert frame.after) (shape : TagShape t.dollarTag)
    (rest : t.rest = c :: cs) :
    scanDollarQuote c (cs ++ frame.after) (frame.embed t.dollarTag t) =
      frame.embed t.dollarTag (scanDollarQuote c cs t) := by
  have one : 1 ≤ t.rest.length := by simp [rest]
  have same : c = '$' ∧ t.dollarTag.isPrefixOf (c :: (cs ++ frame.after)) = true ↔
      c = '$' ∧ t.dollarTag.isPrefixOf (c :: cs) = true := by
    refine and_congr_right fun dollar => ?_
    rw [dollar, tag_prefix_append inert shape]
  unfold scanDollarQuote
  rw [show (frame.embed t.dollarTag t).dollarTag = t.dollarTag from rfl]
  by_cases found : c = '$' ∧ t.dollarTag.isPrefixOf (c :: cs) = true
  · rw [if_pos found, if_pos (same.mpr found)]
    refine close_embed t.dollarTag.length ?_
    rw [rest]
    exact (List.isPrefixOf_iff_prefix.mp found.2).length_le
  · rw [if_neg found, if_neg (found ∘ same.mp)]
    exact pushHiddenChars_embed frame _ 1 t one

theorem closeHidden_dollarTag (t : ScanState) : (closeHidden t).dollarTag = t.dollarTag := by
  unfold closeHidden
  split
  · rfl
  · rfl

/-- A dollar quote is entered from code only. -/
theorem scanDoubleQuote_region (code : t.region = .doubleQuote) :
    (scanDoubleQuote c cs t).region ≠ .dollarQuote := by
  unfold scanDoubleQuote
  split_ifs
  · rw [(pushVisibleChar_frame _).1, (pushVisibleChar_frame _).1, code]
    simp
  · simp
  · rw [(pushVisibleChar_frame _).1, code]
    simp

theorem pushHiddenChars_region {region : Region} (n : Nat) (current : t.region = region)
    (other : region ≠ .dollarQuote) : (pushHiddenChars n t).region ≠ .dollarQuote := by
  rw [(pushHiddenChars_frame n t).1, current]
  exact other

theorem scanSingleQuote_region {eString : Bool} (current : t.region = .singleQuote eString) :
    (scanSingleQuote eString c cs t).region ≠ .dollarQuote := by
  unfold scanSingleQuote
  split_ifs
  · exact pushHiddenChars_region 2 current (by simp)
  · exact pushHiddenChars_region 2 current (by simp)
  · simp
  · exact pushHiddenChars_region 1 current (by simp)

theorem scanLineComment_region (current : t.region = .lineComment) :
    (scanLineComment c t).region ≠ .dollarQuote := by
  unfold scanLineComment
  split_ifs
  · simp
  · exact pushHiddenChars_region 1 current (by simp)

theorem scanBlockComment_region {depth : Nat} (current : t.region = .blockComment depth) :
    (scanBlockComment depth c cs t).region ≠ .dollarQuote := by
  unfold scanBlockComment
  split_ifs
  · simp
  · simp
  · simp
  · exact pushHiddenChars_region 1 current (by simp)

theorem scanDollarQuote_dollarTag : (scanDollarQuote c cs t).dollarTag = t.dollarTag := by
  unfold scanDollarQuote
  split_ifs
  · exact (closeHidden_dollarTag _).trans (pushHiddenChars_frame _ t).2.2
  · exact (pushHiddenChars_frame 1 t).2.2

/-- One turn on the whole text is one turn on the piece. -/
theorem scanStep_framed (inert : Inert frame.after) (apart : Apart frame.outer) {s : ScanState}
    (framed : Framed frame s t) (known : TagKnown t) (rest : t.rest = c :: cs) :
    Framed frame (scanStep s) (scanStep t) := by
  obtain ⟨tag, rfl, quoted⟩ := framed
  have rest' : (frame.embed tag t).rest = c :: (cs ++ frame.after) := by
    rw [Frame.embed, rest]
    rfl
  let t' : ScanState := { t with inIdent := false }
  cases region : t.region with
  | code =>
    by_cases inside : c = '$' ∧ t.inIdent = true
    · have turn : scanStep t = pushVisibleChar t := by
        simp only [scanStep, rest, region, if_pos inside]
      have turn' : scanStep (frame.embed tag t) = pushVisibleChar (frame.embed tag t) := by
        rw [scanStep, rest']
        simp only [Frame.embed, region, if_pos inside]
      rw [turn, turn', pushVisibleChar_embed frame tag (by simp [rest])]
      exact Framed.of_region tag rfl ((pushVisibleChar_frame t).1.trans region) (by simp)
    · rw [scanStep_code region rest inside,
        scanStep_code (s := frame.embed tag t) region rest' inside]
      exact scanCode_framed (t := { t with inIdent := continuesIdent t.inIdent c }) inert apart
        rest region
  | doubleQuote =>
    rw [scanStep_doubleQuote region rest,
      scanStep_doubleQuote (s := frame.embed tag t) region rest']
    exact ⟨tag, scanDoubleQuote_embed (t := t') inert rest,
      fun entered => absurd entered (scanDoubleQuote_region region)⟩
  | singleQuote eString =>
    rw [scanStep_singleQuote region rest,
      scanStep_singleQuote (s := frame.embed tag t) region rest']
    exact ⟨tag, scanSingleQuote_embed (t := t') inert eString rest,
      fun entered => absurd entered (scanSingleQuote_region region)⟩
  | lineComment =>
    rw [scanStep_lineComment region rest,
      scanStep_lineComment (s := frame.embed tag t) region rest']
    exact ⟨tag, scanLineComment_embed (t := t') rest,
      fun entered => absurd entered (scanLineComment_region region)⟩
  | blockComment depth =>
    rw [scanStep_blockComment region rest,
      scanStep_blockComment (s := frame.embed tag t) region rest']
    exact ⟨tag, scanBlockComment_embed (t := t') inert depth rest,
      fun entered => absurd entered (scanBlockComment_region region)⟩
  | dollarQuote =>
    have same := quoted region
    subst same
    rw [scanStep_dollarQuote region rest,
      scanStep_dollarQuote (s := frame.embed t.dollarTag t) region rest']
    exact ⟨t.dollarTag, scanDollarQuote_embed (t := t') inert (known region) rest,
      fun _ => (scanDollarQuote_dollarTag (t := t')).symm⟩

/-- The whole run on the piece is a run on the whole text. -/
theorem iterate_framed (frame : Frame) (inert : Inert frame.after) (apart : Apart frame.outer) (n : Nat)
    {s : ScanState} (t : ScanState) (framed : Framed frame s t) (known : TagKnown t) :
    ∃ s', Reaches scanStep s s' ∧ Framed frame s' (scanStep^[n] t) := by
  induction n generalizing s t with
  | zero => exact ⟨s, Reaches.refl s, framed⟩
  | succ n ih =>
    rw [Function.iterate_succ_apply]
    cases rest : t.rest with
    | nil =>
      rw [scanStep_done rest]
      exact ih t framed known
    | cons c cs =>
      obtain ⟨s', run, later⟩ := ih (scanStep t) (scanStep_framed inert apart framed known rest)
        (scanStep_known t known)
      exact ⟨s', run.head, later⟩

/-! ## Statements -/

/-- No span is open in code or in a quoted identifier. -/
def Tidy (s : ScanState) : Prop :=
  s.region = .code ∨ s.region = .doubleQuote → s.openHidden = none

theorem pushVisibleChar_openHidden (s : ScanState) :
    (pushVisibleChar s).openHidden = s.openHidden := by
  unfold pushVisibleChar
  split
  · rfl
  · rfl

theorem closeHidden_openHidden (s : ScanState) : (closeHidden s).openHidden = none := by
  unfold closeHidden
  split
  next => rfl
  next closed => exact closed

theorem pushHiddenChars_tidy {region : Region} (n : Nat) (s : ScanState)
    (current : s.region = region) (code : region ≠ .code) (double : region ≠ .doubleQuote) :
    Tidy (pushHiddenChars n s) := by
  intro visible
  rw [(pushHiddenChars_frame n s).1, current] at visible
  rcases visible with h | h
  · exact absurd h code
  · exact absurd h double

theorem scanCode_tidy (c : Char) (cs : Text) (s : ScanState) (closed : s.openHidden = none) :
    Tidy (scanCode c cs s) := by
  have visible : Tidy (pushVisibleChar s) := fun _ => (pushVisibleChar_openHidden s).trans closed
  unfold scanCode
  by_cases quote : c = '\''
  · rw [if_pos quote]
    simp [Tidy]
  rw [if_neg quote]
  by_cases double : c = '"'
  · rw [if_pos double]
    exact fun _ => (pushVisibleChar_openHidden s).trans closed
  rw [if_neg double]
  by_cases line : c = '-' ∧ cs.head? = some '-'
  · rw [if_pos line]
    simp [Tidy]
  rw [if_neg line]
  by_cases block : c = '/' ∧ cs.head? = some '*'
  · rw [if_pos block]
    simp [Tidy]
  rw [if_neg block]
  by_cases dollar : c = '$'
  · rw [if_pos dollar]
    split
    · simp [Tidy]
    · exact visible
  rw [if_neg dollar]
  by_cases semi : c = ';'
  · rw [if_pos semi]
    exact fun _ => (pushVisibleChar_openHidden _).trans closed
  · rw [if_neg semi]
    exact visible

theorem scanStep_tidy (s : ScanState) (tidy : Tidy s) : Tidy (scanStep s) := by
  cases rest : s.rest with
  | nil =>
    rw [scanStep_done rest]
    exact tidy
  | cons c cs =>
    let s' : ScanState := { s with inIdent := false }
    have leaves : ∀ u : ScanState, Tidy { closeHidden u with region := .code } :=
      fun u _ => closeHidden_openHidden u
    cases region : s.region with
    | code =>
      have closed := tidy (Or.inl region)
      by_cases inside : c = '$' ∧ s.inIdent = true
      · have turn : scanStep s = pushVisibleChar s := by
          simp only [scanStep, rest, region, if_pos inside]
        rw [turn]
        exact fun _ => (pushVisibleChar_openHidden s).trans closed
      · rw [scanStep_code region rest inside]
        exact scanCode_tidy c cs _ closed
    | doubleQuote =>
      have closed : s'.openHidden = none := tidy (Or.inr region)
      have first := (pushVisibleChar_openHidden s').trans closed
      rw [scanStep_doubleQuote region rest, scanDoubleQuote]
      split_ifs
      · exact fun _ => (pushVisibleChar_openHidden _).trans first
      · exact fun _ => first
      · exact fun _ => first
    | singleQuote eString =>
      rw [scanStep_singleQuote region rest, scanSingleQuote]
      split_ifs
      · exact pushHiddenChars_tidy 2 s' region (by simp) (by simp)
      · exact pushHiddenChars_tidy 2 s' region (by simp) (by simp)
      · exact leaves _
      · exact pushHiddenChars_tidy 1 s' region (by simp) (by simp)
    | lineComment =>
      rw [scanStep_lineComment region rest, scanLineComment]
      split_ifs
      · exact leaves _
      · exact pushHiddenChars_tidy 1 s' region (by simp) (by simp)
    | blockComment depth =>
      rw [scanStep_blockComment region rest, scanBlockComment]
      split_ifs
      · simp [Tidy]
      · exact leaves _
      · simp [Tidy]
      · exact pushHiddenChars_tidy 1 s' region (by simp) (by simp)
    | dollarQuote =>
      rw [scanStep_dollarQuote region rest, scanDollarQuote]
      split_ifs
      · exact leaves _
      · exact pushHiddenChars_tidy 1 s' region (by simp) (by simp)

/-- The scanner is in code between two identifiers and has no span open. -/
structure Fresh (s : ScanState) : Prop where
  region : s.region = .code
  inIdent : s.inIdent = false
  openHidden : s.openHidden = none
  apart : Apart s.before

theorem Fresh.start (sql : Text) : Fresh (ScanState.start sql) :=
  ⟨rfl, rfl, rfl, apart_nil⟩

/-- From a fresh state the scan of the piece that comes next is the slice of the whole scan. -/
theorem Fresh.piece {s : ScanState} (fresh : Fresh s) (piece after : Text)
    (rest : s.rest = piece ++ after) (inert : Inert after) :
    ∃ u, Reaches scanStep s u ∧ u.rest = after ∧
      u.masked = s.masked ++ (scanEnd piece).masked := by
  let frame : Frame :=
    { outer := s.before, after := after, masked := s.masked, semicolons := s.semicolons,
      hidden := s.hidden }
  have framed : Framed frame s (ScanState.start piece) := by
    refine ⟨s.dollarTag, ?_, fun quoted => nomatch quoted⟩
    obtain ⟨region, inIdent, openHidden, -⟩ := fresh
    cases s
    simp_all [Frame.embed, ScanState.start, frame]
  obtain ⟨u, run, tag, rfl, -⟩ := iterate_framed frame inert fresh.apart piece.length
    (ScanState.start piece) framed (fun quoted => nomatch quoted)
  refine ⟨_, run, ?_, rfl⟩
  change (scanEnd piece).rest ++ after = after
  rw [scanEnd_rest, List.nil_append]

theorem inert_nil : Inert [] :=
  ⟨fun _ _ => by simp, by simp⟩

theorem inert_semicolon (after : Text) : Inert (';' :: after) := by
  refine ⟨fun c special => ?_, ?_⟩
  · rintro ⟨⟩
    simp at special
  · rw [List.dropWhile_cons_of_neg (by decide)]
    simp

theorem Fresh.after_semicolon {s : ScanState} {cs : Text} (boundary : Boundary s) (tidy : Tidy s)
    (rest : s.rest = ';' :: cs) : Fresh (scanStep s) ∧ (scanStep s).rest = cs := by
  have region := boundary.region (by simp [rest])
  have turn : scanStep s = pushVisibleChar { s with
      inIdent := continuesIdent s.inIdent ';', semicolons := s.semicolons ++ [s.pos] } := by
    rw [scanStep_code region rest (by simp)]
    rfl
  rw [turn]
  refine ⟨⟨?_, ?_, ?_, ?_⟩, ?_⟩
  · rw [(pushVisibleChar_frame _).1, region]
  · rw [(pushVisibleChar_frame _).2]
    exact continuesIdent_false boundary rest (by decide)
  · rw [pushVisibleChar_openHidden]
    exact tidy (Or.inl region)
  · rw [(pushVisibleChar_passed _).1]
    simp only [rest]
    exact apart_cons (by decide)
  · rw [(pushVisibleChar_passed _).2.1]
    simp only [rest]
    rfl

theorem start_tidy (sql : Text) : Tidy (ScanState.start sql) :=
  fun _ => rfl

/-- The scan of a statement alone masks its tokens as the scan of the whole text does. -/
theorem statement_masked {sql : Text} {statement : List Token}
    (member : statement ∈ statements (lex sql)) (holds : clean (lex sql) = true) :
    (scan (textOf statement)).masked = statement.flatMap tokenMask := by
  obtain ⟨before, after, split, opens, closes⟩ := statements_split member
  -- The state at the start of the statement.
  obtain ⟨s, walked, fresh⟩ : ∃ s, Walked before (statement ++ after) (ScanState.start sql) s ∧
      Fresh s := by
    rcases opens with rfl | ⟨others, semi, rfl, kind⟩
    · exact ⟨ScanState.start sql, Walked.nil (Boundary.start sql) (Nat.le_refl _) split,
        Fresh.start sql⟩
    · obtain ⟨s, walked⟩ := walked_of_clean split holds
      obtain ⟨r, earlier⟩ := walked_of_clean
        (show lex sql = others ++ semi :: (statement ++ after) by rw [split]; simp) holds
      have text : semi.text = [';'] := lexFrom_semicolon (by
        rw [← lex, split]
        simp) kind
      have left : r.rest = ';' :: s.rest := by
        rw [earlier.rest, textOf_cons, text, walked.rest]
        rfl
      have tidy := Reaches.preserves Tidy scanStep_tidy earlier.run (start_tidy sql)
      obtain ⟨fresh, dropped⟩ := Fresh.after_semicolon earlier.boundary tidy left
      have same := reaches_unique (start_known sql) (earlier.run.trans (Reaches.single r))
        walked.run dropped
      exact ⟨s, walked, same ▸ fresh⟩
  obtain ⟨fuel, context, enough, lexed⟩ := walked.lexed
  obtain ⟨u, later⟩ := tokens_consumed statement after fuel context s walked.boundary enough lexed
    (clean_append_right (split ▸ holds))
  have inert : Inert (textOf after) := by
    rcases closes with rfl | ⟨semi, others, rfl, kind⟩
    · exact inert_nil
    · have text : semi.text = [';'] := lexFrom_semicolon (by
        rw [lexed]
        simp) kind
      rw [textOf_cons, text]
      exact inert_semicolon _
  have rest : s.rest = textOf statement ++ textOf after := by
    rw [walked.rest, textOf, List.flatMap_append]
    rfl
  obtain ⟨v, run, left, masked⟩ := fresh.piece (textOf statement) (textOf after) rest inert
  have known : TagKnown s :=
    Reaches.preserves TagKnown scanStep_known walked.run (start_known sql)
  have same := reaches_unique known run later.run (left.trans later.rest.symm)
  rw [(scan_eq _).1]
  rw [same, later.masked] at masked
  exact (List.append_cancel_left masked).symm

/-! ## White space around a statement -/

theorem inert_of_avoids {after : Text}
    (avoids : ∀ c ∈ after, c ∉ ['\'', '"', '-', '*', '/', '$']) : Inert after := by
  refine ⟨fun c special head => ?_, fun head => ?_⟩
  · refine avoids c (List.mem_of_mem_head? head) ?_
    simp only [List.mem_cons, List.not_mem_nil, or_false] at special ⊢
    tauto
  · have member := List.mem_of_mem_head? head
    exact avoids '$' ((List.dropWhile_sublist _).subset member) (by simp)

/-- Text after a piece that can complete no marker leaves its mask as it is. -/
theorem scan_append_inert (piece after : Text) (inert : Inert after) :
    ∃ added, (scan (piece ++ after)).masked = (scan piece).masked ++ added ∧
      ∀ c ∈ added, c = ' ' ∨ c ∈ after := by
  obtain ⟨u, run, rest, masked⟩ :=
    (Fresh.start (piece ++ after)).piece piece after rfl inert
  have known := Reaches.preserves TagKnown scanStep_known run (start_known _)
  obtain ⟨raw, added, consumed, extended, origin⟩ :=
    reaches_extends known (reaches_scanEnd run)
  refine ⟨added, ?_, fun c member => (origin c member).imp_right fun inRaw => ?_⟩
  · rw [(scan_eq _).1, (scan_eq _).1, extended, masked]
    rfl
  · rw [← rest, consumed]
    exact List.mem_append_left _ inRaw

theorem Fresh.space {s : ScanState} {c : Char} {cs : Text} (fresh : Fresh s)
    (rest : s.rest = c :: cs) (space : isSpace c = true) :
    Fresh (scanStep s) ∧ (scanStep s).rest = cs ∧ (scanStep s).masked = s.masked ++ [c] := by
  obtain ⟨plain, start, apart⟩ := outside_of_space space cs
  have turn := scanStep_plain fresh.region rest plain
  have flag : continuesIdent s.inIdent c = false := by
    rw [fresh.inIdent]
    exact start
  rw [flag] at turn
  have passed := pushVisibleChar_passed { s with inIdent := false }
  rw [turn]
  refine ⟨⟨?_, ?_, ?_, ?_⟩, ?_, ?_⟩
  · rw [(pushVisibleChar_frame _).1, fresh.region]
  · rw [(pushVisibleChar_frame _).2]
  · rw [pushVisibleChar_openHidden, fresh.openHidden]
  · rw [passed.1]
    simp only [rest]
    exact apart_cons apart
  · rw [passed.2.1]
    simp only [rest]
    rfl
  · rw [passed.2.2.1]
    simp only [rest]
    rfl

theorem Fresh.spaces (lead cs : Text) (spaces : ∀ c ∈ lead, isSpace c = true) (s : ScanState)
    (fresh : Fresh s) (rest : s.rest = lead ++ cs) :
    ∃ u, Reaches scanStep s u ∧ Fresh u ∧ u.rest = cs ∧ u.masked = s.masked ++ lead := by
  induction lead generalizing s with
  | nil => exact ⟨s, Reaches.refl s, fresh, rest, by simp⟩
  | cons c lead ih =>
    obtain ⟨fresh', rest', masked'⟩ := fresh.space rest (spaces c List.mem_cons_self)
    obtain ⟨u, run, freshU, left, masked⟩ :=
      ih (fun d member => spaces d (List.mem_cons_of_mem _ member)) _ fresh' rest'
    exact ⟨u, run.head, freshU, left, by rw [masked, masked', List.append_assoc]; rfl⟩

/-- White space before a piece stays and the rest is masked as the piece alone. -/
theorem scan_spaces (lead piece : Text) (spaces : ∀ c ∈ lead, isSpace c = true) :
    (scan (lead ++ piece)).masked = lead ++ (scan piece).masked := by
  obtain ⟨u, run, fresh, rest, masked⟩ :=
    Fresh.spaces lead piece spaces _ (Fresh.start (lead ++ piece)) rfl
  obtain ⟨v, run', rest', masked'⟩ := fresh.piece piece [] (by rw [rest, List.append_nil]) inert_nil
  rw [(scan_eq _).1, (scan_eq _).1, scanEnd_eq (run.trans run') rest', masked', masked]
  rfl

end FerroEngine.ScanComposition
