import Mathlib.Data.List.TakeWhile
import FerroEngine.StepIteration
import FerroEngine.RegionScanner

set_option autoImplicit false

/-! # The turns of the region scanner

What one turn of `scan` consumes and shows, and that a run of the loop ends with the text.
-/

namespace FerroEngine.RegionScannerSteps

open SourceText StepIteration RegionScanner

/-! ## Characters passed over -/

/-- `t` is `s` with `n` more characters consumed, each shown in the mask as `shown` has it. -/
def Passed (shown : Char → Text) (n : Nat) (s t : ScanState) : Prop :=
  t.before = (s.rest.take n).reverse ++ s.before ∧
    t.rest = s.rest.drop n ∧
    t.masked = s.masked ++ (s.rest.take n).flatMap shown ∧
    t.semicolons = s.semicolons

theorem Passed.zero (shown : Char → Text) (s : ScanState) : Passed shown 0 s s := by
  simp [Passed]

theorem Passed.trans {shown : Char → Text} {m n : Nat} {s t u : ScanState}
    (first : Passed shown m s t) (second : Passed shown n t u) :
    Passed shown (m + n) s u := by
  obtain ⟨before₁, rest₁, masked₁, semis₁⟩ := first
  obtain ⟨before₂, rest₂, masked₂, semis₂⟩ := second
  refine ⟨?_, ?_, ?_, semis₂.trans semis₁⟩
  · rw [before₂, rest₁, before₁, List.take_add, List.reverse_append, List.append_assoc]
  · rw [rest₂, rest₁, List.drop_drop]
  · rw [masked₂, rest₁, masked₁, List.take_add, List.flatMap_append, List.append_assoc]

theorem pushVisibleChar_passed (s : ScanState) :
    Passed (fun c => [c]) 1 s (pushVisibleChar s) := by
  unfold pushVisibleChar Passed
  cases rest : s.rest with
  | nil => simp [rest]
  | cons c cs => simp

theorem pushHiddenChar_passed (s : ScanState) : Passed filler 1 s (pushHiddenChar s) := by
  unfold pushHiddenChar Passed
  cases rest : s.rest with
  | nil => simp [rest]
  | cons c cs => simp

theorem pushHiddenChars_passed (n : Nat) (s : ScanState) :
    Passed filler n s (pushHiddenChars n s) := by
  unfold pushHiddenChars
  induction n generalizing s with
  | zero => exact Passed.zero filler s
  | succ n ih =>
    rw [Function.iterate_succ_apply, Nat.add_comm]
    exact (pushHiddenChar_passed s).trans (ih (pushHiddenChar s))

theorem closeHidden_passed {n : Nat} {s t : ScanState} (passed : Passed filler n s t) :
    Passed filler n s (closeHidden t) := by
  unfold closeHidden
  split
  · exact passed
  · exact passed

/-- The fields that pushing a character leaves alone. -/
theorem pushVisibleChar_frame (s : ScanState) :
    (pushVisibleChar s).region = s.region ∧ (pushVisibleChar s).inIdent = s.inIdent := by
  unfold pushVisibleChar
  cases s.rest with
  | nil => exact ⟨rfl, rfl⟩
  | cons c cs => exact ⟨rfl, rfl⟩

theorem pushHiddenChar_frame (s : ScanState) :
    (pushHiddenChar s).region = s.region ∧ (pushHiddenChar s).inIdent = s.inIdent ∧
      (pushHiddenChar s).dollarTag = s.dollarTag := by
  unfold pushHiddenChar
  cases s.rest with
  | nil => exact ⟨rfl, rfl, rfl⟩
  | cons c cs => exact ⟨rfl, rfl, rfl⟩

theorem pushHiddenChars_frame (n : Nat) (s : ScanState) :
    (pushHiddenChars n s).region = s.region ∧ (pushHiddenChars n s).inIdent = s.inIdent ∧
      (pushHiddenChars n s).dollarTag = s.dollarTag := by
  unfold pushHiddenChars
  induction n generalizing s with
  | zero => exact ⟨rfl, rfl, rfl⟩
  | succ n ih =>
    obtain ⟨region, inIdent, tag⟩ := pushHiddenChar_frame s
    obtain ⟨region', inIdent', tag'⟩ := ih (pushHiddenChar s)
    exact ⟨region'.trans region, inIdent'.trans inIdent, tag'.trans tag⟩

theorem closeHidden_inIdent (s : ScanState) : (closeHidden s).inIdent = s.inIdent := by
  unfold closeHidden
  split
  · rfl
  · rfl

/-! ## One turn -/

theorem scanStep_doubleQuote {s : ScanState} {c : Char} {cs : Text}
    (region : s.region = .doubleQuote) (rest : s.rest = c :: cs) :
    scanStep s = scanDoubleQuote c cs { s with inIdent := false } := by
  simp only [scanStep, rest, region]

theorem scanStep_singleQuote {s : ScanState} {eString : Bool} {c : Char} {cs : Text}
    (region : s.region = .singleQuote eString) (rest : s.rest = c :: cs) :
    scanStep s = scanSingleQuote eString c cs { s with inIdent := false } := by
  simp only [scanStep, rest, region]

theorem scanStep_lineComment {s : ScanState} {c : Char} {cs : Text}
    (region : s.region = .lineComment) (rest : s.rest = c :: cs) :
    scanStep s = scanLineComment c { s with inIdent := false } := by
  simp only [scanStep, rest, region]

theorem scanStep_blockComment {s : ScanState} {depth : Nat} {c : Char} {cs : Text}
    (region : s.region = .blockComment depth) (rest : s.rest = c :: cs) :
    scanStep s = scanBlockComment depth c cs { s with inIdent := false } := by
  simp only [scanStep, rest, region]

theorem scanStep_dollarQuote {s : ScanState} {c : Char} {cs : Text}
    (region : s.region = .dollarQuote) (rest : s.rest = c :: cs) :
    scanStep s = scanDollarQuote c cs { s with inIdent := false } := by
  simp only [scanStep, rest, region]

/-- A character that opens no region and separates no statements. -/
def Plain (c : Char) (cs : Text) : Prop :=
  c ≠ '\'' ∧ c ≠ '"' ∧ ¬(c = '-' ∧ cs.head? = some '-') ∧ ¬(c = '/' ∧ cs.head? = some '*') ∧
    c ≠ '$' ∧ c ≠ ';'

theorem scanStep_code {s : ScanState} {c : Char} {cs : Text} (region : s.region = .code)
    (rest : s.rest = c :: cs) (outside : ¬(c = '$' ∧ s.inIdent = true)) :
    scanStep s = scanCode c cs { s with inIdent := continuesIdent s.inIdent c } := by
  simp only [scanStep, rest, region, if_neg outside]

theorem scanStep_plain {s : ScanState} {c : Char} {cs : Text} (region : s.region = .code)
    (rest : s.rest = c :: cs) (plain : Plain c cs) :
    scanStep s = pushVisibleChar { s with inIdent := continuesIdent s.inIdent c } := by
  obtain ⟨quote, double, line, block, dollar, semi⟩ := plain
  rw [scanStep_code region rest fun both => dollar both.1, scanCode, if_neg quote, if_neg double,
    if_neg line, if_neg block, if_neg dollar, if_neg semi]

/-! ## Every turn consumes text -/

/-- A delimiter: word characters between two `$`. -/
def TagShape (tag : Text) : Prop :=
  ∃ body : Text, tag = '$' :: body ++ ['$'] ∧ ∀ c ∈ body, isDolqCont c = true

theorem dollarQuoteTag_shape {text tag : Text} (found : dollarQuoteTag text = some tag) :
    TagShape tag := by
  unfold dollarQuoteTag at found
  split at found
  · split_ifs at found
    split at found
    · cases found
      exact ⟨_, rfl, fun c member => List.mem_takeWhile_imp member⟩
    · cases found
  · cases found

/-- A dollar quote has a delimiter. -/
def TagKnown (s : ScanState) : Prop :=
  s.region = .dollarQuote → TagShape s.dollarTag

/-- At least one character goes from the text to the mask, hidden or shown. -/
def Drops (s t : ScanState) : Prop :=
  ∃ (n : Nat) (shown : Char → Text), (shown = filler ∨ shown = fun c => [c]) ∧
    t.before = (s.rest.take (n + 1)).reverse ++ s.before ∧
    t.rest = s.rest.drop (n + 1) ∧
    t.masked = s.masked ++ (s.rest.take (n + 1)).flatMap shown

theorem Drops.of_passed {n : Nat} {shown : Char → Text} {s t : ScanState}
    (either : shown = filler ∨ shown = fun c => [c]) (passed : Passed shown (n + 1) s t) :
    Drops s t :=
  ⟨n, shown, either, passed.1, passed.2.1, passed.2.2.1⟩

theorem pushHiddenChars_drops (n : Nat) (s : ScanState) : Drops s (pushHiddenChars (n + 1) s) :=
  Drops.of_passed (Or.inl rfl) (pushHiddenChars_passed (n + 1) s)

theorem closeHidden_drops (n : Nat) (s : ScanState) :
    Drops s (closeHidden (pushHiddenChars (n + 1) s)) :=
  Drops.of_passed (Or.inl rfl) (closeHidden_passed (pushHiddenChars_passed (n + 1) s))

theorem pushVisibleChar_drops (s : ScanState) : Drops s (pushVisibleChar s) :=
  Drops.of_passed (Or.inr rfl) (pushVisibleChar_passed s)

theorem TagShape.length {tag : Text} (shape : TagShape tag) : ∃ n, tag.length = n + 1 := by
  obtain ⟨body, rfl, -⟩ := shape
  exact ⟨body.length + 1, by simp⟩

theorem scanCode_drops (c : Char) (cs : Text) (s : ScanState) :
    Drops s (scanCode c cs s) ∧ (s.region = .code → TagKnown (scanCode c cs s)) := by
  have known : ∀ {s t : ScanState} {region : Region}, t.region = s.region → s.region = region →
      region ≠ .dollarQuote → TagKnown t := by
    intro s t region same current other quoted
    rw [same, current] at quoted
    exact absurd quoted other
  unfold scanCode
  by_cases quote : c = '\''
  · rw [if_pos quote]
    exact ⟨pushHiddenChars_drops 0 { s with openHidden := _ }, fun _ h => nomatch h⟩
  rw [if_neg quote]
  by_cases double : c = '"'
  · rw [if_pos double]
    exact ⟨pushVisibleChar_drops s, fun _ h => nomatch h⟩
  rw [if_neg double]
  by_cases line : c = '-' ∧ cs.head? = some '-'
  · rw [if_pos line]
    exact ⟨pushHiddenChars_drops 1 { s with openHidden := _ }, fun _ h => nomatch h⟩
  rw [if_neg line]
  by_cases block : c = '/' ∧ cs.head? = some '*'
  · rw [if_pos block]
    exact ⟨pushHiddenChars_drops 1 { s with openHidden := _ }, fun _ h => nomatch h⟩
  rw [if_neg block]
  by_cases dollar : c = '$'
  · rw [if_pos dollar]
    split
    next tag found =>
      obtain ⟨n, length⟩ := (dollarQuoteTag_shape found).length
      refine ⟨?_, fun _ _ => dollarQuoteTag_shape found⟩
      rw [length]
      exact pushHiddenChars_drops n { s with openHidden := _ }
    next =>
      exact ⟨pushVisibleChar_drops s,
        fun code => known (pushVisibleChar_frame s).1 code (by decide)⟩
  rw [if_neg dollar]
  by_cases semi : c = ';'
  · rw [if_pos semi]
    exact ⟨pushVisibleChar_drops { s with semicolons := _ },
      fun code => known (pushVisibleChar_frame { s with semicolons := _ }).1 code (by decide)⟩
  · rw [if_neg semi]
    exact ⟨pushVisibleChar_drops s,
      fun code => known (pushVisibleChar_frame s).1 code (by decide)⟩

theorem pushHidden_known {n : Nat} {s : ScanState} {region : Region} (current : s.region = region)
    (other : region ≠ .dollarQuote) : TagKnown (pushHiddenChars n s) := by
  intro quoted
  rw [(pushHiddenChars_frame n s).1, current] at quoted
  exact absurd quoted other

/-- The regions other than code consume text and keep the delimiter. -/
theorem scanRegion_drops {s : ScanState} {c : Char} {cs : Text} (rest : s.rest = c :: cs)
    (known : TagKnown s) (region : s.region ≠ .code) :
    Drops s (scanStep s) ∧ TagKnown (scanStep s) := by
  let s' : ScanState := { s with inIdent := false }
  have leaves : ∀ n : Nat, Drops s { closeHidden (pushHiddenChars (n + 1) s') with
      region := .code } ∧ TagKnown { closeHidden (pushHiddenChars (n + 1) s') with
      region := .code } := fun n => ⟨closeHidden_drops n s', fun h => nomatch h⟩
  cases current : s.region with
  | code => exact absurd current region
  | doubleQuote =>
    have stays := (pushVisibleChar_frame s').1.trans current
    have stays' := (pushVisibleChar_frame (pushVisibleChar s')).1.trans stays
    rw [scanStep_doubleQuote current rest, scanDoubleQuote]
    split_ifs
    · refine ⟨Drops.of_passed (n := 1) (Or.inr rfl) ?_, fun quoted => ?_⟩
      · exact (pushVisibleChar_passed s').trans (pushVisibleChar_passed _)
      · rw [stays'] at quoted
        cases quoted
    · exact ⟨pushVisibleChar_drops s', fun h => nomatch h⟩
    · refine ⟨pushVisibleChar_drops s', fun quoted => ?_⟩
      rw [stays] at quoted
      cases quoted
  | singleQuote eString =>
    rw [scanStep_singleQuote current rest, scanSingleQuote]
    have two := pushHidden_known (n := 2) (s := s') current (by simp)
    have one := pushHidden_known (n := 1) (s := s') current (by simp)
    split_ifs
    · exact ⟨pushHiddenChars_drops 1 s', two⟩
    · exact ⟨pushHiddenChars_drops 1 s', two⟩
    · exact leaves 0
    · exact ⟨pushHiddenChars_drops 0 s', one⟩
  | lineComment =>
    have one := pushHidden_known (n := 1) (s := s') current (by simp)
    rw [scanStep_lineComment current rest, scanLineComment]
    split_ifs
    · exact leaves 0
    · exact ⟨pushHiddenChars_drops 0 s', one⟩
  | blockComment depth =>
    have one := pushHidden_known (n := 1) (s := s') current (by simp)
    rw [scanStep_blockComment current rest, scanBlockComment]
    split_ifs
    · exact ⟨pushHiddenChars_drops 1 s', fun h => nomatch h⟩
    · exact leaves 1
    · exact ⟨pushHiddenChars_drops 1 s', fun h => nomatch h⟩
    · exact ⟨pushHiddenChars_drops 0 s', one⟩
  | dollarQuote =>
    rw [scanStep_dollarQuote current rest, scanDollarQuote]
    split_ifs
    · obtain ⟨n, length⟩ := (known current).length
      change s'.dollarTag.length = n + 1 at length
      rw [length]
      exact leaves n
    · refine ⟨pushHiddenChars_drops 0 s', fun _ => ?_⟩
      exact ((pushHiddenChars_frame 1 s').2.2).symm ▸ known current

theorem scanStep_drops {s : ScanState} (some : s.rest ≠ []) (known : TagKnown s) :
    Drops s (scanStep s) ∧ TagKnown (scanStep s) := by
  obtain ⟨c, cs, rest⟩ := List.exists_cons_of_ne_nil some
  by_cases region : s.region = .code
  · by_cases inside : c = '$' ∧ s.inIdent = true
    · have turn : scanStep s = pushVisibleChar s := by
        simp only [scanStep, rest, region, if_pos inside]
      rw [turn]
      refine ⟨pushVisibleChar_drops s, fun quoted => ?_⟩
      rw [(pushVisibleChar_frame s).1, region] at quoted
      cases quoted
    · rw [scanStep_code region rest inside]
      obtain ⟨drops, stays⟩ := scanCode_drops c cs
        { s with inIdent := continuesIdent s.inIdent c }
      exact ⟨drops, stays region⟩
  · exact scanRegion_drops rest known region

theorem scanStep_done {s : ScanState} (empty : s.rest = []) : scanStep s = s := by
  simp only [scanStep, empty]

theorem scanStep_known (s : ScanState) (known : TagKnown s) : TagKnown (scanStep s) := by
  by_cases empty : s.rest = []
  · rw [scanStep_done empty]
    exact known
  · exact (scanStep_drops empty known).2

theorem scanStep_progress (s : ScanState) (known : TagKnown s) :
    scanStep s = s ∨ (scanStep s).rest.length < s.rest.length := by
  by_cases empty : s.rest = []
  · exact Or.inl (scanStep_done empty)
  · obtain ⟨⟨n, -, -, -, rest, -⟩, -⟩ := scanStep_drops empty known
    have some := List.length_pos_iff.mpr empty
    refine Or.inr ?_
    rw [rest, List.length_drop]
    omega

theorem start_known (sql : Text) : TagKnown (ScanState.start sql) :=
  fun quoted => nomatch quoted

theorem scanEnd_fixed (sql : Text) : scanStep (scanEnd sql) = scanEnd sql :=
  iterate_fixed TagKnown scanStep_known (fun s => s.rest.length) scanStep_progress sql.length
    (ScanState.start sql) (start_known sql) (Nat.le_refl _)

theorem scanEnd_rest (sql : Text) : (scanEnd sql).rest = [] := by
  have known : TagKnown (scanEnd sql) :=
    Reaches.preserves TagKnown scanStep_known ⟨sql.length, rfl⟩ (start_known sql)
  by_contra left
  obtain ⟨⟨n, -, -, -, drops, -⟩, -⟩ := scanStep_drops left known
  rw [scanEnd_fixed] at drops
  have lengths := congrArg List.length drops
  rw [List.length_drop] at lengths
  have := List.length_pos_iff.mpr left
  omega

/-- Whatever run reaches the end of the text is the run of the loop. -/
theorem scanEnd_eq {sql : Text} {t : ScanState}
    (run : Reaches scanStep (ScanState.start sql) t) (empty : t.rest = []) : scanEnd sql = t :=
  run.eq_iterate (scanStep_done empty) sql.length (scanEnd_fixed sql)

theorem reaches_scanEnd {sql : Text} {t : ScanState}
    (run : Reaches scanStep (ScanState.start sql) t) : Reaches scanStep t (scanEnd sql) :=
  run.to_fixed sql.length (scanEnd_fixed sql)

/-- Two states of one run with the same text left are the same state. -/
theorem reaches_unique {s u v : ScanState} (known : TagKnown s) (first : Reaches scanStep s u)
    (second : Reaches scanStep s v) (same : u.rest = v.rest) : u = v :=
  Reaches.unique TagKnown scanStep_known (fun s => s.rest.length) scanStep_progress known first
    second (congrArg List.length same)

/-- What a run adds to the mask: blanks and characters of the text it consumes. -/
def Extends (s t : ScanState) : Prop :=
  ∃ raw added, s.rest = raw ++ t.rest ∧ t.masked = s.masked ++ added ∧
    ∀ c ∈ added, c = ' ' ∨ c ∈ raw

theorem Extends.refl (s : ScanState) : Extends s s :=
  ⟨[], [], rfl, by simp, by simp⟩

theorem Extends.trans {s t u : ScanState} (first : Extends s t) (second : Extends t u) :
    Extends s u := by
  obtain ⟨raw₁, added₁, rest₁, masked₁, from₁⟩ := first
  obtain ⟨raw₂, added₂, rest₂, masked₂, from₂⟩ := second
  refine ⟨raw₁ ++ raw₂, added₁ ++ added₂, ?_, ?_, ?_⟩
  · rw [rest₁, rest₂, List.append_assoc]
  · rw [masked₂, masked₁, List.append_assoc]
  · intro c member
    rcases List.mem_append.mp member with early | late
    · exact (from₁ c early).imp_right (List.mem_append_left _)
    · exact (from₂ c late).imp_right (List.mem_append_right _)

theorem Extends.of_drops {s t : ScanState} (drops : Drops s t) : Extends s t := by
  obtain ⟨n, shown, either, -, rest, masked⟩ := drops
  refine ⟨s.rest.take (n + 1), _, by rw [rest, List.take_append_drop], masked, ?_⟩
  intro c member
  obtain ⟨raw, inText, produced⟩ := List.mem_flatMap.mp member
  rcases either with rfl | rfl
  · exact Or.inl (List.eq_of_mem_replicate produced)
  · rw [List.mem_singleton.mp produced]
    exact Or.inr inText

theorem reaches_extends {s t : ScanState} (known : TagKnown s) (run : Reaches scanStep s t) :
    Extends s t := by
  have both : TagKnown t ∧ Extends s t := by
    refine Reaches.preserves (fun u => TagKnown u ∧ Extends s u) ?_ run ⟨known, Extends.refl s⟩
    rintro u ⟨knownU, extends'⟩
    refine ⟨scanStep_known u knownU, ?_⟩
    by_cases empty : u.rest = []
    · rw [scanStep_done empty]
      exact extends'
    · exact extends'.trans (Extends.of_drops (scanStep_drops empty knownU).1)
  exact both.2

/-- The last character of the mask is a blank or the last character consumed. -/
def LastShown (s : ScanState) : Prop :=
  ∀ c, s.masked.getLast? = some c → c = ' ' ∨ s.before.head? = some c

theorem lastShown_of_drops {s t : ScanState} (some : s.rest ≠ []) (drops : Drops s t) :
    LastShown t := by
  obtain ⟨n, shown, either, before, -, masked⟩ := drops
  have taken : s.rest.take (n + 1) ≠ [] := by
    simpa using some
  obtain ⟨front, last, split⟩ := List.eq_nil_or_concat (s.rest.take (n + 1)) |>.resolve_left taken
  intro c final
  rw [masked, split, List.concat_eq_append, List.flatMap_append, List.flatMap_singleton,
    ← List.append_assoc] at final
  rw [before, split, List.concat_eq_append, List.reverse_append]
  rcases either with rfl | rfl
  · have filled : (filler last).getLast? = Option.some ' ' := by
      unfold filler
      rw [List.getLast?_replicate, if_neg (Char.utf8Size_pos last).ne']
    rw [List.getLast?_append, filled] at final
    exact Or.inl (Option.some.inj final).symm
  · rw [List.getLast?_append] at final
    exact Or.inr final

theorem reaches_lastShown {sql : Text} {t : ScanState}
    (run : Reaches scanStep (ScanState.start sql) t) : LastShown t := by
  have both : TagKnown t ∧ LastShown t := by
    refine Reaches.preserves (fun u => TagKnown u ∧ LastShown u) ?_ run
      ⟨start_known sql, fun c final => by simp [ScanState.start] at final⟩
    rintro u ⟨known, shown⟩
    refine ⟨scanStep_known u known, ?_⟩
    by_cases empty : u.rest = []
    · rw [scanStep_done empty]
      exact shown
    · exact lastShown_of_drops empty (scanStep_drops empty known).1
  exact both.2

end FerroEngine.RegionScannerSteps
