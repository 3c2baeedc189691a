import FerroEngine.ScanComposition

set_option autoImplicit false

/-! # The hidden spans of a scan

What one turn of `scan` does to the list of hidden spans, and where the spans of a run start and
end.
-/

namespace FerroEngine.ScanSpans

open SourceText StepIteration RegionScanner RegionScannerSteps ScanComposition

/-! ## One turn -/

/-- The text starts with the marker of a comment. -/
def OpensComment (text : Text) : Prop :=
  ['-', '-'] <+: text ∨ ['/', '*'] <+: text

/-- A span that opens at the next character starts there; that of an `E'..'` literal starts at the
letter before it. -/
def OpensAt (s : ScanState) (opening : Nat × Hidden) : Prop :=
  (opening.1 = s.pos ∧ (opening.2 = .comment → OpensComment s.rest)) ∨
    (opening.2 = .literal ∧ isEStringPrefix s.before = true ∧ opening.1 + 1 = s.pos)

/-- The spans of `t` are those of `s`, or one more was opened or closed. -/
inductive Marks (s t : ScanState) : Prop
  | same (hidden : t.hidden = s.hidden) (openHidden : t.openHidden = s.openHidden)
  | opens {opening : Nat × Hidden} (none : s.openHidden = none) (hidden : t.hidden = s.hidden)
      (now : t.openHidden = some opening) (start : OpensAt s opening)
  | closes {opening : Nat × Hidden} (was : s.openHidden = some opening)
      (hidden : t.hidden = s.hidden ++ [(opening.1, t.pos, opening.2)])
      (now : t.openHidden = none)

theorem pushVisibleChar_spans (s : ScanState) :
    (pushVisibleChar s).hidden = s.hidden ∧ (pushVisibleChar s).openHidden = s.openHidden := by
  unfold pushVisibleChar
  split
  · exact ⟨rfl, rfl⟩
  · exact ⟨rfl, rfl⟩

theorem pushHiddenChar_spans (s : ScanState) :
    (pushHiddenChar s).hidden = s.hidden ∧ (pushHiddenChar s).openHidden = s.openHidden := by
  unfold pushHiddenChar
  split
  · exact ⟨rfl, rfl⟩
  · exact ⟨rfl, rfl⟩

theorem pushHiddenChars_spans (n : Nat) (s : ScanState) :
    (pushHiddenChars n s).hidden = s.hidden ∧
      (pushHiddenChars n s).openHidden = s.openHidden := by
  unfold pushHiddenChars
  induction n generalizing s with
  | zero => exact ⟨rfl, rfl⟩
  | succ n ih =>
    obtain ⟨hidden, openHidden⟩ := pushHiddenChar_spans s
    obtain ⟨hidden', openHidden'⟩ := ih (pushHiddenChar s)
    exact ⟨hidden'.trans hidden, openHidden'.trans openHidden⟩

theorem Marks.visible (s : ScanState) : Marks s (pushVisibleChar s) :=
  Marks.same (pushVisibleChar_spans s).1 (pushVisibleChar_spans s).2

theorem Marks.hide (n : Nat) (s : ScanState) : Marks s (pushHiddenChars n s) :=
  Marks.same (pushHiddenChars_spans n s).1 (pushHiddenChars_spans n s).2

theorem Marks.closeHidden {s t : ScanState} (hidden : t.hidden = s.hidden)
    (openHidden : t.openHidden = s.openHidden) : Marks s (closeHidden t) := by
  cases current : t.openHidden with
  | none =>
    have unchanged : RegionScanner.closeHidden t = t := by rw [RegionScanner.closeHidden, current]
    rw [unchanged]
    exact Marks.same hidden openHidden
  | some opening =>
    refine Marks.closes (openHidden.symm.trans current) ?_ (closeHidden_openHidden t)
    rw [RegionScanner.closeHidden, current, ← hidden]
    rfl

theorem Marks.leave (n : Nat) (s : ScanState) :
    Marks s (RegionScanner.closeHidden (pushHiddenChars n s)) :=
  Marks.closeHidden (pushHiddenChars_spans n s).1 (pushHiddenChars_spans n s).2

/-- The region, the delimiter and the identifier flag are no part of the spans. -/
theorem Marks.congr {s s' t t' : ScanState} (marks : Marks s t) (before : s'.before = s.before)
    (rest : s'.rest = s.rest) (hidden : s'.hidden = s.hidden)
    (openHidden : s'.openHidden = s.openHidden)
    (before' : t'.before = t.before) (hidden' : t'.hidden = t.hidden)
    (openHidden' : t'.openHidden = t.openHidden) : Marks s' t' := by
  have pos : s'.pos = s.pos := congrArg byteLen before
  have pos' : t'.pos = t.pos := congrArg byteLen before'
  cases marks with
  | same spans current =>
    exact Marks.same (by rw [hidden', hidden, spans]) (by rw [openHidden', openHidden, current])
  | opens none spans now start =>
    refine Marks.opens (openHidden.trans none) (by rw [hidden', hidden, spans])
      (openHidden'.trans now) ?_
    rw [OpensAt, pos, before, rest]
    exact start
  | closes was spans now =>
    exact Marks.closes (openHidden.trans was) (by rw [hidden', hidden, spans, pos'])
      (openHidden'.trans now)

theorem scanCode_marks {c : Char} {cs : Text} {s : ScanState} (rest : s.rest = c :: cs)
    (none : s.openHidden = none) : Marks s (scanCode c cs s) := by
  have opened : ∀ (n : Nat) (opening : Nat × Hidden), OpensAt s opening →
      Marks s (pushHiddenChars n { s with openHidden := some opening }) := by
    intro n opening start
    obtain ⟨hidden, now⟩ := pushHiddenChars_spans n { s with openHidden := some opening }
    exact Marks.opens none hidden now start
  unfold scanCode
  by_cases quote : c = '\''
  · rw [if_pos quote]
    refine (opened 1 _ ?_).congr rfl rfl rfl rfl rfl rfl rfl
    split_ifs with marked
    · have := eString_pos marked
      exact Or.inr ⟨rfl, marked, by omega⟩
    · exact Or.inl ⟨rfl, fun comment => by cases comment⟩
  rw [if_neg quote]
  by_cases double : c = '"'
  · rw [if_pos double]
    exact (Marks.visible s).congr rfl rfl rfl rfl rfl rfl rfl
  rw [if_neg double]
  by_cases line : c = '-' ∧ cs.head? = some '-'
  · rw [if_pos line]
    have marker : OpensComment s.rest := by
      obtain ⟨rfl, head⟩ := line
      obtain ⟨ds, rfl⟩ := List.head?_eq_some_iff.mp head
      exact Or.inl ⟨ds, rest.symm⟩
    exact (opened 2 (s.pos, .comment) (Or.inl ⟨rfl, fun _ => marker⟩)).congr rfl rfl rfl rfl rfl rfl rfl
  rw [if_neg line]
  by_cases block : c = '/' ∧ cs.head? = some '*'
  · rw [if_pos block]
    have marker : OpensComment s.rest := by
      obtain ⟨rfl, head⟩ := block
      obtain ⟨ds, rfl⟩ := List.head?_eq_some_iff.mp head
      exact Or.inr ⟨ds, rest.symm⟩
    exact (opened 2 (s.pos, .comment) (Or.inl ⟨rfl, fun _ => marker⟩)).congr rfl rfl rfl rfl rfl rfl rfl
  rw [if_neg block]
  by_cases dollar : c = '$'
  · rw [if_pos dollar]
    split
    next tag _ =>
      refine (opened tag.length (s.pos, .literal) (Or.inl ⟨rfl, fun comment => ?_⟩)).congr
        rfl rfl rfl rfl rfl rfl rfl
      cases comment
    next => exact Marks.visible s
  rw [if_neg dollar]
  by_cases semi : c = ';'
  · rw [if_pos semi]
    exact (Marks.visible { s with semicolons := s.semicolons ++ [s.pos] }).congr rfl rfl rfl rfl rfl rfl rfl
  · rw [if_neg semi]
    exact Marks.visible s

theorem scanStep_marks {s : ScanState} (tidy : Tidy s) : Marks s (scanStep s) := by
  cases rest : s.rest with
  | nil =>
    rw [scanStep_done rest]
    exact Marks.same rfl rfl
  | cons c cs =>
    let s' : ScanState := { s with inIdent := false }
    have hides : ∀ (n : Nat) (region : Region),
        Marks s { pushHiddenChars n s' with region := region } :=
      fun n _ => (Marks.hide n s').congr rfl rfl rfl rfl rfl rfl rfl
    have stays : ∀ n : Nat, Marks s (pushHiddenChars n s') :=
      fun n => (Marks.hide n s').congr rfl rfl rfl rfl rfl rfl rfl
    have leaves : ∀ n : Nat, Marks s { closeHidden (pushHiddenChars n s') with region := .code } :=
      fun n => (Marks.leave n s').congr rfl rfl rfl rfl rfl rfl rfl
    cases region : s.region with
    | code =>
      have none := tidy (Or.inl region)
      by_cases inside : c = '$' ∧ s.inIdent = true
      · have turn : scanStep s = pushVisibleChar s := by
          simp only [scanStep, rest, region, if_pos inside]
        rw [turn]
        exact Marks.visible s
      · rw [scanStep_code region rest inside]
        exact (scanCode_marks (s := { s with inIdent := continuesIdent s.inIdent c }) rest none).congr
          rfl rfl rfl rfl rfl rfl rfl
    | doubleQuote =>
      have first : Marks s (pushVisibleChar s') :=
        (Marks.visible s').congr rfl rfl rfl rfl rfl rfl rfl
      rw [scanStep_doubleQuote region rest, scanDoubleQuote]
      split_ifs
      · obtain ⟨hidden, openHidden⟩ := pushVisibleChar_spans s'
        obtain ⟨hidden', openHidden'⟩ := pushVisibleChar_spans (pushVisibleChar s')
        exact Marks.same (hidden'.trans hidden) (openHidden'.trans openHidden)
      · exact first.congr rfl rfl rfl rfl rfl rfl rfl
      · exact first
    | singleQuote eString =>
      rw [scanStep_singleQuote region rest, scanSingleQuote]
      split_ifs
      · exact stays 2
      · exact stays 2
      · exact leaves 1
      · exact stays 1
    | lineComment =>
      rw [scanStep_lineComment region rest, scanLineComment]
      split_ifs
      · exact leaves 1
      · exact stays 1
    | blockComment depth =>
      rw [scanStep_blockComment region rest, scanBlockComment]
      split_ifs
      · exact hides 2 _
      · exact leaves 2
      · exact hides 2 _
      · exact stays 1
    | dollarQuote =>
      rw [scanStep_dollarQuote region rest, scanDollarQuote]
      split_ifs
      · exact leaves _
      · exact stays 1

/-! ## A run -/

theorem scanStep_pos {s : ScanState} (some : s.rest ≠ []) (known : TagKnown s) :
    s.pos < (scanStep s).pos := by
  obtain ⟨⟨n, -, -, before, -, -⟩, -⟩ := scanStep_drops some known
  obtain ⟨c, cs, rest⟩ := List.exists_cons_of_ne_nil some
  have size := Char.utf8Size_pos c
  rw [ScanState.pos, ScanState.pos, before, byteLen_append, byteLen_reverse, rest,
    List.take_succ_cons, byteLen_cons]
  omega

/-- The text consumed and the text left are the whole text. -/
theorem reaches_text {sql : Text} {t : ScanState}
    (run : Reaches scanStep (ScanState.start sql) t) : t.before.reverse ++ t.rest = sql := by
  have both : TagKnown t ∧ t.before.reverse ++ t.rest = sql := by
    refine Reaches.preserves (fun u => TagKnown u ∧ u.before.reverse ++ u.rest = sql) ?_ run
      ⟨start_known sql, rfl⟩
    rintro u ⟨known, whole⟩
    refine ⟨scanStep_known u known, ?_⟩
    by_cases empty : u.rest = []
    · rw [scanStep_done empty]
      exact whole
    · obtain ⟨⟨n, -, -, before, rest, -⟩, -⟩ := scanStep_drops empty known
      rw [before, rest, List.reverse_append, List.reverse_reverse, List.append_assoc,
        List.take_append_drop, whole]
  exact both.2

theorem reaches_pos {sql : Text} {t : ScanState}
    (run : Reaches scanStep (ScanState.start sql) t) : t.pos + byteLen t.rest = byteLen sql := by
  have whole := congrArg byteLen (reaches_text run)
  rw [byteLen_append, byteLen_reverse] at whole
  exact whole

/-- No hidden span ends after the position. -/
def EndsBefore (s : ScanState) : Prop :=
  ∀ span ∈ s.hidden, span.2.1 ≤ s.pos

theorem EndsBefore.marks {s t : ScanState} (ends : EndsBefore s) (marks : Marks s t)
    (later : s.pos ≤ t.pos) : EndsBefore t := by
  have old : ∀ span ∈ s.hidden, span.2.1 ≤ t.pos :=
    fun span member => Nat.le_trans (ends span member) later
  cases marks with
  | same hidden _ =>
    rw [EndsBefore, hidden]
    exact old
  | opens _ hidden _ _ =>
    rw [EndsBefore, hidden]
    exact old
  | closes _ hidden _ =>
    rw [EndsBefore, hidden]
    intro span member
    rcases List.mem_append.mp member with earlier | last
    · exact old span earlier
    · rw [List.mem_singleton.mp last]

/-- A span that opens in a run from `s` starts at its position or later, a comment there only at
its marker; an `E'..'` literal whose letter was consumed before starts at the letter. -/
def StartsAfter (s : ScanState) (opening : Nat × Hidden) : Prop :=
  s.pos < opening.1 ∨ (opening.1 = s.pos ∧ (opening.2 = .comment → OpensComment s.rest)) ∨
    (opening.2 = .literal ∧ isEStringPrefix s.before = true ∧ opening.1 + 1 = s.pos)

/-- The spans of `t` are those of `s` and spans that opened later. -/
structure Later (s t : ScanState) : Prop where
  hidden : ∃ more, t.hidden = s.hidden ++ more ∧ ∀ span ∈ more, StartsAfter s (span.1, span.2.2)
  openHidden : ∀ opening, t.openHidden = some opening → StartsAfter s opening

theorem Later.refl {s : ScanState} (none : s.openHidden = none) : Later s s where
  hidden := ⟨[], by rw [List.append_nil], by simp⟩
  openHidden := fun opening now => by rw [none] at now; cases now

theorem OpensAt.startsAfter {s t : ScanState} {opening : Nat × Hidden} (start : OpensAt t opening)
    (order : t = s ∨ s.pos < t.pos) : StartsAfter s opening := by
  rcases order with rfl | later
  · exact Or.inr start
  · rcases start with ⟨at', marker⟩ | ⟨literal, -, at'⟩
    · exact Or.inl (by omega)
    · rcases Nat.lt_or_ge s.pos opening.1 with after | before
      · exact Or.inl after
      · refine Or.inr (Or.inl ⟨by omega, fun comment => ?_⟩)
        rw [literal] at comment
        cases comment

theorem Later.marks {s t u : ScanState} (later : Later s t) (marks : Marks t u)
    (order : t = s ∨ s.pos < t.pos) : Later s u := by
  obtain ⟨⟨more, spans, starts⟩, opening⟩ := later
  cases marks with
  | same hidden openHidden =>
    refine ⟨⟨more, hidden.trans spans, starts⟩, ?_⟩
    rw [openHidden]
    exact opening
  | opens _ hidden now start =>
    refine ⟨⟨more, hidden.trans spans, starts⟩, fun other found => ?_⟩
    rw [now] at found
    cases found
    exact start.startsAfter order
  | closes was hidden now =>
    refine ⟨⟨more ++ [_], by rw [hidden, spans, List.append_assoc], ?_⟩, fun other found => ?_⟩
    · intro span member
      rcases List.mem_append.mp member with earlier | last
      · exact starts span earlier
      · rw [List.mem_singleton.mp last]
        exact opening _ was
    · rw [now] at found
      cases found

/-- What holds of every state of a run. -/
structure Sound (s : ScanState) : Prop where
  known : TagKnown s
  tidy : Tidy s
  ends : EndsBefore s

theorem Sound.start (sql : Text) : Sound (ScanState.start sql) where
  known := start_known sql
  tidy := start_tidy sql
  ends := fun _ member => by cases member

theorem scanStep_pos_le {s : ScanState} (known : TagKnown s) : s.pos ≤ (scanStep s).pos := by
  by_cases empty : s.rest = []
  · rw [scanStep_done empty]
  · exact Nat.le_of_lt (scanStep_pos empty known)

theorem Sound.step {s : ScanState} (sound : Sound s) : Sound (scanStep s) where
  known := scanStep_known s sound.known
  tidy := scanStep_tidy s sound.tidy
  ends := sound.ends.marks (scanStep_marks sound.tidy) (scanStep_pos_le sound.known)

theorem Sound.reaches {s t : ScanState} (sound : Sound s) (run : Reaches scanStep s t) : Sound t :=
  Reaches.preserves Sound (fun _ => Sound.step) run sound

theorem Later.of_reaches {s t : ScanState} (sound : Sound s) (none : s.openHidden = none)
    (run : Reaches scanStep s t) : Later s t ∧ (t = s ∨ s.pos < t.pos) := by
  have all : Sound t ∧ Later s t ∧ (t = s ∨ s.pos < t.pos) := by
    refine Reaches.preserves (fun u => Sound u ∧ Later s u ∧ (u = s ∨ s.pos < u.pos)) ?_ run
      ⟨sound, Later.refl none, Or.inl rfl⟩
    rintro u ⟨soundU, later, order⟩
    refine ⟨soundU.step, later.marks (scanStep_marks soundU.tidy) order, ?_⟩
    by_cases empty : u.rest = []
    · rw [scanStep_done empty]
      exact order
    · have grows := scanStep_pos empty soundU.known
      rcases order with rfl | later
      · exact Or.inr grows
      · exact Or.inr (Nat.lt_trans later grows)
  exact all.2

/-- A span that is open will be listed with its start and kind. -/
theorem scan_hidden_open {sql : Text} {s : ScanState} {opening : Nat × Hidden}
    (run : Reaches scanStep (ScanState.start sql) s) (now : s.openHidden = some opening) :
    ∃ stop, (opening.1, stop, opening.2) ∈ (scan sql).hidden := by
  have sound := (Sound.start sql).reaches run
  have kept : ∀ {t u : ScanState}, Marks t u →
      (t.openHidden = some opening ∨ ∃ stop, (opening.1, stop, opening.2) ∈ t.hidden) →
      (u.openHidden = some opening ∨ ∃ stop, (opening.1, stop, opening.2) ∈ u.hidden) := by
    intro t u marks found
    cases marks with
    | same hidden openHidden =>
      rw [hidden, openHidden]
      exact found
    | opens none hidden now' _ =>
      rw [hidden]
      rcases found with open' | listed
      · rw [none] at open'
        cases open'
      · exact Or.inr listed
    | closes was hidden _ =>
      rw [hidden]
      rcases found with open' | ⟨stop, listed⟩
      · rw [was] at open'
        cases open'
        exact Or.inr ⟨u.pos, List.mem_append_right _ List.mem_cons_self⟩
      · exact Or.inr ⟨stop, List.mem_append_left _ listed⟩
  have last : Sound (scanEnd sql) ∧ ((scanEnd sql).openHidden = some opening ∨
      ∃ stop, (opening.1, stop, opening.2) ∈ (scanEnd sql).hidden) := by
    refine Reaches.preserves (fun t => Sound t ∧ (t.openHidden = some opening ∨
      ∃ stop, (opening.1, stop, opening.2) ∈ t.hidden)) ?_ (reaches_scanEnd run)
      ⟨sound, Or.inl now⟩
    rintro t ⟨soundT, found⟩
    exact ⟨soundT.step, kept (scanStep_marks soundT.tidy) found⟩
  rcases kept (Marks.closeHidden (s := scanEnd sql) rfl rfl) last.2 with open' | listed
  · rw [closeHidden_openHidden] at open'
    cases open'
  · exact listed

theorem scan_hidden (sql : Text) : (scan sql).hidden = (closeHidden (scanEnd sql)).hidden := rfl

/-- From a state with no span open, the scan keeps the spans it has and adds later ones. -/
theorem scan_hidden_later {sql : Text} {s : ScanState}
    (run : Reaches scanStep (ScanState.start sql) s) (none : s.openHidden = none) :
    ∃ more, (scan sql).hidden = s.hidden ++ more ∧
      ∀ span ∈ more, StartsAfter s (span.1, span.2.2) := by
  have sound := (Sound.start sql).reaches run
  obtain ⟨later, order⟩ := Later.of_reaches sound none (reaches_scanEnd run)
  exact (later.marks (Marks.closeHidden rfl rfl) order).hidden

end FerroEngine.ScanSpans
