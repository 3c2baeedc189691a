import FerroEngine.LeadingNoise
import FerroEngine.ScanSpans

set_option autoImplicit false

/-! # Leading noise and the region scanner

`strip_leading_noise` works on the raw text, `scan` on regions.  The text is followed by both at
once: what the one skips is what the other takes for white space and comments.
-/

namespace FerroEngine.LeadingNoiseScan

open SourceText StepIteration RegionScanner RegionScannerSteps RegionScannerAgreement
open PostgresLexicalRules PinClassifier LeadingNoise ScanComposition ScanSpans

/-! ## What the scan takes for noise -/

def inSpan (p : Nat) (span : Nat × Nat × Hidden) : Bool :=
  span.1 ≤ p && p < span.2.1

/-- The character at byte `p` lies in a comment, or it is white space in no hidden span. -/
def isNoise (hidden : List (Nat × Nat × Hidden)) (p : Nat) (c : Char) : Bool :=
  hidden.any (fun span => span.2.2 == .comment && inSpan p span) ||
    (isWhitespace c && !hidden.any (inSpan p))

/-- The text that starts at byte `p` without its longest prefix of noise. -/
def dropScanNoise (hidden : List (Nat × Nat × Hidden)) : Nat → Text → Text
  | _, [] => []
  | p, c :: cs =>
    if isNoise hidden p c then dropScanNoise hidden (p + c.utf8Size) cs else c :: cs

/-- The region mask shows white space before the text and then its first character, unless a
literal opens there. -/
def FirstCode (sql text : Text) : Prop :=
  ∃ shown visible, (scan sql).masked = shown ++ visible ∧
    byteLen shown + byteLen text = byteLen sql ∧ (∀ c ∈ shown, isWhitespace c = true) ∧
    ∀ c cs, text = c :: cs → isWhitespace c = false ∧
      (visible.head? = some c ∨ ∃ stop, (byteLen shown, stop, .literal) ∈ (scan sql).hidden)

theorem dropScanNoise_cons {hidden : List (Nat × Nat × Hidden)} {p : Nat} {c : Char} (cs : Text)
    (noise : isNoise hidden p c = true) :
    dropScanNoise hidden p (c :: cs) = dropScanNoise hidden (p + c.utf8Size) cs := by
  rw [dropScanNoise, if_pos noise]

/-- Text inside a comment is noise. -/
theorem dropScanNoise_comment {hidden : List (Nat × Nat × Hidden)} {start stop : Nat}
    (listed : (start, stop, .comment) ∈ hidden) (text rest : Text) (p : Nat) (after : start ≤ p)
    (inside : p + byteLen text ≤ stop) :
    dropScanNoise hidden p (text ++ rest) = dropScanNoise hidden (p + byteLen text) rest := by
  induction text generalizing p with
  | nil => rfl
  | cons c text ih =>
    have size := Char.utf8Size_pos c
    rw [byteLen_cons] at inside ⊢
    have noise : isNoise hidden p c = true := by
      rw [isNoise, Bool.or_eq_true, List.any_eq_true]
      refine Or.inl ⟨_, listed, ?_⟩
      simp only [inSpan, beq_self_eq_true, Bool.true_and, Bool.and_eq_true, decide_eq_true_eq]
      omega
    rw [List.cons_append, dropScanNoise_cons _ noise, ih (p + c.utf8Size) (by omega) (by omega),
      Nat.add_assoc]

/-! ## Comments of the raw text -/

/-- A comment that never closes leaves nothing. -/
theorem skipBlockCommentLoop_unclosed (fuel depth : Nat) (s : Text) (enough : s.length < fuel)
    (unclosed : s.length ≤ blockLen depth s) (inside : 1 ≤ depth) :
    skipBlockCommentLoop fuel depth s = none ∨ skipBlockCommentLoop fuel depth s = some [] := by
  obtain ⟨fuel, rfl⟩ : ∃ n, fuel = n + 1 := ⟨fuel - 1, by omega⟩
  induction depth, s using blockLen.induct generalizing fuel with
  | case1 depth => exact Or.inl rfl
  | case2 depth cs ih =>
    rw [blockLen] at unclosed
    simp only [List.length_cons] at unclosed enough
    rw [skipBlockCommentLoop, findPair_head]
    cases found : findPair '*' '/' ('/' :: '*' :: cs) with
    | none => exact Or.inl rfl
    | some k =>
      have later : 0 < k := by
        rw [findPair_cons (by simp)] at found
        obtain ⟨j, -, rfl⟩ := Option.map_eq_some_iff.mp found
        omega
      obtain ⟨fuel, rfl⟩ : ∃ n, fuel = n + 1 := ⟨fuel - 1, by omega⟩
      simp only [if_pos later]
      exact ih (by omega) (by omega) fuel (by omega)
  | case3 depth cs shallow =>
    have last : depth - 1 = 0 := by omega
    rw [blockLen, if_pos shallow] at unclosed
    simp only [List.length_cons] at unclosed
    have empty : cs = [] := List.length_eq_zero_iff.mp (by omega)
    subst empty
    refine Or.inr ?_
    rw [skipBlockCommentLoop, findPair_head]
    cases findPair '/' '*' ['*', '/'] with
    | none => simp only [if_pos last, List.drop_succ_cons, List.drop_nil]
    | some o =>
      simp only [if_pos last, Nat.not_lt_zero, if_false, List.drop_succ_cons, List.drop_nil]
  | case4 depth cs deep ih =>
    have more : depth - 1 ≠ 0 := by omega
    rw [blockLen, if_neg deep] at unclosed
    simp only [List.length_cons] at unclosed enough
    obtain ⟨fuel, rfl⟩ : ∃ n, fuel = n + 1 := ⟨fuel - 1, by omega⟩
    have next := ih (by omega) (by omega) fuel (by omega)
    rw [skipBlockCommentLoop, findPair_head]
    cases findPair '/' '*' ('*' :: '/' :: cs) with
    | none =>
      simp only [if_neg more]
      exact next
    | some o =>
      simp only [if_neg more, Nat.not_lt_zero, if_false]
      exact next
  | case5 depth c cs noOpen noClose ih =>
    rw [blockLen.eq_4 depth c cs noOpen noClose] at unclosed
    simp only [List.length_cons] at unclosed enough
    have notOpen : ¬(c = '/' ∧ cs.head? = some '*') := by
      rintro ⟨rfl, head⟩
      obtain ⟨ds, rfl⟩ := List.head?_eq_some_iff.mp head
      exact noOpen ds rfl rfl
    have notClose : ¬(c = '*' ∧ cs.head? = some '/') := by
      rintro ⟨rfl, head⟩
      obtain ⟨ds, rfl⟩ := List.head?_eq_some_iff.mp head
      exact noClose ds rfl rfl
    rw [skipBlockCommentLoop_cons fuel depth notOpen notClose]
    exact ih (by omega) inside fuel (by omega)

theorem stripLeadingNoiseLoop_nil (fuel : Nat) : stripLeadingNoiseLoop fuel [] = [] := by
  cases fuel with
  | zero => rfl
  | succ fuel => rfl

/-- Both comment skippers go on at the same place. -/
theorem stripLeadingNoiseLoop_block (fuel : Nat) (cs : Text) :
    stripLeadingNoiseLoop (fuel + 1) ('/' :: '*' :: cs) =
      stripLeadingNoiseLoop fuel (cs.drop (blockLen 1 cs)) := by
  rw [stripLeadingNoiseLoop, trimStart_block]
  simp only
  by_cases closed : blockLen 1 cs < cs.length
  · rw [skipBlockComment_closed cs closed]
  · have empty : cs.drop (blockLen 1 cs) = [] := List.drop_eq_nil_of_le (by omega)
    rw [empty, stripLeadingNoiseLoop_nil, skipBlockComment]
    rcases skipBlockCommentLoop_unclosed _ 1 cs (Nat.lt_succ_self _) (by omega) (Nat.le_refl 1) with
      none | some
    · rw [none]
    · rw [some]
      exact stripLeadingNoiseLoop_nil fuel

theorem drop_takeWhile (p : Char → Bool) (cs : Text) :
    (cs.dropWhile p).drop 1 = cs.drop ((cs.takeWhile p).length + 1) := by
  have split := List.takeWhile_append_dropWhile (p := p) (l := cs)
  calc (cs.dropWhile p).drop 1
      = (cs.takeWhile p ++ cs.dropWhile p).drop ((cs.takeWhile p).length + 1) := by
        rw [List.drop_length_add_append]
    _ = cs.drop ((cs.takeWhile p).length + 1) := by rw [split]

theorem stripLeadingNoiseLoop_line (fuel : Nat) (cs : Text) :
    stripLeadingNoiseLoop (fuel + 1) ('-' :: '-' :: cs) =
      stripLeadingNoiseLoop fuel (cs.drop ((cs.takeWhile (· != '\n')).length + 1)) := by
  rw [stripLeadingNoiseLoop, trimStart_line]
  simp only
  rw [drop_takeWhile]

/-! ## Comments of the scan -/

/-- The scanner is in code with no span open, and a quote would start no `E'..'` literal. -/
structure Quiet (s : ScanState) : Prop where
  region : s.region = .code
  openHidden : s.openHidden = none
  letter : isEStringPrefix s.before = false

theorem Quiet.start (sql : Text) : Quiet (ScanState.start sql) :=
  ⟨rfl, rfl, rfl⟩

/-- The scanner hides `n` more characters and lists the span that is open as one span. -/
def Covers (n : Nat) (s : ScanState) : Prop :=
  ∃ t, Reaches scanStep s t ∧ Passed filler n s t ∧ (t.rest = [] ∨ Quiet t) ∧
    ∀ opening, s.openHidden = some opening →
      (closeHidden t).hidden = s.hidden ++ [(opening.1, t.pos, opening.2)]

theorem Covers.done {s : ScanState} (n : Nat) (empty : s.rest = []) : Covers n s := by
  refine ⟨s, Reaches.refl s, by simp [Passed, empty], Or.inl empty, fun opening now => ?_⟩
  rw [closeHidden, now]

/-- A turn that hides `m` characters and goes to the given region. -/
theorem Covers.hide {m n : Nat} {s : ScanState} (region : Region)
    (turn : scanStep s = { pushHiddenChars m { s with inIdent := false } with region := region })
    (next : ∀ t : ScanState, t.region = region → t.rest = s.rest.drop m → Covers n t) :
    Covers (m + n) s := by
  have passed : Passed filler m s (scanStep s) := by
    rw [turn]
    exact pushHiddenChars_passed m { s with inIdent := false }
  obtain ⟨hidden, openHidden⟩ := pushHiddenChars_spans m { s with inIdent := false }
  obtain ⟨t, run, later, ends, listed⟩ := next (scanStep s) (by rw [turn]) passed.2.1
  refine ⟨t, run.head, passed.trans later, ends, fun opening now => ?_⟩
  rw [listed opening (by rw [turn]; exact openHidden.trans now), turn]
  exact congrArg (· ++ _) hidden

/-- A turn that hides `m` characters and stays in its region. -/
theorem Covers.stay {m n : Nat} {s : ScanState} {region : Region} (current : s.region = region)
    (turn : scanStep s = pushHiddenChars m { s with inIdent := false })
    (next : ∀ t : ScanState, t.region = region → t.rest = s.rest.drop m → Covers n t) :
    Covers (m + n) s := by
  have same := (pushHiddenChars_frame m { s with inIdent := false }).1.trans current
  refine Covers.hide region (turn.trans ?_) next
  rw [← same]

/-- A turn that closes the region with the last of `n` hidden characters. -/
theorem Covers.close {n : Nat} {s : ScanState} (closer : Char)
    (turn : scanStep s =
      { closeHidden (pushHiddenChars n { s with inIdent := false }) with region := .code })
    (last : (s.rest.take n).getLast? = some closer) (upper : closer ≠ 'E')
    (lower : closer ≠ 'e') : Covers n s := by
  have passed : Passed filler n s (scanStep s) := by
    rw [turn]
    exact closeHidden_passed (pushHiddenChars_passed n { s with inIdent := false })
  have none : (scanStep s).openHidden = none := by
    rw [turn]
    exact closeHidden_openHidden _
  have letter : isEStringPrefix (scanStep s).before = false := by
    have head : (scanStep s).before.head? = some closer := by
      rw [passed.1, List.head?_append, List.head?_reverse, last]
      rfl
    obtain ⟨before, eq⟩ := List.head?_eq_some_iff.mp head
    rw [eq]
    exact isEStringPrefix_cons before upper lower
  refine ⟨scanStep s, Reaches.single s, passed, Or.inr ⟨by rw [turn], none, letter⟩, ?_⟩
  intro opening now
  obtain ⟨hidden, openHidden⟩ := pushHiddenChars_spans n { s with inIdent := false }
  have marks := Marks.leave n { s with inIdent := false }
  have closed : closeHidden (scanStep s) = scanStep s := by rw [closeHidden, none]
  rw [closed]
  cases marks with
  | same _ still =>
    have impossible := still.symm.trans (closeHidden_openHidden _)
    rw [show s.openHidden = some opening from now] at impossible
    cases impossible
  | opens wasNone _ _ _ =>
    rw [show s.openHidden = some opening from now] at wasNone
    cases wasNone
  | closes was listed _ =>
    rw [show s.openHidden = some opening from now] at was
    cases was
    rw [turn]
    exact listed

theorem lineComment_covers (cs : Text) (s : ScanState) (region : s.region = .lineComment)
    (rest : s.rest = cs) : Covers ((cs.takeWhile (· != '\n')).length + 1) s := by
  induction cs generalizing s with
  | nil => exact Covers.done _ rest
  | cons c cs ih =>
    by_cases newline : c = '\n'
    · rw [List.takeWhile_cons_of_neg (by simp [newline])]
      refine Covers.close '\n' ?_ (by rw [rest, newline]; rfl) (by decide) (by decide)
      simp only [scanStep, rest, region, scanLineComment, if_pos newline]
      rfl
    · rw [List.takeWhile_cons_of_pos (by simpa using newline), List.length_cons, Nat.add_comm]
      refine Covers.stay region ?_ fun t now left => ih t now (by rw [left, rest]; rfl)
      simp only [scanStep, rest, region, scanLineComment, if_neg newline]
      rfl

theorem blockComment_covers (depth : Nat) (cs : Text) (s : ScanState)
    (region : s.region = .blockComment depth) (rest : s.rest = cs) :
    Covers (blockLen depth cs) s := by
  induction depth, cs using blockLen.induct generalizing s with
  | case1 depth => exact Covers.done _ rest
  | case2 depth cs ih =>
    rw [blockLen]
    refine Covers.hide (.blockComment (depth + 1)) ?_ fun t now left => ?_
    · simp [scanStep, rest, region, scanBlockComment]
    · exact ih t now (by rw [left, rest]; rfl)
  | case3 depth cs shallow =>
    rw [blockLen, if_pos shallow]
    refine Covers.close '/' ?_ (by rw [rest]; rfl) (by decide) (by decide)
    simp [scanStep, rest, region, scanBlockComment, shallow]
  | case4 depth cs deep ih =>
    rw [blockLen, if_neg deep]
    refine Covers.hide (.blockComment (depth - 1)) ?_ fun t now left => ?_
    · simp [scanStep, rest, region, scanBlockComment, deep]
    · exact ih t now (by rw [left, rest]; rfl)
  | case5 depth c cs noOpen noClose ih =>
    rw [blockLen.eq_4 depth c cs noOpen noClose]
    have notOpen : ¬(c = '/' ∧ cs.head? = some '*') := by
      rintro ⟨rfl, head⟩
      obtain ⟨ds, rfl⟩ := List.head?_eq_some_iff.mp head
      exact noOpen ds rfl rfl
    have notClose : ¬(c = '*' ∧ cs.head? = some '/') := by
      rintro ⟨rfl, head⟩
      obtain ⟨ds, rfl⟩ := List.head?_eq_some_iff.mp head
      exact noClose ds rfl rfl
    refine Covers.stay region ?_ fun t now left => ih t now (by rw [left, rest]; rfl)
    simp only [scanStep, rest, region, scanBlockComment, if_neg notOpen, if_neg notClose]
    rfl

/-! ## Skipped noise -/

/-- From `s` to `t` the scanner consumes noise only and the mask shows white space only. -/
structure Skips (sql : Text) (s t : ScanState) : Prop where
  run : Reaches scanStep s t
  noise : dropScanNoise (scan sql).hidden s.pos s.rest = dropScanNoise (scan sql).hidden t.pos t.rest
  masked : ∃ shown, t.masked = s.masked ++ shown ∧ t.pos = s.pos + byteLen shown ∧
    ∀ c ∈ shown, isWhitespace c = true

theorem Skips.refl (sql : Text) (s : ScanState) : Skips sql s s where
  run := Reaches.refl s
  noise := rfl
  masked := ⟨[], by rw [List.append_nil], rfl, by simp⟩

theorem Skips.trans {sql : Text} {s t u : ScanState} (first : Skips sql s t)
    (second : Skips sql t u) : Skips sql s u := by
  obtain ⟨shown, masked, pos, white⟩ := first.masked
  obtain ⟨shown', masked', pos', white'⟩ := second.masked
  refine ⟨first.run.trans second.run, first.noise.trans second.noise, shown ++ shown', ?_, ?_, ?_⟩
  · rw [masked', masked, List.append_assoc]
  · rw [pos', pos, byteLen_append, Nat.add_assoc]
  · intro c member
    rcases List.mem_append.mp member with early | late
    · exact white c early
    · exact white' c late

theorem pos_of_passed {shown : Char → Text} {n : Nat} {s t : ScanState} (passed : Passed shown n s t) :
    t.pos = s.pos + byteLen (s.rest.take n) := by
  rw [ScanState.pos, passed.1, byteLen_append, byteLen_reverse, Nat.add_comm]
  rfl

theorem blank_white (text : Text) : ∀ c ∈ blank text, isWhitespace c = true := by
  intro c member
  obtain ⟨raw, -, filled⟩ := List.mem_flatMap.mp member
  rw [List.eq_of_mem_replicate filled]
  rfl

/-- No span of the scan holds the position of a state without an open span that starts no literal
or comment. -/
theorem not_inSpan {sql : Text} {s : ScanState}
    (run : Reaches scanStep (ScanState.start sql) s) {spans more : List (Nat × Nat × Hidden)}
    (before : spans = s.hidden ++ more) (after : ∀ span ∈ more, s.pos < span.1) :
    spans.any (inSpan s.pos) = false := by
  have ends := ((Sound.start sql).reaches run).ends
  rw [List.any_eq_false, before]
  intro span member
  simp only [inSpan, Bool.and_eq_true, decide_eq_true_eq, not_and, Nat.not_lt]
  rcases List.mem_append.mp member with earlier | later
  · exact fun _ => ends span earlier
  · have := after span later
    omega

theorem Quiet.startsAfter {s : ScanState} (quiet : Quiet s) {opening : Nat × Hidden}
    (start : StartsAfter s opening) : s.pos ≤ opening.1 := by
  rcases start with after | ⟨at', -⟩ | ⟨-, marked, -⟩
  · exact Nat.le_of_lt after
  · exact Nat.le_of_eq at'.symm
  · rw [quiet.letter] at marked
    cases marked

theorem plain_of_white {c : Char} (white : isWhitespace c = true) (cs : Text) : Plain c cs := by
  refine ⟨?_, ?_, ?_, ?_, ?_, ?_⟩
  · rintro rfl
    exact absurd white (by decide)
  · rintro rfl
    exact absurd white (by decide)
  · rintro ⟨rfl, -⟩
    exact absurd white (by decide)
  · rintro ⟨rfl, -⟩
    exact absurd white (by decide)
  · rintro rfl
    exact absurd white (by decide)
  · rintro rfl
    exact absurd white (by decide)

/-- White space in code is consumed as noise. -/
theorem Skips.space {sql : Text} {s : ScanState} {c : Char} {cs : Text}
    (run : Reaches scanStep (ScanState.start sql) s) (quiet : Quiet s) (rest : s.rest = c :: cs)
    (white : isWhitespace c = true) :
    Skips sql s (scanStep s) ∧ Quiet (scanStep s) ∧ (scanStep s).rest = cs := by
  have turn := scanStep_plain quiet.region rest (plain_of_white white cs)
  have passed : Passed (fun c => [c]) 1 s (scanStep s) := by
    rw [turn]
    exact pushVisibleChar_passed { s with inIdent := continuesIdent s.inIdent c }
  obtain ⟨hidden, openHidden⟩ :=
    pushVisibleChar_spans { s with inIdent := continuesIdent s.inIdent c }
  rw [← turn] at hidden openHidden
  have pos : (scanStep s).pos = s.pos + c.utf8Size := by
    rw [pos_of_passed passed, rest]
    rfl
  have left : (scanStep s).rest = cs := by
    rw [passed.2.1, rest]
    rfl
  have quiet' : Quiet (scanStep s) := by
    refine ⟨?_, openHidden.trans quiet.openHidden, ?_⟩
    · rw [turn, (pushVisibleChar_frame _).1]
      exact quiet.region
    · rw [passed.1, rest]
      refine isEStringPrefix_cons s.before ?_ ?_
      · rintro rfl
        exact absurd white (by decide)
      · rintro rfl
        exact absurd white (by decide)
  refine ⟨⟨Reaches.single s, ?_, [c], ?_, ?_, by simpa using white⟩, quiet', left⟩
  · obtain ⟨more, listed, starts⟩ :=
      scan_hidden_later (run.trans (Reaches.single s)) quiet'.openHidden
    have outside := not_inSpan run (listed.trans (by rw [hidden])) fun span member => by
      have after := quiet'.startsAfter (starts span member)
      have size := Char.utf8Size_pos c
      rw [pos] at after
      exact Nat.lt_of_lt_of_le (by omega) after
    have noise : isNoise (scan sql).hidden s.pos c = true := by
      rw [isNoise, outside, white]
      simp
    rw [rest, dropScanNoise_cons cs noise, left, pos]
  · rw [passed.2.2.1, rest]
    rfl
  · rw [pos, byteLen_cons, byteLen_nil]
    rfl

theorem Skips.spaces {sql : Text} (text : Text) (s : ScanState)
    (run : Reaches scanStep (ScanState.start sql) s) (quiet : Quiet s) (rest : s.rest = text) :
    ∃ t, Skips sql s t ∧ Quiet t ∧ t.rest = trimStart text := by
  induction text generalizing s with
  | nil => exact ⟨s, Skips.refl sql s, quiet, rest⟩
  | cons c cs ih =>
    by_cases white : isWhitespace c = true
    · obtain ⟨skips, quiet', left⟩ := Skips.space run quiet rest white
      obtain ⟨t, later, quietT, restT⟩ := ih (scanStep s) (run.trans skips.run) quiet' left
      exact ⟨t, skips.trans later, quietT, by rw [restT, trimStart_space white]⟩
    · refine ⟨s, Skips.refl sql s, quiet, ?_⟩
      rw [trimStart, List.dropWhile_cons_of_neg white]
      exact rest

/-- A comment is consumed as noise. -/
theorem Skips.comment {sql : Text} {s : ScanState} {a b : Char} {cs : Text} {n : Nat}
    {inIdent : Bool} {region : Region} (run : Reaches scanStep (ScanState.start sql) s)
    (rest : s.rest = a :: b :: cs)
    (turn : scanStep s = { pushHiddenChars 2 { s with
      inIdent := inIdent, openHidden := some (s.pos, .comment) } with region := region })
    (covers : (scanStep s).rest = cs → (scanStep s).region = region → Covers n (scanStep s)) :
    ∃ t, Skips sql s t ∧ (t.rest = [] ∨ Quiet t) ∧ t.rest = cs.drop n := by
  let opened : ScanState :=
    { s with inIdent := inIdent, openHidden := some (s.pos, .comment) }
  have two : Passed filler 2 s (scanStep s) := by
    rw [turn]
    exact pushHiddenChars_passed 2 opened
  obtain ⟨hidden, openHidden⟩ := pushHiddenChars_spans 2 opened
  have left : (scanStep s).rest = cs := by
    rw [two.2.1, rest]
    rfl
  obtain ⟨t, later, more, ends, listed⟩ := covers left (by rw [turn])
  have whole := Reaches.head later
  have passed := two.trans more
  have span : (closeHidden t).hidden = s.hidden ++ [(s.pos, t.pos, .comment)] := by
    rw [listed (s.pos, .comment) (by rw [turn]; exact openHidden), turn]
    exact congrArg (· ++ _) hidden
  have member : (s.pos, t.pos, Hidden.comment) ∈ (scan sql).hidden := by
    rcases ends with empty | quietT
    · rw [scan_hidden, scanEnd_eq (run.trans whole) empty, span]
      exact List.mem_append_right _ List.mem_cons_self
    · have closed : closeHidden t = t := by rw [closeHidden, quietT.openHidden]
      obtain ⟨others, all, -⟩ := scan_hidden_later (run.trans whole) quietT.openHidden
      rw [closed] at span
      rw [all, span]
      exact List.mem_append_left _ (List.mem_append_right _ List.mem_cons_self)
  refine ⟨t, ⟨whole, ?_, blank (s.rest.take (2 + n)), passed.2.2.1, ?_, blank_white _⟩, ends, ?_⟩
  · have pos := pos_of_passed passed
    have split := List.take_append_drop (2 + n) s.rest
    rw [passed.2.1]
    conv_lhs => rw [← split]
    rw [dropScanNoise_comment member _ _ s.pos (Nat.le_refl _) (Nat.le_of_eq pos.symm), pos]
  · rw [byteLen_blank]
    exact pos_of_passed passed
  · rw [more.2.1, left]

/-! ## The first code byte -/

/-- Where the loop stops, neither the text nor the scan has noise. -/
theorem Quiet.stops {sql : Text} {s : ScanState} {c : Char} {cs : Text}
    (run : Reaches scanStep (ScanState.start sql) s) (quiet : Quiet s) (rest : s.rest = c :: cs)
    (significant : Significant (c :: cs)) : isNoise (scan sql).hidden s.pos c = false := by
  obtain ⟨d, ds, same, visible⟩ := significant.head
  obtain ⟨rfl, -⟩ := List.cons.inj same
  obtain ⟨more, listed, starts⟩ := scan_hidden_later run quiet.openHidden
  have ends := ((Sound.start sql).reaches run).ends
  rw [isNoise, visible, Bool.false_and, Bool.or_false, List.any_eq_false, listed]
  rintro ⟨start, stop, kind⟩ member
  simp only [inSpan, Bool.and_eq_true, beq_iff_eq, decide_eq_true_eq, not_and, Nat.not_lt]
  rintro rfl before
  rcases List.mem_append.mp member with earlier | later
  · exact ends _ earlier
  · rcases starts _ later with after | ⟨-, marker⟩ | ⟨literal, -⟩
    · exact absurd before (Nat.not_le_of_lt after)
    · rcases marker rfl with ⟨tail, line⟩ | ⟨tail, block⟩
      · exact absurd (rest.symm.trans line.symm) (significant.line tail)
      · exact absurd (rest.symm.trans block.symm) (significant.block tail)
    · cases literal

/-- The first character that is not noise shows in the mask or opens a literal. -/
theorem Quiet.first_visible {s : ScanState} {c : Char} {cs : Text} (quiet : Quiet s)
    (rest : s.rest = c :: cs) (significant : Significant (c :: cs)) :
    (scanStep s).masked = s.masked ++ [c] ∨
      (scanStep s).openHidden = some (s.pos, .literal) := by
  have visible : ∀ u : ScanState, u.rest = c :: cs → (pushVisibleChar u).masked = u.masked ++ [c] := by
    intro u restU
    rw [(pushVisibleChar_passed u).2.2.1, restU]
    rfl
  by_cases inside : c = '$' ∧ s.inIdent = true
  · refine Or.inl ?_
    simp only [scanStep, rest, quiet.region, if_pos inside]
    exact visible s rest
  rw [scanStep_code quiet.region rest inside]
  unfold scanCode
  by_cases quote : c = '\''
  · rw [if_pos quote]
    refine Or.inr ((pushHiddenChar_spans _).2.trans ?_)
    simp only [quiet.letter, Bool.false_eq_true, if_false]
    rfl
  rw [if_neg quote]
  by_cases double : c = '"'
  · rw [if_pos double]
    exact Or.inl (visible _ rest)
  rw [if_neg double]
  have line : ¬(c = '-' ∧ cs.head? = some '-') := by
    rintro ⟨rfl, head⟩
    obtain ⟨ds, rfl⟩ := List.head?_eq_some_iff.mp head
    exact significant.line ds rfl
  have block : ¬(c = '/' ∧ cs.head? = some '*') := by
    rintro ⟨rfl, head⟩
    obtain ⟨ds, rfl⟩ := List.head?_eq_some_iff.mp head
    exact significant.block ds rfl
  rw [if_neg line, if_neg block]
  by_cases dollar : c = '$'
  · rw [if_pos dollar]
    split
    next => exact Or.inr (pushHiddenChars_spans _ _).2
    next => exact Or.inl (visible _ rest)
  rw [if_neg dollar]
  by_cases semi : c = ';'
  · rw [if_pos semi]
    exact Or.inl (visible _ rest)
  · rw [if_neg semi]
    exact Or.inl (visible _ rest)

theorem stripLeadingNoiseLoop_trimStart (fuel : Nat) (text : Text) :
    stripLeadingNoiseLoop (fuel + 1) (trimStart text) = stripLeadingNoiseLoop (fuel + 1) text := by
  have again : trimStart (trimStart text) = trimStart text := List.dropWhile_idempotent isWhitespace text
  rw [stripLeadingNoiseLoop, again, stripLeadingNoiseLoop]

/-- Trimmed text is empty, a comment or significant. -/
theorem trimStart_cases (text : Text) :
    trimStart text = [] ∨ (∃ cs, trimStart text = '-' :: '-' :: cs) ∨
      (∃ cs, trimStart text = '/' :: '*' :: cs) ∨ Significant (trimStart text) := by
  cases shape : trimStart text with
  | nil => exact Or.inl rfl
  | cons c cs =>
    have visible : isWhitespace c = false := by
      have head := List.head?_dropWhile_not isWhitespace text
      rw [trimStart] at shape
      rw [shape] at head
      exact head
    by_cases line : ∃ ds, c :: cs = '-' :: '-' :: ds
    · exact Or.inr (Or.inl line)
    by_cases block : ∃ ds, c :: cs = '/' :: '*' :: ds
    · exact Or.inr (Or.inr (Or.inl block))
    refine Or.inr (Or.inr (Or.inr ⟨⟨c, cs, rfl, visible⟩, ?_, ?_⟩))
    · exact fun ds same => line ⟨ds, same⟩
    · exact fun ds same => block ⟨ds, same⟩

/-- The loop stops at the end of the text, or in code before text that is not noise. -/
theorem strips (sql : Text) (fuel : Nat) (s : ScanState)
    (run : Reaches scanStep (ScanState.start sql) s) (quiet : Quiet s)
    (enough : s.rest.length < fuel) :
    ∃ t, Skips sql s t ∧ t.rest = stripLeadingNoiseLoop fuel s.rest ∧
      (t.rest = [] ∨ (Quiet t ∧ Significant t.rest)) := by
  induction fuel generalizing s with
  | zero => omega
  | succ fuel ih =>
    obtain ⟨u, spaces, quietU, trimmed⟩ := Skips.spaces s.rest s run quiet rfl
    have short : u.rest.length ≤ s.rest.length := by
      rw [trimmed, trimStart]
      exact (List.dropWhile_sublist _).length_le
    -- A comment that ends somewhere is followed by a shorter text.
    have resume : ∀ (v : ScanState) (cs : Text) (n : Nat), Skips sql u v →
        (v.rest = [] ∨ Quiet v) → v.rest = cs.drop n → cs.length < fuel →
        ∃ t, Skips sql s t ∧ t.rest = stripLeadingNoiseLoop fuel (cs.drop n) ∧
          (t.rest = [] ∨ (Quiet t ∧ Significant t.rest)) := by
      intro v cs n skips ends left shorter
      rcases ends with empty | quietV
      · exact ⟨v, spaces.trans skips,
          by rw [← left, empty, stripLeadingNoiseLoop_nil], Or.inl empty⟩
      · obtain ⟨t, later, final, stops⟩ :=
          ih v (run.trans (spaces.run.trans skips.run)) quietV (by
            rw [left, List.length_drop]
            omega)
        exact ⟨t, (spaces.trans skips).trans later, by rw [final, left], stops⟩
    rw [← stripLeadingNoiseLoop_trimStart]
    rcases trimStart_cases s.rest with empty | ⟨cs, line⟩ | ⟨cs, block⟩ | significant
    · rw [empty, stripLeadingNoiseLoop_nil]
      exact ⟨u, spaces, trimmed.trans empty, Or.inl (trimmed.trans empty)⟩
    · rw [line, stripLeadingNoiseLoop_line]
      have rest := trimmed.trans line
      have turn := scanStep_code quietU.region rest (by simp)
      rw [scanCode, if_neg (by decide), if_neg (by decide), if_pos (by simp)] at turn
      obtain ⟨v, skips, ends, left⟩ := Skips.comment (run.trans spaces.run) rest turn
        fun left region => lineComment_covers cs (scanStep u) region left
      rw [rest] at short
      simp only [List.length_cons] at short
      exact resume v cs _ skips ends left (by omega)
    · rw [block, stripLeadingNoiseLoop_block]
      have rest := trimmed.trans block
      have turn := scanStep_code quietU.region rest (by simp)
      rw [scanCode, if_neg (by decide), if_neg (by decide), if_neg (by simp),
        if_pos (by simp)] at turn
      obtain ⟨v, skips, ends, left⟩ := Skips.comment (run.trans spaces.run) rest turn
        fun left region => blockComment_covers 1 cs (scanStep u) region left
      rw [rest] at short
      simp only [List.length_cons] at short
      exact resume v cs _ skips ends left (by omega)
    · rw [stripLeadingNoiseLoop_significant fuel significant]
      exact ⟨u, spaces, trimmed, Or.inr ⟨quietU, trimmed ▸ significant⟩⟩

/-- The mask of the whole text goes on from what the skipped noise shows. -/
theorem Skips.firstCode {sql : Text} {t : ScanState} (skips : Skips sql (ScanState.start sql) t)
    (stops : t.rest = [] ∨ (Quiet t ∧ Significant t.rest)) : FirstCode sql t.rest := by
  obtain ⟨shown, masked, pos, white⟩ := skips.masked
  have masked' : t.masked = shown := masked
  have pos' : t.pos = byteLen shown := pos.trans (Nat.zero_add _)
  have total := reaches_pos skips.run
  rw [pos'] at total
  have known : TagKnown t := ((Sound.start sql).reaches skips.run).known
  cases rest : t.rest with
  | nil =>
    rw [rest] at total
    refine ⟨shown, [], ?_, total, white, fun c cs same => by cases same⟩
    rw [(scan_eq sql).1, scanEnd_eq skips.run rest, masked', List.append_nil]
  | cons c cs =>
    obtain ⟨quiet, significant⟩ := stops.resolve_left (by simp [rest])
    rw [rest] at significant total
    obtain ⟨d, ds, same, visible⟩ := significant.head
    obtain ⟨rfl, -⟩ := List.cons.inj same
    rcases quiet.first_visible rest significant with seen | literal
    · obtain ⟨-, added, -, extended, -⟩ := reaches_extends (scanStep_known t known)
        (reaches_scanEnd (skips.run.trans (Reaches.single t)))
      refine ⟨shown, c :: added, ?_, total, white, ?_⟩
      · rw [(scan_eq sql).1, extended, seen, masked', List.append_assoc]
        rfl
      · rintro e es first
        obtain ⟨rfl, -⟩ := List.cons.inj first
        exact ⟨visible, Or.inl rfl⟩
    · obtain ⟨-, added, -, extended, -⟩ := reaches_extends known (reaches_scanEnd skips.run)
      refine ⟨shown, added, ?_, total, white, ?_⟩
      · rw [(scan_eq sql).1, extended, masked']
      · rintro e es first
        obtain ⟨rfl, -⟩ := List.cons.inj first
        refine ⟨visible, Or.inr ?_⟩
        rw [← pos']
        exact scan_hidden_open (skips.run.trans (Reaches.single t)) literal

/-- What `strip_leading_noise` removes is the longest prefix that `scan` takes for white space and
comments, and the region mask shows the first code byte at the same place. -/
theorem stripLeadingNoise_eq_dropScanNoise (sql : Text) :
    stripLeadingNoise sql = dropScanNoise (scan sql).hidden 0 sql ∧
      FirstCode sql (stripLeadingNoise sql) := by
  obtain ⟨t, skips, final, stops⟩ := strips sql (sql.length + 1) (ScanState.start sql)
    (Reaches.refl _) (Quiet.start sql) (Nat.lt_succ_self _)
  change t.rest = stripLeadingNoise sql at final
  have noise : dropScanNoise (scan sql).hidden 0 sql =
      dropScanNoise (scan sql).hidden t.pos t.rest := skips.noise
  have stopped : dropScanNoise (scan sql).hidden t.pos t.rest = t.rest := by
    cases rest : t.rest with
    | nil => rfl
    | cons c cs =>
      obtain ⟨quiet, significant⟩ := stops.resolve_left (by simp [rest])
      rw [rest] at significant
      have other := Quiet.stops skips.run quiet rest significant
      rw [dropScanNoise, if_neg (by rw [other]; exact Bool.false_ne_true)]
  refine ⟨by rw [noise, stopped, final], ?_⟩
  rw [← final]
  exact skips.firstCode stops

example : dropScanNoise (scan ['/', '*', '*', '/', ' ', '\'', '\'']).hidden 0
    ['/', '*', '*', '/', ' ', '\'', '\''] = ['\'', '\''] := by decide

end FerroEngine.LeadingNoiseScan
