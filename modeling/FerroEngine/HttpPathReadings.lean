import FerroEngine.HttpTarget
import Mathlib.Logic.Function.Iterate

set_option autoImplicit false

/-! # How an upstream may read a path

Percent-decoding, `\` as `/`, `;` parameters and dot segments, as a server may apply them to a
path that the validator accepted.
-/

namespace FerroEngine.HttpPathReadings

open HttpSyntax HttpTarget

/-! ## Readings -/

/-- One percent-decoding; a `%` without two hex digits stays. -/
def decode : Bytes → Bytes
  | b :: h :: l :: rest =>
    if b = percent then
      match hexVal h, hexVal l with
      | some high, some low => ((high <<< 4) ||| low) :: decode rest
      | _, _ => b :: decode (h :: l :: rest)
    else b :: decode (h :: l :: rest)
  | bytes => bytes

def slashes (bytes : Bytes) : Bytes :=
  bytes.map fun b => if b = backslash then slash else b

/-- Every segment up to its first `;`; the flag says that the current one has been cut. -/
def cutParams : Bool → Bytes → Bytes
  | _, [] => []
  | cut, b :: rest =>
    if b = slash then slash :: cutParams false rest
    else if cut || b == semicolon then cutParams true rest
    else b :: cutParams false rest

/-- The output without its last segment and the `/` before it. -/
def dropSegment (output : Bytes) : Bytes :=
  ((output.reverse.dropWhile (· != slash)).drop 1).reverse

/-- `remove_dot_segments` of RFC 3986; every step takes a byte of the input. -/
def removeDotSegmentsLoop : Nat → Bytes → Bytes → Bytes
  | 0, _, output => output
  | fuel + 1, input, output =>
    if input.isEmpty then output
    else if [dot, dot, slash].isPrefixOf input then
      removeDotSegmentsLoop fuel (input.drop 3) output
    else if [dot, slash].isPrefixOf input then
      removeDotSegmentsLoop fuel (input.drop 2) output
    else if [slash, dot, slash].isPrefixOf input then
      removeDotSegmentsLoop fuel (input.drop 2) output
    else if input = [slash, dot] then removeDotSegmentsLoop fuel [slash] output
    else if [slash, dot, dot, slash].isPrefixOf input then
      removeDotSegmentsLoop fuel (input.drop 3) (dropSegment output)
    else if input = [slash, dot, dot] then
      removeDotSegmentsLoop fuel [slash] (dropSegment output)
    else if input = [dot] ∨ input = [dot, dot] then output
    else
      let first := input.take 1 ++ (input.drop 1).takeWhile (· != slash)
      removeDotSegmentsLoop fuel (input.drop first.length) (output ++ first)

def removeDotSegments (path : Bytes) : Bytes :=
  removeDotSegmentsLoop path.length path []

/-- Decoded `n` times, with `\` as `/` and without parameters. -/
def reading (n : Nat) (path : Bytes) : Bytes :=
  cutParams false (slashes (decode^[n] path))

/-- The path is the other one, or below it at a segment boundary. -/
def Below (p t : Bytes) : Prop :=
  t = p ∨ ∃ rest, t = p ++ rest ∧ (p.getLast? = some slash ∨ rest.head? = some slash)

/-! ## Decoding -/

/-- Every `%` starts a whole escape. -/
inductive Escaped : Bytes → Prop
  | nil : Escaped []
  | byte {b : UInt8} {rest : Bytes} (other : b ≠ percent) (tail : Escaped rest) :
      Escaped (b :: rest)
  | escape {h l high low : UInt8} {rest : Bytes} (first : hexVal h = some high)
      (second : hexVal l = some low) (tail : Escaped rest) : Escaped (percent :: h :: l :: rest)

theorem escaped_of_checked {i : Nat} {bytes : Bytes} (ok : checkPercents i bytes = .ok ()) :
    Escaped bytes := by
  fun_induction checkPercents i bytes with
  | case1 => exact .nil
  | case2 => cases ok
  | case3 i b other => exact .byte other .nil
  | case4 => cases ok
  | case5 i b c other ih => exact .byte other (ih ok)
  | case6 => cases ok
  | case7 i h l rest high low second first nonzero ih => exact .escape first second (ih ok)
  | case8 => cases ok
  | case9 i b h l rest other ih => exact .byte other (ih ok)

theorem decode_other {b : UInt8} (other : b ≠ percent) (rest : Bytes) :
    decode (b :: rest) = b :: decode rest := by
  match rest with
  | [] => rfl
  | [_] => rfl
  | h :: l :: rest => rw [decode, if_neg other]

theorem decode_of_plain {bytes : Bytes} (plain : percent ∉ bytes) : decode bytes = bytes := by
  induction bytes with
  | nil => rfl
  | cons b rest ih =>
    rw [List.mem_cons, not_or] at plain
    rw [decode_other (Ne.symm plain.1), ih plain.2]

theorem decode_literal {b h l : UInt8} (broken : hexVal h = none ∨ hexVal l = none) (rest : Bytes) :
    decode (b :: h :: l :: rest) = b :: decode (h :: l :: rest) := by
  rw [decode]
  split_ifs
  · split
    · next high low =>
      rcases broken with none' | none'
      · rw [high] at none'
        cases none'
      · rw [low] at none'
        cases none'
    · rfl
  · rfl

/-- A byte before one that is no hex digit. -/
theorem decode_before {b c : UInt8} (noHex : hexVal c = none) (rest : Bytes) :
    decode (b :: c :: rest) = b :: decode (c :: rest) := by
  cases rest with
  | nil => rfl
  | cons l rest => exact decode_literal (Or.inl noHex) rest

/-- A byte that is no hex digit belongs to no escape before it. -/
theorem decode_append_cons {c : UInt8} (noHex : hexVal c = none) (bytes rest : Bytes) :
    decode (bytes ++ c :: rest) = decode bytes ++ decode (c :: rest) := by
  induction bytes using decode.induct with
  | case1 h l bytes high low hHigh hLow ih =>
    simp only [List.cons_append, decode, if_true, hHigh, hLow, ih]
  | case2 h l bytes broken ih =>
    have broken' : hexVal h = none ∨ hexVal l = none := by
      cases high : hexVal h with
      | none => exact Or.inl rfl
      | some x =>
        cases low : hexVal l with
        | none => exact Or.inr rfl
        | some y => exact absurd low (broken x y high)
    simp only [List.cons_append] at ih ⊢
    rw [decode_literal broken', decode_literal broken', ih, List.cons_append]
  | case3 b h l bytes other ih =>
    simp only [List.cons_append] at ih ⊢
    rw [decode_other other, decode_other other, ih, List.cons_append]
  | case4 bytes short =>
    match bytes, short with
    | [], _ => rfl
    | [x], _ => exact decode_before noHex rest
    | [x, y], _ =>
      simp only [List.cons_append, List.nil_append]
      rw [decode_literal (Or.inr noHex), decode_before noHex]
      rfl
    | x :: y :: z :: more, short => exact absurd rfl (short x y z more)

/-- Whole escapes are decoded one by one. -/
theorem decode_append {p : Bytes} (whole : Escaped p) (rest : Bytes) :
    decode (p ++ rest) = decode p ++ decode rest := by
  induction whole with
  | nil => rfl
  | byte other tail ih =>
    rw [List.cons_append, decode_other other, decode_other other, ih, List.cons_append]
  | escape first second tail ih =>
    simp only [List.cons_append, decode, if_true, first, second, ih]

theorem hexVal_question : hexVal question = none := rfl

theorem ne_question_of_hex {b v : UInt8} (hex : hexVal b = some v) : b ≠ question := by
  intro same
  rw [same, hexVal_question] at hex
  cases hex

/-- The query starts outside every escape. -/
theorem escaped_pathOf {t : Bytes} (whole : Escaped t) : Escaped (pathOf t) := by
  unfold pathOf
  induction whole with
  | nil => exact .nil
  | byte other tail ih =>
    rw [List.takeWhile_cons]
    split_ifs
    · exact .byte other ih
    · exact .nil
  | escape first second tail ih =>
    have high := bne_iff_ne.mpr (ne_question_of_hex first)
    have low := bne_iff_ne.mpr (ne_question_of_hex second)
    rw [List.takeWhile_cons, if_pos (by decide), List.takeWhile_cons, if_pos high,
      List.takeWhile_cons, if_pos low]
    exact .escape first second ih

theorem decodePath_other {params : PathParams} {encoding : PathEncoding} {i : Nat} {b : UInt8}
    (other : b ≠ percent) (rest : Bytes) :
    decodePath params encoding i (b :: rest) =
      if b = semicolon ∧ params = .refuse then .error (.at' .pathParam i)
      else (decodePath params encoding (i + 1) rest).map (b :: ·) := by
  match rest with
  | [] => rfl
  | [_] => rfl
  | h :: l :: rest => rw [decodePath, if_neg other]

/-- What `check_path` works on is the decoded path, which holds no `%`. -/
theorem decodePath_ok {params : PathParams} {encoding : PathEncoding} {i : Nat} {path out : Bytes}
    (whole : Escaped path) (ok : decodePath params encoding i path = .ok out) :
    out = decode path ∧ percent ∉ out := by
  induction whole generalizing i out with
  | nil =>
    cases ok
    exact ⟨rfl, List.not_mem_nil⟩
  | @byte b rest other tail ih =>
    rw [decodePath_other other] at ok
    split_ifs at ok
    cases more : decodePath params encoding (i + 1) rest with
    | error e =>
      rw [more] at ok
      cases ok
    | ok out' =>
      rw [more] at ok
      cases ok
      obtain ⟨same, plain⟩ := ih more
      rw [decode_other other, ← same, List.mem_cons, not_or]
      exact ⟨rfl, Ne.symm other, plain⟩
  | @escape h l high low rest first second tail ih =>
    rw [decodePath, if_pos rfl, first, second] at ok
    simp only [Option.getD_some] at ok
    split_ifs at ok with double control high'
    cases more : decodePath params encoding (i + 3) rest with
    | error e =>
      rw [more] at ok
      cases ok
    | ok out' =>
      rw [more] at ok
      cases ok
      obtain ⟨same, plain⟩ := ih more
      have read : decode (percent :: h :: l :: rest) = ((high <<< 4) ||| low) :: decode rest := by
        simp only [decode, if_true, first, second]
      rw [read, ← same, List.mem_cons, not_or]
      exact ⟨rfl, Ne.symm double, plain⟩

theorem decode_iterate {path : Bytes} (plain : percent ∉ decode path) (n : Nat) :
    decode^[n + 1] path = decode path := by
  induction n with
  | zero => rfl
  | succ n ih => rw [Function.iterate_succ_apply', ih, decode_of_plain plain]

/-! ## Parameters -/

theorem cutParams_append (cut : Bool) (bytes rest : Bytes) :
    cutParams cut (bytes ++ slash :: rest) =
      cutParams cut bytes ++ slash :: cutParams false rest := by
  induction bytes generalizing cut with
  | nil => rfl
  | cons b bytes ih =>
    rw [List.cons_append, cutParams, cutParams]
    split_ifs
    · rw [ih, List.cons_append]
    · exact ih true
    · rw [ih, List.cons_append]

/-- Every segment of a text that was cut starts where one of the text does. -/
theorem cutParams_segment {cut : Bool} {bytes pre t : Bytes}
    (same : cutParams cut bytes = pre ++ slash :: t) :
    ∃ pre' t', bytes = pre' ++ slash :: t' ∧ cutParams false t' = t := by
  induction bytes generalizing cut pre with
  | nil =>
    have impossible := congrArg List.length same
    simp [cutParams] at impossible
  | cons b bytes ih =>
    rw [cutParams] at same
    split_ifs at same with isSlash skips
    · cases pre with
      | nil =>
        rw [List.nil_append, List.cons.injEq] at same
        exact ⟨[], bytes, by rw [isSlash]; rfl, same.2⟩
      | cons c pre =>
        rw [List.cons_append, List.cons.injEq] at same
        obtain ⟨pre', t', split, rest⟩ := ih same.2
        exact ⟨b :: pre', t', by rw [split]; rfl, rest⟩
    · obtain ⟨pre', t', split, rest⟩ := ih same
      exact ⟨b :: pre', t', by rw [split]; rfl, rest⟩
    · cases pre with
      | nil =>
        rw [List.nil_append, List.cons.injEq] at same
        exact absurd same.1 isSlash
      | cons c pre =>
        rw [List.cons_append, List.cons.injEq] at same
        obtain ⟨pre', t', split, rest⟩ := ih same.2
        exact ⟨b :: pre', t', by rw [split]; rfl, rest⟩

theorem cutParams_dot {bytes rest : Bytes} (same : cutParams false bytes = dot :: rest) :
    ∃ bytes', bytes = dot :: bytes' ∧ cutParams false bytes' = rest := by
  have skipped : ∀ bytes : Bytes, ∀ rest, cutParams true bytes ≠ dot :: rest := by
    intro bytes
    induction bytes with
    | nil =>
      intro rest same
      cases same
    | cons b bytes ih =>
      intro rest same
      rw [cutParams] at same
      split_ifs at same with isSlash
      · rw [List.cons.injEq] at same
        exact absurd same.1 (by decide)
      · exact ih rest same
      · simp at *
  cases bytes with
  | nil => cases same
  | cons b bytes =>
    rw [cutParams] at same
    split_ifs at same with isSlash cuts
    · rw [List.cons.injEq] at same
      exact absurd same.1 (by decide)
    · exact absurd same (skipped bytes rest)
    · rw [List.cons.injEq] at same
      exact ⟨bytes, by rw [same.1], same.2⟩

/-- A segment of the text ends where one that was cut does, at `;`, at `/` or at the end. -/
theorem cutParams_end {bytes post : Bytes} (same : cutParams false bytes = post)
    (ends : post = [] ∨ post.head? = some slash) :
    bytes = [] ∨ bytes.head? = some slash ∨ bytes.head? = some semicolon := by
  cases bytes with
  | nil => exact Or.inl rfl
  | cons b bytes =>
    right
    rw [cutParams] at same
    split_ifs at same with isSlash cuts
    · exact Or.inl (congrArg some isSlash)
    · right
      rw [Bool.false_or, beq_iff_eq] at cuts
      exact congrArg some cuts
    · rw [← same] at ends
      rcases ends with empty | head
      · cases empty
      · exact absurd (Option.some.inj head) isSlash

/-! ## Dot segments -/

/-- A segment that starts with dots only, up to a byte that ends it or to the end. -/
def DotSegment (ends : UInt8 → Bool) (path : Bytes) : Prop :=
  ∃ pre d post, path = pre ++ slash :: (d ++ post) ∧ (d = [dot] ∨ d = [dot, dot]) ∧
    ∀ b, post.head? = some b → ends b = true

def isSlash (b : UInt8) : Bool :=
  b == slash

def isSlashOrSemicolon (b : UInt8) : Bool :=
  b == slash || b == semicolon

theorem dotSegment_of_leading {path pre d rest : Bytes} (dots : d = [dot] ∨ d = [dot, dot])
    (same : path = pre ++ slash :: (d ++ slash :: rest)) : DotSegment isSlash path := by
  refine ⟨pre, d, slash :: rest, same, dots, ?_⟩
  intro b head
  cases head
  rfl

theorem dotSegment_of_end {path pre d : Bytes} (dots : d = [dot] ∨ d = [dot, dot])
    (same : path = pre ++ slash :: d) : DotSegment isSlash path :=
  ⟨pre, d, [], by rw [List.append_nil]; exact same, dots, fun _ head => (by cases head)⟩

theorem removeDotSegmentsLoop_eq {path : Bytes} (none' : ¬DotSegment isSlash path)
    {fuel : Nat} {input output : Bytes} (enough : input.length ≤ fuel)
    (whole : path = output ++ input) (start : input = [] ∨ input.head? = some slash) :
    removeDotSegmentsLoop fuel input output = path := by
  induction fuel generalizing input output with
  | zero =>
    rw [List.eq_nil_of_length_eq_zero (Nat.le_zero.mp enough), List.append_nil] at whole
    rw [removeDotSegmentsLoop, whole]
  | succ fuel ih =>
    rw [removeDotSegmentsLoop]
    rcases start with empty | head
    · rw [empty, List.append_nil] at whole
      rw [empty, whole]
      rfl
    obtain ⟨rest, same⟩ := List.head?_eq_some_iff.mp head
    rw [same] at whole enough ⊢
    have apart : dot ≠ slash := by decide
    rw [if_neg (by simp), if_neg (by simp [apart]), if_neg (by simp [apart])]
    rw [if_neg, if_neg, if_neg, if_neg, if_neg (by simp [apart.symm])]
    · simp only [List.take_succ_cons, List.take_zero, List.drop_succ_cons, List.drop_zero]
      have split : rest = rest.takeWhile (· != slash) ++ rest.dropWhile (· != slash) :=
        (List.takeWhile_append_dropWhile).symm
      have left : (slash :: rest).drop ([slash] ++ rest.takeWhile (· != slash)).length =
          rest.dropWhile (· != slash) := by
        rw [List.singleton_append, List.length_cons, List.drop_succ_cons]
        nth_rewrite 2 [split]
        exact List.drop_left
      rw [left]
      apply ih
      · have shorter := (List.dropWhile_suffix (· != slash) (l := rest)).length_le
        rw [List.length_cons] at enough
        omega
      · rw [whole, List.append_assoc, List.singleton_append, List.cons_append, ← split]
      · cases tail : rest.dropWhile (· != slash) with
        | nil => exact Or.inl rfl
        | cons b more =>
          right
          have stops := List.head?_dropWhile_not (· != slash) rest
          rw [tail] at stops
          simpa using stops
    · intro same'
      rw [same'] at whole
      exact none' (dotSegment_of_end (Or.inr rfl) whole)
    · intro starts
      obtain ⟨more, same'⟩ := List.isPrefixOf_iff_prefix.mp starts
      rw [← same'] at whole
      exact none' (dotSegment_of_leading (Or.inr rfl) whole)
    · intro same'
      rw [same'] at whole
      exact none' (dotSegment_of_end (Or.inl rfl) whole)
    · intro starts
      obtain ⟨more, same'⟩ := List.isPrefixOf_iff_prefix.mp starts
      rw [← same'] at whole
      exact none' (dotSegment_of_leading (Or.inl rfl) whole)

theorem removeDotSegments_eq {path : Bytes} (none' : ¬DotSegment isSlash path)
    (start : path.head? = some slash) : removeDotSegments path = path :=
  removeDotSegmentsLoop_eq none' (Nat.le_refl _) rfl (Or.inr start)

theorem dotSegment_of_cut {bytes : Bytes} (found : DotSegment isSlash (cutParams false bytes)) :
    DotSegment isSlashOrSemicolon bytes := by
  obtain ⟨pre, d, post, same, dots, ends⟩ := found
  obtain ⟨pre', t, split, cut⟩ := cutParams_segment same
  have ends' : post = [] ∨ post.head? = some slash := by
    cases post with
    | nil => exact Or.inl rfl
    | cons b post => exact Or.inr (congrArg some (beq_iff_eq.mp (ends b rfl)))
  obtain ⟨rest, start, left⟩ : ∃ rest, t = d ++ rest ∧ cutParams false rest = post := by
    rcases dots with one | two
    · rw [one] at cut ⊢
      obtain ⟨rest, start, left⟩ := cutParams_dot cut
      exact ⟨rest, start, left⟩
    · rw [two] at cut ⊢
      obtain ⟨rest, start, left⟩ := cutParams_dot cut
      obtain ⟨rest', start', left'⟩ := cutParams_dot left
      exact ⟨rest', by rw [start, start']; rfl, left'⟩
  refine ⟨pre', d, rest, by rw [split, start], dots, ?_⟩
  intro b head
  rcases cutParams_end left ends' with empty | slash' | semicolon'
  · rw [empty] at head
    cases head
  · rw [slash'] at head
    cases head
    rfl
  · rw [semicolon'] at head
    cases head
    rfl

theorem splitOnP_head (p : UInt8 → Bool) (bytes : Bytes) :
    ∃ rest, bytes.splitOnP p = bytes.takeWhile (fun b => !p b) :: rest := by
  induction bytes with
  | nil => exact ⟨[], rfl⟩
  | cons b bytes ih =>
    obtain ⟨rest, same⟩ := ih
    rw [List.splitOnP_cons_eq_if_modifyHead, List.takeWhile_cons]
    cases separates : p b with
    | true => exact ⟨_, rfl⟩
    | false =>
      rw [same]
      exact ⟨rest, rfl⟩

/-- The dots of a segment are what is left of it before `/`, `\` and the cut bytes. -/
theorem hasDotSegment_of_split {pre d post : Bytes} {s : UInt8} (sep : isSeparator s = true)
    (dots : d = [dot] ∨ d = [dot, dot])
    (ends : ∀ b, post.head? = some b → isSeparator b = true ∨ b = semicolon) :
    hasDotSegment (pre ++ s :: (d ++ post)) = true := by
  unfold hasDotSegment
  rw [List.splitOnP_append_cons _ _ sep, List.any_append, Bool.or_eq_true]
  right
  obtain ⟨rest, head⟩ := splitOnP_head isSeparator (d ++ post)
  rw [head, List.any_cons, Bool.or_eq_true]
  left
  have cut : ((d ++ post).takeWhile (fun b => !isSeparator b)).takeWhile (fun b => !isCut b) = d := by
    have inner : (post.takeWhile (fun b => !isSeparator b)).takeWhile (fun b => !isCut b) = [] := by
      cases post with
      | nil => rfl
      | cons b post =>
        rcases ends b rfl with separator | semicolon'
        · rw [List.takeWhile_cons, if_neg (by simp [separator])]
          rfl
        · rw [semicolon', List.takeWhile_cons, if_pos (by decide), List.takeWhile_cons,
            if_neg (by decide)]
    rcases dots with one | two
    · rw [one, List.singleton_append, List.takeWhile_cons, if_pos (by decide), List.takeWhile_cons,
        if_pos (by decide), inner]
    · rw [two, List.cons_append, List.singleton_append, List.takeWhile_cons, if_pos (by decide),
        List.takeWhile_cons, if_pos (by decide), List.takeWhile_cons, if_pos (by decide),
        List.takeWhile_cons, if_pos (by decide), inner]
  rw [cut]
  rcases dots with one | two
  · rw [one]
    decide
  · rw [two]
    decide

/-- A path that passed holds no dot segment, decoded or not. -/
theorem hasDotSegment_of_slashes {bytes : Bytes}
    (found : DotSegment isSlashOrSemicolon (slashes bytes)) : hasDotSegment bytes = true := by
  obtain ⟨pre, d, post, same, dots, ends⟩ := found
  unfold slashes at same
  obtain ⟨pre', tail, split, _, same⟩ := List.map_eq_append_iff.mp same
  obtain ⟨s, tail', split', sep, same⟩ := List.map_eq_cons_iff.mp same
  obtain ⟨d', post', split'', dots', ends'⟩ := List.map_eq_append_iff.mp same
  have sep' : isSeparator s = true := by
    unfold isSeparator
    split_ifs at sep with back
    · rw [back]
      decide
    · rw [sep]
      decide
  have dotOf : ∀ b : UInt8, (if b = backslash then slash else b) = dot → b = dot := by
    intro b mapped
    split_ifs at mapped
    · exact absurd mapped (by decide)
    · exact mapped
  have same' : d' = d := by
    rcases dots with one | two
    · rw [one, List.map_eq_singleton_iff] at dots'
      obtain ⟨b, single, mapped⟩ := dots'
      rw [single, one, dotOf b mapped]
    · rw [two, List.map_eq_cons_iff] at dots'
      obtain ⟨b, more, single, mapped, mapped'⟩ := dots'
      rw [List.map_eq_singleton_iff] at mapped'
      obtain ⟨c, single', mapped'⟩ := mapped'
      rw [single, single', two, dotOf b mapped, dotOf c mapped']
  rw [split, split', split'', same']
  refine hasDotSegment_of_split sep' dots ?_
  intro b head
  have mapped : post.head? = some (if b = backslash then slash else b) := by
    rw [← ends', List.head?_map, head]
    rfl
  have either := ends _ mapped
  unfold isSeparator
  split_ifs at either with back
  · left
    rw [back]
    decide
  · unfold isSlashOrSemicolon at either
    rw [Bool.or_eq_true, beq_iff_eq, beq_iff_eq] at either
    rcases either with slash' | semicolon'
    · left
      rw [slash']
      decide
    · exact Or.inr semicolon'

theorem hexVal_slash : hexVal slash = none := rfl

theorem dotSegment_decode {path : Bytes} (found : DotSegment isSlashOrSemicolon path) :
    DotSegment isSlashOrSemicolon (decode path) := by
  obtain ⟨pre, d, post, same, dots, ends⟩ := found
  have read : decode (slash :: (d ++ post)) = slash :: (d ++ decode post) := by
    rw [decode_other (by decide)]
    rcases dots with one | two
    · rw [one, List.singleton_append, decode_other (by decide)]
      rfl
    · rw [two, List.cons_append, List.singleton_append, decode_other (by decide),
        decode_other (by decide)]
      rfl
  refine ⟨decode pre, d, decode post, ?_, dots, ?_⟩
  · rw [same, decode_append_cons hexVal_slash, read]
  · intro b head
    cases post with
    | nil => cases head
    | cons c post =>
      have stops := ends c rfl
      have other : c ≠ percent := by
        intro same'
        rw [same'] at stops
        cases stops
      rw [decode_other other] at head
      cases head
      exact stops

end FerroEngine.HttpPathReadings
