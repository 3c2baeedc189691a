import FerroEngine.HttpPathReadings

set_option autoImplicit false

/-! # Confinement of request paths -/

namespace FerroEngine.HttpPathConfinement

open HttpSyntax HttpTarget HttpPathReadings

/-! ## What the validator checked -/

theorem checkTargetSyntax_ok {t : Bytes} (ok : checkTargetSyntax t = .ok ()) :
    t.head? = some slash ∧ (∀ b ∈ t, isTargetByte b = true) ∧ Escaped t := by
  unfold checkTargetSyntax at ok
  split_ifs at ok with short form double
  cases stray : t.findIdx? fun b => !isTargetByte b with
  | some i =>
    rw [stray] at ok
    cases ok
  | none =>
    rw [stray] at ok
    refine ⟨?_, ?_, escaped_of_checked ok⟩
    · rw [List.head?_eq_getElem?]
      exact not_not.mp form
    · intro b member
      have allowed := List.findIdx?_eq_none_iff.mp stray b member
      simpa using allowed

section Normalised

variable {nfkc : String → String}

theorem checkPath_ok {path : Bytes} {params : PathParams} {encoding : PathEncoding}
    (ok : checkPath nfkc path params encoding = .ok ()) :
    ∃ decoded, decodePath params encoding 0 path = .ok decoded ∧ hasDotSegment decoded = false := by
  unfold checkPath at ok
  cases out : decodePath params encoding 0 path with
  | error e =>
    rw [out] at ok
    cases ok
  | ok decoded =>
    refine ⟨decoded, rfl, ?_⟩
    rw [out] at ok
    cases found : hasDotSegment decoded with
    | false => rfl
    | true =>
      simp only [bind, Except.bind, found, if_true] at ok
      cases ok

theorem checkPrefix_escaped {p : Bytes} {params : PathParams} {encoding : PathEncoding}
    (ok : checkPrefix nfkc p params encoding = .ok ()) : Escaped p := by
  unfold checkPrefix at ok
  cases checked : checkTargetSyntax p with
  | error e =>
    rw [checked] at ok
    cases ok
  | ok _ => exact (checkTargetSyntax_ok checked).2.2

theorem checkTarget_ok {up : TargetPolicy nfkc} {t : Bytes} (ok : checkTarget nfkc up t = .ok ()) :
    checkTargetSyntax t = .ok () ∧
      checkPath nfkc (pathOf t) up.pathParams up.pathEncoding = .ok () ∧
      ∃ p ∈ up.allowPaths, prefixMatches p (pathOf t) = true := by
  unfold checkTarget at ok
  cases formed : checkTargetSyntax t with
  | error e =>
    rw [formed] at ok
    cases ok
  | ok _ =>
    cases path : checkPath nfkc (pathOf t) up.pathParams up.pathEncoding with
    | error e =>
      rw [formed, path] at ok
      cases ok
    | ok _ =>
      rw [formed, path] at ok
      refine ⟨rfl, rfl, ?_⟩
      cases admitted : up.allowPaths.any (prefixMatches · (pathOf t)) with
      | false =>
        simp only [admitted] at ok
        cases ok
      | true => exact List.any_eq_true.mp admitted

end Normalised

/-! ## Below a prefix -/

theorem below_of_prefixMatches {p t : Bytes} (matches' : prefixMatches p t = true) : Below p t := by
  unfold prefixMatches at matches'
  rw [Bool.or_eq_true, Bool.and_eq_true, Bool.or_eq_true, beq_iff_eq, beq_iff_eq, beq_iff_eq]
    at matches'
  rcases matches' with same | ⟨starts, boundary⟩
  · exact Or.inl same
  · right
    obtain ⟨rest, same⟩ := List.isPrefixOf_iff_prefix.mp starts
    refine ⟨rest, same.symm, ?_⟩
    rcases boundary with last | next
    · exact Or.inl last
    · right
      rw [← same, List.getElem?_append_right (Nat.le_refl _), Nat.sub_self] at next
      rw [List.head?_eq_getElem?]
      exact next

/-- A reading that keeps `/` and the order of what it reads keeps what is below a prefix. -/
theorem below_map {f : Bytes → Bytes}
    (splits : ∀ x y, f (x ++ slash :: y) = f x ++ slash :: f y) (empty : f [] = [])
    {p t : Bytes} (below : Below p t) : Below (f p) (f t) := by
  rcases below with same | ⟨rest, same, boundary⟩
  · exact Or.inl (congrArg f same)
  · right
    rcases boundary with last | next
    · obtain ⟨q, whole⟩ := List.getLast?_eq_some_iff.mp last
      refine ⟨f rest, ?_, Or.inl ?_⟩
      · rw [same, whole, List.append_assoc, List.singleton_append, splits, splits, empty,
          List.append_assoc]
        rfl
      · rw [whole, splits, empty]
        exact List.getLast?_concat
    · obtain ⟨rest', whole⟩ := List.head?_eq_some_iff.mp next
      refine ⟨slash :: f rest', ?_, Or.inr rfl⟩
      rw [same, whole, splits]

theorem decode_slash (x y : Bytes) : decode (x ++ slash :: y) = decode x ++ slash :: decode y := by
  rw [decode_append_cons hexVal_slash, decode_other (by decide)]

theorem slashes_slash (x y : Bytes) :
    slashes (x ++ slash :: y) = slashes x ++ slash :: slashes y := by
  unfold slashes
  rw [List.map_append, List.map_cons]
  rfl

theorem below_decode {p t : Bytes} (below : Below p t) (n : Nat) :
    Below (decode^[n] p) (decode^[n] t) := by
  induction n with
  | zero => exact below
  | succ n ih =>
    rw [Function.iterate_succ_apply', Function.iterate_succ_apply']
    exact below_map decode_slash rfl ih

theorem below_reading {p t : Bytes} (below : Below p t) (n : Nat) :
    Below (reading n p) (reading n t) :=
  below_map (cutParams_append false) rfl (below_map slashes_slash rfl (below_decode below n))

/-! ## No reading has dot segments -/

theorem reading_head {path : Bytes} (start : path.head? = some slash) (n : Nat) :
    (reading n path).head? = some slash := by
  obtain ⟨rest, same⟩ := List.head?_eq_some_iff.mp start
  have decoded : ∃ rest', decode^[n] path = slash :: rest' := by
    induction n with
    | zero => exact ⟨rest, same⟩
    | succ n ih =>
      obtain ⟨rest', ih⟩ := ih
      rw [Function.iterate_succ_apply', ih, decode_other (by decide)]
      exact ⟨_, rfl⟩
  obtain ⟨rest', decoded⟩ := decoded
  unfold reading
  rw [decoded]
  rfl

theorem not_backslash {b : UInt8} (allowed : isTargetByte b = true) : b ≠ backslash := by
  intro same
  rw [same] at allowed
  revert allowed
  decide

theorem slashes_of_targetBytes {path : Bytes} (allowed : ∀ b ∈ path, isTargetByte b = true) :
    slashes path = path := by
  unfold slashes
  rw [List.map_congr_left (g := id), List.map_id]
  intro b member
  exact if_neg (not_backslash (allowed b member))

/-- However often the path is decoded, no segment of it is made of dots. -/
theorem no_dotSegment {path decoded : Bytes} {params : PathParams} {encoding : PathEncoding}
    (allowed : ∀ b ∈ path, isTargetByte b = true) (whole : Escaped path)
    (out : decodePath params encoding 0 path = .ok decoded)
    (clean : hasDotSegment decoded = false) (n : Nat) :
    ¬DotSegment isSlash (reading n path) := by
  obtain ⟨same, plain⟩ := decodePath_ok whole out
  rw [same] at clean plain
  have decodedClean : ¬DotSegment isSlashOrSemicolon (slashes (decode path)) := by
    intro found
    rw [hasDotSegment_of_slashes found] at clean
    cases clean
  intro found
  have found' := dotSegment_of_cut found
  cases n with
  | zero =>
    -- A dot segment of the raw path would be one of the decoded path, too.
    rw [Function.iterate_zero_apply, slashes_of_targetBytes allowed] at found'
    have later := dotSegment_decode found'
    apply decodedClean
    obtain ⟨pre, d, post, split, dots, ends⟩ := later
    refine ⟨slashes pre, d, slashes post, ?_, dots, ?_⟩
    · rw [split, slashes_slash]
      unfold slashes
      rw [List.map_append]
      rcases dots with one | two
      · rw [one]
        rfl
      · rw [two]
        rfl
    · intro b head
      cases post with
      | nil => cases head
      | cons c post =>
        have stops := ends c rfl
        have kept : c ≠ backslash := by
          intro back
          rw [back] at stops
          cases stops
        unfold slashes at head
        rw [List.map_cons, if_neg kept] at head
        cases head
        exact stops
  | succ n =>
    rw [decode_iterate plain] at found'
    exact decodedClean found'

/-! ## Confinement -/

/-- A prefix without `\` and `;` is read as its decoded form. -/
theorem reading_of_plain {p : Bytes} (plain : percent ∉ decode p) (noBack : backslash ∉ decode p)
    (noParam : semicolon ∉ decode p) (n : Nat) : reading (n + 1) p = decode p := by
  have same : slashes (decode p) = decode p := by
    unfold slashes
    rw [List.map_congr_left (g := id), List.map_id]
    intro b member
    exact if_neg (fun (back : b = backslash) => noBack (back ▸ member))
  have uncut : ∀ bytes : Bytes, semicolon ∉ bytes → cutParams false bytes = bytes := by
    intro bytes
    induction bytes with
    | nil => exact fun _ => rfl
    | cons b bytes ih =>
      intro absent
      rw [List.mem_cons, not_or] at absent
      rw [cutParams]
      split_ifs with isSlash cuts
      · rw [ih absent.2, isSlash]
      · rw [Bool.false_or, beq_iff_eq] at cuts
        exact absurd cuts.symm absent.1
      · rw [ih absent.2]
  unfold reading
  rw [decode_iterate plain, same, uncut _ noParam]

/-- Every reading of an accepted path, without its dot segments, is at or below the same reading of
the prefix that admitted it; a prefix without `\` and `;` is read as its decoded form. -/
theorem target_confined (nfkc : String → String) (up : TargetPolicy nfkc) (t : Bytes)
    (accepted : checkTarget nfkc up t = .ok ()) :
    ∃ p ∈ up.allowPaths, prefixMatches p (pathOf t) = true ∧
      (∀ n, Below (reading n p) (removeDotSegments (reading n (pathOf t)))) ∧
      (backslash ∉ decode p → semicolon ∉ decode p → ∀ n, reading (n + 1) p = decode p) := by
  obtain ⟨formed, path, p, member, admitted⟩ := checkTarget_ok accepted
  obtain ⟨start, allowed, whole⟩ := checkTargetSyntax_ok formed
  obtain ⟨decoded, out, clean⟩ := checkPath_ok path
  have below := below_of_prefixMatches admitted
  have allowed' : ∀ b ∈ pathOf t, isTargetByte b = true :=
    fun b inside => allowed b (List.takeWhile_subset _ inside)
  have start' : (pathOf t).head? = some slash := by
    obtain ⟨rest, same⟩ := List.head?_eq_some_iff.mp start
    unfold pathOf
    rw [same, List.takeWhile_cons, if_pos (by decide)]
    rfl
  have whole' := escaped_pathOf whole
  refine ⟨p, member, admitted, ?_, ?_⟩
  · intro n
    rw [removeDotSegments_eq (no_dotSegment allowed' whole' out clean n) (reading_head start' n)]
    exact below_reading below n
  · intro noBack noParam n
    refine reading_of_plain ?_ noBack noParam n
    obtain ⟨same, plain⟩ := decodePath_ok whole' out
    rw [same] at plain
    intro inside
    apply plain
    rcases below with equal | ⟨rest, split, _⟩
    · rw [equal]
      exact inside
    · rw [split, decode_append (checkPrefix_escaped (up.checked p member))]
      exact List.mem_append_left _ inside

/-! ## Sample policies -/

def onlyPrefix (p : Bytes) (ok : checkPrefix id p .refuse .ascii = .ok ()) : TargetPolicy id :=
  { pathParams := .refuse, pathEncoding := .ascii, allowPaths := [p]
    checked := fun _ member => (List.mem_singleton.mp member) ▸ ok }

def apiPolicy : TargetPolicy id :=
  onlyPrefix (bytesOf "/api") rfl

def escapedPolicy : TargetPolicy id :=
  onlyPrefix (bytesOf "/a%5Cb") rfl

theorem target_confined_on_sample :
    checkTarget id apiPolicy (bytesOf "/api/v1%2Fjobs?q=1") = .ok () ∧
      ∃ p ∈ apiPolicy.allowPaths,
        prefixMatches p (pathOf (bytesOf "/api/v1%2Fjobs?q=1")) = true ∧
        ∀ n, Below (reading n p)
          (removeDotSegments (reading n (pathOf (bytesOf "/api/v1%2Fjobs?q=1")))) := by
  have accepted : checkTarget id apiPolicy (bytesOf "/api/v1%2Fjobs?q=1") = .ok () := rfl
  obtain ⟨p, member, admitted, below, _⟩ := target_confined id apiPolicy _ accepted
  exact ⟨accepted, p, member, admitted, below⟩

/-- A prefix with an escaped `\`: the path reads `/a/b`, and the decoded prefix is `/a\b`. -/
theorem escapedPrefix_left :
    checkTarget id escapedPolicy (bytesOf "/a%5Cb") = .ok () ∧
      ∀ p ∈ escapedPolicy.allowPaths,
        ¬Below (decode p) (removeDotSegments (reading 1 (bytesOf "/a%5Cb"))) := by
  refine ⟨rfl, ?_⟩
  intro p member
  rw [List.mem_singleton.mp member]
  have read : removeDotSegments (reading 1 (bytesOf "/a%5Cb")) = bytesOf "/a/b" := rfl
  have decoded : decode (bytesOf "/a%5Cb") = bytesOf "/a\\b" := rfl
  rw [read, decoded]
  rintro (same | ⟨rest, same, _⟩)
  · exact absurd same (by decide)
  · have third : (bytesOf "/a/b")[2]? = (bytesOf "/a\\b" ++ rest)[2]? :=
      congrArg (fun bytes => bytes[2]?) same
    rw [List.getElem?_append_left (by decide)] at third
    exact absurd third (by decide)

end FerroEngine.HttpPathConfinement
