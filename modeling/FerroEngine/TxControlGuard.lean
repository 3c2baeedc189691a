import FerroEngine.CopyShape

set_option autoImplicit false

/-! # The transaction-control guard of `ferro-pool`

`tx_control_class` and `is_lone_statement` of `pin.rs` and `Checkout::guard_tx_control`.
-/

namespace FerroEngine.TxControlGuard

open SourceText PinClassifier CopyShape

/-! ## Words -/

def leadingWords (sql : Text) (max : Nat) : List Text :=
  (((sql.splitOnP fun c => !c.isAlpha).filter fun word => word ≠ []).take max).map
    toAsciiUppercase

/-- The loop of `skip_leading_noise`; every turn but the last drops a comment. -/
def skipLeadingNoiseLoop : Nat → Text → Text
  | 0, rest => rest
  | fuel + 1, rest =>
    match trimStart rest with
    | '-' :: '-' :: after =>
      skipLeadingNoiseLoop fuel ((after.dropWhile fun c => c != '\n').drop 1)
    | '/' :: '*' :: after =>
      match findPair '*' '/' after with
      | some i => skipLeadingNoiseLoop fuel (after.drop (i + 2))
      | none => skipLeadingNoiseLoop fuel []
    | trimmed => trimmed

def skipLeadingNoise (sql : Text) : Text :=
  skipLeadingNoiseLoop (sql.length + 1) sql

/-- More fuel than characters changes nothing. -/
theorem skipLeadingNoiseLoop_fuel (fuel more : Nat) (rest : Text) (enough : rest.length < fuel)
    (enough' : rest.length < more) :
    skipLeadingNoiseLoop fuel rest = skipLeadingNoiseLoop more rest := by
  induction fuel generalizing more rest with
  | zero => omega
  | succ fuel ih =>
    obtain ⟨more, rfl⟩ := Nat.exists_eq_succ_of_ne_zero (show more ≠ 0 by omega)
    have shorter : (trimStart rest).length ≤ rest.length :=
      (List.dropWhile_sublist isWhitespace).length_le
    rw [skipLeadingNoiseLoop, skipLeadingNoiseLoop]
    split
    · next after shape =>
      rw [shape, List.length_cons, List.length_cons] at shorter
      have cut := (List.dropWhile_sublist (fun c => c != '\n') (l := after)).length_le
      apply ih
      · rw [List.length_drop]
        omega
      · rw [List.length_drop]
        omega
    · next after shape =>
      rw [shape, List.length_cons, List.length_cons] at shorter
      split
      · next i found =>
        apply ih
        · rw [List.length_drop]
          omega
        · rw [List.length_drop]
          omega
      · apply ih
        · rw [List.length_nil]
          omega
        · rw [List.length_nil]
          omega
    · rfl

theorem skipLeadingNoise_space {c : Char} (white : isWhitespace c = true) (rest : Text) :
    skipLeadingNoise (c :: rest) = skipLeadingNoise rest := by
  have same : trimStart (c :: rest) = trimStart rest := List.dropWhile_cons_of_pos white
  have turn : skipLeadingNoiseLoop (rest.length + 1 + 1) (c :: rest) =
      skipLeadingNoiseLoop (rest.length + 1 + 1) rest := by
    conv_rhs => rw [skipLeadingNoiseLoop]
    rw [skipLeadingNoiseLoop, same]
  exact turn.trans (skipLeadingNoiseLoop_fuel _ _ rest (by omega) (by omega))

/-- A block comment ends at the first `*/`. -/
theorem skipLeadingNoise_block {body after : Text} {i : Nat}
    (found : findPair '*' '/' (body ++ after) = some i) (size : body.length = i + 2) :
    skipLeadingNoise ('/' :: '*' :: (body ++ after)) = skipLeadingNoise after := by
  have same : trimStart ('/' :: '*' :: (body ++ after)) = '/' :: '*' :: (body ++ after) := rfl
  unfold skipLeadingNoise
  rw [skipLeadingNoiseLoop, same]
  simp only [found]
  rw [← size, List.drop_left]
  apply skipLeadingNoiseLoop_fuel
  · simp only [List.length_cons, List.length_append]
    omega
  · omega

/-! ## Classes -/

inductive TxControlClass where
  | boundary
  | savepoint
  deriving DecidableEq, Repr

def boundarySingle : List Text :=
  ["BEGIN", "COMMIT", "END", "ABORT"].map String.toList

def boundaryPair : List (Text × Text) :=
  [("START".toList, "TRANSACTION".toList), ("PREPARE".toList, "TRANSACTION".toList)]

def savepointSingle : List Text :=
  ["SAVEPOINT", "RELEASE"].map String.toList

def txControlClass (sql : Text) : Option TxControlClass :=
  match leadingWords (skipLeadingNoise sql) 2 with
  | [] => none
  | first :: rest =>
    if first = "ROLLBACK".toList then
      if rest.head? = some "TO".toList then some .savepoint else some .boundary
    else if first ∈ boundarySingle then some .boundary
    else if first ∈ savepointSingle then some .savepoint
    else match rest.head? with
      | some second => if (first, second) ∈ boundaryPair then some .boundary else none
      | none => none

theorem txControlClass_savepoint {sql first : Text} {rest : List Text}
    (words : leadingWords (skipLeadingNoise sql) 2 = first :: rest)
    (savepoint : txControlClass sql = some .savepoint) :
    first = "ROLLBACK".toList ∧ rest.head? = some "TO".toList ∨ first ∈ savepointSingle := by
  rw [txControlClass, words] at savepoint
  simp only at savepoint
  split_ifs at savepoint with rollback isTo boundary single
  · exact Or.inl ⟨rollback, isTo⟩
  · cases savepoint
  · cases savepoint
  · exact Or.inr single
  · split at savepoint
    · split_ifs at savepoint
      cases savepoint
    · cases savepoint

theorem leadingWords_one {text word : Text} (head : (leadingWords text 1).head? = some word) :
    leadingWords text 1 = [word] := by
  have short : (leadingWords text 1).length ≤ 1 := by
    rw [leadingWords, List.length_map, List.length_take]
    omega
  match found : leadingWords text 1 with
  | [] =>
    rw [found] at head
    cases head
  | [only] =>
    rw [found] at head
    rw [Option.some.inj head]
  | _ :: _ :: _ =>
    rw [found] at short
    simp at short

/-- `str::strip_suffix(';')`, or the text itself. -/
def stripSemicolon (text : Text) : Text :=
  if text.getLast? = some ';' then text.dropLast else text

def isLoneStatement (sql : Text) : Bool :=
  !(stripSemicolon (trimEnd sql)).contains ';'

/-! ## The guard -/

inductive TxControlVerdict where
  | proceed
  | savepointPassthrough
  deriving DecidableEq, Repr

/-- The `PoolError::Unsupported` texts of the guard, less the entry and the statement they quote. -/
inductive GuardRefusal where
  | copyStdio
  | boundParameters
  | compoundSavepoint
  | outsideTransaction
  | bareTransactionControl
  deriving DecidableEq, Repr

/-- `guard_tx_control` of a checkout with the given `tx_open`; only whether there are bound
parameters matters. -/
def guardTxControl (supportsCopy txOpen : Bool) (sql : Text) (params : Nat) :
    Except GuardRefusal TxControlVerdict :=
  if supportsCopy ∧ speaksCopyStdio sql then .error .copyStdio
  else match txControlClass sql with
    | none => .ok .proceed
    | some .savepoint =>
      if txOpen then
        if params ≠ 0 then .error .boundParameters
        else if isLoneStatement sql then .ok .savepointPassthrough
        else .error .compoundSavepoint
      else .error .outsideTransaction
    | some .boundary => .error .bareTransactionControl

/-- What a text that passes through as a savepoint has been checked for. -/
theorem guardTxControl_passthrough {supportsCopy txOpen : Bool} {sql : Text} {params : Nat}
    (admitted : guardTxControl supportsCopy txOpen sql params = .ok .savepointPassthrough) :
    txOpen = true ∧ params = 0 ∧ txControlClass sql = some .savepoint ∧
      isLoneStatement sql = true := by
  unfold guardTxControl at admitted
  by_cases copy : supportsCopy = true ∧ speaksCopyStdio sql = true
  · rw [if_pos copy] at admitted
    cases admitted
  rw [if_neg copy] at admitted
  cases cls : txControlClass sql with
  | none =>
    rw [cls] at admitted
    cases admitted
  | some cls' =>
    rw [cls] at admitted
    cases cls' with
    | boundary => cases admitted
    | savepoint =>
      simp only at admitted
      split_ifs at admitted with inTx bound lone
      exact ⟨inTx, not_not.mp bound, rfl, lone⟩

end FerroEngine.TxControlGuard
