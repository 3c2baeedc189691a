import FerroEngine.DecimalText

set_option autoImplicit false

/-! # The session trackers of an OK packet

`tracker.rs` of the MySQL backend: which session-state changes of a statement taint its connection,
and what becomes of the verdict when a statement does several things.
-/

namespace FerroEngine.SessionTracker

open DecimalText (Text)

/-- `SessionStateChange`. -/
inductive SessionStateChange where
  /-- The names of the variables. -/
  | systemVariables (names : List Text)
  | schema (name : Text)
  | isTracked (tracked : Bool)
  | gtids (data : Text)
  | transactionCharacteristics (data : Text)
  | transactionState (data : Text)
  | unsupported (data : Text)
  deriving DecidableEq, Repr

/-- `u8::to_ascii_lowercase`. -/
def toAsciiLowercase (b : UInt8) : UInt8 :=
  if 65 ≤ b ∧ b ≤ 90 then b + 32 else b

def eqIgnoreAsciiCase (a b : Text) : Bool :=
  a.map toAsciiLowercase == b.map toAsciiLowercase

/-- `"autocommit"`. -/
def autocommit : Text := [97, 117, 116, 111, 99, 111, 109, 109, 105, 116]

def sessionMutationAllowlist : List Text := [autocommit]

def isAllowlistedVar (name : Text) : Bool :=
  sessionMutationAllowlist.any fun allowed => eqIgnoreAsciiCase allowed name

structure TrackerSummary where
  hasSysvar : Bool
  hasNonallowlistedSysvar : Bool
  hasTxstate : Bool
  stateChangedFlag : Bool
  deriving DecidableEq, Repr

def TrackerSummary.isMutation (self : TrackerSummary) : Bool :=
  self.hasNonallowlistedSysvar ||
    (self.stateChangedFlag && !self.hasSysvar && !self.hasTxstate)

/-- One change, folded into the summary. -/
def TrackerSummary.fold (s : TrackerSummary) : SessionStateChange → TrackerSummary
  | .systemVariables names =>
    { s with
      hasSysvar := true
      hasNonallowlistedSysvar :=
        if names.any (fun name => !isAllowlistedVar name) then true
        else s.hasNonallowlistedSysvar }
  | .transactionState _ => { s with hasTxstate := true }
  | _ => s

def summarize (changes : List SessionStateChange) (stateChangedFlag : Bool) : TrackerSummary :=
  changes.foldl TrackerSummary.fold
    { hasSysvar := false
      hasNonallowlistedSysvar := false
      hasTxstate := false
      stateChangedFlag := stateChangedFlag }

/-! ## What a list of changes holds -/

def SessionStateChange.isSysvar : SessionStateChange → Bool
  | .systemVariables _ => true
  | _ => false

/-- A variable that Ferro does not manage was set. -/
def SessionStateChange.setsForeignVar : SessionStateChange → Bool
  | .systemVariables names => names.any fun name => !isAllowlistedVar name
  | _ => false

def SessionStateChange.isTxstate : SessionStateChange → Bool
  | .transactionState _ => true
  | _ => false

theorem fold_eq (s : TrackerSummary) (c : SessionStateChange) :
    s.fold c =
      { hasSysvar := s.hasSysvar || c.isSysvar
        hasNonallowlistedSysvar := s.hasNonallowlistedSysvar || c.setsForeignVar
        hasTxstate := s.hasTxstate || c.isTxstate
        stateChangedFlag := s.stateChangedFlag } := by
  obtain ⟨sysvar, foreign, txstate, flag⟩ := s
  cases c with
  | systemVariables names =>
    simp only [TrackerSummary.fold, SessionStateChange.isSysvar, SessionStateChange.setsForeignVar,
      SessionStateChange.isTxstate, Bool.or_true, Bool.or_false]
    cases names.any fun name => !isAllowlistedVar name <;> simp
  | transactionState data =>
    simp [TrackerSummary.fold, SessionStateChange.isSysvar, SessionStateChange.setsForeignVar,
      SessionStateChange.isTxstate]
  | _ =>
    simp [TrackerSummary.fold, SessionStateChange.isSysvar, SessionStateChange.setsForeignVar,
      SessionStateChange.isTxstate]

theorem foldl_eq (changes : List SessionStateChange) (s : TrackerSummary) :
    changes.foldl TrackerSummary.fold s =
      { hasSysvar := s.hasSysvar || changes.any SessionStateChange.isSysvar
        hasNonallowlistedSysvar :=
          s.hasNonallowlistedSysvar || changes.any SessionStateChange.setsForeignVar
        hasTxstate := s.hasTxstate || changes.any SessionStateChange.isTxstate
        stateChangedFlag := s.stateChangedFlag } := by
  induction changes generalizing s with
  | nil => simp
  | cons c changes ih =>
    rw [List.foldl_cons, ih, fold_eq]
    simp only [List.any_cons, Bool.or_assoc]

theorem summarize_eq (changes : List SessionStateChange) (flag : Bool) :
    summarize changes flag =
      { hasSysvar := changes.any SessionStateChange.isSysvar
        hasNonallowlistedSysvar := changes.any SessionStateChange.setsForeignVar
        hasTxstate := changes.any SessionStateChange.isTxstate
        stateChangedFlag := flag } := by
  rw [summarize, foldl_eq]
  simp only [Bool.false_or]

/-- The verdict: a foreign variable, or the bare flag. -/
theorem isMutation_iff (changes : List SessionStateChange) (flag : Bool) :
    (summarize changes flag).isMutation = true ↔
      (∃ c ∈ changes, c.setsForeignVar = true) ∨
        flag = true ∧ ∀ c ∈ changes, c.isSysvar = false ∧ c.isTxstate = false := by
  rw [summarize_eq, TrackerSummary.isMutation]
  simp only [Bool.or_eq_true, List.any_eq_true, Bool.and_eq_true, Bool.not_eq_true',
    List.any_eq_false, Bool.not_eq_true]
  constructor
  · rintro (foreign | ⟨⟨set, sysvar⟩, txstate⟩)
    · exact .inl foreign
    · exact .inr ⟨set, fun c member => ⟨sysvar c member, txstate c member⟩⟩
  · rintro (foreign | ⟨set, bare⟩)
    · exact .inl foreign
    · exact .inr ⟨⟨set, fun c member => (bare c member).1⟩, fun c member => (bare c member).2⟩

/-! ## Statements that do several things -/

/-- A part that is a mutation taints the whole statement, unless the flag is all that gives it
away and the other part has a tracker of its own that accounts for the flag. -/
theorem isMutation_append (first second : List SessionStateChange) (flag flag' : Bool)
    (mutation : (summarize first flag).isMutation = true) :
    (summarize (first ++ second) (flag || flag')).isMutation = true ↔
      (∃ c ∈ first, c.setsForeignVar = true) ∨ (∃ c ∈ second, c.setsForeignVar = true) ∨
        ∀ c ∈ second, c.isSysvar = false ∧ c.isTxstate = false := by
  rw [isMutation_iff] at mutation
  rw [isMutation_iff, Bool.or_eq_true]
  constructor
  · rintro (⟨c, member, foreign⟩ | ⟨_, bare⟩)
    · rcases List.mem_append.mp member with here | there
      · exact .inl ⟨c, here, foreign⟩
      · exact .inr (.inl ⟨c, there, foreign⟩)
    · exact .inr (.inr fun c member => bare c (List.mem_append_right _ member))
  · rintro (⟨c, member, foreign⟩ | ⟨c, member, foreign⟩ | bare)
    · exact .inl ⟨c, List.mem_append_left _ member, foreign⟩
    · exact .inl ⟨c, List.mem_append_right _ member, foreign⟩
    · rcases mutation with ⟨c, member, foreign⟩ | ⟨set, alone⟩
      · exact .inl ⟨c, List.mem_append_left _ member, foreign⟩
      · refine .inr ⟨.inl set, ?_⟩
        intro c member
        rcases List.mem_append.mp member with here | there
        · exact alone c here
        · exact bare c there

theorem isMutation_append_bare :
    (summarize ([] ++ [.schema [100]]) (true || false)).isMutation = true ↔
      (∃ c ∈ ([] : List SessionStateChange), c.setsForeignVar = true) ∨
      (∃ c ∈ [SessionStateChange.schema [100]], c.setsForeignVar = true) ∨
        ∀ c ∈ [SessionStateChange.schema [100]], c.isSysvar = false ∧ c.isTxstate = false :=
  isMutation_append [] [.schema [100]] true false (by decide)

/-- A temporary table and an autocommit toggle in one statement. -/
theorem toggle_masks :
    ∃ (first second : List SessionStateChange) (flag flag' : Bool),
      (summarize first flag).isMutation = true ∧
        (summarize (first ++ second) (flag || flag')).isMutation = false :=
  ⟨[], [.systemVariables [autocommit]], true, true, by decide, by decide⟩

end FerroEngine.SessionTracker
