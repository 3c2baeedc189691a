import FerroEngine.SourceText

set_option autoImplicit false

/-! # The table identifier of a queue store

`ident.rs`: a validated `[schema.]table`, and its quoted form.
-/

namespace FerroEngine.QueueIdentifiers

open SourceText

inductive Dialect where
  | postgres
  | mysql
  deriving DecidableEq, Repr

/-- PostgreSQL's `NAMEDATALEN - 1`. -/
def maxPartLen : Nat := 63

structure TableName where
  schema : Option Text
  table : Text
  deriving DecidableEq, Repr

inductive IdentError where
  | characters
  | tooLong
  | tooManyParts
  deriving DecidableEq, Repr

def partOk : Text → Except IdentError Unit
  | [] => .error .characters
  | c :: cs =>
    if !(c.isAlpha || c == '_') then .error .characters
    else if !(cs.all fun b => b.isAlphanum || b == '_') then .error .characters
    else if maxPartLen < byteLen (c :: cs) then .error .tooLong
    else .ok ()

/-- A text with every `q` in it doubled. -/
def double (q : Char) (text : Text) : Text :=
  text.flatMap fun c => if c = q then [q, q] else [c]

def quotePart (q : Char) (part : Text) : Text :=
  q :: (double q part ++ [q])

def quoteChar : Dialect → Char
  | .postgres => '"'
  | .mysql => '`'

namespace TableName

def parse (raw : Text) : Except IdentError TableName :=
  match raw.splitOn '.' with
  | [first] => do
    partOk first
    return { schema := none, table := first }
  | [first, second] => do
    partOk first
    partOk second
    return { schema := some first, table := second }
  | _ => .error .tooManyParts

/-- The relation that the verification resolved. -/
def resolved (schema : Text) (configured : TableName) : TableName :=
  { schema := some schema, table := configured.table }

def quoted (t : TableName) (dialect : Dialect) : Text :=
  let q := quotePart (quoteChar dialect)
  match t.schema with
  | none => q t.table
  | some s => q s ++ '.' :: q t.table

end TableName

/-! ## Doubling -/

theorem double_cons (q c : Char) (text : Text) :
    double q (c :: text) = (if c = q then [q, q] else [c]) ++ double q text := rfl

theorem double_same (q : Char) (text : Text) : double q (q :: text) = q :: q :: double q text := by
  rw [double_cons, if_pos rfl]
  rfl

theorem double_other {q c : Char} (other : c ≠ q) (text : Text) :
    double q (c :: text) = c :: double q text := by
  rw [double_cons, if_neg other]
  rfl

theorem length_le_double (q : Char) (text : Text) : text.length ≤ (double q text).length := by
  induction text with
  | nil => exact Nat.le_refl 0
  | cons c text ih =>
    by_cases same : c = q
    · rw [same, double_same]
      simp only [List.length_cons]
      omega
    · rw [double_other same]
      simp only [List.length_cons]
      omega

theorem double_replicate (q : Char) (n : Nat) :
    double q (List.replicate n q) = List.replicate (2 * n) q := by
  induction n with
  | zero => rfl
  | succ n ih =>
    rw [List.replicate_succ, double_same, ih, Nat.mul_succ, List.replicate_succ, List.replicate_succ]

/-! ## Parts -/

theorem partOk_fits {part : Text} (ok : partOk part = .ok ()) :
    part ≠ [] ∧ byteLen part ≤ maxPartLen := by
  cases part with
  | nil => cases ok
  | cons c cs =>
    simp only [partOk] at ok
    split_ifs at ok with start rest long
    exact ⟨List.cons_ne_nil c cs, Nat.le_of_not_lt long⟩

theorem TableName.parse_parts {raw : Text} {t : TableName} (parsed : TableName.parse raw = .ok t) :
    partOk t.table = .ok () ∧ ∀ s, t.schema = some s → partOk s = .ok () := by
  unfold TableName.parse at parsed
  split at parsed
  · next first _ =>
    cases ok : partOk first with
    | error e =>
      rw [ok] at parsed
      cases parsed
    | ok _ =>
      rw [ok] at parsed
      cases parsed
      exact ⟨ok, fun s none' => (by cases none')⟩
  · next first second _ =>
    cases ok : partOk first with
    | error e =>
      rw [ok] at parsed
      cases parsed
    | ok _ =>
      cases ok' : partOk second with
      | error e =>
        rw [ok, ok'] at parsed
        cases parsed
      | ok _ =>
        rw [ok, ok'] at parsed
        cases parsed
        refine ⟨ok', ?_⟩
        intro s same
        cases same
        exact ok
  · cases parsed

end FerroEngine.QueueIdentifiers
