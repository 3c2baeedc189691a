import FerroEngine.PostgresLexicalRules
import FerroEngine.QueueShape

set_option autoImplicit false

/-! # The relation that a store's statements address

What PostgreSQL's catalog returns of the configured relation, and how its lexer reads the
identifier that goes into every later statement.
-/

namespace FerroEngine.QueueRelation

open SourceText SqlMessages PostgresLexicalRules QueueIdentifiers QueueShape

/-! ## PostgreSQL -/

/-- The longest start of a text with at most `n` bytes; the lexer clips every identifier so. -/
def clip : Nat → Text → Text
  | _, [] => []
  | n, c :: cs => if c.utf8Size ≤ n then c :: clip (n - c.utf8Size) cs else []

def undouble (q : Char) : Text → Text
  | [] => []
  | [c] => [c]
  | c :: d :: cs => if c = q ∧ d = q then q :: undouble q cs else c :: undouble q (d :: cs)

/-- The name that a quoted identifier stands for. -/
def identifier (token : Token) : Text :=
  clip maxPartLen (undouble '"' token.text.tail.dropLast)

/-- A name that PostgreSQL permits. -/
structure Name where
  text : Text
  nonempty : text ≠ []
  fits : byteLen text ≤ maxPartLen
  noNul : '\x00' ∉ text

/-- What `quote_identifier` leaves as it is; its keyword table is a parameter. -/
def plain (keyword : Text → Bool) : Text → Bool
  | [] => false
  | c :: cs =>
    (c.isLower || c == '_') && (cs.all fun b => b.isLower || b.isDigit || b == '_') &&
      !keyword (c :: cs)

def quoteIdentifier (keyword : Text → Bool) (name : Text) : Text :=
  if plain keyword name then name else quotePart '"' name

structure Column where
  attname : String
  formatType : String
  attnotnull : Bool

structure Relation where
  schema : Name
  name : Name
  relkind : String
  idUnique : Bool
  inheritanceChildren : Bool
  columns : List Column

def boolText (b : Bool) : Value :=
  .text (if b then "true" else "false")

/-- The rows of `PG_RELATION_SQL`, one for each column. -/
def relationRows (keyword : Text → Bool) (r : Relation) : List (List Value) :=
  let head : List Value :=
    [.text r.relkind, .text (String.ofList (quoteIdentifier keyword r.schema.text)),
      boolText r.idUnique, boolText r.inheritanceChildren]
  match r.columns with
  | [] => [head ++ [.null, .null, .text "YES"]]
  | columns => columns.map fun c =>
    head ++ [.text c.attname, .text c.formatType, .text (if c.attnotnull then "NO" else "YES")]

structure Catalog where
  relations : List Relation
  searchPath : List Text

/-- The parts of a quoted, possibly qualified name. -/
def readName (text : Text) : Option (Option Text × Text) :=
  match lex text with
  | [a] => if a.kind = .quotedIdent then some (none, identifier a) else none
  | [a, dot, b] =>
    if a.kind = .quotedIdent ∧ dot.text = ['.'] ∧ b.kind = .quotedIdent then
      some (some (identifier a), identifier b)
    else none
  | _ => none

def Catalog.find (catalog : Catalog) (schema name : Text) : Option Relation :=
  catalog.relations.find? fun r => r.schema.text == schema && r.name.text == name

def toRegclass (catalog : Catalog) (text : Text) : Option Relation :=
  match readName text with
  | none => none
  | some (some schema, name) => catalog.find schema name
  | some (none, name) => catalog.searchPath.findSome? fun schema => catalog.find schema name

/-- The catalog read for a configured table. -/
def catalogRows (keyword : Text → Bool) (catalog : Catalog) (configured : TableName) :
    List (List Value) :=
  match toRegclass catalog (configured.quoted .postgres) with
  | none => []
  | some r => relationRows keyword r

/-! ## The lexer at a quoted identifier -/

theorem quotedLen_double {q : Char} (part rest : Text) (open' : rest.head? ≠ some q) :
    quotedLen q (double q part ++ q :: rest) = (double q part).length + 1 := by
  induction part with
  | nil =>
    cases rest with
    | nil => rfl
    | cons d cs =>
      have other : d ≠ q := fun same => open' (by rw [same]; rfl)
      show quotedLen q (q :: d :: cs) = 1
      rw [quotedLen, if_pos rfl, if_neg other]
  | cons c part ih =>
    by_cases same : c = q
    · rw [same, double_same, List.cons_append, List.cons_append, quotedLen, if_pos rfl, if_pos rfl,
        ih]
      simp only [List.length_cons]
      omega
    · rw [double_other same, List.cons_append]
      cases tail : double q part ++ q :: rest with
      | nil =>
        have impossible := congrArg List.length tail
        rw [List.length_append, List.length_cons] at impossible
        exact absurd impossible (by rw [List.length_nil]; omega)
      | cons d cs =>
        rw [tail] at ih
        rw [quotedLen, if_neg same, ih, List.length_cons]
        omega

theorem undouble_double (q : Char) (part : Text) : undouble q (double q part) = part := by
  induction part with
  | nil => rfl
  | cons c part ih =>
    by_cases same : c = q
    · rw [same, double_same, undouble, if_pos ⟨rfl, rfl⟩, ih]
    · rw [double_other same]
      cases tail : double q part with
      | nil =>
        rw [tail] at ih
        rw [← ih]
        rfl
      | cons d cs =>
        rw [tail] at ih
        rw [undouble, if_neg (fun both => same both.1), ih]

theorem identifier_quotePart (kind : Kind) (part : Text) :
    identifier { kind := kind, text := quotePart '"' part } = clip maxPartLen part := by
  unfold identifier quotePart
  rw [List.tail_cons, List.dropLast_concat, undouble_double]

/-- A quoted part is one token, whatever follows it. -/
theorem lexFrom_quotePart (fuel : Nat) (context : Context) (part rest : Text)
    (open' : rest.head? ≠ some '"') :
    lexFrom (fuel + 1) context (quotePart '"' part ++ rest) =
      { kind := .quotedIdent, text := quotePart '"' part } :: lexFrom fuel .plain rest := by
  have len : 1 + quotedLen '"' (double '"' part ++ '"' :: rest) =
      (quotePart '"' part).length := by
    rw [quotedLen_double part rest open']
    unfold quotePart
    simp only [List.length_cons, List.length_append, List.length_nil]
    omega
  have first : firstToken context '"' (double '"' part ++ '"' :: rest) =
      (.quotedIdent, (quotePart '"' part).length) := by
    rw [← len]
    rfl
  have shape : quotePart '"' part ++ rest = '"' :: (double '"' part ++ '"' :: rest) := by
    unfold quotePart
    rw [List.cons_append, List.append_assoc]
    rfl
  rw [shape, lexFrom, first]
  simp only
  rw [← shape, List.take_left, List.drop_left]
  rfl

theorem lexFrom_dot (fuel : Nat) (rest : Text) :
    lexFrom (fuel + 1) .plain ('.' :: '"' :: rest) =
      { kind := .other, text := ['.'] } :: lexFrom fuel .plain ('"' :: rest) := rfl

/-! ## Clipping -/

theorem clip_of_fits {n : Nat} {text : Text} (fits : byteLen text ≤ n) : clip n text = text := by
  induction text generalizing n with
  | nil => rfl
  | cons c cs ih =>
    rw [byteLen_cons] at fits
    rw [clip, if_pos (by omega), ih (by omega)]

theorem clip_split (n : Nat) (text : Text) : ∃ rest, text = clip n text ++ rest := by
  induction text generalizing n with
  | nil => exact ⟨[], rfl⟩
  | cons c cs ih =>
    rw [clip]
    split_ifs
    · obtain ⟨rest, same⟩ := ih (n - c.utf8Size)
      exact ⟨rest, congrArg (c :: ·) same⟩
    · exact ⟨c :: cs, rfl⟩

theorem clip_replicate {c : Char} (one : c.utf8Size = 1) (n m : Nat) :
    clip n (List.replicate m c) = List.replicate (min n m) c := by
  induction m generalizing n with
  | zero =>
    rw [Nat.min_zero]
    rfl
  | succ m ih =>
    rw [List.replicate_succ, clip, one]
    cases n with
    | zero => rw [if_neg (by omega), Nat.zero_min, List.replicate_zero]
    | succ n => rw [if_pos (by omega), Nat.add_sub_cancel, ih, Nat.succ_min_succ, List.replicate_succ]

/-- A text that starts its own quoted form is made of quotes. -/
theorem quotes_of_split {q : Char} {text tail rest : Text} {k : Nat}
    (same : List.replicate (k + 1) q ++ (double q text ++ tail) = text ++ rest) :
    text = List.replicate text.length q := by
  induction text generalizing k with
  | nil => rfl
  | cons c cs ih =>
    rw [List.replicate_succ, List.cons_append, List.cons_append, List.cons.injEq] at same
    obtain ⟨head, same⟩ := same
    rw [← head, double_same] at same
    have longer : List.replicate (k + 1 + 1) q ++ (double q cs ++ tail) = cs ++ rest := by
      rw [← same, List.replicate_succ', List.replicate_succ']
      simp only [List.append_assoc, List.cons_append, List.nil_append]
    have quotes := ih longer
    rw [← head, List.length_cons, List.replicate_succ, ← quotes]

/-- The names that PostgreSQL reads back from a doubly quoted form of theirs. -/
theorem clip_quotePart_iff {name : Text} (fits : byteLen name ≤ maxPartLen) :
    clip maxPartLen (quotePart '"' name) = name ↔ name = List.replicate maxPartLen '"' := by
  have one : Char.utf8Size '"' = 1 := rfl
  have quotes : ∀ n, quotePart '"' (List.replicate n '"') = List.replicate (2 * n + 2) '"' := by
    intro n
    unfold quotePart
    rw [double_replicate, ← List.replicate_succ', ← List.replicate_succ]
  refine ⟨?_, ?_⟩
  · intro same
    obtain ⟨rest, split⟩ := clip_split maxPartLen (quotePart '"' name)
    rw [same] at split
    have start : List.replicate (0 + 1) '"' ++ (double '"' name ++ ['"']) = name ++ rest := split
    have all := quotes_of_split start
    rw [all, quotes, clip_replicate one] at same
    have length := congrArg List.length same
    rw [List.length_replicate, List.length_replicate] at length
    rw [all, byteLen_replicate one] at fits
    have full : name.length = maxPartLen := by omega
    rw [← full]
    exact all
  · intro same
    rw [same, quotes, clip_replicate one]
    rfl

theorem clip_quoteIdentifier_iff (keyword : Text → Bool) (name : Name) :
    clip maxPartLen (quoteIdentifier keyword name.text) = name.text ↔
      plain keyword name.text = true ∨ name.text = List.replicate maxPartLen '"' := by
  unfold quoteIdentifier
  by_cases bare : plain keyword name.text = true
  · rw [if_pos bare, clip_of_fits name.fits]
    exact ⟨fun _ => Or.inl bare, fun _ => rfl⟩
  · rw [if_neg bare, clip_quotePart_iff name.fits]
    exact ⟨Or.inr, fun either => either.resolve_left bare⟩

/-! ## Spliced names -/

/-- The lexer reads the text as two quoted identifiers with a dot between them and goes on with
what follows. -/
def Spliced (text first second : Text) : Prop :=
  ∀ (fuel : Nat) (context : Context) (rest : Text), rest.head? ≠ some '"' →
    lexFrom (fuel + 3) context (text ++ rest) =
      { kind := .quotedIdent, text := first } :: { kind := .other, text := ['.'] } ::
        { kind := .quotedIdent, text := second } :: lexFrom fuel .plain rest

/-- The text names the table in the schema. -/
def Addresses (text schema table : Text) : Prop :=
  ∃ first second, Spliced text first second ∧
    identifier { kind := .quotedIdent, text := first } = schema ∧
    identifier { kind := .quotedIdent, text := second } = table

theorem spliced_quoted (schema table : Text) :
    Spliced (quotePart '"' schema ++ '.' :: quotePart '"' table) (quotePart '"' schema)
      (quotePart '"' table) := by
  intro fuel context rest open'
  rw [List.append_assoc, List.cons_append]
  rw [lexFrom_quotePart (fuel + 2) context schema ('.' :: (quotePart '"' table ++ rest))
    (fun same => by cases same)]
  rw [show quotePart '"' table ++ rest = '"' :: (double '"' table ++ ['"'] ++ rest) from rfl,
    lexFrom_dot,
    show '"' :: (double '"' table ++ ['"'] ++ rest) = quotePart '"' table ++ rest from rfl,
    lexFrom_quotePart fuel .plain table rest open']

theorem Spliced.unique {text first second first' second' : Text}
    (spliced : Spliced text first second) (spliced' : Spliced text first' second') :
    first = first' ∧ second = second' := by
  have same := spliced 0 .plain [] (fun none' => by cases none')
  rw [spliced' 0 .plain [] (fun none' => by cases none')] at same
  simp only [List.cons.injEq, Token.mk.injEq, true_and] at same
  exact ⟨same.1.symm, same.2.1.symm⟩

theorem addresses_iff {schema table : Text} (name name' : Text) :
    Addresses (quotePart '"' schema ++ '.' :: quotePart '"' table) name name' ↔
      clip maxPartLen schema = name ∧ clip maxPartLen table = name' := by
  refine ⟨?_, ?_⟩
  · intro addresses
    obtain ⟨first, second, spliced, read, read'⟩ := addresses
    obtain ⟨same, same'⟩ := (spliced_quoted schema table).unique spliced
    rw [← same, identifier_quotePart] at read
    rw [← same', identifier_quotePart] at read'
    exact ⟨read, read'⟩
  · intro read
    refine ⟨_, _, spliced_quoted schema table, ?_, ?_⟩
    · rw [identifier_quotePart]
      exact read.1
    · rw [identifier_quotePart]
      exact read.2

/-! ## The verified relation -/

theorem lexFrom_nil (fuel : Nat) (context : Context) : lexFrom fuel context [] = [] := by
  cases fuel with
  | zero => rfl
  | succ fuel => rfl

theorem readName_quoted (configured : TableName) :
    readName (configured.quoted .postgres) =
      some (configured.schema.map (clip maxPartLen), clip maxPartLen configured.table) := by
  obtain ⟨schema, table⟩ := configured
  cases schema with
  | none =>
    have tokens : lex (quotePart '"' table) =
        [{ kind := .quotedIdent, text := quotePart '"' table }] := by
      have read := lexFrom_quotePart (double '"' table ++ ['"']).length .plain table []
        (fun none' => by cases none')
      rw [List.append_nil, lexFrom_nil] at read
      exact read
    show readName (quotePart '"' table) = _
    unfold readName
    rw [tokens]
    simp only [if_true, identifier_quotePart]
    rfl
  | some schema =>
    have tokens : lex (quotePart '"' schema ++ '.' :: quotePart '"' table) =
        [{ kind := .quotedIdent, text := quotePart '"' schema },
          { kind := .other, text := ['.'] },
          { kind := .quotedIdent, text := quotePart '"' table }] := by
      obtain ⟨fuel, enough⟩ : ∃ fuel,
          (quotePart '"' schema ++ '.' :: quotePart '"' table).length = fuel + 3 := by
        refine ⟨(double '"' schema).length + (double '"' table).length + 2, ?_⟩
        unfold quotePart
        simp only [List.length_cons, List.length_append, List.length_nil]
        omega
      have read := spliced_quoted schema table fuel .plain [] (fun none' => by cases none')
      rw [List.append_nil, lexFrom_nil] at read
      unfold lex
      rw [enough, read]
    show readName (quotePart '"' schema ++ '.' :: quotePart '"' table) = _
    unfold readName
    rw [tokens]
    simp only [and_self, if_true, identifier_quotePart]
    rfl

/-- The relation that the catalog finds has the configured names. -/
theorem toRegclass_name {catalog : Catalog} {raw : Text} {configured : TableName}
    (parsed : TableName.parse raw = .ok configured) {r : Relation}
    (found : toRegclass catalog (configured.quoted .postgres) = some r) :
    r.name.text = configured.table := by
  have table := clip_of_fits (partOk_fits (TableName.parse_parts parsed).1).2
  have named : ∀ {schema : Text}, catalog.find schema configured.table = some r →
      r.name.text = configured.table := by
    intro schema found
    have holds := List.find?_some found
    rw [Bool.and_eq_true, beq_iff_eq, beq_iff_eq] at holds
    exact holds.2
  unfold toRegclass at found
  rw [readName_quoted, table] at found
  cases schema : configured.schema with
  | none =>
    rw [schema] at found
    obtain ⟨s, _, found⟩ := List.exists_of_findSome?_eq_some found
    exact named found
  | some s =>
    rw [schema] at found
    exact named found

theorem relationRows_head (keyword : Text → Bool) (r : Relation) :
    ∃ rest others, relationRows keyword r = (.text r.relkind ::
      .text (String.ofList (quoteIdentifier keyword r.schema.text)) :: rest) :: others := by
  unfold relationRows
  cases r.columns with
  | nil => exact ⟨_, _, rfl⟩
  | cons c columns => exact ⟨_, _, rfl⟩

theorem fromRows_schema {rows : List (List Value)} {rel : PgRelation}
    (read : PgRelation.fromRows rows = .ok (some rel)) :
    ∃ k s rest others, rows = (.text k :: .text s :: rest) :: others ∧ rel.schema = s.toList := by
  unfold PgRelation.fromRows at read
  split at read
  · cases read
  · next first others =>
    split at read
    · next k s u i rest =>
      refine ⟨k, s, _, _, rfl, ?_⟩
      cases unique : flag u with
      | error e =>
        rw [unique] at read
        cases read
      | ok unique' =>
        cases children : flag i with
        | error e =>
          rw [unique, children] at read
          cases read
        | ok children' =>
          rw [unique, children] at read
          cases columns : columnsOf
              (((.text k :: .text s :: .text u :: .text i :: rest) :: others).length == 1)
              ((.text k :: .text s :: .text u :: .text i :: rest) :: others) with
          | error e =>
            rw [columns] at read
            cases read
          | ok columns' =>
            rw [columns] at read
            cases read
            rfl
    · cases read

/-- What verification resolves is the schema cell of the relation that was found. -/
theorem verifyRows_resolved {keyword : Text → Bool} {catalog : Catalog} {configured t : TableName}
    (verified : verifyRows configured (catalogRows keyword catalog configured) = .ok t) :
    ∃ r, toRegclass catalog (configured.quoted .postgres) = some r ∧
      t = .resolved (quoteIdentifier keyword r.schema.text) configured := by
  unfold verifyRows at verified
  cases read : PgRelation.fromRows (catalogRows keyword catalog configured) with
  | error e =>
    rw [read] at verified
    cases verified
  | ok relation =>
    rw [read] at verified
    simp only at verified
    cases relation with
    | none => cases verified
    | some rel =>
      cases verdict : verifyPg configured (some rel) with
      | error e =>
        rw [verdict] at verified
        cases verified
      | ok _ =>
        rw [verdict] at verified
        cases verified
        obtain ⟨k, s, rest, others, rows, schema⟩ := fromRows_schema read
        unfold catalogRows at rows
        cases found : toRegclass catalog (configured.quoted .postgres) with
        | none =>
          rw [found] at rows
          cases rows
        | some r =>
          rw [found] at rows
          obtain ⟨rest', others', head⟩ := relationRows_head keyword r
          simp only at rows
          rw [head] at rows
          simp only [List.cons.injEq, Value.text.injEq] at rows
          refine ⟨r, rfl, ?_⟩
          show TableName.resolved rel.schema configured = _
          rw [schema, ← rows.1.2.1, String.toList_ofList]

/-- For every catalog and every configured table, when the relation is verified: the identifier in
the later statements is always read as two quoted identifiers, which no character of a name ends
early; it is read as the schema and table that were verified if and only if the schema is plain, or
made of 63 quotes. -/
theorem addresses_verified_iff (keyword : Text → Bool) (catalog : Catalog) (raw : Text)
    (configured resolved : TableName) (parsed : TableName.parse raw = .ok configured)
    (verified : verifyRows configured (catalogRows keyword catalog configured) = .ok resolved) :
    ∃ r, toRegclass catalog (configured.quoted .postgres) = some r ∧
      (∃ first second, Spliced (resolved.quoted .postgres) first second) ∧
      (Addresses (resolved.quoted .postgres) r.schema.text r.name.text ↔
        plain keyword r.schema.text = true ∨
          r.schema.text = List.replicate maxPartLen '"') := by
  obtain ⟨r, found, same⟩ := verifyRows_resolved verified
  have table := toRegclass_name parsed found
  have text : resolved.quoted .postgres = quotePart '"' (quoteIdentifier keyword r.schema.text) ++
      '.' :: quotePart '"' configured.table := by
    rw [same]
    rfl
  refine ⟨r, found, ?_, ?_⟩
  · rw [text]
    exact ⟨_, _, spliced_quoted _ _⟩
  · rw [text, addresses_iff, clip_quoteIdentifier_iff, table]
    have fits := clip_of_fits (partOk_fits (TableName.parse_parts parsed).1).2
    exact ⟨fun both => both.1, fun either => ⟨either, fits⟩⟩

/-! ## Sample catalogs -/

def reservedWord (name : Text) : Bool :=
  ["select", "table", "user", "order"].contains (String.ofList name)

def ferroJobs : TableName :=
  { schema := none, table := "ferro_jobs".toList }

def stockColumns : List Column :=
  pgExpected.map fun e =>
    { attname := e.column, formatType := e.accepted.headD "", attnotnull := !e.mustBeNullable }

def stockRelation (schema : Name) : Relation :=
  { schema := schema
    name := ⟨"ferro_jobs".toList, by decide, by decide, by decide⟩
    relkind := "r", idUnique := true, inheritanceChildren := false, columns := stockColumns }

def publicSchema : Name := ⟨"public".toList, by decide, by decide, by decide⟩

def appSchema : Name := ⟨"App".toList, by decide, by decide, by decide⟩

def onlyIn (schema : Name) : Catalog :=
  { relations := [stockRelation schema], searchPath := [schema.text] }

theorem addresses_verified_iff_on_sample :
    ∃ r, toRegclass (onlyIn publicSchema) (ferroJobs.quoted .postgres) = some r ∧
      r.schema.text = "public".toList ∧
      Addresses ((TableName.resolved "public".toList ferroJobs).quoted .postgres) r.schema.text
        r.name.text := by
  have found : toRegclass (onlyIn publicSchema) (ferroJobs.quoted .postgres) =
      some (stockRelation publicSchema) := rfl
  obtain ⟨r, found', _, addresses⟩ := addresses_verified_iff reservedWord (onlyIn publicSchema)
    "ferro_jobs".toList ferroJobs (.resolved "public".toList ferroJobs) rfl rfl
  rw [found, Option.some.injEq] at found'
  rw [← found'] at addresses
  exact ⟨_, found, rfl, addresses.mpr (Or.inl rfl)⟩

/-- A store whose table is in the schema `App`. -/
theorem mixedCase_addresses_other :
    ∃ resolved, verifyRows ferroJobs (catalogRows reservedWord (onlyIn appSchema) ferroJobs) =
        .ok resolved ∧
      ¬Addresses (resolved.quoted .postgres) "App".toList "ferro_jobs".toList ∧
      Addresses (resolved.quoted .postgres) "\"App\"".toList "ferro_jobs".toList := by
  refine ⟨.resolved "\"App\"".toList ferroJobs, rfl, ?_, ?_⟩
  · show ¬Addresses (quotePart '"' "\"App\"".toList ++ '.' :: quotePart '"' "ferro_jobs".toList) _ _
    rw [addresses_iff]
    decide
  · show Addresses (quotePart '"' "\"App\"".toList ++ '.' :: quotePart '"' "ferro_jobs".toList) _ _
    rw [addresses_iff]
    decide

end FerroEngine.QueueRelation
