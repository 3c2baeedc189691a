import FerroEngine.QueueIdentifiers
import FerroEngine.SqlMessages

set_option autoImplicit false

/-! # Shape verification of a queue store

`shape.rs`: the rows of the catalog read, and the verdict on the relation that they describe.
-/

namespace FerroEngine.QueueShape

open SourceText SqlMessages QueueIdentifiers

structure ColumnRow where
  name : String
  dataType : String
  nullable : Bool
  deriving DecidableEq, Repr

structure PgRelation where
  relkind : String
  schema : Text
  idUnique : Bool
  inheritanceChildren : Bool
  columns : List ColumnRow
  deriving DecidableEq, Repr

def flag (v : String) : Except Unit Bool :=
  if v = "true" then .ok true else if v = "false" then .ok false else .error ()

/-- The columns of all rows; a row without a column stands alone. -/
def columnsOf (alone : Bool) : List (List Value) → Except Unit (List ColumnRow)
  | [] => .ok []
  | row :: rows =>
    match row with
    | [.text _, .text _, .text _, .text _, .text name, .text dataType, .text nullable] => do
      let columns ← columnsOf alone rows
      return { name := name, dataType := dataType, nullable := nullable == "YES" } :: columns
    | [.text _, .text _, .text _, .text _, .null, .null, .text _] =>
      if alone then columnsOf alone rows else .error ()
    | _ => .error ()

def PgRelation.fromRows (rows : List (List Value)) : Except Unit (Option PgRelation) :=
  match rows with
  | [] => .ok none
  | first :: _ =>
    match first with
    | .text k :: .text s :: .text u :: .text i :: _ => do
      let idUnique ← flag u
      let inheritanceChildren ← flag i
      let columns ← columnsOf (rows.length == 1) rows
      return some
        { relkind := k, schema := s.toList, idUnique := idUnique,
          inheritanceChildren := inheritanceChildren, columns := columns }
    | _ => .error ()

/-! ## The verdict -/

def pgTableRelkinds : List String := ["r", "p"]

structure ExpectedColumn where
  column : String
  accepted : List String
  mustBeNullable : Bool

def pgExpected : List ExpectedColumn :=
  [{ column := "id", accepted := ["bigint"], mustBeNullable := false },
    { column := "queue", accepted := ["character varying", "text"], mustBeNullable := false },
    { column := "payload", accepted := ["text"], mustBeNullable := false },
    { column := "attempts", accepted := ["smallint"], mustBeNullable := false },
    { column := "reserved_at", accepted := ["integer"], mustBeNullable := true },
    { column := "available_at", accepted := ["integer"], mustBeNullable := false },
    { column := "created_at", accepted := ["integer"], mustBeNullable := false }]

inductive ShapeError where
  | tableAbsent (table : TableName)
  | notATable (table : TableName) (relkind : String)
  | missingColumn (table : TableName) (column : String)
  | wrongType (table : TableName) (column found : String) (accepted : List String)
  | notNullable (table : TableName) (column : String)
  | idNotUnique (table : TableName)
  | inheritanceChildren (table : TableName)
  deriving DecidableEq, Repr

def checkColumn (table : TableName) (columns : List ColumnRow) (e : ExpectedColumn) :
    Except ShapeError Unit :=
  match columns.find? fun r => r.name == e.column with
  | none => .error (.missingColumn table e.column)
  | some row =>
    if !e.accepted.contains row.dataType then
      .error (.wrongType table e.column row.dataType e.accepted)
    else if e.mustBeNullable && !row.nullable then .error (.notNullable table e.column)
    else .ok ()

def verifyPg (table : TableName) (relation : Option PgRelation) : Except ShapeError Unit :=
  match relation with
  | none => .error (.tableAbsent table)
  | some rel =>
    if !pgTableRelkinds.contains rel.relkind then .error (.notATable table rel.relkind)
    else if rel.inheritanceChildren then .error (.inheritanceChildren table)
    else do
      pgExpected.forM (checkColumn table rel.columns)
      if !rel.idUnique then throw (.idNotUnique table)

/-- How verification fails on the rows of the catalog. -/
inductive Verification where
  | shape (e : ShapeError)
  | unexpectedRows
  deriving DecidableEq, Repr

/-- `verify_pg` of `services/queue.rs`, from the rows that the catalog read returned. -/
def verifyRows (table : TableName) (rows : List (List Value)) : Except Verification TableName :=
  match PgRelation.fromRows rows with
  | .error () => .error .unexpectedRows
  | .ok relation =>
    match verifyPg table relation with
    | .error e => .error (.shape e)
    | .ok () => .ok (.resolved ((relation.map PgRelation.schema).getD []) table)

end FerroEngine.QueueShape
