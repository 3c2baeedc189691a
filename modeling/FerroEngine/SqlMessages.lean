import FerroEngine.MessagePack

set_option autoImplicit false

/-! # Messages of the SQL service

`Value`, `ColMeta`, `Stats`, `ExecOk`, `StreamHead` and `StreamData` of `ferro-proto` and their
encoders. The lengths of arrays are cast to 32 bits as the source casts them.
-/

namespace FerroEngine.SqlMessages

open MessagePack

/-- A double is its bits; a canonical text is its string. -/
inductive Value where
  | null
  | bool (b : Bool)
  | i64 (n : Int)
  | f64 (bits : UInt64)
  | text (s : String)
  | bytes (b : List UInt8)
  | u64 (n : Nat)
  | decimal (s : String)
  | date (s : String)
  | time (s : String)
  | timestamp (s : String)
  | timestampTz (s : String)
  | uuid (s : String)
  | json (s : String)
  deriving DecidableEq

namespace Value

def tag : Value → Nat
  | .null => 0
  | .bool _ => 1
  | .i64 _ => 2
  | .u64 _ => 3
  | .f64 _ => 4
  | .decimal _ => 5
  | .text _ => 6
  | .bytes _ => 7
  | .date _ => 8
  | .time _ => 9
  | .timestamp _ => 10
  | .timestampTz _ => 11
  | .uuid _ => 12
  | .json _ => 13

def payload : Value → List UInt8
  | .null => writeNil
  | .bool b => writeBool b
  | .i64 n => writeSint n
  | .f64 bits => writeF64 bits
  | .text s => writeStr s
  | .bytes b => writeBin b
  | .u64 n => writeUint n
  | .decimal s | .date s | .time s | .timestamp s | .timestampTz s | .uuid s | .json s => writeStr s

def encode (v : Value) : List UInt8 :=
  writeArrayLen 2 ++ writePfix v.tag ++ v.payload

end Value

structure ColMeta where
  name : String
  tag : Nat
  deriving DecidableEq

def ColMeta.encode (c : ColMeta) : List UInt8 :=
  writeArrayLen 2 ++ writeStr c.name ++ writeUint c.tag

structure Stats where
  queueUs : Nat
  execUs : Nat
  rows : Nat
  bytes : Nat
  deriving DecidableEq

def Stats.encode (s : Stats) : List UInt8 :=
  writeArrayLen 4 ++ writeUint s.queueUs ++ writeUint s.execUs ++ writeUint s.rows ++
    writeUint s.bytes

def encodeCols (cols : List ColMeta) : List UInt8 :=
  writeArrayLen (cols.length % 2 ^ 32) ++ cols.flatMap ColMeta.encode

def encodeRow (row : List Value) : List UInt8 :=
  writeArrayLen (row.length % 2 ^ 32) ++ row.flatMap Value.encode

def encodeRows (rows : List (List Value)) : List UInt8 :=
  writeArrayLen (rows.length % 2 ^ 32) ++ rows.flatMap encodeRow

structure ExecOk where
  cols : List ColMeta
  rows : List (List Value)
  affected : Nat
  lastInsertId : Option Value
  stats : Stats
  deriving DecidableEq

/-- `write_opt_value`. -/
def writeOptValue : Option Value → List UInt8
  | none => writeNil
  | some v => v.encode

def ExecOk.encode (e : ExecOk) : List UInt8 :=
  writeArrayLen 5 ++ encodeCols e.cols ++ encodeRows e.rows ++ writeUint e.affected ++
    writeOptValue e.lastInsertId ++ e.stats.encode

structure ExecRequest where
  pool : String
  sql : Option String
  queryId : Option String
  params : List Value
  timeoutMs : Option Nat
  readonly : Bool
  fetch : Nat
  txId : Option Nat
  traceparent : Option String
  deriving DecidableEq

def ExecRequest.encode (r : ExecRequest) : List UInt8 :=
  writeArrayLen 9 ++ writeStr r.pool ++ writeOption writeStr r.sql ++
    writeOption writeStr r.queryId ++ writeArrayLen (r.params.length % 2 ^ 32) ++
    r.params.flatMap Value.encode ++ writeOption writeUint r.timeoutMs ++ writeBool r.readonly ++
    writeUint r.fetch ++ writeOption writeUint r.txId ++ writeOption writeStr r.traceparent

/-- `StreamHead::encode`. -/
def encodeHead (cols : List ColMeta) : List UInt8 :=
  writeArrayLen 1 ++ encodeCols cols

/-- `StreamData::encode`. -/
def encodeData (rows : List (List Value)) : List UInt8 :=
  writeArrayLen 1 ++ encodeRows rows

theorem encodeRows_le_encode (e : ExecOk) : (encodeRows e.rows).length ≤ e.encode.length := by
  rw [ExecOk.encode]
  simp only [List.length_append]
  omega

theorem length_le_flatMap {α : Type} (f : α → List UInt8) {l : List α} {x : α} (member : x ∈ l) :
    (f x).length ≤ (l.flatMap f).length := by
  induction l with
  | nil => cases member
  | cons y l ih =>
    rw [List.flatMap_cons, List.length_append]
    rcases List.mem_cons.mp member with rfl | later
    · omega
    · have rest := ih later
      omega

/-- A cell of raw bytes takes at least its length in every frame that carries it. -/
theorem bytes_le_encodeRows {rows : List (List Value)} {row : List Value} {b : List UInt8}
    (inRows : row ∈ rows) (inRow : .bytes b ∈ row) : b.length ≤ (encodeRows rows).length := by
  have cell : b.length ≤ (Value.bytes b).encode.length := by
    rw [Value.encode, List.length_append]
    exact Nat.le_trans (le_writeBin_length b) (Nat.le_add_left _ _)
  have inCells := length_le_flatMap Value.encode inRow
  have inLines := length_le_flatMap encodeRow inRows
  rw [encodeRow, List.length_append] at inLines
  rw [encodeRows, List.length_append]
  omega

end FerroEngine.SqlMessages
