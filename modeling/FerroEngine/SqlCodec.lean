import FerroEngine.CodecLaws
import FerroEngine.SqlMessages

set_option autoImplicit false

/-! # The codec of the SQL service

The decoders of `value.rs` and `messages/sql.rs`, and that they invert the encoders and accept
nothing else. The statistics are read by the serialization library.
-/

namespace FerroEngine.SqlCodec

open MessagePack MessagePackReader CodecReaders CodecLaws SqlMessages

/-! ## Values -/

def readPayload : Nat → Reader Value
  | 0 => (fun _ => .null) <$> readNil
  | 1 => .bool <$> readBool
  | 2 => .i64 <$> readInt (-2 ^ 63) (2 ^ 63)
  | 3 => .u64 <$> readUnsigned (2 ^ 64)
  | 4 => .f64 <$> readF64Bits
  | 5 => .decimal <$> readStr
  | 6 => .text <$> readStr
  | 7 => .bytes <$> readBin
  | 8 => .date <$> readStr
  | 9 => .time <$> readStr
  | 10 => .timestamp <$> readStr
  | 11 => .timestampTz <$> readStr
  | 12 => .uuid <$> readStr
  | 13 => .json <$> readStr
  | _ => fun _ => .error .malformed

def decodeValue : Reader Value := do
  expectArity 2
  let tag ← readTag
  readPayload tag

/-- The ranges of the machine types, and the lengths that the format can carry. -/
def ValidValue : Value → Prop
  | .null | .bool _ | .f64 _ => True
  | .i64 n => -2 ^ 63 ≤ n ∧ n < 2 ^ 63
  | .u64 n => n < 2 ^ 64
  | .bytes b => ShortBytes b
  | .text s | .decimal s | .date s | .time s | .timestamp s | .timestampTz s | .uuid s | .json s =>
    ShortText s

def IsPayload : Value → Tree → Prop
  | .null, t => IsNil () t
  | .bool b, t => IsBool b t
  | .i64 n, t => IsInt n t
  | .u64 n, t => IsNat n t
  | .f64 bits, t => IsF64 bits t
  | .bytes b, t => IsBin b t
  | .text s, t | .decimal s, t | .date s, t | .time s, t | .timestamp s, t | .timestampTz s, t
  | .uuid s, t | .json s, t => IsText s t

def IsValue (v : Value) : Tree → Prop :=
  IsRecord [IsNat v.tag, IsPayload v]

theorem tag_lt (v : Value) : v.tag < 128 := by
  cases v <;> (rw [Value.tag]; omega)

theorem readPayload_back {v : Value} (valid : ValidValue v) (rest : Bytes) :
    readPayload v.tag (v.payload ++ rest) = .ok (v, rest) := by
  have texts : ∀ {f : String → Value} {s : String}, ShortText s →
      (f <$> readStr) (writeStr s ++ rest) = .ok (f s, rest) := by
    intro f s short
    exact map_ok.mpr ⟨s, strSlot.back short rest, rfl⟩
  cases v with
  | null => exact map_ok.mpr ⟨(), nilField.back trivial rest, rfl⟩
  | bool b => exact map_ok.mpr ⟨b, boolSlot.back trivial rest, rfl⟩
  | i64 n => exact map_ok.mpr ⟨n, intSlot.back valid rest, rfl⟩
  | f64 bits => exact map_ok.mpr ⟨bits, f64Field.back trivial rest, rfl⟩
  | bytes b => exact map_ok.mpr ⟨b, binSlot.back valid rest, rfl⟩
  | u64 n => exact map_ok.mpr ⟨n, u64Slot.back valid rest, rfl⟩
  | text s => exact texts valid
  | decimal s => exact texts valid
  | date s => exact texts valid
  | time s => exact texts valid
  | timestamp s => exact texts valid
  | timestampTz s => exact texts valid
  | uuid s => exact texts valid
  | json s => exact texts valid

theorem readPayload_shaped {tag : Nat} {b rest : Bytes} {v : Value}
    (reads : readPayload tag b = .ok (v, rest)) :
    v.tag = tag ∧ ∃ t, IsPayload v t ∧ Items b [t] rest := by
  unfold readPayload at reads
  split at reads
  · obtain ⟨a, run, rfl⟩ := map_ok.mp reads
    exact ⟨rfl, nilField.shaped run⟩
  · obtain ⟨a, run, rfl⟩ := map_ok.mp reads
    exact ⟨rfl, boolSlot.shaped run⟩
  · obtain ⟨a, run, rfl⟩ := map_ok.mp reads
    exact ⟨rfl, intSlot.shaped run⟩
  · obtain ⟨a, run, rfl⟩ := map_ok.mp reads
    exact ⟨rfl, u64Slot.shaped run⟩
  · obtain ⟨a, run, rfl⟩ := map_ok.mp reads
    exact ⟨rfl, f64Field.shaped run⟩
  · obtain ⟨a, run, rfl⟩ := map_ok.mp reads
    exact ⟨rfl, strSlot.shaped run⟩
  · obtain ⟨a, run, rfl⟩ := map_ok.mp reads
    exact ⟨rfl, strSlot.shaped run⟩
  · obtain ⟨a, run, rfl⟩ := map_ok.mp reads
    exact ⟨rfl, binSlot.shaped run⟩
  · obtain ⟨a, run, rfl⟩ := map_ok.mp reads
    exact ⟨rfl, strSlot.shaped run⟩
  · obtain ⟨a, run, rfl⟩ := map_ok.mp reads
    exact ⟨rfl, strSlot.shaped run⟩
  · obtain ⟨a, run, rfl⟩ := map_ok.mp reads
    exact ⟨rfl, strSlot.shaped run⟩
  · obtain ⟨a, run, rfl⟩ := map_ok.mp reads
    exact ⟨rfl, strSlot.shaped run⟩
  · obtain ⟨a, run, rfl⟩ := map_ok.mp reads
    exact ⟨rfl, strSlot.shaped run⟩
  · obtain ⟨a, run, rfl⟩ := map_ok.mp reads
    exact ⟨rfl, strSlot.shaped run⟩
  · cases reads

/-- The tag decides how the payload is read, so the two positions come together. -/
theorem valuePositions :
    Positions (fun _ => True) (fun v : Value => writePfix v.tag ++ v.payload)
      (readTag >>= readPayload) ValidValue (fun v => [IsNat v.tag, IsPayload v]) where
  back := by
    intro v _ valid rest
    rw [List.append_assoc]
    simp only [bind, StateT.bind, Except.bind, tagField.back (tag_lt v)]
    exact readPayload_back valid rest
  shaped := by
    intro b rest v reads
    obtain ⟨⟨tag, mid⟩, run, reads⟩ := bind_ok.mp reads
    obtain ⟨t, isTag, item⟩ := tagField.shaped run
    obtain ⟨same, t', payload, item'⟩ := readPayload_shaped reads
    rw [← same] at isTag
    exact ⟨trivial, [t, t'], .cons isTag (.cons payload .nil), items_cons item item'⟩

theorem valueSlot : Slot Value.encode decodeValue ValidValue IsValue := by
  refine (valuePositions.record (by decide) fun _ => rfl).congr ?_ fun _ valid => valid
  intro v
  rw [Value.encode, List.append_assoc]

/-! ## Columns and rows -/

def decodeCol : Reader ColMeta := do
  expectArity 2
  let name ← readStr
  let tag ← readUnsigned (2 ^ 8)
  pure { name, tag }

structure ValidCol (c : ColMeta) : Prop where
  name : ShortText c.name
  tag : c.tag < 2 ^ 8

def IsCol (c : ColMeta) : Tree → Prop :=
  IsRecord [IsText c.name, IsNat c.tag]

theorem colSlot : Slot ColMeta.encode decodeCol ValidCol IsCol := by
  have fields : Positions (fun _ => True) _ _ _ (fun c : ColMeta => [IsText c.name, IsNat c.tag]) :=
    .field ColMeta.name strSlot.toField fun name =>
    .field ColMeta.tag u8Slot.toField fun tag =>
    .done ⟨name, tag⟩ (by rintro ⟨_, _⟩; simp)
  refine (fields.record (by decide) fun _ => rfl).congr ?_ fun c valid =>
    ⟨valid.name, valid.tag, trivial⟩
  intro c
  simp only [ColMeta.encode, List.append_assoc, List.append_nil]

def decodeCols : Reader (List ColMeta) := readArray decodeCol

def decodeRow : Reader (List Value) := readArray decodeValue

def decodeRows : Reader (List (List Value)) := readArray decodeRow

def ValidRow : List Value → Prop := ValidList ValidValue

def IsRow : List Value → Tree → Prop := IsList IsValue

theorem colsSlot : Slot encodeCols decodeCols (ValidList ValidCol) (IsList IsCol) :=
  arraySlot colSlot

theorem rowSlot : Slot encodeRow decodeRow ValidRow IsRow :=
  arraySlot valueSlot

theorem rowsSlot : Slot encodeRows decodeRows (ValidList ValidRow) (IsList IsRow) :=
  arraySlot rowSlot

/-! ## Requests -/

def readExecRequest : Reader ExecRequest := do
  expectArity 9
  let pool ← readStr
  let sql ← readOption readStr
  let queryId ← readOption readStr
  let params ← decodeRow
  let timeoutMs ← readOption (readUnsigned (2 ^ 32))
  let readonly ← readBool
  let fetch ← readUnsigned (2 ^ 8)
  let txId ← readOption (readUnsigned (2 ^ 64))
  let traceparent ← readOption readStrLossy
  pure { pool, sql, queryId, params, timeoutMs, readonly, fetch, txId, traceparent }

def decodeExecRequest : Bytes → Except CodecError ExecRequest :=
  whole readExecRequest

structure ValidExecRequest (r : ExecRequest) : Prop where
  pool : ShortText r.pool
  sql : ValidOption ShortText r.sql
  queryId : ValidOption ShortText r.queryId
  params : ValidRow r.params
  timeoutMs : ValidOption (· < 2 ^ 32) r.timeoutMs
  fetch : r.fetch < 2 ^ 8
  txId : ValidOption (· < 2 ^ 64) r.txId
  traceparent : ValidOption ShortText r.traceparent

def IsExecRequest (r : ExecRequest) : Tree → Prop :=
  IsRecord [IsText r.pool, IsOption IsText r.sql, IsOption IsText r.queryId, IsRow r.params,
    IsOption IsNat r.timeoutMs, IsBool r.readonly, IsNat r.fetch, IsOption IsNat r.txId,
    IsOption IsLossyText r.traceparent]

theorem execRequestSlot :
    Slot ExecRequest.encode readExecRequest ValidExecRequest IsExecRequest := by
  have fields : Positions (fun _ => True) _ _ _ _ :=
    .field ExecRequest.pool strSlot.toField fun pool =>
    .field ExecRequest.sql (optionField strSlot) fun sql =>
    .field ExecRequest.queryId (optionField strSlot) fun queryId =>
    .field ExecRequest.params rowSlot.toField fun params =>
    .field ExecRequest.timeoutMs (optionField u32Slot) fun timeoutMs =>
    .field ExecRequest.readonly boolSlot.toField fun readonly =>
    .field ExecRequest.fetch u8Slot.toField fun fetch =>
    .field ExecRequest.txId (optionField u64Slot) fun txId =>
    .field ExecRequest.traceparent (optionField lossySlot) fun traceparent =>
    .done ⟨pool, sql, queryId, params, timeoutMs, readonly, fetch, txId, traceparent⟩ (by
      rintro ⟨_, _, _, _, _, _, _, _, _⟩
      simp [and_assoc])
  refine (fields.record (by decide) fun _ => rfl).congr ?_ fun r valid =>
    ⟨valid.pool, valid.sql, valid.queryId, valid.params, valid.timeoutMs, trivial, valid.fetch,
      valid.txId, valid.traceparent, trivial⟩
  intro r
  simp only [ExecRequest.encode, encodeRow, List.append_assoc, List.append_nil]

/-! ## Streams -/

def readStreamHead : Reader (List ColMeta) := do
  expectArity 1
  decodeCols

/-- `StreamHead::decode`. -/
def decodeHead : Bytes → Except CodecError (List ColMeta) :=
  whole readStreamHead

def IsHead (cols : List ColMeta) : Tree → Prop :=
  IsRecord [IsList IsCol cols]

theorem headSlot : Slot encodeHead readStreamHead (ValidList ValidCol) IsHead :=
  (Positions.single colsSlot.toField).record (by decide) fun _ => rfl

def readStreamData : Reader (List (List Value)) := do
  expectArity 1
  decodeRows

/-- `StreamData::decode`. -/
def decodeData : Bytes → Except CodecError (List (List Value)) :=
  whole readStreamData

def IsData (rows : List (List Value)) : Tree → Prop :=
  IsRecord [IsList IsRow rows]

theorem dataSlot : Slot encodeData readStreamData (ValidList ValidRow) IsData :=
  (Positions.single rowsSlot.toField).record (by decide) fun _ => rfl

/-- A count that does not fit its header leaves its elements behind. -/
theorem decodeData_wrapped {n : Nat} (wraps : n % 2 ^ 32 = 0) (positive : 0 < n) :
    decodeData (encodeData (List.replicate n [])) = .error (.trailingBytes n) := by
  have cells : (List.replicate n ([] : List Value)).flatMap encodeRow = List.replicate n 0x90 := by
    have single : encodeRow [] = [0x90] := by decide
    rw [List.flatMap_replicate, single, List.flatten_replicate_singleton]
  have more : List.replicate n (0x90 : UInt8) ≠ [] := by
    intro empty
    have none := congrArg List.length empty
    rw [List.length_replicate, List.length_nil] at none
    omega
  have front : encodeData (List.replicate n []) = encodeData [] ++ List.replicate n 0x90 := by
    rw [encodeData, encodeRows, List.length_replicate, wraps, cells]
    rfl
  have none : ValidList ValidRow [] := by
    refine ⟨?_, fun row member => absurd member List.not_mem_nil⟩
    rw [List.length_nil]
    omega
  have reads := dataSlot.back none (List.replicate n 0x90)
  rw [front, decodeData, whole, reads]
  simp only [bind, Except.bind, expectEnd, if_neg more, List.length_replicate]

/-! ## Results -/

structure ValidStats (s : Stats) : Prop where
  queueUs : s.queueUs < 2 ^ 64
  execUs : s.execUs < 2 ^ 64
  rows : s.rows < 2 ^ 64
  bytes : s.bytes < 2 ^ 64

def IsStats (s : Stats) : Tree → Prop :=
  IsRecord [IsNat s.queueUs, IsNat s.execUs, IsNat s.rows, IsNat s.bytes]

/-- What is known of the library's reader: it reads the compact layout back, and of the arrays it
reads no other. It also reads maps. -/
structure DeserializesStats (deserialize : Reader Stats) : Prop where
  back : ∀ {s : Stats}, ValidStats s → ∀ rest : Bytes,
    deserialize (s.encode ++ rest) = .ok (s, rest)
  shaped : ∀ {b mid rest : Bytes} {n : Nat} {s : Stats}, readHead b = some (.array n, mid) →
    deserialize b = .ok (s, rest) → ∃ t, IsStats s t ∧ Items b [t] rest

abbrev Front := List ColMeta × List (List Value) × Nat × Option Value

def readFront : Reader Front := do
  let cols ← decodeCols
  let rows ← decodeRows
  let affected ← readUnsigned (2 ^ 64)
  let lastInsertId ← readOption decodeValue
  pure (cols, rows, affected, lastInsertId)

/-- The statistics are the last position, and their reader checks that nothing follows. -/
def decodeExecOk (deserialize : Reader Stats) (b : Bytes) : Except CodecError ExecOk := do
  let (_, rd) ← expectArity 5 b
  let ((cols, rows, affected, lastInsertId), rd) ← readFront rd
  let stats ← whole deserialize rd
  .ok { cols, rows, affected, lastInsertId, stats }

structure ValidExecOk (e : ExecOk) : Prop where
  cols : ValidList ValidCol e.cols
  rows : ValidList ValidRow e.rows
  affected : e.affected < 2 ^ 64
  lastInsertId : ValidOption ValidValue e.lastInsertId
  stats : ValidStats e.stats

def frontShapes (e : ExecOk) : List (Tree → Prop) :=
  [IsList IsCol e.cols, IsList IsRow e.rows, IsNat e.affected, IsOption IsValue e.lastInsertId]

def IsExecOk (e : ExecOk) : Tree → Prop :=
  IsRecord (frontShapes e ++ [IsStats e.stats])

/-- An array of five whose last value is not an array. -/
def EndsInMap (e : ExecOk) (b : Bytes) : Prop :=
  ∃ mid trees left, readHead b = some (.array 5, mid) ∧ Items mid trees left ∧
    List.Forall₂ (fun Shape t => Shape t) (frontShapes e) trees ∧
    ∀ n later, readHead left ≠ some (.array n, later)

theorem frontPositions :
    Positions (fun _ => True) (fun f : Front => encodeCols f.1 ++ (encodeRows f.2.1 ++
        (writeUint f.2.2.1 ++ (writeOption Value.encode f.2.2.2 ++ []))))
      readFront (fun f => ValidList ValidCol f.1 ∧ ValidList ValidRow f.2.1 ∧ f.2.2.1 < 2 ^ 64 ∧
        ValidOption ValidValue f.2.2.2 ∧ True)
      (fun f => [IsList IsCol f.1, IsList IsRow f.2.1, IsNat f.2.2.1,
        IsOption IsValue f.2.2.2]) :=
  .field (fun f : Front => f.1) colsSlot.toField fun cols =>
  .field (fun f => f.2.1) rowsSlot.toField fun rows =>
  .field (fun f => f.2.2.1) u64Slot.toField fun affected =>
  .field (fun f => f.2.2.2) (optionField valueSlot) fun lastInsertId =>
  .done (cols, rows, affected, lastInsertId) (by
    rintro ⟨_, _, _, _⟩
    simp [and_assoc])

section

variable {deserialize : Reader Stats} (library : DeserializesStats deserialize)

include library

theorem decodeExecOk_append {e : ExecOk} (valid : ValidExecOk e) (extra : Bytes) :
    decodeExecOk deserialize (e.encode ++ extra) =
      if extra = [] then .ok e else .error (.trailingBytes extra.length) := by
  have front := frontPositions.back (m := (e.cols, e.rows, e.affected, e.lastInsertId)) trivial
    ⟨valid.cols, valid.rows, valid.affected, valid.lastInsertId, trivial⟩
    (e.stats.encode ++ extra)
  have optional : writeOptValue e.lastInsertId = writeOption Value.encode e.lastInsertId := by
    cases e.lastInsertId <;> rfl
  have arity := expectArity_append (n := 5) (by decide)
  simp only [List.append_assoc, List.append_nil] at front
  have last : whole deserialize (e.stats.encode ++ extra) =
      if extra = [] then .ok e.stats else .error (.trailingBytes extra.length) := by
    rw [whole, library.back valid.stats]
    by_cases nothing : extra = []
    · simp only [bind, Except.bind, expectEnd, if_pos nothing]
    · simp only [bind, Except.bind, expectEnd, if_neg nothing]
  rw [ExecOk.encode, optional, decodeExecOk]
  simp only [List.append_assoc, arity, bind, Except.bind, front, last]
  by_cases nothing : extra = []
  · simp only [if_pos nothing]
  · simp only [if_neg nothing]

theorem decodeExecOk_shaped {b : Bytes} {e : ExecOk} (reads : decodeExecOk deserialize b = .ok e) :
    (∃ t, IsExecOk e t ∧ Reads b t) ∨ EndsInMap e b := by
  obtain ⟨⟨_, mid⟩, arity, reads⟩ := bind_ok.mp reads
  obtain ⟨⟨⟨cols, rows, affected, lastInsertId⟩, left⟩, front, reads⟩ := bind_ok.mp reads
  obtain ⟨stats, last, done⟩ := bind_ok.mp reads
  cases done
  obtain ⟨-, trees, shapes, items⟩ := frontPositions.shaped front
  have head := readHead_of_arity arity
  by_cases isArray : ∃ n later, readHead left = some (.array n, later)
  · obtain ⟨n, later, header⟩ := isArray
    obtain ⟨⟨stats', rest⟩, run, reads⟩ := bind_ok.mp last
    obtain ⟨_, ending, done⟩ := bind_ok.mp reads
    cases done
    obtain ⟨t, shape, item⟩ := library.shaped header run
    rw [expectEnd_ok.mp ending] at item
    have all := items_append items item
    have shaped : List.Forall₂ (fun Shape t => Shape t)
        ([IsList IsCol cols, IsList IsRow rows, IsNat affected, IsOption IsValue lastInsertId] ++
          [IsStats stats]) (trees ++ [t]) :=
      List.rel_append shapes (.cons shape .nil)
    refine .inl ⟨.array (trees ++ [t]), ⟨_, rfl, shaped⟩, items_array ?_ all⟩
    rw [← shaped.length_eq]
    exact head
  · refine .inr ⟨mid, trees, left, head, items, shapes, ?_⟩
    intro n later header
    exact isArray ⟨n, later, header⟩

end

/-- Every decoder of the service inverts its encoder and refuses appended bytes and other shapes;
a value is read in place and leaves what follows to its message. -/
theorem sqlCodec_faithful {deserialize : Reader Stats} (library : DeserializesStats deserialize) :
    Field Value.encode decodeValue ValidValue IsValue ∧
    Codec ExecRequest.encode decodeExecRequest ValidExecRequest IsExecRequest ∧
    Codec encodeHead decodeHead (ValidList ValidCol) IsHead ∧
    Codec encodeData decodeData (ValidList ValidRow) IsData ∧
    (∀ e, ValidExecOk e → decodeExecOk deserialize e.encode = .ok e) ∧
    (∀ e, ValidExecOk e → ∀ extra : Bytes, extra ≠ [] →
      decodeExecOk deserialize (e.encode ++ extra) = .error (.trailingBytes extra.length)) ∧
    (∀ b e, decodeExecOk deserialize b = .ok e →
      (∃ t, IsExecOk e t ∧ Reads b t) ∨ EndsInMap e b) := by
  refine ⟨valueSlot.toField, execRequestSlot.codec, headSlot.codec, dataSlot.codec, ?_, ?_, ?_⟩
  · intro e valid
    have whole := decodeExecOk_append library valid []
    rw [List.append_nil, if_pos rfl] at whole
    exact whole
  · intro e valid extra more
    rw [decodeExecOk_append library valid extra, if_neg more]
  · intro b e reads
    exact decodeExecOk_shaped library reads

/-- The compact layout, read by position. -/
def readStats : Reader Stats := do
  expectArity 4
  let queueUs ← readUnsigned (2 ^ 64)
  let execUs ← readUnsigned (2 ^ 64)
  let rows ← readUnsigned (2 ^ 64)
  let bytes ← readUnsigned (2 ^ 64)
  pure { queueUs, execUs, rows, bytes }

theorem statsSlot : Slot Stats.encode readStats ValidStats IsStats := by
  have fields : Positions (fun _ => True) _ _ _ _ :=
    .field Stats.queueUs u64Slot.toField fun queueUs =>
    .field Stats.execUs u64Slot.toField fun execUs =>
    .field Stats.rows u64Slot.toField fun rows =>
    .field Stats.bytes u64Slot.toField fun bytes =>
    .done ⟨queueUs, execUs, rows, bytes⟩ (by
      rintro ⟨_, _, _, _⟩
      simp [and_assoc])
  refine (fields.record (by decide) fun _ => rfl).congr ?_ fun s valid =>
    ⟨valid.queueUs, valid.execUs, valid.rows, valid.bytes, trivial⟩
  intro s
  simp only [Stats.encode, List.append_assoc, List.append_nil]

theorem deserializesStats_readStats : DeserializesStats readStats where
  back := statsSlot.back
  shaped := by
    intro b mid rest n s _ reads
    exact statsSlot.shaped reads

/-- One column, one row of one value, no id. -/
def sampleOk : ExecOk :=
  ⟨[⟨"n", 2⟩], [[.i64 (-7)]], 1, none, ⟨3, 4, 1, 9⟩⟩

theorem sqlCodec_faithful_sample :
    DeserializesStats readStats ∧ ValidExecOk sampleOk ∧
      decodeExecOk readStats sampleOk.encode = .ok sampleOk := by
  have valid : ValidExecOk sampleOk := by
    refine ⟨⟨by decide, ?_⟩, ⟨by decide, ?_⟩, by decide, trivial, by constructor <;> decide⟩
    · intro c member
      rw [List.mem_singleton.mp member]
      exact ⟨by unfold ShortText; decide, by decide⟩
    · intro row member
      rw [List.mem_singleton.mp member]
      refine ⟨by decide, ?_⟩
      intro v cell
      rw [List.mem_singleton.mp cell]
      exact ⟨by decide, by decide⟩
  refine ⟨deserializesStats_readStats, valid, ?_⟩
  obtain ⟨-, -, -, -, back, -⟩ := sqlCodec_faithful deserializesStats_readStats
  exact back sampleOk valid

/-- A byte after a value is left for the caller, and a count of 2^32 rows is written as none. -/
theorem value_leaves_suffix_and_rows_wrap :
    decodeValue (Value.null.encode ++ [0]) = .ok (.null, [0]) ∧
      decodeData (encodeData (List.replicate (2 ^ 32) [])) = .error (.trailingBytes (2 ^ 32)) := by
  refine ⟨rfl, decodeData_wrapped (Nat.mod_self _) (Nat.two_pow_pos 32)⟩

end FerroEngine.SqlCodec
