import FerroEngine.CodecReaders
import FerroEngine.CopyOut
import Mathlib.Tactic.FinCases

set_option autoImplicit false

/-! # The range of a chunk in its frame

`CopyData::data_range` and `CopyData::decode` of `messages/copy.rs`. A slice outside the payload
would be a panic.
-/

namespace FerroEngine.CopyDataRange

open MessagePack MessagePackReader CodecReaders CopyOut

/-- `Range<usize>`. -/
structure Range where
  start : Nat
  stop : Nat
  deriving DecidableEq, Repr

/-- `b[r]`, unless it panics. -/
def slice (b : Bytes) (r : Range) : Option Bytes :=
  if r.start ≤ r.stop ∧ r.stop ≤ b.length then some ((b.drop r.start).take (r.stop - r.start))
  else none

structure CopyData where
  data : Bytes
  deriving DecidableEq, Repr

namespace CopyData

def dataRange (b : Bytes) : Except CodecError Range :=
  match readArrayLen b with
  | none => .error .malformed
  | some (top, rd) =>
    if top ≠ 1 then .error .malformed
    else
      match readBinLen rd with
      | none => .error .malformed
      | some (len, rd) =>
        let start := b.length - rd.length
        if rd.length < len then .error .malformed
        else if len < rd.length then .error (.trailingBytes (rd.length - len))
        else .ok ⟨start, start + len⟩

/-- The result, unless the slice panics. -/
def decode (b : Bytes) : Option (Except CodecError CopyData) :=
  match dataRange b with
  | .error e => some (.error e)
  | .ok r => (slice b r).map fun data => .ok ⟨data⟩

end CopyData

/-! ## Heads -/

/-- The ways to write an array of one. -/
def arrayHeads : List Bytes :=
  [[0x91], [0xdc, 0, 1], [0xdd, 0, 0, 0, 1]]

/-- The widths of a length of bytes, each with its marker. -/
def binMarks : List (UInt8 × Nat) :=
  [(0xc4, 1), (0xc5, 2), (0xc6, 4)]

theorem marker_fixArray_inv {c : UInt8} {n : Nat} (marks : marker c = .fixArray n) :
    c.toNat = 0x90 + n := by
  unfold marker at marks
  dsimp only at marks
  split_ifs at marks with fix map array text negative
  · have same := Marker.fixArray.inj marks
    omega
  · split at marks <;> cases marks

theorem marker_array_inv {c : UInt8} {width : Nat} (marks : marker c = .array width) :
    c = 0xdc ∧ width = 2 ∨ c = 0xdd ∧ width = 4 := by
  unfold marker at marks
  dsimp only at marks
  split_ifs at marks with fix map array text negative
  split at marks
  all_goals try cases marks
  · rename_i byte
    exact .inl ⟨UInt8.toNat.inj byte, rfl⟩
  · rename_i byte
    exact .inr ⟨UInt8.toNat.inj byte, rfl⟩

theorem marker_bin_inv {c : UInt8} {width : Nat} (marks : marker c = .bin width) :
    (c, width) ∈ binMarks := by
  unfold marker at marks
  dsimp only at marks
  split_ifs at marks with fix map array text negative
  split at marks
  all_goals try cases marks
  · rename_i byte
    have same : c = 0xc4 := UInt8.toNat.inj byte
    rw [same]
    decide
  · rename_i byte
    have same : c = 0xc5 := UInt8.toNat.inj byte
    rw [same]
    decide
  · rename_i byte
    have same : c = 0xc6 := UInt8.toNat.inj byte
    rw [same]
    decide

theorem readArrayLen_one {b rd : Bytes} :
    readArrayLen b = some (1, rd) ↔ ∃ head ∈ arrayHeads, b = head ++ rd := by
  constructor
  · intro reads
    cases b with
    | nil => cases reads
    | cons c rest =>
      rw [readArrayLen, readMarker] at reads
      split at reads
      · rename_i n rest' found
        cases reads
        have byte := marker_fixArray_inv (congrArg Prod.fst (Option.some.inj found))
        have same : c = 0x91 := UInt8.toNat.inj byte
        have tail : rest = rd := congrArg Prod.snd (Option.some.inj found)
        refine ⟨[0x91], List.mem_cons_self, ?_⟩
        rw [same, tail]
        rfl
      · rename_i width rest' found
        have tail : rest = rest' := congrArg Prod.snd (Option.some.inj found)
        obtain ⟨_, bytes⟩ := readBigEndian_some reads
        rcases marker_array_inv (congrArg Prod.fst (Option.some.inj found)) with
          ⟨rfl, rfl⟩ | ⟨rfl, rfl⟩
        · refine ⟨[0xdc, 0, 1], by decide, ?_⟩
          rw [tail, bytes]
          rfl
        · refine ⟨[0xdd, 0, 0, 0, 1], by decide, ?_⟩
          rw [tail, bytes]
          rfl
      · cases reads
  · rintro ⟨head, member, rfl⟩
    have wide (c : UInt8) (width : Nat) (small : 1 < 256 ^ width)
        (marks : marker c = .array width) :
        readArrayLen (c :: (bigEndian width 1 ++ rd)) = some (1, rd) := by
      rw [readArrayLen, readMarker, marks]
      exact readBigEndian_append small rd
    fin_cases member
    · rfl
    · exact wide 0xdc 2 (by decide) (by decide)
    · exact wide 0xdd 4 (by decide) (by decide)

theorem readBinLen_some {b rd : Bytes} {n : Nat} :
    readBinLen b = some (n, rd) ↔ ∃ mark ∈ binMarks, n < 256 ^ mark.2 ∧
      b = mark.1 :: bigEndian mark.2 n ++ rd := by
  constructor
  · intro reads
    cases b with
    | nil => cases reads
    | cons c rest =>
      rw [readBinLen, readMarker] at reads
      split at reads
      · rename_i width rest' found
        have tail : rest = rest' := congrArg Prod.snd (Option.some.inj found)
        obtain ⟨small, bytes⟩ := readBigEndian_some reads
        have mark := marker_bin_inv (congrArg Prod.fst (Option.some.inj found))
        exact ⟨(c, width), mark, small, by rw [tail, bytes]; rfl⟩
      · cases reads
  · rintro ⟨mark, member, small, rfl⟩
    have read (c : UInt8) (width : Nat) (small : n < 256 ^ width)
        (marks : marker c = .bin width) :
        readBinLen (c :: (bigEndian width n ++ rd)) = some (n, rd) := by
      rw [readBinLen, readMarker, marks]
      exact readBigEndian_append small rd
    fin_cases member
    · exact read 0xc4 1 small (by decide)
    · exact read 0xc5 2 small (by decide)
    · exact read 0xc6 4 small (by decide)

/-! ## The two readings -/

/-- What is accepted: an array of one, a length of bytes, and as many bytes. -/
def Frames (head : Bytes) (data : Bytes) : Prop :=
  ∃ array ∈ arrayHeads, ∃ mark ∈ binMarks, data.length < 256 ^ mark.2 ∧
    head = array ++ mark.1 :: bigEndian mark.2 data.length

theorem slice_frame (head data : Bytes) :
    slice (head ++ data) ⟨head.length, head.length + data.length⟩ = some data := by
  rw [slice, if_pos ⟨Nat.le_add_right .., by rw [List.length_append]⟩]
  dsimp only
  rw [List.drop_left, Nat.add_sub_cancel_left, List.take_length]

/-- The head and the bytes that are left are what was read. -/
theorem dataRange_frame {b : Bytes} {r : Range} (found : CopyData.dataRange b = .ok r) :
    ∃ head data, b = head ++ data ∧ Frames head data ∧
      r = ⟨head.length, head.length + data.length⟩ := by
  rw [CopyData.dataRange] at found
  split at found
  · cases found
  · rename_i top mid array
    split at found
    · cases found
    · rename_i one
      rw [not_not] at one
      subst one
      split at found
      · cases found
      · rename_i len rd bin
        dsimp only at found
        split at found
        · cases found
        · split at found
          · cases found
          · have exact : rd.length = len := by omega
            cases found
            obtain ⟨head, heads, bytes⟩ := readArrayLen_one.mp array
            obtain ⟨mark, marks, small, bytes'⟩ := readBinLen_some.mp bin
            subst exact
            refine ⟨head ++ mark.1 :: bigEndian mark.2 rd.length, rd, ?_,
              ⟨head, heads, mark, marks, small, rfl⟩, ?_⟩
            · rw [bytes, bytes', List.append_assoc]
            · have start : b.length - rd.length =
                  (head ++ mark.1 :: bigEndian mark.2 rd.length).length := by
                rw [bytes, bytes', ← List.append_assoc, List.length_append, Nat.add_sub_cancel]
              rw [start]

theorem dataRange_of_frame {head data : Bytes} (frames : Frames head data) :
    CopyData.dataRange (head ++ data) = .ok ⟨head.length, head.length + data.length⟩ := by
  obtain ⟨array, arrays, mark, marks, small, rfl⟩ := frames
  have bin : readBinLen (mark.1 :: bigEndian mark.2 data.length ++ data) =
      some (data.length, data) := readBinLen_some.mpr ⟨mark, marks, small, rfl⟩
  have top : readArrayLen (array ++ mark.1 :: bigEndian mark.2 data.length ++ data) =
      some (1, mark.1 :: bigEndian mark.2 data.length ++ data) :=
    readArrayLen_one.mpr ⟨array, arrays, List.append_assoc ..⟩
  rw [CopyData.dataRange, top]
  dsimp only
  rw [if_neg (not_not.mpr rfl), bin]
  dsimp only
  rw [if_neg (Nat.lt_irrefl _), if_neg (Nat.lt_irrefl _), List.length_append, Nat.add_sub_cancel]

theorem decode_of_frame {head data : Bytes} (frames : Frames head data) :
    CopyData.decode (head ++ data) = some (.ok ⟨data⟩) := by
  rw [CopyData.decode, dataRange_of_frame frames]
  dsimp only
  rw [slice_frame]
  rfl

/-- The range is found when the chunk is decoded, and selects the chunk; neither panics. -/
theorem dataRange_decode (b : Bytes) :
    ((∃ r, CopyData.dataRange b = .ok r) ↔ ∃ d, CopyData.decode b = some (.ok d)) ∧
    (∀ r, CopyData.dataRange b = .ok r →
      ∃ d, CopyData.decode b = some (.ok d) ∧ slice b r = some d.data) ∧
    (∀ e, CopyData.dataRange b = .error e ↔ CopyData.decode b = some (.error e)) ∧
    ∀ d, CopyData.decode b = some (.ok d) ↔ ∃ head, b = head ++ d.data ∧ Frames head d.data := by
  cases found : CopyData.dataRange b with
  | error e =>
    have same : CopyData.decode b = some (.error e) := by rw [CopyData.decode, found]
    rw [same]
    refine ⟨⟨?_, ?_⟩, nofun, ?_, ?_⟩
    · rintro ⟨r, other⟩
      cases other
    · rintro ⟨d, other⟩
      cases other
    · intro e'
      exact ⟨fun h => by cases h; rfl, fun h => by cases h; rfl⟩
    · intro d
      refine ⟨nofun, ?_⟩
      rintro ⟨head, rfl, frames⟩
      rw [dataRange_of_frame frames] at found
      cases found
  | ok r =>
    obtain ⟨head, data, rfl, frames, rfl⟩ := dataRange_frame found
    rw [decode_of_frame frames]
    refine ⟨⟨fun _ => ⟨⟨data⟩, rfl⟩, fun _ => ⟨_, rfl⟩⟩, ?_, ?_, ?_⟩
    · intro r same
      cases same
      exact ⟨⟨data⟩, rfl, slice_frame head data⟩
    · intro e
      exact ⟨nofun, nofun⟩
    · intro d
      constructor
      · intro same
        cases same
        exact ⟨head, rfl, frames⟩
      · rintro ⟨head', bytes, frames'⟩
        have again := decode_of_frame frames'
        rw [← bytes, decode_of_frame frames] at again
        exact again

theorem frames_encodeSlice {data : Bytes} (small : data.length < 2 ^ 32) :
    ∃ head, encodeSlice data = head ++ data ∧ Frames head data := by
  refine ⟨writeArrayLen 1 ++ writeBinLen data.length, ?_, [0x91], List.mem_cons_self, ?_⟩
  · rw [encodeSlice, writeBin, List.append_assoc]
  · rw [writeBinLen]
    split
    · rename_i one
      exact ⟨(0xc4, 1), by decide, one, rfl⟩
    · split
      · rename_i two
        exact ⟨(0xc5, 2), by decide, two, rfl⟩
      · exact ⟨(0xc6, 4), by decide, small, rfl⟩

/-- A chunk that was encoded is found whole. -/
theorem decode_encodeSlice {data : Bytes} (small : data.length < 2 ^ 32) :
    CopyData.decode (encodeSlice data) = some (.ok ⟨data⟩) := by
  obtain ⟨head, bytes, frames⟩ := frames_encodeSlice small
  rw [bytes]
  exact decode_of_frame frames

end FerroEngine.CopyDataRange
