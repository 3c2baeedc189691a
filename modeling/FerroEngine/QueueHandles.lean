import FerroEngine.DecimalText
import FerroEngine.MessagePack
import FerroEngine.QueueFence

set_option autoImplicit false

/-! # The handles of a queue store

The `job_id` and the token that a client holds are decoded only from the bytes that the encoder
writes.
-/

namespace FerroEngine.QueueHandles

open DecimalText BitWords

inductive Undecodable where
  | jobId
  | token
  deriving DecidableEq, Repr

/-! ## Sixty-four-bit integers as text -/

/-- `i64::to_string`. -/
def i64ToString (v : Int64) : Text :=
  if v.toInt < 0 then 45 :: decimal v.toInt.natAbs else decimal v.toInt.natAbs

def fitsI64 (n : Int) : Bool :=
  decide (-2 ^ 63 ≤ n ∧ n < 2 ^ 63)

/-- A result of checked arithmetic. -/
def checked (n : Int) : Option Int :=
  if fitsI64 n = true then some n else none

/-- One more digit, added or, after a minus sign, subtracted. -/
def pushDigit (negative : Bool) (acc : Int) (b : UInt8) : Option Int :=
  if isDigit b = true then
    (checked (acc * 10)).bind fun n =>
      checked (if negative = true then n - digit b else n + digit b)
  else none

/-- `str::parse::<i64>`. -/
def parseI64 (s : Text) : Option Int64 :=
  match s with
  | [] | [43] | [45] => none
  | c :: rest =>
    (if c = 43 then rest.foldlM (pushDigit false) 0
      else if c = 45 then rest.foldlM (pushDigit true) 0
      else s.foldlM (pushDigit false) 0).map Int64.ofInt

theorem checked_of_fits {n : Int} (low : -2 ^ 63 ≤ n) (high : n < 2 ^ 63) :
    checked n = some n := by
  rw [checked, fitsI64, if_pos]
  exact decide_eq_true ⟨low, high⟩

/-- Digits are read as their value while it fits. -/
theorem foldlM_pushDigit (negative : Bool) {s : Text} (digits : Digits s)
    (fits : (value s : Int) < if negative = true then 2 ^ 63 + 1 else 2 ^ 63) :
    s.foldlM (pushDigit negative) 0 =
      some (if negative = true then -(value s : Int) else value s) := by
  induction s using List.reverseRecOn with
  | nil =>
    cases negative with
    | false => rfl
    | true => rfl
  | append_singleton s b ih =>
    have front : Digits s := fun c member => digits c (List.mem_append_left _ member)
    have last : isDigit b = true := digits b (List.mem_append_right _ (List.mem_singleton_self b))
    rw [value_concat] at fits ⊢
    rw [List.foldlM_append]
    cases negative with
    | false =>
      simp only [Bool.false_eq_true, if_false] at fits ih ⊢
      rw [ih front (by omega)]
      change pushDigit false (value s : Int) b >>= pure = _
      rw [pushDigit, if_pos last, checked_of_fits (by omega) (by omega), Option.bind_some,
        if_neg Bool.false_ne_true, checked_of_fits (by omega) (by omega), bind_pure]
      congr 1
      omega
    | true =>
      simp only [if_true] at fits ih ⊢
      rw [ih front (by omega)]
      change pushDigit true (-(value s : Int)) b >>= pure = _
      rw [pushDigit, if_pos last, checked_of_fits (by omega) (by omega), Option.bind_some,
        if_pos rfl, checked_of_fits (by omega) (by omega), bind_pure]
      congr 1
      omega

theorem toInt_range (v : Int64) : -2 ^ 63 ≤ v.toInt ∧ v.toInt < 2 ^ 63 :=
  ⟨v.le_toInt, v.toInt_lt⟩

/-- An integer is read back from its text. -/
theorem parseI64_toString (v : Int64) : parseI64 (i64ToString v) = some v := by
  obtain ⟨low, high⟩ := toInt_range v
  obtain ⟨digits, some'⟩ := digits_decimal v.toInt.natAbs
  have back : Int64.ofInt v.toInt = v := Int64.ofInt_toInt v
  rw [i64ToString]
  split
  · rename_i negative
    have read := foldlM_pushDigit true digits
      (by rw [value_decimal, if_pos rfl]; omega)
    rw [value_decimal, if_pos rfl] at read
    have same : -(v.toInt.natAbs : Int) = v.toInt := by omega
    rw [same] at read
    cases text : decimal v.toInt.natAbs with
    | nil => exact absurd text some'
    | cons c rest =>
      rw [text] at read
      rw [parseI64]
      · rw [if_neg (by decide), if_pos rfl, read, Option.map_some, back]
      all_goals nofun
  · rename_i positive
    have read := foldlM_pushDigit false digits
      (by rw [value_decimal, if_neg Bool.false_ne_true]; omega)
    rw [value_decimal, if_neg Bool.false_ne_true] at read
    have same : (v.toInt.natAbs : Int) = v.toInt := by omega
    rw [same] at read
    cases text : decimal v.toInt.natAbs with
    | nil => exact absurd text some'
    | cons c rest =>
      rw [text] at read digits
      have isOne := digits c List.mem_cons_self
      have plus : c ≠ 43 := by
        rintro rfl
        exact absurd isOne (by decide)
      have minus : c ≠ 45 := by
        rintro rfl
        exact absurd isOne (by decide)
      rw [parseI64]
      · rw [if_neg plus, if_neg minus, read, Option.map_some, back]
      · exact fun same _ => plus same
      · exact fun same _ => minus same

theorem i64ToString_length (v : Int64) : i64ToString v ≠ [] ∧ (i64ToString v).length ≤ 20 := by
  obtain ⟨low, high⟩ := toInt_range v
  have le := decimal_length (n := v.toInt.natAbs) (k := 18) (by omega)
  have some' := (digits_decimal v.toInt.natAbs).2
  rw [i64ToString]
  split
  · rw [List.length_cons]
    exact ⟨List.cons_ne_nil _ _, by omega⟩
  · exact ⟨some', by omega⟩

/-! ## ASCII is UTF-8 -/

theorem utf8EncodeChar_ascii {b : UInt8} (ascii : b.toNat < 128) :
    String.utf8EncodeChar (Char.ofUInt8 b) = [b] := by
  have small : (Char.ofUInt8 b).val ≤ 0x7f := by
    rw [UInt32.le_iff_toNat_le]
    change b.toUInt32.toNat ≤ 127
    rw [UInt8.toNat_toUInt32]
    omega
  have one : (Char.ofUInt8 b).utf8Size = 1 := by
    exact if_pos small
  rw [String.utf8EncodeChar_eq_singleton one]
  congr 1
  exact UInt8.toUInt8_toUInt32 b

theorem fromUTF8_ascii {s : Text} (ascii : ∀ b ∈ s, b.toNat < 128) :
    (String.fromUTF8? s.toByteArray).isSome = true := by
  have encoded : (s.map Char.ofUInt8).flatMap String.utf8EncodeChar = s := by
    induction s with
    | nil => rfl
    | cons b s ih =>
      rw [List.map_cons, List.flatMap_cons, utf8EncodeChar_ascii (ascii b List.mem_cons_self),
        ih fun c member => ascii c (List.mem_cons_of_mem b member)]
      rfl
  have valid : s.toByteArray.IsValidUTF8 := by
    refine ⟨s.map Char.ofUInt8, ?_⟩
    rw [List.utf8Encode, encoded]
  rw [String.fromUTF8?, dif_pos valid]
  rfl

theorem i64ToString_ascii (v : Int64) : ∀ b ∈ i64ToString v, b.toNat < 128 := by
  have digits : ∀ b ∈ decimal v.toInt.natAbs, b.toNat < 128 := by
    intro b member
    have isOne := (digits_decimal v.toInt.natAbs).1 b member
    rw [isDigit, Bool.and_eq_true, decide_eq_true_eq, decide_eq_true_eq] at isOne
    omega
  intro b member
  rw [i64ToString] at member
  split at member
  · rcases List.mem_cons.mp member with rfl | later
    · decide
    · exact digits b later
  · exact digits b member

/-! ## Job ids -/

structure JobId where
  value : Int64
  deriving DecidableEq

namespace JobId

def maxEncodedLen : Nat := 20

def encode (self : JobId) : Text :=
  i64ToString self.value

def decode (b : Text) : Except Undecodable JobId :=
  if b = [] ∨ maxEncodedLen < b.length then .error .jobId
  else if (String.fromUTF8? b.toByteArray).isNone then .error .jobId
  else
    match parseI64 b with
    | none => .error .jobId
    | some v => if i64ToString v = b then .ok ⟨v⟩ else .error .jobId

/-- A byte string names the job that it encodes, and no other byte string does. -/
theorem decode_iff (b : Text) (x : JobId) : decode b = .ok x ↔ b = x.encode := by
  constructor
  · intro decoded
    rw [decode] at decoded
    split at decoded
    · cases decoded
    · split at decoded
      · cases decoded
      · split at decoded
        · cases decoded
        · split at decoded
          · rename_i same
            cases decoded
            exact same.symm
          · cases decoded
  · rintro rfl
    obtain ⟨nonempty, short⟩ := i64ToString_length x.value
    have valid := fromUTF8_ascii (i64ToString_ascii x.value)
    rw [encode, decode, if_neg, if_neg, parseI64_toString]
    · exact if_pos rfl
    · rw [Option.isSome_iff_ne_none] at valid
      rw [Option.isNone_iff_eq_none]
      exact valid
    · rintro (empty | long)
      · exact nonempty empty
      · exact absurd short (Nat.not_le_of_lt long)

end JobId

/-! ## Tokens -/

/-- The eight bytes of a token whose two words are cut into bytes. -/
theorem encode_bytes (c d e f g h : BitVec 8) :
    QueueTable.Token.encode { createdAt := c ++ d ++ e ++ f, attempts := g ++ h } =
      [0, 0, c, d, e, f, g, h] := by
  have bits : (0#16 ++ ((c ++ d ++ e ++ f : BitVec 32) ++ (g ++ h : BitVec 16)) : BitVec 64).toNat =
      ((((c.toNat * 256 + d.toNat) * 256 + e.toNat) * 256 + f.toNat) * 256 + g.toNat) * 256 +
        h.toNat := by
    simp only [toNat_append_eq]
    change 0 * 2 ^ 48 + _ = _
    omega
  have byte (start : Nat) (x : BitVec 8) (same : (((((c.toNat * 256 + d.toNat) * 256 + e.toNat) *
      256 + f.toNat) * 256 + g.toNat) * 256 + h.toNat) / 2 ^ start % 2 ^ 8 = x.toNat) :
      (0#16 ++ ((c ++ d ++ e ++ f : BitVec 32) ++ (g ++ h : BitVec 16)) : BitVec 64).extractLsb'
        start 8 = x := by
    rw [← BitVec.toNat_inj, toNat_extract, bits, same]
  have lc := c.isLt
  have ld := d.isLt
  have le := e.isLt
  have lf := f.isLt
  have lg := g.isLt
  have lh := h.isLt
  unfold QueueTable.Token.encode
  change [BitVec.extractLsb' 56 8 _, BitVec.extractLsb' 48 8 _, BitVec.extractLsb' 40 8 _,
    BitVec.extractLsb' 32 8 _, BitVec.extractLsb' 24 8 _, BitVec.extractLsb' 16 8 _,
    BitVec.extractLsb' 8 8 _, BitVec.extractLsb' 0 8 _] = _
  rw [byte 56 0 (by change _ = 0; omega), byte 48 0 (by change _ = 0; omega), byte 40 c (by omega),
    byte 32 d (by omega), byte 24 e (by omega), byte 16 f (by omega), byte 8 g (by omega),
    byte 0 h (by omega)]

/-- A token is decoded from its eight bytes only. -/
theorem token_decode_iff (b : List (BitVec 8)) (t : QueueTable.Token) :
    QueueTable.Token.decode b = some t ↔ b = t.encode := by
  constructor
  · intro decoded
    unfold QueueTable.Token.decode at decoded
    split at decoded
    · rename_i a b c d e f g h
      split at decoded
      · cases decoded
      · rename_i zero
        cases decoded
        rw [not_or, not_not, not_not] at zero
        rw [encode_bytes, zero.1, zero.2]
    · cases decoded
  · rintro rfl
    exact QueueFence.token_decode_encode t

/-- `decode_handles`: what every fenced verb does before any statement, which takes the decoded
values. -/
def decodeHandles (jobId : Text) (token : List (BitVec 8)) :
    Except Undecodable (JobId × QueueTable.Token) :=
  match JobId.decode jobId with
  | .error e => .error e
  | .ok id =>
    match QueueTable.Token.decode token with
    | none => .error .token
    | some token => .ok (id, token)

theorem decodeHandles_iff (jobId : Text) (token : List (BitVec 8)) (x : JobId)
    (t : QueueTable.Token) :
    decodeHandles jobId token = .ok (x, t) ↔ jobId = x.encode ∧ token = t.encode := by
  rw [← JobId.decode_iff, ← token_decode_iff, decodeHandles]
  cases JobId.decode jobId with
  | error e => exact ⟨nofun, nofun⟩
  | ok id =>
    cases QueueTable.Token.decode token with
    | none => exact ⟨nofun, nofun⟩
    | some token =>
      constructor
      · intro same
        cases same
        exact ⟨rfl, rfl⟩
      · rintro ⟨first, second⟩
        cases first
        cases second
        rfl

/-- The handles are canonical, and a statement gets what they encode. -/
theorem handles_canonical :
    (∀ (b : Text) (x : JobId), JobId.decode b = .ok x ↔ b = x.encode) ∧
    (∀ (b : List (BitVec 8)) (t : QueueTable.Token),
      QueueTable.Token.decode b = some t ↔ b = t.encode) ∧
    (∀ (b b' : Text) (x : JobId), JobId.decode b = .ok x → JobId.decode b' = .ok x → b = b') ∧
    (∀ (b b' : List (BitVec 8)) (t : QueueTable.Token),
      QueueTable.Token.decode b = some t → QueueTable.Token.decode b' = some t → b = b') ∧
    (∀ (jobId : Text) (token : List (BitVec 8)) (x : JobId) (t : QueueTable.Token),
      decodeHandles jobId token = .ok (x, t) ↔ jobId = x.encode ∧ token = t.encode) := by
  refine ⟨JobId.decode_iff, token_decode_iff, ?_, ?_, decodeHandles_iff⟩
  · intro b b' x first second
    rw [(JobId.decode_iff b x).mp first, (JobId.decode_iff b' x).mp second]
  · intro b b' t first second
    rw [(token_decode_iff b t).mp first, (token_decode_iff b' t).mp second]

end FerroEngine.QueueHandles
