import Mathlib.Data.List.Forall2
import FerroEngine.CodecReaders

set_option autoImplicit false

/-! # Laws of the shared readers

A reader reads back what its writer wrote, whatever follows, and what it accepts is one MessagePack
value of the right shape.
-/

namespace FerroEngine.CodecLaws

open MessagePack MessagePackReader CodecReaders

theorem bind_ok {α β : Type} {x : Except CodecError α} {f : α → Except CodecError β} {r : β} :
    x >>= f = .ok r ↔ ∃ a, x = .ok a ∧ f a = .ok r := by
  cases x with
  | error e =>
    constructor
    · intro h
      cases h
    · rintro ⟨a, h, _⟩
      cases h
  | ok a =>
    constructor
    · intro h
      exact ⟨a, rfl, h⟩
    · rintro ⟨a', h, run⟩
      cases h
      exact run

theorem ofOption_ok {α : Type} {o : Option α} {a : α} : ofOption o = .ok a ↔ o = some a := by
  cases o with
  | none =>
    constructor
    · intro h
      cases h
    · intro h
      cases h
  | some a' => simp [ofOption]

theorem boundLen_ok {len remaining : Nat} (fits : len ≤ remaining) :
    boundLen len remaining = .ok () := by
  rw [boundLen, if_neg (Nat.not_lt.mpr fits)]

theorem map_ok {α β : Type} {read : Reader α} {f : α → β} {b rest : Bytes} {r : β} :
    (f <$> read) b = .ok (r, rest) ↔ ∃ a, read b = .ok (a, rest) ∧ f a = r := by
  rw [map_eq_pure_bind]
  constructor
  · intro h
    obtain ⟨⟨a, left⟩, run, done⟩ := bind_ok.mp h
    cases done
    exact ⟨a, run, rfl⟩
  · rintro ⟨a, run, rfl⟩
    exact bind_ok.mpr ⟨(a, rest), run, rfl⟩

/-- One position of a message. -/
structure Field {α : Type} (write : α → Bytes) (read : Reader α) (Valid : α → Prop)
    (Shape : α → Tree → Prop) : Prop where
  back : ∀ {a : α}, Valid a → ∀ rest : Bytes, read (write a ++ rest) = .ok (a, rest)
  shaped : ∀ {b rest : Bytes} {a : α}, read b = .ok (a, rest) →
    ∃ t, Shape a t ∧ Items b [t] rest

/-- A position whose value is never written as `nil`. -/
structure Slot {α : Type} (write : α → Bytes) (read : Reader α) (Valid : α → Prop)
    (Shape : α → Tree → Prop) : Prop extends Field write read Valid Shape where
  lead : ∀ a : α, ∃ b rest, write a = b :: rest ∧ b ≠ 0xc0

/-! ## Strings and byte strings -/

theorem readRawStr_writeStr {s : String} (small : s.utf8ByteSize < 2 ^ 32) (rest : Bytes) :
    readRawStr (writeStr s ++ rest) = .ok (s.toUTF8.toList, rest) := by
  have size : s.toUTF8.size = s.toUTF8.toList.length := by
    rw [toUTF8_length]
    rfl
  have range : s.toUTF8.size < 2 ^ 32 := small
  have taken := takeBytes_append s.toUTF8.toList rest
  rw [readRawStr, writeStr, List.append_assoc, readStrLen_writeStrLen range]
  simp only [ofOption, bind, Except.bind]
  rw [boundLen_ok (by rw [List.length_append]; omega), size, taken]

theorem items_of_rawStr {b rest buf : Bytes} (reads : readRawStr b = .ok (buf, rest)) :
    Items b [.str buf] rest := by
  rw [readRawStr, bind_ok] at reads
  obtain ⟨⟨len, mid⟩, length, reads⟩ := reads
  rw [bind_ok] at reads
  obtain ⟨_, -, taken⟩ := reads
  rw [ofOption_ok] at length taken
  exact items_leaf (readHead_of_str length taken)

theorem writeStr_lead (s : String) : ∃ b rest, writeStr s = b :: rest ∧ b ≠ 0xc0 := by
  rw [writeStr]
  generalize s.toUTF8.toList = body
  unfold writeStrLen
  split
  · rename_i short
    refine ⟨_, _, rfl, ?_⟩
    have all : ∀ k : Fin 32, UInt8.ofNat (0xa0 + k) ≠ 0xc0 := by decide
    exact all ⟨_, short⟩
  split
  · exact ⟨_, _, rfl, by decide⟩
  split
  · exact ⟨_, _, rfl, by decide⟩
  · exact ⟨_, _, rfl, by decide⟩

def IsText (s : String) (t : Tree) : Prop :=
  t = .str s.toUTF8.toList

def ShortText (s : String) : Prop :=
  s.utf8ByteSize < 2 ^ 32

theorem strSlot : Slot writeStr readStr ShortText IsText where
  back := by
    intro s small rest
    rw [readStr, readRawStr_writeStr small]
    simp only [bind, Except.bind, fromUTF8_toUTF8, ofOption]
  shaped := by
    intro b rest s reads
    rw [readStr, bind_ok] at reads
    obtain ⟨⟨buf, mid⟩, raw, reads⟩ := reads
    rw [bind_ok] at reads
    obtain ⟨s', valid, reads⟩ := reads
    cases reads
    rw [ofOption_ok] at valid
    refine ⟨.str buf, ?_, items_of_rawStr raw⟩
    rw [IsText, toUTF8_of_fromUTF8 valid]
  lead := writeStr_lead

/-- A text that was read leniently. -/
def IsLossyText (s : String) (t : Tree) : Prop :=
  ∃ buf, t = .str buf ∧ fromUtf8Lossy buf = s

theorem lossySlot : Slot writeStr readStrLossy ShortText IsLossyText where
  back := by
    intro s small rest
    have same : fromUtf8Lossy s.toUTF8.toList = s := by
      rw [fromUtf8Lossy, fromUTF8_toUTF8]
    rw [readStrLossy, readRawStr_writeStr small]
    simp only [bind, Except.bind, same]
  shaped := by
    intro b rest s reads
    rw [readStrLossy, bind_ok] at reads
    obtain ⟨⟨buf, mid⟩, raw, reads⟩ := reads
    cases reads
    exact ⟨.str buf, ⟨buf, rfl, rfl⟩, items_of_rawStr raw⟩
  lead := writeStr_lead

def IsBin (bytes : Bytes) (t : Tree) : Prop :=
  t = .bin bytes

def ShortBytes (bytes : Bytes) : Prop :=
  bytes.length < 2 ^ 32

theorem binSlot : Slot writeBin readBin ShortBytes IsBin where
  back := by
    intro bytes small rest
    have taken := takeBytes_append bytes rest
    rw [readBin, writeBin, List.append_assoc, readBinLen_writeBinLen small]
    simp only [ofOption, bind, Except.bind]
    rw [boundLen_ok (by rw [List.length_append]; omega), taken]
  shaped := by
    intro b rest bytes reads
    rw [readBin, bind_ok] at reads
    obtain ⟨⟨len, mid⟩, length, reads⟩ := reads
    rw [bind_ok] at reads
    obtain ⟨_, -, taken⟩ := reads
    rw [ofOption_ok] at length taken
    exact ⟨.bin bytes, rfl, items_leaf (readHead_of_bin length taken)⟩
  lead := by
    intro bytes
    rw [writeBin]
    unfold writeBinLen
    split
    · exact ⟨_, _, rfl, by decide⟩
    split
    · exact ⟨_, _, rfl, by decide⟩
    · exact ⟨_, _, rfl, by decide⟩

/-! ## Numbers and flags -/

def IsBool (v : Bool) (t : Tree) : Prop :=
  t = .bool v

theorem boolSlot : Slot writeBool readBool (fun _ => True) IsBool where
  back := by
    intro v _ rest
    cases v <;> rfl
  shaped := by
    intro b rest v reads
    rw [readBool, bind_ok] at reads
    obtain ⟨⟨found, mid⟩, marks, reads⟩ := reads
    rw [ofOption_ok] at marks
    cases found with
    | bool v' =>
      cases reads
      exact ⟨.bool v, rfl, items_leaf (readHead_of_bool marks)⟩
    | _ => cases reads
  lead := by
    intro v
    cases v
    · exact ⟨_, _, rfl, by decide⟩
    · exact ⟨_, _, rfl, by decide⟩

def IsNil (_ : Unit) (t : Tree) : Prop :=
  t = .nil

theorem nilField : Field (fun _ => writeNil) readNil (fun _ => True) IsNil where
  back := by
    intro _ _ rest
    rfl
  shaped := by
    intro b rest _ reads
    rw [readNil, bind_ok] at reads
    obtain ⟨⟨found, mid⟩, marks, reads⟩ := reads
    rw [ofOption_ok] at marks
    cases found with
    | nil =>
      cases reads
      exact ⟨.nil, rfl, items_leaf (readHead_of_nil marks)⟩
    | _ => cases reads

def IsF64 (bits : UInt64) (t : Tree) : Prop :=
  t = .f64 bits.toNat

theorem f64Field : Field writeF64 readF64Bits (fun _ => True) IsF64 where
  back := by
    intro bits _ rest
    rw [readF64Bits, readF64_writeF64]
    simp only [ofOption, bind, Except.bind, UInt64.ofNat_toNat]
  shaped := by
    intro b rest bits reads
    rw [readF64Bits, bind_ok] at reads
    obtain ⟨⟨n, mid⟩, found, reads⟩ := reads
    cases reads
    rw [ofOption_ok] at found
    refine ⟨.f64 n, ?_, items_leaf (readHead_of_f64 found)⟩
    rw [IsF64, UInt64.toNat_ofNat_of_lt' (readF64_lt found)]

def IsInt (n : Int) (t : Tree) : Prop :=
  t = .int n

theorem items_of_int {low high n : Int} {b rest : Bytes}
    (reads : readInt low high b = .ok (n, rest)) :
    Items b [.int n] rest ∧ low ≤ n ∧ n < high := by
  rw [readInt, bind_ok] at reads
  obtain ⟨⟨n', mid⟩, number, reads⟩ := reads
  rw [ofOption_ok] at number
  dsimp only at reads
  split at reads
  · rename_i range
    cases reads
    exact ⟨items_leaf (readHead_of_integer number), range⟩
  · cases reads

theorem writeUint_lead (n : Nat) : ∃ b rest, writeUint n = b :: rest ∧ b ≠ 0xc0 := by
  unfold writeUint
  split
  · rename_i small
    refine ⟨_, _, rfl, ?_⟩
    have all : ∀ k : Fin 128, UInt8.ofNat k ≠ 0xc0 := by decide
    exact all ⟨n, small⟩
  split
  · exact ⟨_, _, rfl, by decide⟩
  split
  · exact ⟨_, _, rfl, by decide⟩
  split
  · exact ⟨_, _, rfl, by decide⟩
  · exact ⟨_, _, rfl, by decide⟩

def IsNat (n : Nat) (t : Tree) : Prop :=
  t = .int n

theorem tagField : Field writePfix readTag (· < 128) IsNat where
  back := by
    intro n small rest
    rw [readTag, readPfix_writePfix small]
    rfl
  shaped := by
    intro b rest n reads
    rw [readTag, ofOption_ok] at reads
    exact ⟨.int n, rfl, items_leaf (readHead_of_integer (readInteger_of_pfix reads))⟩

theorem unsignedSlot (bound : Nat) (width : bound ≤ 2 ^ 64) :
    Slot writeUint (readUnsigned bound) (· < bound) IsNat where
  back := by
    intro n small rest
    rw [readUnsigned, readInt, readInteger_writeUint (by omega)]
    have range : 0 ≤ (n : Int) ∧ (n : Int) < bound := by omega
    simp only [ofOption, bind, Except.bind, if_pos range, Int.toNat_natCast]
  shaped := by
    intro b rest n reads
    rw [readUnsigned, bind_ok] at reads
    obtain ⟨⟨k, mid⟩, number, reads⟩ := reads
    cases reads
    obtain ⟨items, low, -⟩ := items_of_int number
    refine ⟨.int k, ?_, items⟩
    rw [IsNat, Int.toNat_of_nonneg low]
  lead := writeUint_lead

theorem u8Slot : Slot writeUint (readUnsigned (2 ^ 8)) (· < 2 ^ 8) IsNat :=
  unsignedSlot (2 ^ 8) (by decide)

theorem u16Slot : Slot writeUint (readUnsigned (2 ^ 16)) (· < 2 ^ 16) IsNat :=
  unsignedSlot (2 ^ 16) (by decide)

theorem u32Slot : Slot writeUint (readUnsigned (2 ^ 32)) (· < 2 ^ 32) IsNat :=
  unsignedSlot (2 ^ 32) (by decide)

theorem u64Slot : Slot writeUint (readUnsigned (2 ^ 64)) (· < 2 ^ 64) IsNat :=
  unsignedSlot (2 ^ 64) (by decide)

theorem intSlot :
    Slot writeSint (readInt (-2 ^ 63) (2 ^ 63)) (fun n => -2 ^ 63 ≤ n ∧ n < 2 ^ 63) IsInt where
  back := by
    intro n range rest
    rw [readInt, readInteger_writeSint range.1 range.2]
    simp only [ofOption, bind, Except.bind, if_pos range]
  shaped := by
    intro b rest n reads
    exact ⟨.int n, rfl, (items_of_int reads).1⟩
  lead := by
    intro n
    unfold writeSint
    split
    · exact writeUint_lead _
    split
    · rename_i negative near
      refine ⟨_, _, rfl, ?_⟩
      have all : ∀ k : Fin 32, UInt8.ofNat (224 + k) ≠ 0xc0 := by decide
      have here := all ⟨(n + 2 ^ 8).toNat - 224, by omega⟩
      have same : 224 + ((n + 2 ^ 8).toNat - 224) = (n + 2 ^ 8).toNat := by omega
      simp only [same] at here
      rw [Nat.pow_zero, Nat.div_one]
      exact here
    split
    · exact ⟨_, _, rfl, by decide⟩
    split
    · exact ⟨_, _, rfl, by decide⟩
    split
    · exact ⟨_, _, rfl, by decide⟩
    · exact ⟨_, _, rfl, by decide⟩

/-! ## Optional positions and lists -/

section

variable {α : Type} {write : α → Bytes} {read : Reader α} {Valid : α → Prop}
  {Shape : α → Tree → Prop}

def IsOption (Shape : α → Tree → Prop) : Option α → Tree → Prop
  | none, t => t = .nil
  | some a, t => Shape a t

def ValidOption (Valid : α → Prop) : Option α → Prop
  | none => True
  | some a => Valid a

theorem optionField (slot : Slot write read Valid Shape) :
    Field (writeOption write) (readOption read) (ValidOption Valid) (IsOption Shape) where
  back := by
    intro o valid rest
    cases o with
    | none => rfl
    | some a =>
      obtain ⟨b, tail, written, notNil⟩ := slot.lead a
      have back := slot.back valid rest
      have peeked : peekNil (write a ++ rest) = .ok (false, write a ++ rest) := by
        rw [written, List.cons_append, peekNil, if_neg notNil]
      rw [writeOption, readOption, peeked]
      simp only [bind, Except.bind, back, Bool.false_eq_true, if_false]
  shaped := by
    intro b rest o reads
    rw [readOption, bind_ok] at reads
    obtain ⟨⟨absent, mid⟩, peeked, reads⟩ := reads
    cases b with
    | nil => cases peeked
    | cons first tail =>
      rw [peekNil] at peeked
      split at peeked
      · rename_i isNil
        cases peeked
        cases reads
        refine ⟨.nil, rfl, items_leaf (readHead_of_nil ?_)⟩
        rw [isNil]
        rfl
      · cases peeked
        dsimp only at reads
        rw [if_neg (by decide), bind_ok] at reads
        obtain ⟨⟨a, left⟩, reads, done⟩ := reads
        cases done
        exact slot.shaped reads

def IsList (Shape : α → Tree → Prop) (l : List α) (t : Tree) : Prop :=
  ∃ trees, t = .array trees ∧ List.Forall₂ Shape l trees

def ValidList (Valid : α → Prop) (l : List α) : Prop :=
  l.length < 2 ^ 32 ∧ ∀ a ∈ l, Valid a

theorem readMany_flatMap (field : Field write read Valid Shape) {l : List α}
    (valid : ∀ a ∈ l, Valid a) (rest : Bytes) :
    readMany read l.length (l.flatMap write ++ rest) = .ok (l, rest) := by
  induction l with
  | nil => rfl
  | cons a l ih =>
    have first := field.back (valid a List.mem_cons_self) (l.flatMap write ++ rest)
    have later := ih fun x member => valid x (List.mem_cons_of_mem a member)
    rw [List.length_cons, List.flatMap_cons, List.append_assoc, readMany, first]
    simp only [bind, Except.bind, later]

theorem items_of_many (field : Field write read Valid Shape) {n : Nat} {b rest : Bytes}
    {l : List α} (reads : readMany read n b = .ok (l, rest)) :
    l.length = n ∧ ∃ trees, List.Forall₂ Shape l trees ∧ Items b trees rest := by
  induction n generalizing b l with
  | zero =>
    rw [readMany] at reads
    cases reads
    exact ⟨rfl, [], .nil, items_nil _⟩
  | succ n ih =>
    rw [readMany, bind_ok] at reads
    obtain ⟨⟨a, mid⟩, first, reads⟩ := reads
    rw [bind_ok] at reads
    obtain ⟨⟨later, left⟩, many, reads⟩ := reads
    cases reads
    obtain ⟨length, trees, shapes, items⟩ := ih many
    obtain ⟨t, shape, item⟩ := field.shaped first
    exact ⟨congrArg Nat.succ length, t :: trees, .cons shape shapes, items_cons item items⟩

theorem length_le_flatMap (slot : Slot write read Valid Shape) (l : List α) :
    l.length ≤ (l.flatMap write).length := by
  induction l with
  | nil => exact Nat.zero_le _
  | cons a l ih =>
    obtain ⟨b, tail, written, -⟩ := slot.lead a
    rw [List.flatMap_cons, List.length_append, written, List.length_cons, List.length_cons]
    omega

theorem writeArrayLen_lead (n : Nat) : ∃ b rest, writeArrayLen n = b :: rest ∧ b ≠ 0xc0 := by
  unfold writeArrayLen
  split
  · rename_i small
    refine ⟨_, _, rfl, ?_⟩
    have all : ∀ k : Fin 16, UInt8.ofNat (0x90 + k) ≠ 0xc0 := by decide
    exact all ⟨n, small⟩
  split
  · exact ⟨_, _, rfl, by decide⟩
  · exact ⟨_, _, rfl, by decide⟩

theorem append_lead {first : Bytes} (lead : ∃ b rest, first = b :: rest ∧ b ≠ 0xc0)
    (second : Bytes) : ∃ b rest, first ++ second = b :: rest ∧ b ≠ 0xc0 := by
  obtain ⟨b, rest, rfl, notNil⟩ := lead
  exact ⟨b, rest ++ second, rfl, notNil⟩

theorem arraySlot (slot : Slot write read Valid Shape) :
    Slot (writeArray write) (readArray read) (ValidList Valid) (IsList Shape) where
  back := by
    intro l valid rest
    have enough := length_le_flatMap slot l
    rw [writeArray, readArray, Nat.mod_eq_of_lt valid.1, List.append_assoc,
      readArrayLen_writeArrayLen valid.1]
    simp only [ofOption, bind, Except.bind]
    rw [boundLen_ok (by rw [List.length_append]; omega)]
    exact readMany_flatMap slot.toField valid.2 rest
  shaped := by
    intro b rest l reads
    rw [readArray, bind_ok] at reads
    obtain ⟨⟨n, mid⟩, length, reads⟩ := reads
    rw [bind_ok] at reads
    obtain ⟨_, -, many⟩ := reads
    rw [ofOption_ok] at length
    obtain ⟨count, trees, shapes, items⟩ := items_of_many slot.toField many
    have head := readHead_of_arrayLen length
    rw [← count, shapes.length_eq] at head
    exact ⟨.array trees, ⟨trees, rfl, shapes⟩, items_array head items⟩
  lead := by
    intro l
    exact append_lead (writeArrayLen_lead _) _

def ValidBounded (ok : Nat → Bool) (Valid : α → Prop) (l : List α) : Prop :=
  ok l.length = true ∧ ValidList Valid l

def IsBounded (ok : Nat → Bool) (Shape : α → Tree → Prop) (l : List α) (t : Tree) : Prop :=
  ok l.length = true ∧ IsList Shape l t

theorem boundedArraySlot (ok : Nat → Bool) (slot : Slot write read Valid Shape) :
    Slot (writeArray write) (readBoundedArray ok read) (ValidBounded ok Valid)
      (IsBounded ok Shape) where
  back := by
    intro l valid rest
    have enough := length_le_flatMap slot l
    rw [writeArray, readBoundedArray, Nat.mod_eq_of_lt valid.2.1, List.append_assoc,
      readArrayLen_writeArrayLen valid.2.1]
    simp only [ofOption, bind, Except.bind, if_pos valid.1]
    rw [boundLen_ok (by rw [List.length_append]; omega)]
    exact readMany_flatMap slot.toField valid.2.2 rest
  shaped := by
    intro b rest l reads
    rw [readBoundedArray, bind_ok] at reads
    obtain ⟨⟨n, mid⟩, length, reads⟩ := reads
    dsimp only at reads
    split at reads
    · rename_i inside
      obtain ⟨_, -, many⟩ := bind_ok.mp reads
      rw [ofOption_ok] at length
      obtain ⟨count, trees, shapes, items⟩ := items_of_many slot.toField many
      have head := readHead_of_arrayLen length
      rw [← count] at inside
      rw [← count, shapes.length_eq] at head
      exact ⟨.array trees, ⟨inside, trees, rfl, shapes⟩, items_array head items⟩
    · cases reads
  lead := by
    intro l
    exact append_lead (writeArrayLen_lead _) _

theorem checkedSlot (ok : α → Bool) (slot : Slot write read Valid Shape) :
    Slot write (readChecked read ok) (fun a => ok a = true ∧ Valid a)
      (fun a t => ok a = true ∧ Shape a t) where
  back := by
    intro a valid rest
    rw [readChecked, slot.back valid.2 rest]
    simp only [bind, Except.bind, if_pos valid.1]
  shaped := by
    intro b rest a reads
    rw [readChecked, bind_ok] at reads
    obtain ⟨⟨a', mid⟩, run, reads⟩ := reads
    dsimp only at reads
    split at reads
    · rename_i passes
      cases reads
      obtain ⟨t, shape, item⟩ := slot.shaped run
      exact ⟨t, ⟨passes, shape⟩, item⟩
    · cases reads
  lead := slot.lead

end

def IsCount (n : Nat) (t : Tree) : Prop :=
  n < u64WireBound ∧ IsNat n t

theorem countSlot : Slot writeUint readCount (· < u64WireBound) IsCount where
  back := by
    intro n valid rest
    have wide : n < 2 ^ 64 := Nat.lt_trans valid (by decide)
    exact (checkedSlot _ u64Slot).back ⟨decide_eq_true valid, wide⟩ rest
  shaped := by
    intro b rest n reads
    obtain ⟨t, ⟨small, shape⟩, item⟩ := (checkedSlot _ u64Slot).shaped reads
    exact ⟨t, ⟨of_decide_eq_true small, shape⟩, item⟩
  lead := writeUint_lead

/-! ## Records -/

theorem expectArity_append {n : Nat} (small : n < 2 ^ 32) (rest : Bytes) :
    expectArity n (writeArrayLen n ++ rest) = .ok ((), rest) := by
  rw [expectArity, readArrayLen_writeArrayLen small]
  simp only [ofOption, bind, Except.bind, ne_eq, not_true_eq_false, if_false]

theorem readHead_of_arity {n : Nat} {b mid : Bytes} (arity : expectArity n b = .ok ((), mid)) :
    readHead b = some (.array n, mid) := by
  rw [expectArity, bind_ok] at arity
  obtain ⟨⟨k, left⟩, length, arity⟩ := arity
  rw [ofOption_ok] at length
  dsimp only at arity
  split at arity
  · cases arity
  · rename_i same
    cases arity
    have head := readHead_of_arrayLen length
    rw [Classical.not_not.mp same] at head
    exact head

/-- An array with a shape for each of its places. -/
def IsRecord (shapes : List (Tree → Prop)) (t : Tree) : Prop :=
  ∃ trees, t = .array trees ∧ List.Forall₂ (fun Shape t => Shape t) shapes trees

/-- The positions of a record that are still to be read, once the earlier ones are known. -/
structure Positions {β : Type} (Known : β → Prop) (write : β → Bytes) (read : Reader β)
    (Valid : β → Prop) (shapes : β → List (Tree → Prop)) : Prop where
  back : ∀ {m : β}, Known m → Valid m → ∀ rest : Bytes, read (write m ++ rest) = .ok (m, rest)
  shaped : ∀ {b rest : Bytes} {m : β}, read b = .ok (m, rest) →
    Known m ∧ ∃ trees, List.Forall₂ (fun Shape t => Shape t) (shapes m) trees ∧
      Items b trees rest

namespace Positions

variable {α β : Type} {Known : β → Prop}

/-- The next position. -/
theorem field {write : α → Bytes} {read : Reader α} {Valid : α → Prop} {Shape : α → Tree → Prop}
    {writeLater : β → Bytes} {ValidLater : β → Prop} {shapesLater : β → List (Tree → Prop)}
    {readLater : α → Reader β} (part : β → α) (first : Field write read Valid Shape)
    (later : ∀ a, Positions (fun m => Known m ∧ part m = a) writeLater (readLater a) ValidLater
      shapesLater) :
    Positions Known (fun m => write (part m) ++ writeLater m) (read >>= readLater)
      (fun m => Valid (part m) ∧ ValidLater m) (fun m => Shape (part m) :: shapesLater m) where
  back := by
    intro m known valid rest
    have tail := (later (part m)).back ⟨known, rfl⟩ valid.2 rest
    rw [List.append_assoc]
    simp only [bind, StateT.bind, Except.bind, first.back valid.1, tail]
  shaped := by
    intro b rest m reads
    obtain ⟨⟨a, mid⟩, run, reads⟩ := bind_ok.mp reads
    obtain ⟨t, shape, item⟩ := first.shaped run
    obtain ⟨⟨known, same⟩, trees, shapes, items⟩ := (later a).shaped reads
    refine ⟨known, t :: trees, .cons ?_ shapes, items_cons item items⟩
    rw [same]
    exact shape

/-- Every position is read. -/
theorem done (m : β) (only : ∀ m', Known m' ↔ m' = m) :
    Positions Known (fun _ => []) (pure m) (fun _ => True) (fun _ => []) where
  back := by
    intro m' known _ rest
    rw [(only m').mp known]
    rfl
  shaped := by
    intro b rest m' reads
    cases reads
    exact ⟨(only m).mpr rfl, [], .nil, items_nil b⟩

/-- A record of one position. -/
theorem single {write : α → Bytes} {read : Reader α} {Valid : α → Prop} {Shape : α → Tree → Prop}
    (only : Field write read Valid Shape) :
    Positions (fun _ => True) write read Valid (fun a => [Shape a]) where
  back := by
    intro a _ valid rest
    exact only.back valid rest
  shaped := by
    intro b rest a reads
    obtain ⟨t, shape, item⟩ := only.shaped reads
    exact ⟨trivial, [t], .cons shape .nil, item⟩

theorem record {write : β → Bytes} {read : Reader β} {Valid : β → Prop}
    {shapes : β → List (Tree → Prop)} {n : Nat} (small : n < 2 ^ 32)
    (fields : Positions (fun _ => True) write read Valid shapes)
    (count : ∀ m, (shapes m).length = n) :
    Slot (fun m => writeArrayLen n ++ write m) (expectArity n >>= fun _ => read) Valid
      (fun m => IsRecord (shapes m)) where
  back := by
    intro m valid rest
    rw [List.append_assoc]
    simp only [bind, StateT.bind, Except.bind, expectArity_append small]
    exact fields.back trivial valid rest
  shaped := by
    intro b rest m reads
    obtain ⟨⟨_, mid⟩, arity, reads⟩ := bind_ok.mp reads
    obtain ⟨-, trees, shapes, items⟩ := fields.shaped reads
    have head := readHead_of_arity arity
    rw [← count m, shapes.length_eq] at head
    exact ⟨.array trees, ⟨trees, rfl, shapes⟩, items_array head items⟩
  lead := by
    intro m
    exact append_lead (writeArrayLen_lead n) (write m)

end Positions

/-- The same position under another writer and a stronger condition. -/
theorem Slot.congr {α : Type} {write write' : α → Bytes} {read : Reader α}
    {Valid Valid' : α → Prop} {Shape : α → Tree → Prop} (slot : Slot write read Valid Shape)
    (same : ∀ a, write' a = write a) (enough : ∀ a, Valid' a → Valid a) :
    Slot write' read Valid' Shape where
  back := by
    intro a valid rest
    rw [same]
    exact slot.back (enough a valid) rest
  shaped := slot.shaped
  lead := by
    intro a
    rw [same]
    exact slot.lead a

/-! ## Whole messages -/

theorem expectEnd_ok {rd : Bytes} : expectEnd rd = .ok () ↔ rd = [] := by
  rw [expectEnd]
  split
  · rename_i empty
    exact iff_of_true rfl empty
  · rename_i more
    constructor
    · intro h
      cases h
    · intro empty
      exact absurd empty more

/-- A message codec: it reads back what it wrote, refuses what follows, and accepts no other
shape. -/
structure Codec {α : Type} (encode : α → Bytes) (decode : Bytes → Except CodecError α)
    (Valid : α → Prop) (Shape : α → Tree → Prop) : Prop where
  back : ∀ {m : α}, Valid m → decode (encode m) = .ok m
  appended : ∀ {m : α}, Valid m → ∀ {extra : Bytes}, extra ≠ [] →
    decode (encode m ++ extra) = .error (.trailingBytes extra.length)
  shaped : ∀ {b : Bytes} {m : α}, decode b = .ok m → ∃ t, Shape m t ∧ Reads b t

theorem Field.codec {α : Type} {write : α → Bytes} {read : Reader α} {Valid : α → Prop}
    {Shape : α → Tree → Prop} (field : Field write read Valid Shape) :
    Codec write (whole read) Valid Shape where
  back := by
    intro m valid
    have back := field.back valid []
    rw [List.append_nil] at back
    simp only [whole, back, bind, Except.bind, expectEnd_ok.mpr rfl]
  appended := by
    intro m valid extra more
    simp only [whole, field.back valid extra, bind, Except.bind, expectEnd, if_neg more]
  shaped := by
    intro b m reads
    obtain ⟨⟨a, left⟩, run, reads⟩ := bind_ok.mp reads
    obtain ⟨_, ending, done⟩ := bind_ok.mp reads
    cases done
    obtain ⟨t, shape, items⟩ := field.shaped run
    rw [expectEnd_ok.mp ending] at items
    exact ⟨t, shape, items⟩

end FerroEngine.CodecLaws
