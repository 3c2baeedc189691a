import FerroEngine.MessagePack

set_option autoImplicit false

/-! # Reading MessagePack

The readers, marker by marker, that they read back what the writers wrote, and the tree that a
byte string denotes.
-/

namespace FerroEngine.MessagePackReader

open MessagePack

abbrev Bytes := List UInt8

/-! ## Numbers -/

def takeBytes (n : Nat) (b : Bytes) : Option (Bytes × Bytes) :=
  if n ≤ b.length then some (b.take n, b.drop n) else none

def bigEndianValue : Bytes → Nat
  | [] => 0
  | b :: rest => b.toNat * 256 ^ rest.length + bigEndianValue rest

def readBigEndian (width : Nat) (b : Bytes) : Option (Nat × Bytes) :=
  (takeBytes width b).map fun p => (bigEndianValue p.1, p.2)

/-- Two's complement. -/
def signed (width n : Nat) : Int :=
  if n < 2 ^ (8 * width - 1) then n else n - 2 ^ (8 * width)

theorem takeBytes_append (first rest : Bytes) :
    takeBytes first.length (first ++ rest) = some (first, rest) := by
  rw [takeBytes, if_pos (by rw [List.length_append]; omega), List.take_left, List.drop_left]

theorem bigEndianValue_bigEndian (width n : Nat) :
    bigEndianValue (bigEndian width n) = n % 256 ^ width := by
  induction width with
  | zero => rw [Nat.pow_zero, Nat.mod_one]; rfl
  | succ width ih =>
    have top : (UInt8.ofNat (n / 256 ^ width)).toNat = n / 256 ^ width % 256 := by
      simp
    rw [bigEndian, bigEndianValue, bigEndian_length, ih, top, Nat.pow_succ, Nat.mod_mul,
      Nat.mul_comm]
    omega

theorem readBigEndian_append {width n : Nat} (small : n < 256 ^ width) (rest : Bytes) :
    readBigEndian width (bigEndian width n ++ rest) = some (n, rest) := by
  have taken := takeBytes_append (bigEndian width n) rest
  rw [bigEndian_length] at taken
  rw [readBigEndian, taken, Option.map_some, bigEndianValue_bigEndian, Nat.mod_eq_of_lt small]

theorem bigEndianValue_lt (b : Bytes) : bigEndianValue b < 256 ^ b.length := by
  induction b with
  | nil => rw [bigEndianValue, List.length_nil, Nat.pow_zero]; omega
  | cons first rest ih =>
    have byte : first.toNat < 256 := first.toNat_lt
    have scaled : first.toNat * 256 ^ rest.length ≤ 255 * 256 ^ rest.length :=
      Nat.mul_le_mul_right _ (by omega)
    rw [bigEndianValue, List.length_cons, Nat.pow_succ]
    omega

/-- Bytes above the width are cut off. -/
theorem bigEndian_high (width k n : Nat) :
    bigEndian width (k * 256 ^ width + n) = bigEndian width n := by
  induction width generalizing k with
  | zero => rfl
  | succ width ih =>
    have positive : 0 < 256 ^ width := Nat.pow_pos (by omega)
    have shifted : k * 256 ^ (width + 1) = k * 256 * 256 ^ width := by
      rw [Nat.pow_succ, Nat.mul_comm (256 ^ width), Nat.mul_assoc]
    have top : (k * 256 * 256 ^ width + n) / 256 ^ width = k * 256 + n / 256 ^ width := by
      rw [Nat.mul_comm (k * 256), Nat.mul_add_div positive]
    have byte : UInt8.ofNat (k * 256 + n / 256 ^ width) = UInt8.ofNat (n / 256 ^ width) := by
      apply UInt8.toNat.inj
      rw [UInt8.toNat_ofNat', UInt8.toNat_ofNat']
      omega
    rw [bigEndian, bigEndian, shifted, top, byte, ih]

theorem bigEndian_bigEndianValue (b : Bytes) : bigEndian b.length (bigEndianValue b) = b := by
  induction b with
  | nil => rfl
  | cons first rest ih =>
    have small := bigEndianValue_lt rest
    have positive : 0 < 256 ^ rest.length := Nat.pow_pos (by omega)
    have top : (first.toNat * 256 ^ rest.length + bigEndianValue rest) / 256 ^ rest.length =
        first.toNat := by
      rw [Nat.mul_comm, Nat.mul_add_div positive, Nat.div_eq_of_lt small, Nat.add_zero]
    rw [List.length_cons, bigEndian, bigEndianValue, top, bigEndian_high, ih, UInt8.ofNat_toNat]

theorem readBigEndian_some {width n : Nat} {b rest : Bytes}
    (reads : readBigEndian width b = some (n, rest)) :
    n < 256 ^ width ∧ b = bigEndian width n ++ rest := by
  obtain ⟨⟨taken, left⟩, found, built⟩ := Option.map_eq_some_iff.mp reads
  cases built
  rw [takeBytes] at found
  split at found
  · rename_i enough
    cases found
    have length : (b.take width).length = width := List.length_take_of_le enough
    have bound := bigEndianValue_lt (b.take width)
    have back := bigEndian_bigEndianValue (b.take width)
    rw [length] at bound back
    exact ⟨bound, by rw [back, List.take_append_drop]⟩
  · cases found

theorem readBigEndian_lt {width n : Nat} {b rest : Bytes}
    (reads : readBigEndian width b = some (n, rest)) : n < 256 ^ width :=
  (readBigEndian_some reads).1

/-! ## Markers -/

inductive Marker where
  | fixPos (n : Nat)
  | fixNeg (n : Int)
  | nil
  | bool (b : Bool)
  | f64
  | uint (width : Nat)
  | int (width : Nat)
  | fixArray (n : Nat)
  | array (width : Nat)
  | fixStr (n : Nat)
  | str (width : Nat)
  | bin (width : Nat)
  | other
  deriving DecidableEq, Repr

def marker (b : UInt8) : Marker :=
  let k := b.toNat
  if k < 0x80 then .fixPos k
  else if k < 0x90 then .other
  else if k < 0xa0 then .fixArray (k - 0x90)
  else if k < 0xc0 then .fixStr (k - 0xa0)
  else if 0xe0 ≤ k then .fixNeg (k - 0x100)
  else match k with
    | 0xc0 => .nil
    | 0xc2 => .bool false
    | 0xc3 => .bool true
    | 0xc4 => .bin 1
    | 0xc5 => .bin 2
    | 0xc6 => .bin 4
    | 0xcb => .f64
    | 0xcc => .uint 1
    | 0xcd => .uint 2
    | 0xce => .uint 4
    | 0xcf => .uint 8
    | 0xd0 => .int 1
    | 0xd1 => .int 2
    | 0xd2 => .int 4
    | 0xd3 => .int 8
    | 0xd9 => .str 1
    | 0xda => .str 2
    | 0xdb => .str 4
    | 0xdc => .array 2
    | 0xdd => .array 4
    | _ => .other

def readMarker : Bytes → Option (Marker × Bytes)
  | [] => none
  | b :: rest => some (marker b, rest)

def readPfix (b : Bytes) : Option (Nat × Bytes) :=
  match readMarker b with
  | some (.fixPos n, rest) => some (n, rest)
  | _ => none

/-- Any of the integer families; the caller narrows the result. -/
def readInteger (b : Bytes) : Option (Int × Bytes) :=
  match readMarker b with
  | some (.fixPos n, rest) => some (n, rest)
  | some (.fixNeg n, rest) => some (n, rest)
  | some (.uint width, rest) => (readBigEndian width rest).map fun p => ((p.1 : Int), p.2)
  | some (.int width, rest) => (readBigEndian width rest).map fun p => (signed width p.1, p.2)
  | _ => none

def readF64 (b : Bytes) : Option (Nat × Bytes) :=
  match readMarker b with
  | some (.f64, rest) => readBigEndian 8 rest
  | _ => none

def readArrayLen (b : Bytes) : Option (Nat × Bytes) :=
  match readMarker b with
  | some (.fixArray n, rest) => some (n, rest)
  | some (.array width, rest) => readBigEndian width rest
  | _ => none

def readStrLen (b : Bytes) : Option (Nat × Bytes) :=
  match readMarker b with
  | some (.fixStr n, rest) => some (n, rest)
  | some (.str width, rest) => readBigEndian width rest
  | _ => none

def readBinLen (b : Bytes) : Option (Nat × Bytes) :=
  match readMarker b with
  | some (.bin width, rest) => readBigEndian width rest
  | _ => none

/-! ## What the writers wrote -/

theorem marker_fixPos {n : Nat} (small : n < 128) : marker (UInt8.ofNat n) = .fixPos n := by
  have all : ∀ k : Fin 128, marker (UInt8.ofNat k) = .fixPos k := by decide
  exact all ⟨n, small⟩

theorem marker_fixNeg {n : Nat} (large : 224 ≤ n) (small : n < 256) :
    marker (UInt8.ofNat n) = .fixNeg (n - 256) := by
  have all : ∀ k : Fin 32, marker (UInt8.ofNat (224 + k)) = .fixNeg ((224 + k : Nat) - 256) := by
    decide
  have here := all ⟨n - 224, by omega⟩
  have same : 224 + (n - 224) = n := by omega
  simp only [same] at here
  exact here

theorem marker_fixArray {n : Nat} (small : n < 16) :
    marker (UInt8.ofNat (0x90 + n)) = .fixArray n := by
  have all : ∀ k : Fin 16, marker (UInt8.ofNat (0x90 + k)) = .fixArray k := by decide
  exact all ⟨n, small⟩

theorem marker_fixStr {n : Nat} (small : n < 32) :
    marker (UInt8.ofNat (0xa0 + n)) = .fixStr n := by
  have all : ∀ k : Fin 32, marker (UInt8.ofNat (0xa0 + k)) = .fixStr k := by decide
  exact all ⟨n, small⟩

theorem readPfix_writePfix {n : Nat} (small : n < 128) (rest : Bytes) :
    readPfix (writePfix n ++ rest) = some (n, rest) := by
  rw [writePfix, List.singleton_append, readPfix, readMarker, marker_fixPos small]

theorem readInteger_writeUint {n : Nat} (range : n < 2 ^ 64) (rest : Bytes) :
    readInteger (writeUint n ++ rest) = some ((n : Int), rest) := by
  have wide : ∀ {width : Nat} {b : UInt8}, marker b = .uint width → n < 256 ^ width →
      readInteger (b :: bigEndian width n ++ rest) = some ((n : Int), rest) := by
    intro width b marks small
    rw [List.cons_append, readInteger, readMarker, marks]
    dsimp only
    rw [readBigEndian_append small, Option.map_some]
  unfold writeUint
  split
  · rename_i small
    rw [writePfix, List.singleton_append, readInteger, readMarker, marker_fixPos small]
  split
  · exact wide (by decide) (by omega)
  split
  · exact wide (by decide) (by omega)
  split
  · exact wide (by decide) (by omega)
  · exact wide (by decide) (by omega)

theorem two_pow_width {width : Nat} (positive : 0 < width) :
    (2 : Int) ^ (8 * width) = 2 * 2 ^ (8 * width - 1) := by
  have next : 8 * width = 8 * width - 1 + 1 := by omega
  rw [next, Int.pow_succ, Int.mul_comm, Nat.add_sub_cancel]

theorem signed_toNat {width : Nat} {n : Int} (positive : 0 < width)
    (low : -2 ^ (8 * width - 1) ≤ n) (negative : n < 0) :
    signed width (n + 2 ^ (8 * width)).toNat = n := by
  have double := two_pow_width positive
  have value : ((n + 2 ^ (8 * width)).toNat : Int) = n + 2 ^ (8 * width) :=
    Int.toNat_of_nonneg (by omega)
  have large : ¬ (n + 2 ^ (8 * width)).toNat < 2 ^ (8 * width - 1) := by
    have cast : ((2 ^ (8 * width - 1) : Nat) : Int) = 2 ^ (8 * width - 1) := by norm_cast
    omega
  rw [signed, if_neg large, value]
  omega

theorem readInteger_writeSint {n : Int} (low : -2 ^ 63 ≤ n) (high : n < 2 ^ 63) (rest : Bytes) :
    readInteger (writeSint n ++ rest) = some (n, rest) := by
  have wide : ∀ (width : Nat) {b : UInt8}, marker b = .int width → 0 < width → n < 0 →
      -2 ^ (8 * width - 1) ≤ n →
      readInteger (b :: bigEndian width (n + 2 ^ (8 * width)).toNat ++ rest) =
        some (n, rest) := by
    intro width b marks positive negative bound
    have double := two_pow_width positive
    have small : (n + 2 ^ (8 * width)).toNat < 256 ^ width := by
      have base : (256 : Nat) ^ width = 2 ^ (8 * width) := by rw [Nat.pow_mul]
      have cast : ((2 ^ (8 * width) : Nat) : Int) = 2 ^ (8 * width) := by norm_cast
      rw [base]
      omega
    rw [List.cons_append, readInteger, readMarker, marks]
    dsimp only
    rw [readBigEndian_append small, Option.map_some]
    dsimp only
    rw [signed_toNat positive bound negative]
  unfold writeSint
  split
  · rename_i positive
    rw [readInteger_writeUint (by omega), Int.toNat_of_nonneg positive]
  split
  · rename_i negative near
    have range : (n + 2 ^ 8).toNat < 256 := by omega
    have byte : bigEndian 1 (n + 2 ^ 8).toNat = [UInt8.ofNat (n + 2 ^ 8).toNat] := by
      rw [bigEndian, bigEndian, Nat.pow_zero, Nat.div_one]
    rw [byte, List.singleton_append, readInteger, readMarker, marker_fixNeg (by omega) range]
    dsimp only
    congr 2
    omega
  split
  · exact wide 1 (by decide) (by omega) (by omega) (by omega)
  split
  · exact wide 2 (by decide) (by omega) (by omega) (by omega)
  split
  · exact wide 4 (by decide) (by omega) (by omega) (by omega)
  · exact wide 8 (by decide) (by omega) (by omega) (by omega)

theorem readF64_writeF64 (bits : UInt64) (rest : Bytes) :
    readF64 (writeF64 bits ++ rest) = some (bits.toNat, rest) := by
  have marks : marker 0xcb = .f64 := by decide
  have small : bits.toNat < 256 ^ 8 := bits.toNat_lt
  rw [writeF64, List.cons_append, readF64, readMarker, marks]
  exact readBigEndian_append small rest

theorem readArrayLen_writeArrayLen {n : Nat} (range : n < 2 ^ 32) (rest : Bytes) :
    readArrayLen (writeArrayLen n ++ rest) = some (n, rest) := by
  have wide : ∀ {width : Nat} {b : UInt8}, marker b = .array width → n < 256 ^ width →
      readArrayLen (b :: bigEndian width n ++ rest) = some (n, rest) := by
    intro width b marks small
    rw [List.cons_append, readArrayLen, readMarker, marks]
    exact readBigEndian_append small rest
  unfold writeArrayLen
  split
  · rename_i small
    rw [List.singleton_append, readArrayLen, readMarker, marker_fixArray small]
  split
  · exact wide (by decide) (by omega)
  · exact wide (by decide) (by omega)

theorem readStrLen_writeStrLen {n : Nat} (range : n < 2 ^ 32) (rest : Bytes) :
    readStrLen (writeStrLen n ++ rest) = some (n, rest) := by
  have wide : ∀ {width : Nat} {b : UInt8}, marker b = .str width → n < 256 ^ width →
      readStrLen (b :: bigEndian width n ++ rest) = some (n, rest) := by
    intro width b marks small
    rw [List.cons_append, readStrLen, readMarker, marks]
    exact readBigEndian_append small rest
  unfold writeStrLen
  split
  · rename_i small
    rw [List.singleton_append, readStrLen, readMarker, marker_fixStr small]
  split
  · exact wide (by decide) (by omega)
  split
  · exact wide (by decide) (by omega)
  · exact wide (by decide) (by omega)

theorem readBinLen_writeBinLen {n : Nat} (range : n < 2 ^ 32) (rest : Bytes) :
    readBinLen (writeBinLen n ++ rest) = some (n, rest) := by
  have wide : ∀ {width : Nat} {b : UInt8}, marker b = .bin width → n < 256 ^ width →
      readBinLen (b :: bigEndian width n ++ rest) = some (n, rest) := by
    intro width b marks small
    rw [List.cons_append, readBinLen, readMarker, marks]
    exact readBigEndian_append small rest
  unfold writeBinLen
  split
  · exact wide (by decide) (by omega)
  split
  · exact wide (by decide) (by omega)
  · exact wide (by decide) (by omega)

/-! ## Trees -/

inductive Tree where
  | nil
  | bool (b : Bool)
  | int (n : Int)
  | f64 (bits : Nat)
  | str (bytes : Bytes)
  | bin (bytes : Bytes)
  | array (items : List Tree)

/-- The start of a value: all of it, or the header of an array. -/
inductive Head where
  | leaf (t : Tree)
  | array (n : Nat)

def readHead (b : Bytes) : Option (Head × Bytes) :=
  match readMarker b with
  | some (.nil, rest) => some (.leaf .nil, rest)
  | some (.bool v, rest) => some (.leaf (.bool v), rest)
  | some (.f64, _) => (readF64 b).map fun p => (.leaf (.f64 p.1), p.2)
  | some (.fixArray _, _) | some (.array _, _) => (readArrayLen b).map fun p => (.array p.1, p.2)
  | some (.fixStr _, _) | some (.str _, _) =>
    (readStrLen b).bind fun p => (takeBytes p.1 p.2).map fun q => (.leaf (.str q.1), q.2)
  | some (.bin _, _) =>
    (readBinLen b).bind fun p => (takeBytes p.1 p.2).map fun q => (.leaf (.bin q.1), q.2)
  | some (.fixPos _, _) | some (.fixNeg _, _) | some (.uint _, _) | some (.int _, _) =>
    (readInteger b).map fun p => (.leaf (.int p.1), p.2)
  | some (.other, _) | none => none

/-- As many values as the count says. -/
def readTrees : Nat → Nat → Bytes → Option (List Tree × Bytes)
  | _, 0, b => some ([], b)
  | 0, _ + 1, _ => none
  | fuel + 1, count + 1, b =>
    match readHead b with
    | some (.leaf t, rest) => (readTrees fuel count rest).map fun p => (t :: p.1, p.2)
    | some (.array n, rest) =>
      (readTrees fuel n rest).bind fun p =>
        (readTrees fuel count p.2).map fun q => (.array p.1 :: q.1, q.2)
    | none => none

/-- The values that stand at the front of a byte string. -/
def Items (b : Bytes) (trees : List Tree) (rest : Bytes) : Prop :=
  ∃ fuel, readTrees fuel trees.length b = some (trees, rest)

/-- A byte string that is one value and nothing else. -/
def Reads (b : Bytes) (t : Tree) : Prop :=
  Items b [t] []

theorem readTrees_mono {fuel count : Nat} {b : Bytes} {r : List Tree × Bytes}
    (reads : readTrees fuel count b = some r) (more : Nat) :
    readTrees (fuel + more) count b = some r := by
  induction fuel generalizing count b r with
  | zero =>
    cases count with
    | zero =>
      rw [readTrees] at reads ⊢
      exact reads
    | succ count => cases reads
  | succ fuel ih =>
    cases count with
    | zero =>
      rw [readTrees] at reads ⊢
      exact reads
    | succ count =>
      rw [Nat.succ_add]
      rw [readTrees] at reads ⊢
      split at reads
      · rename_i t rest head
        obtain ⟨tail, later, rfl⟩ := Option.map_eq_some_iff.mp reads
        rw [ih later, Option.map_some]
      · rename_i n rest head
        obtain ⟨inner, first, later⟩ := Option.bind_eq_some_iff.mp reads
        obtain ⟨tail, second, rfl⟩ := Option.map_eq_some_iff.mp later
        rw [ih first, Option.bind_some, ih second, Option.map_some]
      · cases reads

theorem readTrees_length {fuel count : Nat} {b rest : Bytes} {trees : List Tree}
    (reads : readTrees fuel count b = some (trees, rest)) : trees.length = count := by
  induction fuel generalizing count b rest trees with
  | zero =>
    cases count with
    | zero =>
      rw [readTrees] at reads
      cases reads
      rfl
    | succ count => cases reads
  | succ fuel ih =>
    cases count with
    | zero =>
      rw [readTrees] at reads
      cases reads
      rfl
    | succ count =>
      rw [readTrees] at reads
      split at reads
      · obtain ⟨tail, later, built⟩ := Option.map_eq_some_iff.mp reads
        cases built
        rw [List.length_cons, ih later]
      · obtain ⟨inner, first, later⟩ := Option.bind_eq_some_iff.mp reads
        obtain ⟨tail, second, built⟩ := Option.map_eq_some_iff.mp later
        cases built
        rw [List.length_cons, ih second]
      · cases reads

/-- A byte string starts with one list of values of each length. -/
theorem items_unique {b rest rest' : Bytes} {trees trees' : List Tree}
    (first : Items b trees rest) (second : Items b trees' rest')
    (same : trees.length = trees'.length) : trees = trees' ∧ rest = rest' := by
  obtain ⟨fuel, reads⟩ := first
  obtain ⟨fuel', reads'⟩ := second
  have more := readTrees_mono reads fuel'
  have more' := readTrees_mono reads' fuel
  rw [same, Nat.add_comm, more'] at more
  cases more
  exact ⟨rfl, rfl⟩

theorem reads_unique {b : Bytes} {t t' : Tree} (first : Reads b t) (second : Reads b t') :
    t = t' := by
  have same := (items_unique first second rfl).1
  cases same
  rfl

theorem items_nil (b : Bytes) : Items b [] b :=
  ⟨0, rfl⟩

theorem items_leaf {b rest : Bytes} {t : Tree} (head : readHead b = some (.leaf t, rest)) :
    Items b [t] rest := by
  refine ⟨1, ?_⟩
  rw [List.length_singleton, readTrees, head]
  rfl

theorem items_array {b mid rest : Bytes} {trees : List Tree}
    (head : readHead b = some (.array trees.length, mid)) (inner : Items mid trees rest) :
    Items b [.array trees] rest := by
  obtain ⟨fuel, reads⟩ := inner
  refine ⟨fuel + 1, ?_⟩
  have done : readTrees fuel 0 rest = some ([], rest) := by
    cases fuel <;> rfl
  rw [List.length_singleton, readTrees, head]
  dsimp only
  rw [reads, Option.bind_some, done]
  rfl

theorem items_cons {b mid rest : Bytes} {t : Tree} {trees : List Tree}
    (first : Items b [t] mid) (later : Items mid trees rest) : Items b (t :: trees) rest := by
  obtain ⟨fuel, reads⟩ := first
  obtain ⟨fuel', reads'⟩ := later
  cases fuel with
  | zero => cases reads
  | succ fuel =>
    refine ⟨fuel + fuel' + 1, ?_⟩
    have tail := readTrees_mono reads' fuel
    rw [Nat.add_comm] at tail
    rw [List.length_singleton, readTrees] at reads
    rw [List.length_cons, readTrees]
    split at reads
    · rename_i found left head
      rw [readTrees] at reads
      cases reads
      exact Option.map_eq_some_iff.mpr ⟨_, tail, rfl⟩
    · rename_i n left head
      obtain ⟨inner, nested, end'⟩ := Option.bind_eq_some_iff.mp reads
      rw [readTrees] at end'
      cases end'
      rw [readTrees_mono nested fuel', Option.bind_some]
      exact Option.map_eq_some_iff.mpr ⟨_, tail, rfl⟩
    · cases reads

theorem items_append {b mid rest : Bytes} {first later : List Tree} (front : Items b first mid)
    (back : Items mid later rest) : Items b (first ++ later) rest := by
  obtain ⟨fuel, reads⟩ := front
  induction first generalizing b fuel with
  | nil =>
    have same : b = mid := by
      cases fuel <;> (rw [List.length_nil, readTrees] at reads; cases reads; rfl)
    rw [same]
    exact back
  | cons t first ih =>
    cases fuel with
    | zero => cases reads
    | succ fuel =>
      rw [List.length_cons, readTrees] at reads
      split at reads
      · rename_i found left head
        obtain ⟨⟨tail, end'⟩, more, built⟩ := Option.map_eq_some_iff.mp reads
        cases built
        exact items_cons (items_leaf head) (ih fuel more)
      · rename_i n left head
        obtain ⟨⟨inner, left'⟩, nested, reads⟩ := Option.bind_eq_some_iff.mp reads
        obtain ⟨⟨tail, end'⟩, more, built⟩ := Option.map_eq_some_iff.mp reads
        cases built
        have count := readTrees_length nested
        rw [← count] at head nested
        exact items_cons (items_array head ⟨fuel, nested⟩) (ih fuel more)
      · cases reads

/-! ## What the readers read -/

theorem readHead_of_integer {b rest : Bytes} {n : Int} (reads : readInteger b = some (n, rest)) :
    readHead b = some (.leaf (.int n), rest) := by
  have whole := reads
  rw [readInteger] at reads
  rw [readHead]
  split at reads
  · rename_i found
    rw [found, whole]
    rfl
  · rename_i found
    rw [found, whole]
    rfl
  · rename_i found
    rw [found, whole]
    rfl
  · rename_i found
    rw [found, whole]
    rfl
  · cases reads

theorem readInteger_of_pfix {b rest : Bytes} {n : Nat} (reads : readPfix b = some (n, rest)) :
    readInteger b = some ((n : Int), rest) := by
  rw [readPfix] at reads
  rw [readInteger]
  split at reads
  · rename_i found
    cases reads
    rw [found]
  · cases reads

theorem readF64_lt {b rest : Bytes} {n : Nat} (reads : readF64 b = some (n, rest)) :
    n < 2 ^ 64 := by
  rw [readF64] at reads
  split at reads
  · exact readBigEndian_lt reads
  · cases reads

theorem readHead_of_f64 {b rest : Bytes} {n : Nat} (reads : readF64 b = some (n, rest)) :
    readHead b = some (.leaf (.f64 n), rest) := by
  have whole := reads
  rw [readF64] at reads
  rw [readHead]
  split at reads
  · rename_i found
    rw [found, whole]
    rfl
  · cases reads

theorem readHead_of_arrayLen {b rest : Bytes} {n : Nat}
    (reads : readArrayLen b = some (n, rest)) : readHead b = some (.array n, rest) := by
  have whole := reads
  rw [readArrayLen] at reads
  rw [readHead]
  split at reads
  · rename_i found
    rw [found, whole]
    rfl
  · rename_i found
    rw [found, whole]
    rfl
  · cases reads

theorem readHead_of_str {b mid rest bytes : Bytes} {n : Nat}
    (reads : readStrLen b = some (n, mid)) (taken : takeBytes n mid = some (bytes, rest)) :
    readHead b = some (.leaf (.str bytes), rest) := by
  have whole := reads
  rw [readStrLen] at reads
  rw [readHead]
  split at reads
  · rename_i found
    rw [found, whole, Option.bind_some, taken]
    rfl
  · rename_i found
    rw [found, whole, Option.bind_some, taken]
    rfl
  · cases reads

theorem readHead_of_bin {b mid rest bytes : Bytes} {n : Nat}
    (reads : readBinLen b = some (n, mid)) (taken : takeBytes n mid = some (bytes, rest)) :
    readHead b = some (.leaf (.bin bytes), rest) := by
  have whole := reads
  rw [readBinLen] at reads
  rw [readHead]
  split at reads
  · rename_i found
    rw [found, whole, Option.bind_some, taken]
    rfl
  · cases reads

theorem readHead_of_nil {b rest : Bytes} (found : readMarker b = some (.nil, rest)) :
    readHead b = some (.leaf .nil, rest) := by
  rw [readHead, found]

theorem readHead_of_bool {b rest : Bytes} {v : Bool}
    (found : readMarker b = some (.bool v, rest)) :
    readHead b = some (.leaf (.bool v), rest) := by
  rw [readHead, found]

end FerroEngine.MessagePackReader
