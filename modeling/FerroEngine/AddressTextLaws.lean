import FerroEngine.AddressText

set_option autoImplicit false

/-! # Reading back the text of an address -/

namespace FerroEngine.AddressTextLaws

open DecimalText AddressText

/-! ## Hexadecimal texts -/

theorem hexByte_toNat {d : Nat} (small : d < 16) :
    (hexByte d).toNat = if d < 10 then 48 + d else 87 + d := by
  unfold hexByte
  split <;> rw [UInt8.toNat_ofNat'] <;> omega

theorem isHex_hexByte {d : Nat} (small : d < 16) : isHex (hexByte d) = true := by
  have number := hexByte_toNat small
  simp only [isHex, isDigit, number, Bool.or_eq_true, Bool.and_eq_true, decide_eq_true_eq]
  split <;> omega

theorem hexDigit_hexByte {d : Nat} (small : d < 16) : hexDigit (hexByte d) = d := by
  have number := hexByte_toNat small
  unfold hexDigit isDigit
  rw [number]
  by_cases decimal : d < 10
  · rw [if_pos decimal, if_pos (by simp; omega)]
    omega
  · rw [if_neg decimal, if_neg (by simp; omega), if_pos (by omega)]
    omega

theorem hexValue_concat (s : Text) (b : UInt8) : hexValue (s ++ [b]) = 16 * hexValue s + hexDigit b := by
  unfold hexValue
  rw [List.foldl_append]
  rfl

theorem hexText_spec (n : Nat) :
    hexValue (hexText n) = n ∧ (∀ b ∈ hexText n, isHex b = true) ∧ hexText n ≠ [] := by
  induction n using Nat.strongRecOn with
  | ind n ih =>
    rw [hexText]
    split
    · rename_i small
      refine ⟨?_, fun b member => ?_, List.cons_ne_nil _ _⟩
      · change 16 * 0 + hexDigit (hexByte n) = n
        rw [hexDigit_hexByte small, Nat.mul_zero, Nat.zero_add]
      · rw [List.mem_singleton.mp member]
        exact isHex_hexByte small
    · obtain ⟨number, digits, _⟩ := ih (n / 16) (by omega)
      have small : n % 16 < 16 := Nat.mod_lt _ (by omega)
      refine ⟨?_, fun b member => ?_, List.append_ne_nil_of_right_ne_nil _ (List.cons_ne_nil _ _)⟩
      · rw [hexValue_concat, number, hexDigit_hexByte small]
        omega
      · cases List.mem_append.mp member with
        | inl front => exact digits b front
        | inr last =>
          rw [List.mem_singleton.mp last]
          exact isHex_hexByte small

theorem hexText_length {n k : Nat} (small : n < 16 ^ (k + 1)) : (hexText n).length ≤ k + 1 := by
  induction k generalizing n with
  | zero =>
    rw [hexText, if_pos (by omega)]
    exact Nat.le_refl 1
  | succ k ih =>
    rw [hexText]
    split
    · change 1 ≤ k + 1 + 1
      omega
    · have shorter := @ih (n / 16) (by rw [Nat.pow_succ] at small; omega)
      rw [List.length_append]
      change (hexText (n / 16)).length + 1 ≤ k + 1 + 1
      omega

/-! ## Numbers -/

/-- The text does not go on with a digit. -/
def Stops (isOne : UInt8 → Bool) (rest : Text) : Prop :=
  ∀ b, rest.head? = some b → isOne b = false

theorem stops_cons {isOne : UInt8 → Bool} {b : UInt8} {rest : Text} (other : isOne b = false) :
    Stops isOne (b :: rest) := by
  intro c same
  rw [← Option.some.inj same]
  exact other

theorem takeWhile_stops {isOne : UInt8 → Bool} {digits rest : Text}
    (all : ∀ b ∈ digits, isOne b = true) (stops : Stops isOne rest) :
    (digits ++ rest).takeWhile isOne = digits ∧ (digits ++ rest).dropWhile isOne = rest := by
  rw [List.takeWhile_append_of_pos all, List.dropWhile_append_of_pos all]
  cases rest with
  | nil => exact ⟨List.append_nil digits, rfl⟩
  | cons b rest =>
    have other := stops b rfl
    rw [List.takeWhile_cons_of_neg (by rw [other]; exact Bool.false_ne_true),
      List.dropWhile_cons_of_neg (by rw [other]; exact Bool.false_ne_true), List.append_nil]
    exact ⟨rfl, rfl⟩

theorem readNumber_text {isOne : UInt8 → Bool} (valueOf : Text → Nat) (maxDigits bound : Nat)
    (zeroPrefix : Bool) {digits rest : Text} (all : ∀ b ∈ digits, isOne b = true)
    (stops : Stops isOne rest) (some_ : digits ≠ []) (short : digits.length ≤ maxDigits)
    (canonical : zeroPrefix = true ∨ digits.head? ≠ some 48 ∨ digits.length = 1)
    (small : valueOf digits < bound) :
    readNumber isOne valueOf maxDigits zeroPrefix bound (digits ++ rest) =
      some (valueOf digits, rest) := by
  have parts := takeWhile_stops all stops
  have long := List.length_pos_iff.mpr some_
  unfold readNumber
  rw [parts.1, parts.2]
  dsimp only
  rw [if_neg (by omega), if_neg (by omega), if_neg, if_pos small]
  rintro ⟨strict, zero, more⟩
  rcases canonical with free | other | one
  · rw [free] at strict
    cases strict
  · exact other zero
  · omega

/-- What a number that was read looks like. -/
theorem readNumber_inv {isOne : UInt8 → Bool} {valueOf : Text → Nat} {maxDigits bound n : Nat}
    {zeroPrefix : Bool} {p rest : Text}
    (read : readNumber isOne valueOf maxDigits zeroPrefix bound p = some (n, rest)) :
    ∃ digits, p = digits ++ rest ∧ (∀ b ∈ digits, isOne b = true) ∧ digits ≠ [] ∧
      digits.length ≤ maxDigits ∧ n = valueOf digits ∧ n < bound ∧
      (zeroPrefix = false → digits.head? = some 48 → digits.length = 1) := by
  unfold readNumber at read
  dsimp only at read
  split at read
  · cases read
  · split at read
    · cases read
    · split at read
      · cases read
      · rename_i long empty leading
        split at read
        · rename_i small
          cases read
          refine ⟨p.takeWhile isOne, (List.takeWhile_append_dropWhile ..).symm,
            fun b member => List.all_eq_true.mp List.all_takeWhile b member, fun none => empty (by rw [none]; rfl),
            by omega, rfl, small, fun strict zero => ?_⟩
          have one : ¬1 < (p.takeWhile isOne).length := fun more => leading ⟨strict, zero, more⟩
          omega
        · cases read

theorem readNumber_none {isOne : UInt8 → Bool} {valueOf : Text → Nat} {maxDigits bound : Nat}
    {zeroPrefix : Bool} {p : Text} (stops : Stops isOne p) :
    readNumber isOne valueOf maxDigits zeroPrefix bound p = none := by
  have none := @takeWhile_stops isOne [] p nofun stops
  rw [List.nil_append] at none
  unfold readNumber
  rw [none.1]
  rfl

/-! ## IPv4 -/

theorem digits_short {s : Text} (zero : s.head? = some 48 → s.length = 1) :
    s.head? ≠ some 48 ∨ s.length = 1 := by
  by_cases front : s.head? = some 48
  · exact .inr (zero front)
  · exact .inl front

theorem readOctet_text (n : UInt8) {rest : Text} (stops : Stops isDigit rest) :
    readOctet (decimal n.toNat ++ rest) = some (n, rest) := by
  have small : n.toNat < 256 := n.toNat_lt
  have canonical := canonical_decimal n.toNat
  have read := readNumber_text value 3 256 false canonical.digits stops canonical.nonempty
    (decimal_length (by omega)) ?_ (by rw [value_decimal]; exact small)
  · rw [readOctet, read, value_decimal]
    change some (UInt8.ofNat n.toNat, rest) = some (n, rest)
    rw [UInt8.ofNat_toNat]
  · refine .inr (digits_short fun zero => ?_)
    rw [canonical.leading zero]
    rfl

theorem readGroup_text (group : UInt16) {rest : Text} (stops : Stops isHex rest) :
    readGroup (hexText group.toNat ++ rest) = some (group, rest) := by
  have small : group.toNat < 65536 := group.toNat_lt
  obtain ⟨number, all, some_⟩ := hexText_spec group.toNat
  have read := readNumber_text hexValue 4 65536 true all stops some_ (hexText_length (by omega))
    (.inl rfl) (by rw [number]; exact small)
  rw [readGroup, read, number]
  change some (UInt16.ofNat group.toNat, rest) = some (group, rest)
  rw [UInt16.ofNat_toNat]

theorem readIpv4_dotted (v4 : Ipv4) {rest : Text} (stops : Stops isDigit rest) :
    readIpv4 (dotted v4 ++ rest) = some (v4, rest) := by
  have dot (more : Text) : Stops isDigit (46 :: more) := stops_cons rfl
  have shape : dotted v4 ++ rest = decimal v4.a.toNat ++ (46 :: (decimal v4.b.toNat ++
      (46 :: (decimal v4.c.toNat ++ (46 :: (decimal v4.d.toNat ++ rest)))))) := by
    unfold dotted
    simp only [List.append_assoc, List.cons_append]
  have later (n : UInt8) {more : Text} (ends : Stops isDigit more) :
      readSeparator 46 false readOctet (46 :: (decimal n.toNat ++ more)) = some (n, more) := by
    rw [readSeparator]
    exact readOctet_text n ends
  have first (n : UInt8) {more : Text} (ends : Stops isDigit more) :
      readSeparator 46 true readOctet (decimal n.toNat ++ more) = some (n, more) :=
    readOctet_text n ends
  rw [shape, readIpv4, first v4.a (dot _), Option.bind_eq_bind, Option.bind_some]
  dsimp only [Option.bind_eq_bind]
  rw [later v4.b (dot _), Option.bind_some]
  dsimp only
  rw [later v4.c (dot _), Option.bind_some]
  dsimp only
  rw [later v4.d stops, Option.bind_some]

/-- An IPv4 address takes a dot. -/
theorem readIpv4_dot {p rest : Text} {v4 : Ipv4} (read : readIpv4 p = some (v4, rest)) : 46 ∈ p := by
  unfold readIpv4 at read
  obtain ⟨⟨a, p'⟩, first, read⟩ := Option.bind_eq_some_iff.mp read
  obtain ⟨⟨b, p''⟩, second, _⟩ := Option.bind_eq_some_iff.mp read
  have front : ∃ digits, p = digits ++ p' := by
    obtain ⟨⟨n, after⟩, number, same⟩ := Option.map_eq_some_iff.mp first
    obtain ⟨digits, shape, _⟩ := readNumber_inv number
    cases same
    exact ⟨digits, shape⟩
  obtain ⟨digits, shape⟩ := front
  rw [shape]
  refine List.mem_append_right digits ?_
  unfold readSeparator at second
  rw [if_neg Bool.false_ne_true] at second
  split at second
  · rename_i c more
    split at second
    · rename_i same
      rw [same]
      exact List.mem_cons_self ..
    · cases second
  · cases second

theorem readIpv4_none {p : Text} (plain : 46 ∉ p) : readIpv4 p = none := by
  cases read : readIpv4 p with
  | none => rfl
  | some found => exact absurd (readIpv4_dot read) plain

/-! ## Groups -/

theorem readSeparator_none {α : Type} {sep : UInt8} {inner : Text → Option (α × Text)} {p : Text}
    (stops : ∀ rest, p = sep :: rest → inner rest = none) :
    readSeparator sep false inner p = none := by
  unfold readSeparator
  rw [if_neg Bool.false_ne_true]
  split
  · split
    · rename_i same
      rw [same] at stops
      exact stops _ rfl
    · rfl
  · rfl

/-- Where the groups of a text end: at the end of it, or at `::`. -/
def Ends (rest : Text) : Prop := rest = [] ∨ ∃ more, rest = 58 :: 58 :: more

theorem readGroup_ends {p : Text} (ends : Ends p) : readGroup p = none := by
  have stops : Stops isHex p := by
    cases ends with
    | inl empty =>
      rw [empty]
      intro b same
      cases same
    | inr colons =>
      obtain ⟨more, same⟩ := colons
      rw [same]
      exact stops_cons rfl
  rw [readGroup, readNumber_none stops]
  rfl

theorem separator_ends {p : Text} (ends : Ends p) (first : Bool) :
    readSeparator 58 first readGroup p = none := by
  cases first with
  | true => exact readGroup_ends ends
  | false =>
    refine readSeparator_none fun rest same => ?_
    cases ends with
    | inl empty =>
      rw [empty] at same
      cases same
    | inr colons =>
      obtain ⟨more, shape⟩ := colons
      rw [shape] at same
      rw [← (List.cons.inj same).2, readGroup, readNumber_none (stops_cons rfl)]
      rfl

/-- Without a dot no IPv4 address is read. -/
theorem separator_plain {p : Text} (plain : 46 ∉ p) (first : Bool) :
    readSeparator 58 first readIpv4 p = none := by
  cases first with
  | true => exact readIpv4_none plain
  | false =>
    refine readSeparator_none fun rest same => readIpv4_none fun dot => plain ?_
    rw [same]
    exact List.mem_cons_of_mem _ dot

theorem groupsText_stops {groups : List UInt16} {rest : Text} (ends : Ends rest) :
    Stops isHex (groupsText false groups ++ rest) := by
  cases groups with
  | nil =>
    cases ends with
    | inl empty =>
      rw [empty]
      intro b same
      cases same
    | inr colons =>
      obtain ⟨more, same⟩ := colons
      rw [same]
      exact stops_cons rfl
  | cons group groups => exact stops_cons rfl

theorem readGroups_text {groups : List UInt16} {rest : Text} {slots : Nat} (ends : Ends rest)
    (first : Bool) (fits : groups.length ≤ slots)
    (plain : 46 ∉ groupsText first groups ++ rest) :
    readGroups first slots (groupsText first groups ++ rest) = (groups, false, rest) := by
  induction groups generalizing first slots with
  | nil =>
    cases slots with
    | zero => rfl
    | succ slots =>
      have none : (if slots = 0 then none else readSeparator 58 first readIpv4
          (groupsText first [] ++ rest)) = none := by
        split
        · rfl
        · exact separator_plain plain first
      rw [readGroups, none]
      dsimp only
      have stop : readSeparator 58 first readGroup (groupsText first [] ++ rest) = .none :=
        separator_ends ends first
      rw [stop]
      rfl
  | cons group groups ih =>
    cases slots with
    | zero => cases fits
    | succ slots =>
      have none : (if slots = 0 then none else readSeparator 58 first readIpv4
          (groupsText first (group :: groups) ++ rest)) = none := by
        split
        · rfl
        · exact separator_plain plain first
      have shape : groupsText first (group :: groups) ++ rest =
          (if first then [] else [58]) ++ (hexText group.toNat ++ (groupsText false groups ++ rest)) := by
        rw [groupsText]
        simp only [List.append_assoc]
      have one : readSeparator 58 first readGroup (groupsText first (group :: groups) ++ rest) =
          some (group, groupsText false groups ++ rest) := by
        rw [shape]
        have read := readGroup_text group (@groupsText_stops groups rest ends)
        cases first with
        | true => exact read
        | false => exact read
      have later : 46 ∉ groupsText false groups ++ rest := by
        intro dot
        refine plain ?_
        rw [shape]
        exact List.mem_append_right _ (List.mem_append_right _ dot)
      rw [readGroups, none]
      dsimp only
      rw [one]
      dsimp only
      rw [ih false (Nat.le_of_succ_le_succ fits) later]

/-! ## Runs of zeros -/

/-- The span lies in the groups and holds zeros only. -/
def ZeroRun (groups : List UInt16) (span : Span) : Prop :=
  span.start + span.len ≤ groups.length ∧
    ∀ k, span.start ≤ k → k < span.start + span.len → groups[k]? = some 0

theorem zeroRun_longer {groups : List UInt16} {a b : Span} (first : ZeroRun groups a)
    (second : ZeroRun groups b) : ZeroRun groups (if a.len < b.len then b else a) := by
  split
  · exact second
  · exact first

theorem zeroSpan_run {groups rest : List UInt16} {i : Nat} {longest current : Span}
    (place : groups.drop i = rest) (inside : i ≤ groups.length) (best : ZeroRun groups longest)
    (last : current.len = 0 ∨ current.start + current.len = i ∧ ZeroRun groups current) :
    ZeroRun groups (zeroSpan i longest current rest) := by
  induction rest generalizing i longest current with
  | nil => exact best
  | cons group rest ih =>
    have here : groups[i]? = some group := by
      rw [← List.head?_drop, place]
      rfl
    have later : groups.drop (i + 1) = rest := by
      rw [← List.tail_drop, place]
      rfl
    have more : i < groups.length := (List.getElem?_eq_some_iff.mp here).1
    rw [zeroSpan]
    split
    · rename_i zero
      rw [zero] at here
      have next : ZeroRun groups
          ⟨if current.len = 0 then i else current.start, current.len + 1⟩ ∧
          (if current.len = 0 then i else current.start) + (current.len + 1) = i + 1 := by
        cases last with
        | inl empty =>
          rw [if_pos empty, empty]
          refine ⟨⟨more, fun k low high => ?_⟩, rfl⟩
          have same : k = i := by
            dsimp only at low high
            omega
          rw [same]
          exact here
        | inr run =>
          obtain ⟨reach, _, zeros⟩ := run
          by_cases empty : current.len = 0
          · rw [if_pos empty, empty]
            refine ⟨⟨more, fun k low high => ?_⟩, rfl⟩
            have same : k = i := by
              dsimp only at low high
              omega
            rw [same]
            exact here
          · rw [if_neg empty]
            refine ⟨⟨by dsimp only; omega, fun k low high => ?_⟩, by omega⟩
            dsimp only at low high
            by_cases same : k = i
            · rw [same]
              exact here
            · exact zeros k low (by omega)
      exact ih later more (zeroRun_longer best next.1) (.inr ⟨next.2, next.1⟩)
    · exact ih later more best (.inl rfl)

theorem split_zeros {groups : List UInt16} {span : Span} (run : ZeroRun groups span) :
    groups = groups.take span.start ++ List.replicate span.len 0 ++
      groups.drop (span.start + span.len) := by
  have zeros : (groups.drop span.start).take span.len = List.replicate span.len 0 := by
    refine List.ext_getElem? fun k => ?_
    rw [List.getElem?_take, List.getElem?_drop, List.getElem?_replicate]
    split
    · exact run.2 (span.start + k) (by omega) (by omega)
    · rfl
  rw [← zeros, List.append_assoc, ← List.drop_drop, List.take_append_drop, List.take_append_drop]

/-! ## Round trip -/

theorem groupsText_mem {first : Bool} {groups : List UInt16} {b : UInt8}
    (member : b ∈ groupsText first groups) : b = 58 ∨ ∃ n, b ∈ hexText n := by
  induction groups generalizing first with
  | nil => cases member
  | cons group groups ih =>
    rw [groupsText] at member
    cases List.mem_append.mp member with
    | inl front =>
      cases List.mem_append.mp front with
      | inl colon =>
        cases first with
        | true => cases colon
        | false => exact .inl (List.mem_singleton.mp colon)
      | inr digit => exact .inr ⟨group.toNat, digit⟩
    | inr later => exact ih later

theorem groupsText_bytes {first : Bool} {groups : List UInt16} {b : UInt8}
    (member : b ∈ groupsText first groups) : b = 58 ∨ isHex b = true := by
  obtain colon | ⟨n, digit⟩ := groupsText_mem member
  · exact .inl colon
  · exact .inr ((hexText_spec n).2.1 b digit)

theorem groupsText_plain (first : Bool) (groups : List UInt16) : 46 ∉ groupsText first groups := by
  intro dot
  cases groupsText_bytes dot with
  | inl colon => cases colon
  | inr hex => cases hex

theorem parseGroups_whole {groups : List UInt16} (eight : groups.length = 8) :
    parseGroups (groupsText true groups) = some groups := by
  have read := @readGroups_text groups [] 8 (.inl rfl) true (by omega) (by
    rw [List.append_nil]
    exact groupsText_plain true groups)
  rw [List.append_nil] at read
  unfold parseGroups
  rw [read]
  dsimp only
  rw [if_pos eight, if_pos rfl]

theorem parseGroups_parts {s p : Text} {head tail : List UInt16} {dotted : Bool}
    (front : readGroups true 8 s = (head, false, 58 :: 58 :: p)) (short : head.length ≠ 8)
    (back : readGroups true (7 - head.length) p = (tail, dotted, [])) :
    parseGroups s = some (head ++ List.replicate (8 - head.length - tail.length) 0 ++ tail) := by
  unfold parseGroups
  rw [front]
  dsimp only
  rw [if_neg short, if_neg Bool.false_ne_true]
  change (if (readGroups true (7 - head.length) p).2.2 = [] then
    some (head ++ List.replicate (8 - head.length - (readGroups true (7 - head.length) p).1.length)
      0 ++ (readGroups true (7 - head.length) p).1) else none) = _
  rw [back]
  exact if_pos rfl

theorem parseGroups_split {front back : List UInt16} (short : front.length + back.length ≤ 7) :
    parseGroups (groupsText true front ++ [58, 58] ++ groupsText true back) =
      some (front ++ List.replicate (8 - front.length - back.length) 0 ++ back) := by
  have plain : 46 ∉ groupsText true front ++ 58 :: 58 :: groupsText true back := by
    intro dot
    cases List.mem_append.mp dot with
    | inl early => exact groupsText_plain true front early
    | inr late =>
      simp only [List.mem_cons] at late
      rcases late with colon | colon | late
      · cases colon
      · cases colon
      · exact groupsText_plain true back late
  have readFront := @readGroups_text front _ 8 (.inr ⟨_, rfl⟩) true (by omega) plain
  have readBack := @readGroups_text back [] (7 - front.length) (.inl rfl) true (by omega) (by
    rw [List.append_nil]
    exact groupsText_plain true back)
  rw [List.append_nil] at readBack
  have shape : groupsText true front ++ [58, 58] ++ groupsText true back =
      groupsText true front ++ 58 :: 58 :: groupsText true back := by
    rw [List.append_assoc]
    rfl
  rw [shape]
  exact parseGroups_parts readFront (by omega) readBack

theorem readIpv4_stops {p : Text} (stops : Stops isDigit p) : readIpv4 p = none := by
  have none : readSeparator 46 true readOctet p = .none := by
    change readOctet p = .none
    rw [readOctet, readNumber_none stops]
    rfl
  rw [readIpv4, none]
  rfl

theorem groupOf_octets (high low : UInt16) :
    groupOf (octetsOf high low).a (octetsOf high low).b = high ∧
      groupOf (octetsOf high low).c (octetsOf high low).d = low := by
  have whole (group : UInt16) :
      groupOf (UInt8.ofNat (group.toNat / 256)) (UInt8.ofNat (group.toNat % 256)) = group := by
    have small : group.toNat < 65536 := group.toNat_lt
    apply UInt16.toNat_inj.mp
    rw [groupOf, UInt16.toNat_ofNat', UInt8.toNat_ofNat', UInt8.toNat_ofNat']
    omega
  exact ⟨whole high, whole low⟩

theorem parseGroups_mapped (high low : UInt16) :
    parseGroups ([58, 58, 102, 102, 102, 102, 58] ++ dotted (octetsOf high low)) =
      some [0, 0, 0, 0, 0, 65535, high, low] := by
  have front : readGroups true 8 ([58, 58, 102, 102, 102, 102, 58] ++ dotted (octetsOf high low)) =
      ([], false, [58, 58, 102, 102, 102, 102, 58] ++ dotted (octetsOf high low)) := by
    have noAddress : readSeparator 58 true readIpv4
        ([58, 58, 102, 102, 102, 102, 58] ++ dotted (octetsOf high low)) = none :=
      readIpv4_stops (stops_cons rfl)
    have noGroup : readSeparator 58 true readGroup
        ([58, 58, 102, 102, 102, 102, 58] ++ dotted (octetsOf high low)) = none :=
      readGroup_ends (.inr ⟨102 :: 102 :: 102 :: 102 :: 58 :: dotted (octetsOf high low), rfl⟩)
    rw [readGroups, if_neg (by omega), noAddress]
    dsimp only
    rw [noGroup]
  have back : readGroups true 7 (102 :: 102 :: 102 :: 102 :: 58 :: dotted (octetsOf high low)) =
      ([65535, high, low], true, []) := by
    have noAddress : readSeparator 58 true readIpv4
        (102 :: 102 :: 102 :: 102 :: 58 :: dotted (octetsOf high low)) = none :=
      readIpv4_stops (stops_cons rfl)
    have group : readSeparator 58 true readGroup
        (102 :: 102 :: 102 :: 102 :: 58 :: dotted (octetsOf high low)) =
          some (65535, 58 :: dotted (octetsOf high low)) := by
      have digits (b : UInt8) (member : b ∈ [102, 102, 102, 102]) : isHex b = true := by
        simp only [List.mem_cons, List.not_mem_nil, or_false, or_self] at member
        rw [member]
        rfl
      have read := @readNumber_text isHex hexValue 4 65536 true [102, 102, 102, 102]
        (58 :: dotted (octetsOf high low)) digits (stops_cons rfl) (by decide) (by decide)
        (.inl rfl) (by decide)
      exact congrArg (Option.map (Prod.map UInt16.ofNat id)) read
    have address : readSeparator 58 false readIpv4 (58 :: dotted (octetsOf high low)) =
        some (octetsOf high low, []) := by
      have read := @readIpv4_dotted (octetsOf high low) [] (fun _ found => by cases found)
      rw [List.append_nil] at read
      exact read
    have octets := groupOf_octets high low
    rw [readGroups, if_neg (by omega), noAddress]
    dsimp only
    rw [group]
    dsimp only
    rw [readGroups, if_neg (by omega), address]
    dsimp only
    rw [octets.1, octets.2]
  exact parseGroups_parts front (by decide) back

theorem parse_render (v6 : Ipv6) : parse (render v6) = some v6 := by
  rw [parse_iff]
  have eight := v6.eight
  unfold render toIpv4Mapped
  split
  · rename_i v4 mapped
    split at mapped
    · rename_i high low shape
      cases mapped
      rw [shape]
      exact parseGroups_mapped high low
    · cases mapped
  · dsimp only
    split
    · rename_i long
      have run := @zeroSpan_run v6.groups v6.groups 0 ⟨0, 0⟩ ⟨0, 0⟩ rfl (Nat.zero_le _)
        ⟨Nat.zero_le _, fun k low high => by dsimp only at low high; omega⟩ (.inl rfl)
      revert long run
      generalize zeroSpan 0 ⟨0, 0⟩ ⟨0, 0⟩ v6.groups = span
      intro long run
      have reach := run.1
      have front : (v6.groups.take span.start).length = span.start := by
        rw [List.length_take]
        omega
      have back : (v6.groups.drop (span.start + span.len)).length = 8 - (span.start + span.len) := by
        rw [List.length_drop, eight]
      have read := @parseGroups_split (v6.groups.take span.start)
        (v6.groups.drop (span.start + span.len)) (by omega)
      have zeros : 8 - span.start - (8 - (span.start + span.len)) = span.len := by omega
      rw [read, front, back, zeros, ← split_zeros run]
    · exact parseGroups_whole eight

/-! ## The grammar -/

/-- One to four hexadecimal digits. -/
def HexGroup (s : Text) (group : UInt16) : Prop :=
  s ≠ [] ∧ s.length ≤ 4 ∧ (∀ b ∈ s, isHex b = true) ∧ group = UInt16.ofNat (hexValue s)

def sepText (first : Bool) : Text := if first then [] else [58]

/-- Groups with colons between them, and maybe a dotted address at their end. -/
inductive Groups : Bool → List UInt16 → Bool → Text → Prop
  | nil (first : Bool) : Groups first [] false []
  | group {first dotted : Bool} {s t : Text} {group : UInt16} {groups : List UInt16} :
      HexGroup s group → Groups false groups dotted t →
      Groups first (group :: groups) dotted (sepText first ++ s ++ t)
  | ipv4 {first : Bool} (v4 : Ipv4) :
      Groups first [groupOf v4.a v4.b, groupOf v4.c v4.d] true (sepText first ++ dotted v4)

/-- Eight groups, or fewer with `::` for the zeros that are left out. -/
inductive Ipv6Text : Text → List UInt16 → Prop
  | whole {s : Text} {groups : List UInt16} {dotted : Bool} :
      Groups true groups dotted s → groups.length = 8 → Ipv6Text s groups
  | short {s t : Text} {head tail : List UInt16} {dotted : Bool} :
      Groups true head false s → Groups true tail dotted t → head.length + tail.length ≤ 7 →
      Ipv6Text (s ++ 58 :: 58 :: t)
        (head ++ List.replicate (8 - head.length - tail.length) 0 ++ tail)

theorem readOctet_inv {p rest : Text} {n : UInt8} (read : readOctet p = some (n, rest)) :
    p = decimal n.toNat ++ rest := by
  obtain ⟨⟨m, after⟩, number, same⟩ := Option.map_eq_some_iff.mp read
  cases same
  obtain ⟨digits, shape, all, some_, _, rfl, small, leading⟩ := readNumber_inv number
  have canonical : Canonical digits := by
    refine ⟨all, some_, fun zero => ?_⟩
    have one := leading rfl zero
    cases digits with
    | nil => cases one
    | cons b tail =>
      rw [List.length_eq_zero_iff.mp (Nat.succ.inj one), Option.some.inj zero]
  rw [UInt8.toNat_ofNat', Nat.mod_eq_of_lt small, decimal_value canonical]
  exact shape

theorem readSeparator_inv {α : Type} {sep : UInt8} {first : Bool}
    {inner : Text → Option (α × Text)} {p : Text} {found : α × Text}
    (read : readSeparator sep first inner p = some found) :
    ∃ q, p = (if first then [] else [sep]) ++ q ∧ inner q = some found := by
  unfold readSeparator at read
  cases first with
  | true => exact ⟨p, rfl, read⟩
  | false =>
    rw [if_neg Bool.false_ne_true] at read
    split at read
    · split at read
      · rename_i b rest same
        rw [same]
        exact ⟨rest, rfl, read⟩
      · cases read
    · cases read

theorem readIpv4_inv {p rest : Text} {v4 : Ipv4} (read : readIpv4 p = some (v4, rest)) :
    p = dotted v4 ++ rest := by
  unfold readIpv4 at read
  obtain ⟨⟨a, p₁⟩, first, read⟩ := Option.bind_eq_some_iff.mp read
  obtain ⟨⟨b, p₂⟩, second, read⟩ := Option.bind_eq_some_iff.mp read
  obtain ⟨⟨c, p₃⟩, third, read⟩ := Option.bind_eq_some_iff.mp read
  obtain ⟨⟨d, p₄⟩, fourth, read⟩ := Option.bind_eq_some_iff.mp read
  cases read
  obtain ⟨q₂, shape₂, octet₂⟩ := readSeparator_inv second
  obtain ⟨q₃, shape₃, octet₃⟩ := readSeparator_inv third
  obtain ⟨q₄, shape₄, octet₄⟩ := readSeparator_inv fourth
  rw [readOctet_inv first, shape₂, readOctet_inv octet₂, shape₃, readOctet_inv octet₃, shape₄,
    readOctet_inv octet₄, dotted]
  simp only [if_neg Bool.false_ne_true, List.append_assoc, List.cons_append, List.nil_append]

theorem readGroup_inv {p rest : Text} {group : UInt16} (read : readGroup p = some (group, rest)) :
    ∃ s, p = s ++ rest ∧ HexGroup s group := by
  obtain ⟨⟨n, after⟩, number, same⟩ := Option.map_eq_some_iff.mp read
  cases same
  obtain ⟨digits, shape, all, some_, short, rfl, _⟩ := readNumber_inv number
  exact ⟨digits, shape, some_, short, all, rfl⟩

theorem readGroups_inv {first : Bool} {slots : Nat} {p : Text} :
    ∃ s, p = s ++ (readGroups first slots p).2.2 ∧
      Groups first (readGroups first slots p).1 (readGroups first slots p).2.1 s := by
  induction slots generalizing first p with
  | zero => exact ⟨[], rfl, .nil first⟩
  | succ slots ih =>
    rw [readGroups]
    split
    · rename_i v4 rest found
      split at found
      · cases found
      · obtain ⟨q, shape, address⟩ := readSeparator_inv found
        refine ⟨sepText first ++ dotted v4, ?_, .ipv4 v4⟩
        rw [shape, readIpv4_inv address, List.append_assoc]
        rfl
    · split
      · rename_i group rest found
        obtain ⟨q, shape, read⟩ := readSeparator_inv found
        obtain ⟨s, front, hex⟩ := readGroup_inv read
        obtain ⟨t, back, groups⟩ := @ih false rest
        refine ⟨sepText first ++ s ++ t, ?_, .group hex groups⟩
        dsimp only
        rw [List.append_assoc, ← back, List.append_assoc, ← front]
        exact shape
      · exact ⟨[], rfl, .nil first⟩

theorem parse_text {s : Text} {v6 : Ipv6} (parsed : parse s = some v6) : Ipv6Text s v6.groups := by
  have found := parse_iff.mp parsed
  obtain ⟨u, shape, front⟩ := @readGroups_inv true 8 s
  have small := readGroups_length true 8 s
  unfold parseGroups at found
  revert found shape front small
  cases readGroups true 8 s with
  | mk head after =>
    cases after with
    | mk ends rest =>
      intro found shape front small
      dsimp only at found shape front small
      split at found
      · rename_i eight
        split at found
        · rename_i empty
          rw [← Option.some.inj found, shape, empty, List.append_nil]
          exact .whole front eight
        · cases found
      · split at found
        · cases found
        · rename_i notAll plain
          rw [Bool.not_eq_true] at plain
          rw [plain] at front
          split at found
          · rename_i p
            obtain ⟨t, back, tail⟩ := @readGroups_inv true (7 - head.length) p
            have fits := readGroups_length true (7 - head.length) p
            split at found
            · rename_i empty
              rw [empty, List.append_nil] at back
              rw [← back] at tail
              rw [← Option.some.inj found, shape]
              exact .short front tail (by omega)
            · cases found
          · cases found

end FerroEngine.AddressTextLaws
