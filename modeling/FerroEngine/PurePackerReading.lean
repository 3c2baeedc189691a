import FerroEngine.PurePackerArithmetic

set_option autoImplicit false

/-! # What the client's decoder reads

The format of one value on the wire, and that `unpack` reads exactly that.
-/

namespace FerroEngine.PurePackerReading

open MessagePack (bigEndian bigEndian_length)
open MessagePackReader (Bytes bigEndianValue bigEndianValue_lt signed)
open DecimalText PurePacker PurePackerArithmetic

/-! ## The format -/

/-- What follows a first byte. -/
inductive Shape where
  | value (v : PhpValue)
  | uint (width : Nat)
  | sint (width : Nat)
  | float (width : Nat) (float : Nat → PhpValue)
  | text (len : Nat)
  | textLen (width : Nat)
  | array (len : Nat)
  | arrayLen (width : Nat)
  | unknown

def shape (c : Nat) : Shape :=
  if c ≤ 0x7f then .value (.int c)
  else if 0xe0 ≤ c then .value (.int (c - 0x100))
  else if 0x90 ≤ c ∧ c ≤ 0x9f then .array (c % 16)
  else if 0xa0 ≤ c ∧ c ≤ 0xbf then .text (c % 32)
  else
    match c with
    | 0xc0 => .value .null
    | 0xc2 => .value (.bool false)
    | 0xc3 => .value (.bool true)
    | 0xcc => .uint 1
    | 0xcd => .uint 2
    | 0xce => .uint 4
    | 0xcf => .uint 8
    | 0xd0 => .sint 1
    | 0xd1 => .sint 2
    | 0xd2 => .sint 4
    | 0xd3 => .sint 8
    | 0xca => .float 4 .float32
    | 0xcb => .float 8 .float64
    | 0xd9 => .textLen 1
    | 0xda => .textLen 2
    | 0xdb => .textLen 4
    | 0xc4 => .textLen 1
    | 0xc5 => .textLen 2
    | 0xc6 => .textLen 4
    | 0xdc => .arrayLen 2
    | 0xdd => .arrayLen 4
    | _ => .unknown

/-- An unsigned number: an int when it fits, otherwise its decimal string. -/
def uintValue (n : Nat) : PhpValue :=
  if n < 2 ^ 63 then .int n else .str (decimal n)

mutual
/-- The bytes of one value. -/
inductive Wire : PhpValue → Bytes → Prop
  | value {c : UInt8} {v : PhpValue} : shape c.toNat = .value v → Wire v [c]
  | uint {c : UInt8} {width : Nat} {payload : Bytes} : shape c.toNat = .uint width →
      payload.length = width → Wire (uintValue (bigEndianValue payload)) (c :: payload)
  | sint {c : UInt8} {width : Nat} {payload : Bytes} : shape c.toNat = .sint width →
      payload.length = width → Wire (.int (signed width (bigEndianValue payload))) (c :: payload)
  | float {c : UInt8} {width : Nat} {float : Nat → PhpValue} {payload : Bytes} :
      shape c.toNat = .float width float → payload.length = width →
      Wire (float (bigEndianValue payload)) (c :: payload)
  | text {c : UInt8} {s : Bytes} : shape c.toNat = .text s.length → Wire (.str s) (c :: s)
  | textLen {c : UInt8} {width : Nat} {len s : Bytes} : shape c.toNat = .textLen width →
      len.length = width → bigEndianValue len = s.length → Wire (.str s) (c :: (len ++ s))
  | array {c : UInt8} {items : List PhpValue} {b : Bytes} :
      shape c.toNat = .array items.length → Wires items b → Wire (.array items) (c :: b)
  | arrayLen {c : UInt8} {width : Nat} {len b : Bytes} {items : List PhpValue} :
      shape c.toNat = .arrayLen width → len.length = width → bigEndianValue len = items.length →
      Wires items b → Wire (.array items) (c :: (len ++ b))

inductive Wires : List PhpValue → Bytes → Prop
  | nil : Wires [] []
  | cons {v : PhpValue} {items : List PhpValue} {b rest : Bytes} :
      Wire v b → Wires items rest → Wires (v :: items) (b ++ rest)
end

theorem Wire.pos {v : PhpValue} {b : Bytes} (wire : Wire v b) : 0 < b.length := by
  cases wire <;> simp

theorem Wires.length_le {items : List PhpValue} {b : Bytes} (wires : Wires items b) :
    items.length ≤ b.length := by
  induction items generalizing b with
  | nil => exact Nat.zero_le _
  | cons v items ih =>
    cases wires with
    | cons first rest =>
      have one := first.pos
      have more := ih rest
      rw [List.length_cons, List.length_append]
      omega

/-! ## Raw reads -/

/-- The bytes from an offset inside the buffer on. -/
def Rest (buf : Bytes) (offset : Nat) (rest : Bytes) : Prop :=
  offset ≤ buf.length ∧ buf.drop offset = rest

theorem slice_rest {buf s rest : Bytes} {offset : Nat} (here : Rest buf offset (s ++ rest)) :
    slice buf offset s.length = .ok (s, offset + s.length) ∧
      Rest buf (offset + s.length) rest := by
  obtain ⟨inside, whole⟩ := here
  have lengths := congrArg List.length whole
  rw [List.length_drop, List.length_append] at lengths
  have fits : ¬buf.length < offset + s.length := by omega
  refine ⟨?_, by omega, ?_⟩
  · rw [slice, need, if_neg fits]
    change Except.ok ((buf.drop offset).take s.length, offset + s.length) = _
    rw [whole, List.take_left]
  · rw [← List.drop_drop, whole, List.drop_left]

theorem slice_ok {buf s : Bytes} {offset len after : Nat}
    (taken : slice buf offset len = .ok (s, after)) :
    s.length = len ∧ after = offset + len ∧ after ≤ buf.length ∧
      buf.drop offset = s ++ buf.drop after := by
  rw [slice, need] at taken
  split at taken
  · cases taken
  · rename_i fits
    cases taken
    refine ⟨?_, rfl, by omega, ?_⟩
    · rw [List.length_take, List.length_drop]
      omega
    · rw [← List.drop_drop, List.take_append_drop]

/-- The decoder on a number whose bytes are there. -/
theorem be_uint {buf payload : Bytes} {offset width after : Nat}
    (widths : width = 1 ∨ width = 2 ∨ width = 4 ∨ width = 8)
    (taken : slice buf offset width = .ok (payload, after)) :
    be buf offset width false = .ok (uintValue (bigEndianValue payload), after) := by
  obtain ⟨sized, -⟩ := slice_ok taken
  have bound := bigEndianValue_lt payload
  rw [be, taken]
  change Except.ok _ = _
  dsimp only
  congr 1
  unfold uintValue
  rcases widths with rfl | rfl | rfl | rfl
  · rw [sized] at bound
    rw [if_pos (by omega), if_neg (by simp), if_pos (by omega)]
  · rw [sized] at bound
    rw [if_pos (by omega), if_neg (by simp), if_pos (by omega)]
  · rw [sized] at bound
    rw [if_pos (by omega), if_neg (by simp), if_pos (by omega)]
  · rw [if_neg (by omega), if_neg (by simp)]
    by_cases fits : bigEndianValue payload < 2 ^ 63
    · have same : signed 8 (bigEndianValue payload) = bigEndianValue payload := if_pos fits
      rw [same, if_pos (by omega), if_pos fits]
    · rw [sized] at bound
      have negative : signed 8 (bigEndianValue payload) =
          (bigEndianValue payload : Int) - 2 ^ 64 := if_neg fits
      rw [if_neg (by omega), if_neg fits, be64ToDec_eq]

theorem be_sint {buf payload : Bytes} {offset width after : Nat} (narrow : width ≤ 8)
    (taken : slice buf offset width = .ok (payload, after)) :
    be buf offset width true = .ok (.int (signed width (bigEndianValue payload)), after) := by
  rw [be, taken]
  change Except.ok _ = _
  dsimp only
  congr 1
  by_cases short : width < 8
  · rw [if_pos short, Nat.mul_comm, signed]
    by_cases low : bigEndianValue payload < 2 ^ (8 * width - 1)
    · rw [if_neg (by simpa using low), if_pos low]
    · rw [if_pos ⟨rfl, Nat.not_lt.mp low⟩, if_neg low]
  · have wide : width = 8 := by omega
    subst wide
    rw [if_neg short, if_pos rfl]

/-! ## The decoder by shapes -/

/-- What `unpack` does behind its first byte. -/
def unpackShape (unpack : Nat → Except CodecError (PhpValue × Nat)) (buf : Bytes)
    (offset c : Nat) : Shape → Except CodecError (PhpValue × Nat)
  | .value v => .ok (v, offset)
  | .uint width => be buf offset width false
  | .sint width => be buf offset width true
  | .float width float => unpackFloat buf offset width float
  | .text len => take buf offset len
  | .textLen width =>
    (slice buf offset width).bind fun p => take buf p.2 (bigEndianValue p.1)
  | .array len => unpackArray unpack buf offset len
  | .arrayLen width =>
    (slice buf offset width).bind fun p => unpackArray unpack buf p.2 (bigEndianValue p.1)
  | .unknown => .error (.unknownMarker c)

theorem readByte_eq_be (buf : Bytes) (offset : Nat) :
    ((readByte buf offset).map fun p => (PhpValue.int p.1, p.2)) = be buf offset 1 false := by
  unfold readByte be
  cases slice buf offset 1 with
  | error e => rfl
  | ok p => rfl

theorem signed8_eq_be (buf : Bytes) (offset : Nat) : signed8 buf offset = be buf offset 1 true := by
  unfold signed8 readByte
  cases taken : slice buf offset 1 with
  | error e =>
    rw [be, taken]
    rfl
  | ok p =>
    rw [be_sint (by omega) taken]
    rfl

theorem readByte_len {α : Type} (buf : Bytes) (offset : Nat)
    (next : Nat → Nat → Except CodecError α) :
    ((readByte buf offset).bind fun p => next p.2 p.1) =
      (slice buf offset 1).bind fun p => next p.2 (bigEndianValue p.1) := by
  unfold readByte
  cases slice buf offset 1 with
  | error e => rfl
  | ok p => rfl

theorem be_len {α : Type} (buf : Bytes) (offset : Nat) {width : Nat}
    (widths : width = 2 ∨ width = 4) (next : Nat → Nat → Except CodecError α) :
    ((be buf offset width false).bind fun p => next p.2 (intOf p.1)) =
      (slice buf offset width).bind fun p => next p.2 (bigEndianValue p.1) := by
  cases taken : slice buf offset width with
  | error e =>
    rw [be, taken]
    rfl
  | ok p =>
    have sized := (slice_ok taken).1
    have bound := bigEndianValue_lt p.1
    rw [be_uint (by omega) taken]
    have fits : bigEndianValue p.1 < 2 ^ 63 := by
      rw [sized] at bound
      rcases widths with rfl | rfl <;> omega
    change next p.2 (intOf (uintValue (bigEndianValue p.1))) = next p.2 (bigEndianValue p.1)
    rw [uintValue, if_pos fits]
    rfl

theorem unpackBody_eq (unpack : Nat → Except CodecError (PhpValue × Nat)) (buf : Bytes)
    (offset : Nat) :
    unpackBody unpack buf offset =
      (readByte buf offset).bind fun p => unpackShape unpack buf p.2 p.1 (shape p.1) := by
  unfold unpackBody
  congr 1
  funext ⟨c, after⟩
  dsimp only
  unfold shape
  split_ifs
  · rfl
  · rfl
  · rfl
  · rfl
  · split
    · rfl
    · rfl
    · rfl
    · exact readByte_eq_be buf after
    · rfl
    · rfl
    · rfl
    · exact signed8_eq_be buf after
    · rfl
    · rfl
    · rfl
    · rfl
    · rfl
    · exact readByte_len buf after (take buf)
    · exact be_len buf after (.inl rfl) (take buf)
    · exact be_len buf after (.inr rfl) (take buf)
    · exact readByte_len buf after (take buf)
    · exact be_len buf after (.inl rfl) (take buf)
    · exact be_len buf after (.inr rfl) (take buf)
    · exact be_len buf after (.inl rfl) (unpackArray unpack buf)
    · exact be_len buf after (.inr rfl) (unpackArray unpack buf)
    · first
      | rfl
      | split <;> first | rfl | (exfalso; simp_all)

theorem shape_uint {c width : Nat} (uint : shape c = .uint width) :
    width = 1 ∨ width = 2 ∨ width = 4 ∨ width = 8 := by
  unfold shape at uint
  split_ifs at uint
  split at uint <;> cases uint <;> omega

theorem shape_sint {c width : Nat} (sint : shape c = .sint width) : width ≤ 8 := by
  unfold shape at sint
  split_ifs at sint
  split at sint <;> cases sint <;> omega

/-! ## Soundness -/

/-- From one offset to the other the buffer holds these bytes. -/
structure Spans (buf : Bytes) (offset after : Nat) (b : Bytes) : Prop where
  inside : after ≤ buf.length
  length : after = offset + b.length
  bytes : buf.drop offset = b ++ buf.drop after

theorem Spans.trans {buf b c : Bytes} {offset mid after : Nat} (first : Spans buf offset mid b)
    (second : Spans buf mid after c) : Spans buf offset after (b ++ c) := by
  refine ⟨second.inside, ?_, ?_⟩
  · rw [second.length, first.length, List.length_append]
    omega
  · rw [first.bytes, second.bytes, List.append_assoc]

theorem spans_slice {buf s : Bytes} {offset len after : Nat}
    (taken : slice buf offset len = .ok (s, after)) :
    Spans buf offset after s ∧ s.length = len := by
  obtain ⟨sized, moved, inside, parts⟩ := slice_ok taken
  exact ⟨⟨inside, by rw [moved, sized], parts⟩, sized⟩

theorem map_ok {α β ε : Type} {x : Except ε α} {f : α → β} {b : β} (ok : x.map f = .ok b) :
    ∃ a, x = .ok a ∧ f a = b := by
  cases x with
  | error e => cases ok
  | ok a => exact ⟨a, rfl, Except.ok.inj ok⟩

theorem bind_ok {α β ε : Type} {x : Except ε α} {f : α → Except ε β} {b : β}
    (ok : x.bind f = .ok b) : ∃ a, x = .ok a ∧ f a = .ok b := by
  cases x with
  | error e => cases ok
  | ok a => exact ⟨a, rfl, ok⟩

/-- A decoder that reads whole values only. -/
def SoundAt (buf : Bytes) (unpack : Nat → Except CodecError (PhpValue × Nat)) : Prop :=
  ∀ {offset after : Nat} {v : PhpValue}, unpack offset = .ok (v, after) →
    ∃ b, Wire v b ∧ Spans buf offset after b

theorem unpackItems_sound {buf : Bytes} {unpack : Nat → Except CodecError (PhpValue × Nat)}
    (sound : SoundAt buf unpack) {n offset after : Nat} {items : List PhpValue}
    (inside : offset ≤ buf.length) (done : unpackItems unpack n offset = .ok (items, after)) :
    items.length = n ∧ ∃ b, Wires items b ∧ Spans buf offset after b := by
  induction n generalizing offset items with
  | zero =>
    cases done
    exact ⟨rfl, [], .nil, inside, rfl, rfl⟩
  | succ n ih =>
    rw [unpackItems] at done
    obtain ⟨⟨v, mid⟩, first, later⟩ := bind_ok done
    obtain ⟨⟨rest, last⟩, more, same⟩ := map_ok later
    cases same
    obtain ⟨b, wire, span⟩ := sound first
    obtain ⟨counted, c, wires, span'⟩ := ih span.inside more
    exact ⟨congrArg (· + 1) counted, b ++ c, .cons wire wires, span.trans span'⟩

theorem unpackArray_sound {buf : Bytes} {unpack : Nat → Except CodecError (PhpValue × Nat)}
    (sound : SoundAt buf unpack) {n offset after : Nat} {v : PhpValue}
    (inside : offset ≤ buf.length) (done : unpackArray unpack buf offset n = .ok (v, after)) :
    ∃ items b, v = .array items ∧ items.length = n ∧ Wires items b ∧
      Spans buf offset after b := by
  unfold unpackArray at done
  split at done
  · cases done
  · obtain ⟨⟨items, last⟩, read, same⟩ := map_ok done
    cases same
    obtain ⟨counted, b, wires, span⟩ := unpackItems_sound sound inside read
    exact ⟨items, b, rfl, counted, wires, span⟩

theorem take_ok {buf : Bytes} {offset len after : Nat} {v : PhpValue}
    (done : take buf offset len = .ok (v, after)) :
    ∃ s, v = .str s ∧ s.length = len ∧ Spans buf offset after s := by
  obtain ⟨⟨s, last⟩, taken, same⟩ := map_ok done
  cases same
  obtain ⟨span, sized⟩ := spans_slice taken
  exact ⟨s, rfl, sized, span⟩

/-- Behind the first byte. -/
theorem unpackShape_sound {buf : Bytes} {unpack : Nat → Except CodecError (PhpValue × Nat)}
    (sound : SoundAt buf unpack) {offset after : Nat} {c : UInt8} {v : PhpValue}
    (inside : offset ≤ buf.length)
    (done : unpackShape unpack buf offset c.toNat (shape c.toNat) = .ok (v, after)) :
    ∃ b, Wire v (c :: b) ∧ Spans buf offset after b := by
  cases kind : shape c.toNat with
  | value w =>
    rw [kind] at done
    cases done
    exact ⟨[], .value kind, inside, rfl, rfl⟩
  | uint width =>
    rw [kind, unpackShape] at done
    obtain ⟨⟨payload, last⟩, taken, -⟩ := map_ok done
    rw [be_uint (shape_uint kind) taken] at done
    cases done
    obtain ⟨span, sized⟩ := spans_slice taken
    exact ⟨payload, .uint kind sized, span⟩
  | sint width =>
    rw [kind, unpackShape] at done
    obtain ⟨⟨payload, last⟩, taken, -⟩ := map_ok done
    rw [be_sint (shape_sint kind) taken] at done
    cases done
    obtain ⟨span, sized⟩ := spans_slice taken
    exact ⟨payload, .sint kind sized, span⟩
  | float width float =>
    rw [kind, unpackShape] at done
    obtain ⟨⟨payload, last⟩, taken, same⟩ := map_ok done
    cases same
    obtain ⟨span, sized⟩ := spans_slice taken
    exact ⟨payload, .float kind sized, span⟩
  | text len =>
    rw [kind, unpackShape] at done
    obtain ⟨s, rfl, sized, span⟩ := take_ok done
    exact ⟨s, .text (sized ▸ kind), span⟩
  | textLen width =>
    rw [kind, unpackShape] at done
    obtain ⟨⟨len, mid⟩, taken, rest⟩ := bind_ok done
    obtain ⟨span, sized⟩ := spans_slice taken
    obtain ⟨s, rfl, counted, span'⟩ := take_ok rest
    exact ⟨len ++ s, .textLen kind sized counted.symm, span.trans span'⟩
  | array len =>
    rw [kind, unpackShape] at done
    obtain ⟨items, b, rfl, counted, wires, span⟩ := unpackArray_sound sound inside done
    exact ⟨b, .array (counted ▸ kind) wires, span⟩
  | arrayLen width =>
    rw [kind, unpackShape] at done
    obtain ⟨⟨len, mid⟩, taken, rest⟩ := bind_ok done
    obtain ⟨span, sized⟩ := spans_slice taken
    obtain ⟨items, b, rfl, counted, wires, span'⟩ := unpackArray_sound sound span.inside rest
    exact ⟨len ++ b, .arrayLen kind sized counted.symm wires, span.trans span'⟩
  | unknown =>
    rw [kind] at done
    cases done

theorem readByte_ok {buf : Bytes} {offset after c : Nat}
    (read : readByte buf offset = .ok (c, after)) :
    ∃ b : UInt8, b.toNat = c ∧ Spans buf offset after [b] := by
  obtain ⟨⟨s, last⟩, taken, same⟩ := map_ok read
  cases same
  obtain ⟨span, sized⟩ := spans_slice taken
  obtain ⟨b, rfl⟩ := List.length_eq_one_iff.mp sized
  refine ⟨b, ?_, span⟩
  simp [bigEndianValue]

theorem unpackWithin_sound (fuel : Nat) (buf : Bytes) : SoundAt buf (unpackWithin fuel buf) := by
  induction fuel with
  | zero =>
    intro offset after v done
    cases done
  | succ fuel ih =>
    intro offset after v done
    rw [unpackWithin, unpackBody_eq] at done
    obtain ⟨⟨c, mid⟩, read, rest⟩ := bind_ok done
    obtain ⟨first, rfl, span⟩ := readByte_ok read
    obtain ⟨b, wire, span'⟩ := unpackShape_sound ih span.inside rest
    exact ⟨first :: b, wire, span.trans span'⟩

/-! ## Completeness -/

/-- A decoder that reads every value of the given size. -/
def CompleteFor (buf : Bytes) (unpack : Nat → Except CodecError (PhpValue × Nat)) (size : Nat) :
    Prop :=
  ∀ {v : PhpValue} {b rest : Bytes} {offset : Nat}, Wire v b → b.length ≤ size →
    Rest buf offset (b ++ rest) → unpack offset = .ok (v, offset + b.length)

theorem Rest.inside {buf rest : Bytes} {offset : Nat} (here : Rest buf offset rest) :
    buf.length = offset + rest.length := by
  obtain ⟨inside, whole⟩ := here
  have lengths := congrArg List.length whole
  rw [List.length_drop] at lengths
  omega

theorem unpackItems_complete {buf : Bytes} {unpack : Nat → Except CodecError (PhpValue × Nat)}
    {size : Nat} (complete : CompleteFor buf unpack size) {items : List PhpValue}
    {b rest : Bytes} {offset : Nat} (wires : Wires items b) (small : b.length ≤ size)
    (here : Rest buf offset (b ++ rest)) :
    unpackItems unpack items.length offset = .ok (items, offset + b.length) := by
  induction items generalizing b offset with
  | nil =>
    cases wires
    rfl
  | cons v items ih =>
    cases wires with
    | @cons _ _ first later wire wires =>
      rw [List.append_assoc] at here
      rw [List.length_append] at small
      have one := complete wire (by omega) here
      have more := ih wires (by omega) (slice_rest here).2
      rw [List.length_cons, unpackItems, one]
      change ((unpackItems unpack items.length (offset + first.length)).map _) = _
      rw [more, List.length_append, ← Nat.add_assoc]
      rfl

theorem unpackArray_complete {buf : Bytes} {unpack : Nat → Except CodecError (PhpValue × Nat)}
    {size : Nat} (complete : CompleteFor buf unpack size) {items : List PhpValue}
    {b rest : Bytes} {offset : Nat} (wires : Wires items b) (small : b.length ≤ size)
    (here : Rest buf offset (b ++ rest)) :
    unpackArray unpack buf offset items.length = .ok (.array items, offset + b.length) := by
  have total := here.inside
  have count := wires.length_le
  rw [List.length_append] at total
  rw [unpackArray, if_neg (by omega), unpackItems_complete complete wires small here]
  rfl

theorem unpackShape_complete {buf : Bytes} {unpack : Nat → Except CodecError (PhpValue × Nat)}
    {size : Nat} (complete : CompleteFor buf unpack size) {v : PhpValue} {c : UInt8}
    {b rest : Bytes} {offset : Nat} (wire : Wire v (c :: b)) (small : b.length ≤ size)
    (here : Rest buf offset (b ++ rest)) :
    unpackShape unpack buf offset c.toNat (shape c.toNat) = .ok (v, offset + b.length) := by
  cases wire with
  | value kind =>
    rw [kind]
    rfl
  | uint kind sized =>
    have taken := (slice_rest here).1
    rw [sized] at taken ⊢
    rw [kind, unpackShape, be_uint (shape_uint kind) taken]
  | sint kind sized =>
    have taken := (slice_rest here).1
    rw [sized] at taken ⊢
    rw [kind, unpackShape, be_sint (shape_sint kind) taken]
  | float kind sized =>
    have taken := (slice_rest here).1
    rw [sized] at taken ⊢
    rw [kind, unpackShape, unpackFloat, taken]
    rfl
  | text kind =>
    rw [kind, unpackShape, take, (slice_rest here).1]
    rfl
  | textLen kind sized counted =>
    rw [List.append_assoc] at here
    obtain ⟨taken, later⟩ := slice_rest here
    have body := (slice_rest later).1
    rw [sized] at taken
    rw [kind, unpackShape, taken]
    change take buf _ (bigEndianValue _) = _
    rw [counted, ← sized, take, body, List.length_append, ← Nat.add_assoc]
    rfl
  | array kind wires =>
    rw [kind]
    exact unpackArray_complete complete wires small here
  | arrayLen kind sized counted wires =>
    rw [List.append_assoc] at here
    rw [List.length_append] at small
    obtain ⟨taken, later⟩ := slice_rest here
    have body := unpackArray_complete complete wires (by omega) later
    rw [sized] at taken
    rw [kind, unpackShape, taken]
    change unpackArray unpack buf _ (bigEndianValue _) = _
    rw [counted, ← sized, body, List.length_append, ← Nat.add_assoc]

theorem readByte_rest {buf rest : Bytes} {c : UInt8} {offset : Nat}
    (here : Rest buf offset (c :: rest)) :
    readByte buf offset = .ok (c.toNat, offset + 1) ∧ Rest buf (offset + 1) rest := by
  obtain ⟨taken, later⟩ := slice_rest (s := [c]) here
  refine ⟨?_, later⟩
  rw [readByte]
  change (slice buf offset [c].length).map _ = _
  rw [taken]
  simp [Except.map, bigEndianValue]

theorem unpackWithin_complete (fuel : Nat) (buf : Bytes) :
    CompleteFor buf (unpackWithin fuel buf) fuel := by
  induction fuel with
  | zero =>
    intro v b rest offset wire small here
    have positive := wire.pos
    omega
  | succ fuel ih =>
    intro v b rest offset wire small here
    cases b with
    | nil => exact absurd wire.pos (Nat.lt_irrefl 0)
    | cons c b =>
      obtain ⟨read, later⟩ := readByte_rest here
      rw [List.length_cons] at small ⊢
      rw [unpackWithin, unpackBody_eq, read]
      change unpackShape _ buf (offset + 1) c.toNat (shape c.toNat) = _
      rw [unpackShape_complete ih wire (by omega) later, Nat.add_right_comm, Nat.add_assoc]

/-- The decoder reads every value, wherever it stands. -/
theorem unpack_wire {v : PhpValue} {b : Bytes} (wire : Wire v b) (before after : Bytes) :
    unpack (before ++ b ++ after) before.length = .ok (v, before.length + b.length) := by
  have here : Rest (before ++ b ++ after) before.length (b ++ after) := by
    refine ⟨?_, ?_⟩
    · rw [List.length_append, List.length_append]
      omega
    · rw [List.append_assoc, List.drop_left]
  refine unpackWithin_complete _ _ wire ?_ here
  rw [List.length_append, List.length_append]
  omega

/-! ## The recursion of the source -/

theorem unpackItems_congr {first second : Nat → Except CodecError (PhpValue × Nat)} {start : Nat}
    (same : ∀ offset, start ≤ offset → first offset = second offset)
    (forward : ∀ {offset after : Nat} {v : PhpValue}, first offset = .ok (v, after) →
      offset ≤ after) {n offset : Nat} (behind : start ≤ offset) :
    unpackItems first n offset = unpackItems second n offset := by
  induction n generalizing offset with
  | zero => rfl
  | succ n ih =>
    rw [unpackItems, unpackItems, ← same offset behind]
    cases read : first offset with
    | error e => rfl
    | ok p =>
      have moved := forward read
      change (unpackItems first n p.2).map _ = (unpackItems second n p.2).map _
      rw [ih (by omega)]

theorem unpackShape_congr {buf : Bytes} {first second : Nat → Except CodecError (PhpValue × Nat)}
    {start c : Nat} {kind : Shape}
    (same : ∀ offset, start ≤ offset → first offset = second offset)
    (forward : ∀ {offset after : Nat} {v : PhpValue}, first offset = .ok (v, after) →
      offset ≤ after) :
    unpackShape first buf start c kind = unpackShape second buf start c kind := by
  cases kind with
  | array len =>
    rw [unpackShape, unpackShape, unpackArray, unpackArray,
      unpackItems_congr same forward (Nat.le_refl start)]
  | arrayLen width =>
    rw [unpackShape, unpackShape]
    cases taken : slice buf start width with
    | error e => rfl
    | ok p =>
      have moved := (slice_ok taken).2.1
      change unpackArray first buf p.2 _ = unpackArray second buf p.2 _
      rw [unpackArray, unpackArray, unpackItems_congr same forward (by omega)]
  | _ => rfl

theorem unpackWithin_stable (fuel : Nat) (buf : Bytes) {offset : Nat}
    (enough : buf.length - offset < fuel) :
    unpackWithin fuel buf offset = unpackWithin (fuel + 1) buf offset := by
  induction fuel generalizing offset with
  | zero => omega
  | succ fuel ih =>
    rw [unpackWithin, unpackWithin, unpackBody_eq, unpackBody_eq]
    cases read : readByte buf offset with
    | error e => rfl
    | ok p =>
      obtain ⟨c, -, span⟩ := readByte_ok read
      have moved := span.length
      have inside := span.inside
      rw [List.length_singleton] at moved
      refine unpackShape_congr ?_ ?_
      · intro later behind
        exact ih (by omega)
      · intro o after v done
        obtain ⟨b, -, span'⟩ := unpackWithin_sound fuel buf done
        have ahead := span'.length
        omega

theorem unpackWithin_eq_unpack {fuel : Nat} {buf : Bytes} {offset : Nat}
    (enough : buf.length - offset < fuel) : unpackWithin fuel buf offset = unpack buf offset := by
  obtain ⟨extra, rfl⟩ := Nat.exists_eq_add_of_le (Nat.succ_le_of_lt enough)
  induction extra with
  | zero => rfl
  | succ extra ih =>
    rw [← Nat.add_assoc, ← unpackWithin_stable _ buf (by omega)]
    exact ih (by omega)

/-- `unpack` calls itself on the items of an array, as the source does. -/
theorem unpack_eq (buf : Bytes) (offset : Nat) :
    unpack buf offset = unpackBody (unpack buf) buf offset := by
  rw [unpack, unpackWithin, unpackBody_eq, unpackBody_eq]
  cases read : readByte buf offset with
  | error e => rfl
  | ok p =>
    obtain ⟨c, -, span⟩ := readByte_ok read
    have moved := span.length
    have inside := span.inside
    rw [List.length_singleton] at moved
    refine unpackShape_congr ?_ ?_
    · intro later behind
      exact unpackWithin_eq_unpack (by omega)
    · intro o after v done
      obtain ⟨b, -, span'⟩ := unpackWithin_sound _ buf done
      have ahead := span'.length
      omega

theorem unpack_sound {buf : Bytes} {offset after : Nat} {v : PhpValue}
    (done : unpack buf offset = .ok (v, after)) :
    ∃ b, Wire v b ∧ Spans buf offset after b :=
  unpackWithin_sound _ buf done

end FerroEngine.PurePackerReading
