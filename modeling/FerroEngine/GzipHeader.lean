import Mathlib.Data.List.Basic

set_option autoImplicit false

/-! # Gzip member headers

`GzHeader` of `engine/decode.rs`, which reads a member header however it is cut. The checksum is the
one of `flate2`.
-/

namespace FerroEngine.GzipHeader

/-- `flate2::Crc`: a running checksum of the bytes and their count. -/
structure Checksum where
  Crc : Type
  new : Crc
  update : Crc → List UInt8 → Crc
  sum : Crc → UInt32
  amount : Crc → UInt32
  update_nil : ∀ c, update c [] = c
  update_append : ∀ c a b, update c (a ++ b) = update (update c a) b

inductive DecodeError where
  | header
  | inflate
  | checksum
  | truncated
  | trailingData
  deriving DecidableEq, Repr

inductive HdrStage where
  | fixed
  | xLen
  | extra
  | name
  | comment
  | hcrc
  | done
  deriving DecidableEq, Repr

/-- The order of the stages. -/
def rank : HdrStage → Nat
  | .fixed => 0
  | .xLen => 1
  | .extra => 2
  | .name => 3
  | .comment => 4
  | .hcrc => 5
  | .done => 6

def fhcrc : UInt8 := 0x02
def fextra : UInt8 := 0x04
def fname : UInt8 := 0x08
def fcomment : UInt8 := 0x10
def reserved : UInt8 := 0xe0

def maxGzipHeader : Nat := 65536

structure GzHeader (C : Checksum) where
  stage : HdrStage
  flg : UInt8
  len : Nat
  got : Nat
  two : UInt8 × UInt8
  extraLeft : Nat
  crc : C.Crc

variable {C : Checksum}

namespace GzHeader

def new (C : Checksum) : GzHeader C :=
  { stage := .fixed, flg := 0, len := 0, got := 0, two := (0, 0), extraLeft := 0, crc := C.new }

def started (h : GzHeader C) : Bool :=
  decide (0 < h.len)

def order : List (HdrStage × UInt8) :=
  [(.xLen, fextra), (.name, fname), (.comment, fcomment), (.hcrc, fhcrc)]

def fromIx : HdrStage → Nat
  | .fixed => 0
  | .extra => 1
  | .name => 2
  | .comment => 3
  | _ => 4

/-- The stage after `s`, by the header's flags. -/
def after (h : GzHeader C) (s : HdrStage) : HdrStage :=
  (((order.drop (fromIx s)).find? fun e => h.flg &&& e.2 != 0).map Prod.fst).getD .done

def eat (h : GzHeader C) (b : List UInt8) : GzHeader C :=
  { h with
    crc := C.update h.crc b
    len := h.len + b.length }

def bad (h : GzHeader C) (c : UInt8) : Bool :=
  match h.got with
  | 0 => c != 0x1f
  | 1 => c != 0x8b
  | 2 => c != 8
  | 3 => c &&& reserved != 0
  | _ => false

def eatFixed (h : GzHeader C) (c : UInt8) : GzHeader C :=
  let h := { (if h.got = 3 then { h with flg := c } else h).eat [c] with got := h.got + 1 }
  if h.got = 10 then
    { h with
      got := 0
      stage := h.after .fixed }
  else h

/-- `self.two[self.got] = c`. -/
def setTwo (h : GzHeader C) (c : UInt8) : GzHeader C :=
  { h with two := if h.got = 0 then (c, h.two.2) else (h.two.1, c) }

def twoValue (h : GzHeader C) : Nat :=
  h.two.1.toNat + 256 * h.two.2.toNat

def eatXLen (h : GzHeader C) (c : UInt8) : GzHeader C :=
  let h := { (h.setTwo c).eat [c] with got := h.got + 1 }
  if h.got = 2 then
    { h with
      got := 0
      extraLeft := h.twoValue
      stage := if h.twoValue = 0 then h.after .extra else .extra }
  else h

def eatExtra (h : GzHeader C) (b : List UInt8) : GzHeader C :=
  let h := { h.eat b with extraLeft := h.extraLeft - b.length }
  if h.extraLeft = 0 then { h with stage := h.after .extra } else h

/-- The end of a text: its NUL has been eaten. -/
def eatText (h : GzHeader C) (b : List UInt8) : GzHeader C :=
  { h.eat b with stage := h.after h.stage }

def eatHcrc (h : GzHeader C) (c : UInt8) : Except DecodeError (GzHeader C) :=
  let h := { h.setTwo c with
    len := h.len + 1
    got := h.got + 1 }
  if h.got = 2 then
    if (C.sum h.crc).toNat % 65536 = h.twoValue then .ok { h with stage := .done }
    else .error .header
  else .ok h

/-- One turn of the loop of `advance` over the bytes left, which are not none: what the stage takes
of them, and how many those are. -/
def bite (h : GzHeader C) (c : UInt8) (rest : List UInt8) :
    Except DecodeError (GzHeader C × Nat) :=
  match h.stage with
  | .fixed => if h.bad c then .error .header else .ok (h.eatFixed c, 1)
  | .xLen => .ok (h.eatXLen c, 1)
  | .extra =>
    let n := min h.extraLeft (rest.length + 1)
    .ok (h.eatExtra ((c :: rest).take n), n)
  | .name | .comment =>
    match (c :: rest).findIdx? (· == 0) with
    | some z => .ok (h.eatText ((c :: rest).take (z + 1)), z + 1)
    | none => .ok (h.eat (c :: rest), rest.length + 1)
  | .hcrc => (h.eatHcrc c).map fun h => (h, 1)
  | .done => .ok (h, 0)

def tooLong (h : GzHeader C) : Bool :=
  h.stage != .done && decide (maxGzipHeader ≤ h.len)

/-- What the turns left can consume. -/
def turns (h : GzHeader C) (b : List UInt8) : Nat :=
  2 * b.length + if h.stage = .extra then 1 else 0

theorem after_mem (h : GzHeader C) (s : HdrStage) :
    h.after s = .done ∨ h.after s ∈ (order.drop (fromIx s)).map Prod.fst := by
  rw [after]
  cases same : (order.drop (fromIx s)).find? fun e => h.flg &&& e.2 != 0 with
  | none => exact .inl rfl
  | some e => exact .inr (List.mem_map_of_mem (List.mem_of_find?_eq_some same))

theorem rank_after (h : GzHeader C) {s : HdrStage} (field : s ≠ .hcrc ∧ s ≠ .done ∧ s ≠ .xLen) :
    rank s < rank (h.after s) := by
  rcases after_mem h s with done | member
  · rw [done]
    cases s with
    | done => exact absurd rfl field.2.1
    | _ => decide
  · generalize h.after s = next at member
    cases s with
    | hcrc => exact absurd rfl field.1
    | done => exact absurd rfl field.2.1
    | xLen => exact absurd rfl field.2.2
    | _ =>
      simp only [fromIx, order, List.drop_succ_cons, List.drop_zero, List.map_cons, List.map_nil,
        List.mem_cons, List.not_mem_nil, or_false] at member
      revert member
      cases next <;> decide

/-- A turn consumes a byte, or leaves an empty `FEXTRA`. -/
theorem bite_consumes {h h' : GzHeader C} {c : UInt8} {rest : List UInt8} {n : Nat}
    (unfinished : h.stage ≠ .done) (bitten : h.bite c rest = .ok (h', n)) :
    0 < n ∨ (h.stage = .extra ∧ h'.stage ≠ .extra) := by
  rw [bite] at bitten
  split at bitten
  · split at bitten
    · cases bitten
    · cases bitten
      exact .inl Nat.one_pos
  · cases bitten
    exact .inl Nat.one_pos
  · rename_i stage
    cases bitten
    by_cases left : h.extraLeft = 0
    · right
      refine ⟨stage, ?_⟩
      rw [left, Nat.zero_min, List.take_zero, eatExtra]
      dsimp only
      rw [if_pos (by rw [left]; rfl)]
      intro same
      have later := rank_after h (s := .extra) ⟨nofun, nofun, nofun⟩
      have equal : rank (h.after .extra) = rank .extra := congrArg rank same
      omega
    · left
      omega
  · split at bitten
    · cases bitten
      exact .inl (Nat.succ_pos _)
    · cases bitten
      exact .inl (Nat.succ_pos _)
  · split at bitten
    · cases bitten
      exact .inl (Nat.succ_pos _)
    · cases bitten
      exact .inl (Nat.succ_pos _)
  · cases eaten : h.eatHcrc c with
    | error e =>
      rw [eaten] at bitten
      cases bitten
    | ok next =>
      rw [eaten] at bitten
      cases bitten
      exact .inl Nat.one_pos
  · rename_i stage
    exact absurd stage unfinished

theorem bite_turns {h h' : GzHeader C} {c : UInt8} {rest : List UInt8} {n : Nat}
    (unfinished : h.stage ≠ .done) (bitten : h.bite c rest = .ok (h', n)) :
    h'.turns ((c :: rest).drop n) < h.turns (c :: rest) := by
  rw [turns, turns, List.length_drop, List.length_cons]
  rcases bite_consumes unfinished bitten with some | ⟨extra, left⟩
  · split <;> split <;> omega
  · rw [if_neg left, if_pos extra]
    omega

/-- Consumes header bytes of `b`: how many, and the header after them. -/
def advance (h : GzHeader C) (b : List UInt8) : Except DecodeError (GzHeader C × Nat) :=
  match b with
  | [] => .ok (h, 0)
  | c :: rest =>
    if _finished : h.stage = .done then .ok (h, 0)
    else
      match _bitten : h.bite c rest with
      | .error e => .error e
      | .ok (h', n) =>
        if h'.tooLong then .error .header
        else
          match advance h' ((c :: rest).drop n) with
          | .error e => .error e
          | .ok (h'', used) => .ok (h'', n + used)
termination_by h.turns b
decreasing_by exact bite_turns _finished _bitten

/-! ## Divisions -/

inductive Verdict where
  | more
  | done (offset : Nat)
  /-- Malformed or too long. -/
  | refused
  deriving DecidableEq, Repr

/-- What the header says of a stream that comes in chunks, of which `offset` bytes are gone. -/
def verdict (h : GzHeader C) (offset : Nat) : List (List UInt8) → Verdict
  | [] => .more
  | b :: chunks =>
    match h.advance b with
    | .error _ => .refused
    | .ok (h', used) =>
      if h'.stage = .done then .done (offset + used) else h'.verdict (offset + used) chunks

end GzHeader

end FerroEngine.GzipHeader
