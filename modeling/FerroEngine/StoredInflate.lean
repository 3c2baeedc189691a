import FerroEngine.ContentDecoder

set_option autoImplicit false

/-! # Inflating byte by byte

A machine that reads a byte and puts out one at most is an inflater, and the machine of the stored
blocks of RFC 1951 is one.
-/

namespace FerroEngine.StoredInflate

open ContentDecoder

structure ByteMachine where
  St : Type
  fresh : Bool → St
  ended : St → Bool
  read : St → UInt8 → Option (St × Option UInt8)

namespace ByteMachine

variable {M : ByteMachine}

def whole (st : M.St) : List UInt8 → Inflated
  | [] => if M.ended st = true then ⟨[], .ended 0⟩ else ⟨[], .more⟩
  | c :: rest =>
    if M.ended st = true then ⟨[], .ended 0⟩
    else
      match M.read st c with
      | none => ⟨[], .bad⟩
      | some (st', out) => (whole st' rest).behind 1 out.toList

def after {St : Type} (p : Produced St) (out : List UInt8) : Produced St :=
  { p with
    consumed := p.consumed + 1
    out := out ++ p.out }

def decompress (st : M.St) : List UInt8 → Nat → Option (Produced M.St)
  | [], _ => some ⟨st, 0, [], if M.ended st = true then .streamEnd else .ok⟩
  | c :: rest, room =>
    if M.ended st = true then some ⟨st, 0, [], .streamEnd⟩
    else
      match M.read st c with
      | none => none
      | some (st', out) =>
        if room < out.toList.length then some ⟨st, 0, [], .ok⟩
        else (decompress st' rest (room - out.toList.length)).map fun p => after p out.toList

theorem behind_behind (r : Inflated) (m n : Nat) (a b : List UInt8) :
    (r.behind m b).behind n a = r.behind (m + n) (a ++ b) := by
  cases r with
  | mk out fate =>
    rw [Inflated.behind, Inflated.behind, Inflated.behind, List.append_assoc]
    cases fate with
    | ended used =>
      dsimp only
      congr 2
      omega
    | more => rfl
    | bad => rfl

theorem behind_zero (r : Inflated) : r.behind 0 [] = r := by
  cases r with
  | mk out fate =>
    cases fate with
    | ended used =>
      rw [Inflated.behind]
      dsimp only
      rw [Nat.zero_add]
      rfl
    | more => rfl
    | bad => rfl

/-- A machine that has ended reads nothing. -/
theorem whole_ended {st : M.St} (ended : M.ended st = true) (xs : List UInt8) :
    whole st xs = ⟨[], .ended 0⟩ := by
  cases xs with
  | nil => exact if_pos ended
  | cons c rest => exact if_pos ended

/-- The ways in which a byte can be taken. -/
theorem decompress_cons {st : M.St} {c : UInt8} {rest : List UInt8} {room : Nat}
    {p : Produced M.St} (called : decompress st (c :: rest) room = some p) :
    (M.ended st = true ∧ p = ⟨st, 0, [], .streamEnd⟩) ∨
    (M.ended st ≠ true ∧ ∃ st' out, M.read st c = some (st', out) ∧
      ((room < out.toList.length ∧ p = ⟨st, 0, [], .ok⟩) ∨
        out.toList.length ≤ room ∧ ∃ q,
          decompress st' rest (room - out.toList.length) = some q ∧ p = after q out.toList)) := by
  rw [decompress] at called
  by_cases ended : M.ended st = true
  · rw [if_pos ended] at called
    cases called
    exact .inl ⟨ended, rfl⟩
  · rw [if_neg ended] at called
    cases byte : M.read st c with
    | none =>
      rw [byte] at called
      cases called
    | some q =>
      obtain ⟨st', out⟩ := q
      rw [byte] at called
      dsimp only at called
      refine .inr ⟨ended, st', out, rfl, ?_⟩
      by_cases full : room < out.toList.length
      · rw [if_pos full] at called
        cases called
        exact .inl ⟨full, rfl⟩
      · rw [if_neg full] at called
        obtain ⟨q, called', same⟩ := Option.map_eq_some_iff.mp called
        exact .inr ⟨Nat.le_of_not_lt full, q, called', same.symm⟩

theorem whole_cons {st st' : M.St} {c : UInt8} {out : Option UInt8}
    (unfinished : M.ended st ≠ true) (byte : M.read st c = some (st', out)) (rest : List UInt8) :
    whole st (c :: rest) = (whole st' rest).behind 1 out.toList := by
  rw [whole, if_neg unfinished, byte]

theorem decompress_bounded {st : M.St} {input : List UInt8} {room : Nat} {p : Produced M.St}
    (called : decompress st input room = some p) :
    p.consumed ≤ input.length ∧ p.out.length ≤ room := by
  induction input generalizing st room p with
  | nil =>
    cases called
    exact ⟨Nat.le_refl _, Nat.zero_le _⟩
  | cons c rest ih =>
    rcases decompress_cons called with ⟨_, rfl⟩ | ⟨_, st', out, _, ⟨_, rfl⟩ | ⟨le, q, called', rfl⟩⟩
    · exact ⟨Nat.zero_le _, Nat.zero_le _⟩
    · exact ⟨Nat.zero_le _, Nat.zero_le _⟩
    · obtain ⟨consumed, produced⟩ := ih called'
      rw [after, List.length_append, List.length_cons]
      exact ⟨Nat.succ_le_succ consumed, by omega⟩

theorem decompress_goes_on {st : M.St} {input : List UInt8} {room : Nat} {p : Produced M.St}
    (called : decompress st input room = some p) (notEnd : p.status ≠ .streamEnd)
    (later : List UInt8) : whole st (input ++ later) =
      (whole p.state (input.drop p.consumed ++ later)).behind p.consumed p.out := by
  induction input generalizing st room p with
  | nil =>
    cases called
    exact (behind_zero _).symm
  | cons c rest ih =>
    rcases decompress_cons called with
      ⟨_, rfl⟩ | ⟨unfinished, st', out, byte, ⟨_, rfl⟩ | ⟨_, q, called', rfl⟩⟩
    · exact absurd rfl notEnd
    · exact (behind_zero _).symm
    · rw [List.cons_append, whole_cons unfinished byte, ih called' notEnd, behind_behind]
      rfl

theorem decompress_ends {st : M.St} {input : List UInt8} {room : Nat} {p : Produced M.St}
    (called : decompress st input room = some p) (atEnd : p.status = .streamEnd)
    (later : List UInt8) : whole st (input ++ later) = ⟨p.out, .ended p.consumed⟩ := by
  induction input generalizing st room p with
  | nil =>
    by_cases ended : M.ended st = true
    · rw [decompress, if_pos ended] at called
      cases called
      exact whole_ended ended _
    · rw [decompress, if_neg ended] at called
      cases called
      cases atEnd
  | cons c rest ih =>
    rcases decompress_cons called with
      ⟨ended, rfl⟩ | ⟨unfinished, st', out, byte, ⟨_, rfl⟩ | ⟨_, q, called', rfl⟩⟩
    · exact whole_ended ended _
    · cases atEnd
    · rw [List.cons_append, whole_cons unfinished byte, ih called' atEnd, Inflated.behind, after]
      dsimp only
      rw [Nat.add_comm]

theorem decompress_fails {st : M.St} {input : List UInt8} {room : Nat}
    (called : decompress st input room = none) (later : List UInt8) :
    (whole st (input ++ later)).fate = .bad := by
  induction input generalizing st room with
  | nil => cases called
  | cons c rest ih =>
    rw [decompress] at called
    by_cases ended : M.ended st = true
    · rw [if_pos ended] at called
      cases called
    · rw [if_neg ended] at called
      rw [List.cons_append, whole, if_neg ended]
      cases byte : M.read st c with
      | none => rfl
      | some q =>
        obtain ⟨st', out⟩ := q
        rw [byte] at called
        dsimp only at called ⊢
        by_cases full : room < out.toList.length
        · rw [if_pos full] at called
          cases called
        · rw [if_neg full] at called
          rw [Inflated.behind, ih (Option.map_eq_none_iff.mp called)]

theorem decompress_progress {st : M.St} {input : List UInt8} {room : Nat} {p : Produced M.St}
    (called : decompress st input room = some p) (free : 0 < room) (notEnd : p.status ≠ .streamEnd)
    (stuck : p.consumed = 0) : input = [] ∧ whole p.state [] = ⟨[], .more⟩ := by
  cases input with
  | nil =>
    by_cases ended : M.ended st = true
    · rw [decompress, if_pos ended] at called
      cases called
      exact absurd rfl notEnd
    · rw [decompress] at called
      cases called
      exact ⟨rfl, if_neg ended⟩
  | cons c rest =>
    rcases decompress_cons called with ⟨_, rfl⟩ | ⟨_, st', out, _, ⟨full, rfl⟩ | ⟨_, q, _, rfl⟩⟩
    · exact absurd rfl notEnd
    · have le : out.toList.length ≤ 1 := by
        cases out with
        | none => exact Nat.zero_le _
        | some byte => exact Nat.le_refl _
      omega
    · cases stuck

/-- A machine as an inflater. -/
def inflate (M : ByteMachine) : Inflate where
  St := M.St
  fresh := M.fresh
  decompress := decompress
  whole := whole
  bounded := decompress_bounded
  goes_on := decompress_goes_on
  ends := decompress_ends
  fails := decompress_fails
  progress called free notEnd stuck _ := decompress_progress called free notEnd stuck

end ByteMachine

/-! ## Stored blocks -/

inductive Stored where
  | header
  /-- The bytes of LEN and NLEN so far. -/
  | lengths (last : Bool) (got : List UInt8)
  | bytes (last : Bool) (left : Nat)
  | ended
  /-- Not a stored block: outside this machine. -/
  | foreign
  deriving DecidableEq

namespace Stored

/-- After a block with so many bytes to come. -/
def next (last : Bool) : Nat → Stored
  | 0 => if last = true then .ended else .header
  | left + 1 => .bytes last (left + 1)

def read : Stored → UInt8 → Option (Stored × Option UInt8)
  | .header, c => if c ≤ 1 then some (.lengths (c == 1) [], none) else none
  | .lengths last [a, b, na], nb =>
    if na == ~~~a && nb == ~~~b then some (next last (a.toNat + 256 * b.toNat), none) else none
  | .lengths last got, c => some (.lengths last (got ++ [c]), none)
  | .bytes last (left + 1), c => some (next last left, some c)
  | _, _ => none

def machine : ByteMachine where
  St := Stored
  fresh zlib := if zlib = true then .foreign else .header
  ended st := st == .ended
  read := read

end Stored

/-- An inflater of raw streams of stored blocks. -/
def storedInflate : Inflate :=
  Stored.machine.inflate

end FerroEngine.StoredInflate
