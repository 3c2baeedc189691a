import FerroEngine.GzipHeader

set_option autoImplicit false

/-! # The content decoder

`Decoder` of `engine/decode.rs`, over the streaming inflate of `flate2` and with a clock that may
end a step at any turn of its loop.
-/

namespace FerroEngine.ContentDecoder

open GzipHeader

inductive Status where
  | ok
  | bufError
  | streamEnd
  deriving DecidableEq, Repr

/-- How a whole compressed stream ends in the bytes given. -/
inductive Fate where
  | ended (used : Nat)
  | more
  | bad
  deriving DecidableEq, Repr

/-- What a stream inflates to. -/
structure Inflated where
  out : List UInt8
  fate : Fate
  deriving DecidableEq, Repr

namespace Inflated

/-- The bytes before `rest` have been consumed and have inflated to `out`. -/
def behind (rest : Inflated) (consumed : Nat) (out : List UInt8) : Inflated :=
  { out := out ++ rest.out
    fate := match rest.fate with
      | .ended used => .ended (consumed + used)
      | fate => fate }

end Inflated

/-- What one call of `Decompress::decompress` did. -/
structure Produced (St : Type) where
  state : St
  consumed : Nat
  out : List UInt8
  status : Status

/-- `flate2::Decompress`, whose calls inflate one stream however it is cut, and make progress. -/
structure Inflate where
  St : Type
  /-- `Decompress::new` and `reset`: whether a zlib header is expected. -/
  fresh : Bool → St
  /-- The input and the room for output. -/
  decompress : St → List UInt8 → Nat → Option (Produced St)
  /-- The stream inflated in one piece and without a bound. -/
  whole : St → List UInt8 → Inflated
  bounded : ∀ {st : St} {input : List UInt8} {room : Nat} {p : Produced St},
    decompress st input room = some p → p.consumed ≤ input.length ∧ p.out.length ≤ room
  goes_on : ∀ {st : St} {input : List UInt8} {room : Nat} {p : Produced St},
    decompress st input room = some p → p.status ≠ .streamEnd → ∀ later,
      whole st (input ++ later) =
        (whole p.state (input.drop p.consumed ++ later)).behind p.consumed p.out
  ends : ∀ {st : St} {input : List UInt8} {room : Nat} {p : Produced St},
    decompress st input room = some p → p.status = .streamEnd → ∀ later,
      whole st (input ++ later) = ⟨p.out, .ended p.consumed⟩
  fails : ∀ {st : St} {input : List UInt8} {room : Nat},
    decompress st input room = none → ∀ later, (whole st (input ++ later)).fate = .bad
  progress : ∀ {st : St} {input : List UInt8} {room : Nat} {p : Produced St},
    decompress st input room = some p → 0 < room → p.status ≠ .streamEnd →
      p.consumed = 0 → p.out = [] → input = [] ∧ whole p.state [] = ⟨[], .more⟩

inductive Coding where
  | gzip
  | deflate
  deriving DecidableEq, Repr

inductive DecoderState where
  | gzHeader (first : Bool)
  | sniff
  | inflate
  | gzTrailer
  | done
  deriving DecidableEq, Repr

def stepMaxInput : Nat := 65536
def inflateSlice : Nat := 256
def stepMaxMembers : Nat := 64

structure Decoder (C : Checksum) (I : Inflate) where
  coding : Coding
  state : DecoderState
  inflate : I.St
  crc : C.Crc
  hdr : GzHeader C
  /-- The input not consumed yet. -/
  rest : List UInt8
  seenInput : Bool
  /-- The length of the output buffer. -/
  room : Nat

inductive Next where
  | chunk (bytes : List UInt8)
  | yield
  | needInput
  deriving DecidableEq, Repr

inductive StepEnd where
  | needInput
  | bound
  deriving DecidableEq, Repr

variable {C : Checksum} {I : Inflate}

/-- One call of `step`, between two turns of its loop. -/
structure Work (C : Checksum) (I : Inflate) where
  decoder : Decoder C I
  /-- Input bytes consumed by this step. -/
  used : Nat
  members : Nat
  /-- The filled part of the output buffer. -/
  out : List UInt8

inductive Turn (C : Checksum) (I : Inflate) where
  | goes (w : Work C I)
  | ends (w : Work C I) (e : StepEnd)
  | fails (e : DecodeError)

namespace Decoder

def new (C : Checksum) (I : Inflate) (coding : Coding) (maxChunk : Nat) : Decoder C I :=
  { coding := coding
    state := match coding with
      | .gzip => .gzHeader true
      | .deflate => .sniff
    inflate := I.fresh false
    crc := C.new
    hdr := .new C
    rest := []
    seenInput := false
    room := max maxChunk 1 }

def feed (d : Decoder C I) (input : List UInt8) : Decoder C I :=
  if input = [] then d
  else
    { d with
      seenInput := true
      rest := d.rest ++ input }

end Decoder

/-- RFC 1950: CM = 8, CINFO at most 7, a multiple of 31, and no preset dictionary. -/
def isZlib (cmf flg : UInt8) : Bool :=
  cmf &&& 0x0f == 8 && decide (cmf >>> 4 ≤ 7) &&
    (cmf.toNat * 256 + flg.toNat) % 31 == 0 && flg &&& 0x20 == 0

def fromLe (a b c d : UInt8) : Nat :=
  a.toNat + 256 * (b.toNat + 256 * (c.toNat + 256 * d.toNat))

/-- The CRC32 and ISIZE of a member. -/
def trailerMatches (crc : C.Crc) : List UInt8 → Bool
  | [a, b, c, d, e, f, g, h] =>
    fromLe a b c d == (C.sum crc).toNat && fromLe e f g h == (C.amount crc).toNat
  | _ => false

namespace Work

def headerTurn (w : Work C I) : Turn C I :=
  let d := w.decoder
  if d.rest = [] then .ends w .needInput
  else if w.members = stepMaxMembers ∧ d.hdr.started = false then .ends w .bound
  else
    match d.hdr.advance d.rest with
    | .error e => .fails e
    | .ok (hdr, used) =>
      let w := { w with used := w.used + used }
      if hdr.stage = .done then
        .goes { w with
          members := w.members + 1
          decoder := { d with
            rest := d.rest.drop used
            hdr := .new C
            inflate := I.fresh false
            crc := C.new
            state := .inflate } }
      else
        .ends { w with decoder := { d with
          rest := d.rest.drop used
          hdr := hdr } } .needInput

def sniffTurn (w : Work C I) : Turn C I :=
  match w.decoder.rest with
  | cmf :: flg :: _ =>
    .goes { w with decoder := { w.decoder with
      inflate := I.fresh (isZlib cmf flg)
      state := .inflate } }
  | _ => .ends w .needInput

def inflateTurn (w : Work C I) : Turn C I :=
  let d := w.decoder
  if w.out.length = d.room then .ends w .bound
  else
    let budget := min (stepMaxInput - w.used) inflateSlice
    match I.decompress d.inflate (d.rest.take budget) (d.room - w.out.length) with
    | none => .fails .inflate
    | some p =>
      let w' : Work C I := { w with
        used := w.used + p.consumed
        out := w.out ++ p.out
        decoder := { d with
          inflate := p.state
          rest := d.rest.drop p.consumed
          crc := if d.coding = .gzip then C.update d.crc p.out else d.crc } }
      match p.status with
      | .streamEnd =>
        .goes { w' with decoder := { w'.decoder with
          state := match d.coding with
            | .gzip => .gzTrailer
            | .deflate => .done } }
      | _ =>
        if p.out = [] ∧ p.consumed = 0 then
          .ends w' (if budget < d.rest.length then .bound else .needInput)
        else .goes w'

def trailerTurn (w : Work C I) : Turn C I :=
  let d := w.decoder
  if d.rest.length < 8 then .ends w .needInput
  else if trailerMatches d.crc (d.rest.take 8) then
    .goes { w with
      used := w.used + 8
      decoder := { d with
        rest := d.rest.drop 8
        state := .gzHeader false } }
  else .fails .checksum

/-- A turn of the loop of `step`; `late` is what the clock says. -/
def turn (w : Work C I) (late : Bool) : Turn C I :=
  if stepMaxInput ≤ w.used then .ends w .bound
  else if (0 < w.used ∨ w.out ≠ []) ∧ late = true then .ends w .bound
  else
    match w.decoder.state with
    | .gzHeader _ => w.headerTurn
    | .sniff => w.sniffTurn
    | .inflate => w.inflateTurn
    | .gzTrailer => w.trailerTurn
    | .done => if w.decoder.rest = [] then .ends w .needInput else .fails .trailingData

end Work

/-- The loop of `step`, whatever the clock says. -/
inductive Step : Work C I → Except DecodeError (Work C I × StepEnd) → Prop where
  | ends {w w' : Work C I} {late : Bool} {e : StepEnd} (turned : w.turn late = .ends w' e) :
    Step w (.ok (w', e))
  | fails {w : Work C I} {late : Bool} {e : DecodeError} (turned : w.turn late = .fails e) :
    Step w (.error e)
  | goes {w w' : Work C I} {late : Bool} {r : Except DecodeError (Work C I × StepEnd)}
    (turned : w.turn late = .goes w') (rest : Step w' r) : Step w r

def Decoder.work (d : Decoder C I) : Work C I :=
  { decoder := d, used := 0, members := 0, out := [] }

def answer (out : List UInt8) (e : StepEnd) : Next :=
  if out = [] then
    match e with
    | .bound => .yield
    | .needInput => .needInput
  else .chunk out

/-- `next_chunk`. -/
inductive NextChunk : Decoder C I → Except DecodeError (Decoder C I × Next) → Prop where
  | ok {d : Decoder C I} {w : Work C I} {e : StepEnd} (step : Step d.work (.ok (w, e))) :
    NextChunk d (.ok (w.decoder, answer w.out e))
  /-- What the step had decoded is dropped. -/
  | error {d : Decoder C I} {e : DecodeError} (step : Step d.work (.error e)) :
    NextChunk d (.error e)

/-- `next_chunk` again and again, until it needs input. -/
inductive Drain : Decoder C I → List (List UInt8) → Except DecodeError (Decoder C I) → Prop where
  | needInput {d d' : Decoder C I} (next : NextChunk d (.ok (d', .needInput))) : Drain d [] (.ok d')
  | yield {d d' : Decoder C I} {outs : List (List UInt8)} {r : Except DecodeError (Decoder C I)}
    (next : NextChunk d (.ok (d', .yield))) (rest : Drain d' outs r) : Drain d outs r
  | chunk {d d' : Decoder C I} {out : List UInt8} {outs : List (List UInt8)}
    {r : Except DecodeError (Decoder C I)} (next : NextChunk d (.ok (d', .chunk out)))
    (rest : Drain d' outs r) : Drain d (out :: outs) r
  | error {d : Decoder C I} {e : DecodeError} (next : NextChunk d (.error e)) :
    Drain d [] (.error e)

def Decoder.finish (d : Decoder C I) : Except DecodeError Unit :=
  if d.seenInput = false then .ok ()
  else
    match d.state with
    | .gzHeader false =>
      if d.rest = [] ∧ d.hdr.started = false then .ok () else .error .trailingData
    | .done => if d.rest = [] then .ok () else .error .trailingData
    | _ => .error .truncated

/-- A body in chunks: each is fed and drained, and the decoder is finished after the last. -/
inductive Decode : Decoder C I → List (List UInt8) → List (List UInt8) →
    Except DecodeError Unit → Prop where
  | finish {d : Decoder C I} : Decode d [] [] d.finish
  | feed {d d' : Decoder C I} {chunk : List UInt8} {chunks outs outs' : List (List UInt8)}
    {r : Except DecodeError Unit} (drained : Drain (d.feed chunk) outs (.ok d'))
    (rest : Decode d' chunks outs' r) : Decode d (chunk :: chunks) (outs ++ outs') r
  | fail {d : Decoder C I} {chunk : List UInt8} {chunks outs : List (List UInt8)}
    {e : DecodeError} (drained : Drain (d.feed chunk) outs (.error e)) :
    Decode d (chunk :: chunks) outs (.error e)

end FerroEngine.ContentDecoder
