import FerroEngine.ContentDecodingRuns
import FerroEngine.ContentDecodingEnds
import FerroEngine.StoredInflate

set_option autoImplicit false

/-! # Content decoding does not depend on the division

Every division of a body succeeds or every one fails, with the same output where it succeeds. A
step that fails drops what it had decoded, so failing divisions may differ in how far they got.
-/

namespace FerroEngine.ContentDecodingChunks

open GzipHeader GzipHeaderBytes GzipHeaderChunks ContentDecoder ContentDecoding ContentDecodingRuns
  ContentDecodingEnds StoredInflate

variable {C : Checksum} {I : Inflate}

/-! ## What a whole body decodes to is determined -/

/-- A header that is being read is not finished. -/
def Opened (m : Mode C I) : Prop :=
  ∀ first h, m = .header first h → h.stage ≠ .done

theorem reads_sniff {coding : Coding} {crc : C.Crc} {m : Mode C I} {x y out : List UInt8}
    (part : reads coding (.sniff crc) x = some (m, y, out)) :
    (∃ zlib, m = .inflate (I.fresh zlib) crc) ∧ y = x := by
  cases x with
  | nil => cases part
  | cons cmf x =>
    cases x with
    | nil => cases part
    | cons flg x =>
      cases part
      exact ⟨⟨_, rfl⟩, rfl⟩

theorem reads_opened {coding : Coding} {m m' : Mode C I} {x y out : List UInt8}
    (part : reads coding m x = some (m', y, out)) : Opened m' := by
  intro first h same
  subst same
  cases m with
  | header first' h' =>
    rw [reads] at part
    split at part
    · split at part
      · cases part
      · cases part
    · cases part
  | sniff crc =>
    obtain ⟨⟨zlib, other⟩, _⟩ := reads_sniff part
    cases other
  | inflate st crc =>
    rw [reads] at part
    split at part
    · cases coding with
      | gzip => cases part
      | deflate => cases part
    · cases part
  | trailer crc =>
    rw [reads] at part
    split at part
    · cases part
      exact (ready_new C).2.1
    · cases part
  | done => cases part

theorem decodes_unique {coding : Coding} {m : Mode C I} {x a b : List UInt8} (opened : Opened m)
    (first : Decodes coding m x a) (second : Decodes coding m x b) : a = b := by
  induction first generalizing b with
  | ends clean =>
    cases second with
    | ends => rfl
    | reads part rest =>
      rw [reads_of_clean opened clean] at part
      cases part
  | reads part rest ih =>
    cases second with
    | ends clean =>
      rw [reads_of_clean opened clean] at part
      cases part
    | reads part' rest' =>
      rw [part] at part'
      cases part'
      rw [ih (reads_opened part) rest']

theorem partial_reads {coding : Coding} {m m' : Mode C I} {x y out o : List UInt8}
    (here : Partial m x o) (part : reads coding m x = some (m', y, out)) : o <+: out := by
  cases m with
  | inflate st crc =>
    rw [reads] at part
    rw [Partial] at here
    split at part
    · rename_i whole
      rw [whole] at here
      cases coding with
      | gzip =>
        cases part
        exact here
      | deflate =>
        cases part
        exact here
    · cases part
  | header first h =>
    cases here
    exact List.nil_prefix
  | sniff crc =>
    cases here
    exact List.nil_prefix
  | trailer crc =>
    cases here
    exact List.nil_prefix
  | done =>
    cases here
    exact List.nil_prefix

theorem partial_comparable {m : Mode C I} {x a b : List UInt8} (first : Partial m x a)
    (second : Partial m x b) : a <+: b ∨ b <+: a := by
  cases m with
  | inflate st crc => exact List.prefix_or_prefix_of_prefix first second
  | header first' h =>
    cases first
    exact .inl List.nil_prefix
  | sniff crc =>
    cases first
    exact .inl List.nil_prefix
  | trailer crc =>
    cases first
    exact .inl List.nil_prefix
  | done =>
    cases first
    exact .inl List.nil_prefix

theorem yields_comparable {coding : Coding} {m : Mode C I} {x a b : List UInt8}
    (first : Yields coding m x a) (second : Yields coding m x b) : a <+: b ∨ b <+: a := by
  induction first generalizing b with
  | within here =>
    cases second with
    | within here' => exact partial_comparable here here'
    | reads part rest => exact .inl ((partial_reads here part).trans (List.prefix_append ..))
  | reads part rest ih =>
    cases second with
    | within here => exact .inr ((partial_reads here part).trans (List.prefix_append ..))
    | reads part' rest' =>
      rw [part] at part'
      cases part'
      rcases ih rest' with less | less
      · exact .inl ((List.prefix_append_right_inj _).mpr less)
      · exact .inr ((List.prefix_append_right_inj _).mpr less)

/-! ## A new decoder -/

theorem new_between {coding : Coding} {maxChunk : Nat} {body : List UInt8}
    (short : Short coding (mode (Decoder.new C I coding maxChunk)) body) :
    Between body (Decoder.new C I coding maxChunk) := by
  obtain ⟨sound, unfinished, small⟩ := ready_new C
  refine ⟨⟨sound, unfinished, small, Nat.le_max_right .., fun _ => rfl⟩, ?_, short⟩
  cases coding with
  | gzip => rfl
  | deflate => exact Nat.zero_lt_two

theorem new_idle (coding : Coding) (maxChunk : Nat) : Idle (Decoder.new C I coding maxChunk) := by
  refine ⟨rfl, rfl, ?_⟩
  cases coding with
  | gzip => exact .inl ⟨true, rfl⟩
  | deflate => exact .inr rfl

theorem new_opened (coding : Coding) (maxChunk : Nat) :
    Opened (mode (Decoder.new C I coding maxChunk)) := by
  intro first h same
  cases coding with
  | gzip =>
    cases same
    exact (ready_new C).2.1
  | deflate => cases same

/-! ## Divisions -/

/-- What holds of the divisions of a body, whatever the clock says. -/
structure Divided (C : Checksum) (I : Inflate) (coding : Coding) (maxChunk : Nat)
    (body : List UInt8) : Prop where
  agrees : ∀ {chunks chunks' outs outs' : List (List UInt8)} {r r' : Except DecodeError Unit},
    chunks.flatten = body → chunks'.flatten = body →
    Decode (Decoder.new C I coding maxChunk) chunks outs r →
    Decode (Decoder.new C I coding maxChunk) chunks' outs' r' →
      (r = .ok () ↔ r' = .ok ()) ∧ (r = .ok () → outs.flatten = outs'.flatten) ∧
        (outs.flatten <+: outs'.flatten ∨ outs'.flatten <+: outs.flatten)
  sizes : ∀ {chunks outs : List (List UInt8)} {r : Except DecodeError Unit},
    chunks.flatten = body → Decode (Decoder.new C I coding maxChunk) chunks outs r →
      ∀ out ∈ outs, out ≠ [] ∧ out.length ≤ max maxChunk 1
  carries : ∀ {chunks outs : List (List UInt8)} {later : List UInt8} {d : Decoder C I},
    chunks.flatten ++ later = body → Fed (Decoder.new C I coding maxChunk) chunks outs d →
      d.rest.length ≤ 7
  ends : ∀ {chunks outs : List (List UInt8)} {chunk later : List UInt8} {d : Decoder C I},
    chunks.flatten ++ (chunk ++ later) = body →
    Fed (Decoder.new C I coding maxChunk) chunks outs d →
      Acc Again (d.feed chunk) ∧ ∃ outs r, Drain (d.feed chunk) outs r

theorem decided_agree {coding : Coding} {m : Mode C I} {x a b : List UInt8}
    {r r' : Except DecodeError Unit} (opened : Opened m) (first : Decided coding m x a r)
    (second : Decided coding m x b r') :
    (r = .ok () ↔ r' = .ok ()) ∧ (r = .ok () → a = b) ∧ (a <+: b ∨ b <+: a) := by
  cases r with
  | ok u =>
    cases r' with
    | ok u' =>
      have same := decodes_unique opened first second
      refine ⟨⟨fun _ => rfl, fun _ => rfl⟩, fun _ => same, .inl ?_⟩
      exact ⟨[], by rw [same, List.append_nil]⟩
    | error e' => exact absurd first (second.1 a)
  | error e =>
    cases r' with
    | ok u' => exact absurd second (first.1 b)
    | error e' => exact ⟨⟨nofun, nofun⟩, nofun, yields_comparable first.2 second.2⟩

theorem fed_room {d d' : Decoder C I} {chunks outs : List (List UInt8)} {later : List UInt8}
    (fed : Fed d chunks outs d') (between : Between (chunks.flatten ++ later) d) :
    0 < d'.room :=
  (between_fed fed between).ready.room

/-- A body whose member headers are within the limit decodes alike however it is divided. -/
theorem body_divided (C : Checksum) (I : Inflate) (coding : Coding) (maxChunk : Nat)
    (body : List UInt8) (short : Short coding (mode (Decoder.new C I coding maxChunk)) body) :
    Divided C I coding maxChunk body := by
  have between := new_between short
  constructor
  · intro chunks chunks' outs outs' r r' flat flat' decode decode'
    by_cases empty : body = []
    · have idle : Idle (Decoder.new C I coding maxChunk) := new_idle coding maxChunk
      obtain ⟨rfl, rfl⟩ := decode_idle decode idle (flat.trans empty)
      obtain ⟨rfl, rfl⟩ := decode_idle decode' idle (flat'.trans empty)
      exact ⟨Iff.rfl, fun _ => rfl, .inl (List.prefix_refl _)⟩
    · have first := decode_decided decode (by rw [flat]; exact between)
        (.inr (by rw [flat]; exact empty))
      have second := decode_decided decode' (by rw [flat']; exact between)
        (.inr (by rw [flat']; exact empty))
      rw [flat] at first
      rw [flat'] at second
      exact decided_agree (new_opened coding maxChunk) first second
  · intro chunks outs r flat decode
    exact decode_sizes decode (by rw [flat]; exact between)
  · intro chunks outs later d flat fed
    exact carry_of_starved (between_fed fed (by rw [flat]; exact between)).starved
  · intro chunks outs chunk later d flat fed
    have room : 0 < (d.feed chunk).room := by
      rw [(feed_kept d chunk).2.2]
      exact fed_room fed (by rw [flat]; exact between)
    exact ⟨drain_ends room, drain_returns room⟩

/-! ## Headers within the limit -/

/-- A header in progress, with what is left of a body that is shorter than the limit. -/
def Fits (m : Mode C I) (x : List UInt8) : Prop :=
  x.length < maxGzipHeader ∧
    ∀ first h, m = .header first h → Sound h ∧ h.len + x.length < maxGzipHeader

theorem fits_reads {coding : Coding} {m m' : Mode C I} {x y out : List UInt8} (fits : Fits m x)
    (part : reads coding m x = some (m', y, out)) : Fits m' y := by
  obtain ⟨small, _⟩ := fits
  have drop (n : Nat) : (x.drop n).length < maxGzipHeader :=
    Nat.lt_of_le_of_lt (by rw [List.length_drop]; exact Nat.sub_le ..) small
  cases m with
  | header first h =>
    rw [reads] at part
    split at part
    · split at part
      · cases part
        exact ⟨drop _, fun _ _ same => by cases same⟩
      · cases part
    · cases part
  | sniff crc =>
    obtain ⟨⟨zlib, rfl⟩, rfl⟩ := reads_sniff part
    exact ⟨small, fun _ _ same => by cases same⟩
  | inflate st crc =>
    rw [reads] at part
    split at part
    · cases coding with
      | gzip =>
        cases part
        exact ⟨drop _, fun _ _ same => by cases same⟩
      | deflate =>
        cases part
        exact ⟨drop _, fun _ _ same => by cases same⟩
    · cases part
  | trailer crc =>
    rw [reads] at part
    split at part
    · cases part
      refine ⟨drop _, ?_⟩
      intro first h same
      cases same
      refine ⟨sound_new C, ?_⟩
      have zero : (GzHeader.new C).len = 0 := rfl
      rw [zero, Nat.zero_add]
      exact drop _
    · cases part
  | done => cases part

/-- A body shorter than the limit has no header that is not. -/
theorem short_of_small {coding : Coding} {maxChunk : Nat} {body : List UInt8}
    (small : body.length < maxGzipHeader) :
    Short coding (mode (Decoder.new C I coding maxChunk)) body := by
  have fits : Fits (mode (Decoder.new C I coding maxChunk)) body := by
    refine ⟨small, ?_⟩
    intro first h same
    cases coding with
    | gzip =>
      cases same
      refine ⟨sound_new C, ?_⟩
      change 0 + body.length < maxGzipHeader
      rw [Nat.zero_add]
      exact small
    | deflate => cases same
  intro first h y g leads scanned done
  generalize mode (Decoder.new C I coding maxChunk) = m at leads fits
  generalize body = x at leads fits
  generalize reached : Mode.header first h = m' at leads
  induction leads with
  | refl =>
    obtain ⟨sound, less⟩ := fits.2 first h reached.symm
    have most := (scan_reads sound scanned).len.2
    omega
  | reads part rest ih => exact ih scanned (fits_reads fits part) reached

/-! ## A failing body -/

/-- A step, within so many turns and with time left. -/
def runStep : Nat → Work C I → Option (Except DecodeError (Work C I × StepEnd))
  | 0, _ => none
  | fuel + 1, w =>
    match w.turn false with
    | .ends w' e => some (.ok (w', e))
    | .fails e => some (.error e)
    | .goes w' => runStep fuel w'

theorem runStep_step {fuel : Nat} {w : Work C I} {r : Except DecodeError (Work C I × StepEnd)}
    (ran : runStep fuel w = some r) : Step w r := by
  induction fuel generalizing w with
  | zero => cases ran
  | succ fuel ih =>
    rw [runStep] at ran
    cases turned : w.turn false with
    | ends w' e =>
      rw [turned] at ran
      cases ran
      exact .ends turned
    | fails e =>
      rw [turned] at ran
      cases ran
      exact .fails turned
    | goes w' =>
      rw [turned] at ran
      exact .goes turned (ih ran)

/-- A drain within so many steps of so many turns. -/
def runDrain : Nat → Decoder C I → Option (List (List UInt8) × Except DecodeError (Decoder C I))
  | 0, _ => none
  | fuel + 1, d =>
    match runStep fuel d.work with
    | none => none
    | some (.error e) => some ([], .error e)
    | some (.ok (w, e)) =>
      match answer w.out e with
      | .needInput => some ([], .ok w.decoder)
      | .yield => runDrain fuel w.decoder
      | .chunk out => (runDrain fuel w.decoder).map fun p => (out :: p.1, p.2)

theorem runDrain_drain {fuel : Nat} {d : Decoder C I}
    {p : List (List UInt8) × Except DecodeError (Decoder C I)} (ran : runDrain fuel d = some p) :
    Drain d p.1 p.2 := by
  induction fuel generalizing d p with
  | zero => cases ran
  | succ fuel ih =>
    rw [runDrain] at ran
    cases stepped : runStep fuel d.work with
    | none =>
      rw [stepped] at ran
      cases ran
    | some r =>
      rw [stepped] at ran
      have step := runStep_step stepped
      cases r with
      | error e =>
        cases ran
        exact .error (.error step)
      | ok q =>
        obtain ⟨w, e⟩ := q
        have next : NextChunk d (.ok (w.decoder, answer w.out e)) := .ok step
        dsimp only at ran
        cases said : answer w.out e with
        | needInput =>
          rw [said] at ran next
          cases ran
          exact .needInput next
        | yield =>
          rw [said] at ran next
          exact .yield next (ih ran)
        | chunk out =>
          rw [said] at ran next
          obtain ⟨q, rest, same⟩ := Option.map_eq_some_iff.mp ran
          cases same
          exact .chunk next (ih rest)

def runDecode (fuel : Nat) : Decoder C I → List (List UInt8) →
    Option (List (List UInt8) × Except DecodeError Unit)
  | d, [] => some ([], d.finish)
  | d, chunk :: chunks =>
    match runDrain fuel (d.feed chunk) with
    | none => none
    | some (outs, .error e) => some (outs, .error e)
    | some (outs, .ok d') => (runDecode fuel d' chunks).map fun p => (outs ++ p.1, p.2)

theorem runDecode_decode {fuel : Nat} {d : Decoder C I} {chunks : List (List UInt8)}
    {p : List (List UInt8) × Except DecodeError Unit} (ran : runDecode fuel d chunks = some p) :
    Decode d chunks p.1 p.2 := by
  induction chunks generalizing d p with
  | nil =>
    cases ran
    exact .finish
  | cons chunk chunks ih =>
    rw [runDecode] at ran
    cases drained : runDrain fuel (d.feed chunk) with
    | none =>
      rw [drained] at ran
      cases ran
    | some q =>
      obtain ⟨outs, r⟩ := q
      rw [drained] at ran
      have drain := runDrain_drain drained
      cases r with
      | error e =>
        cases ran
        exact .fail drain
      | ok d' =>
        obtain ⟨q, rest, same⟩ := Option.map_eq_some_iff.mp ran
        cases same
        exact .feed drain (ih rest)

/-- A gzip header and a stored block of one byte. -/
def storedStart : List UInt8 :=
  [0x1f, 0x8b, 8, 0, 0, 0, 0, 0, 0, 0xff, 1, 1, 0, 0xfe, 0xff, 0x41]

def goodTrailer : List UInt8 :=
  [0x8b, 0x9e, 0xd9, 0xd3, 1, 0, 0, 0]

def badTrailer : List UInt8 :=
  [0, 0, 0, 0, 1, 0, 0, 0]

theorem stored_short (trailer : List UInt8) (eight : trailer.length = 8) :
    Short .gzip (mode (Decoder.new crc32 storedInflate .gzip 4)) (storedStart ++ trailer) := by
  apply short_of_small
  rw [List.length_append, eight]
  decide

theorem body_divided_stored :
    Divided crc32 storedInflate .gzip 4 (storedStart ++ goodTrailer) :=
  body_divided crc32 storedInflate .gzip 4 _ (stored_short _ rfl)

example : runDecode 9 (Decoder.new crc32 storedInflate .gzip 4) [storedStart, goodTrailer] =
    some ([[0x41]], .ok ()) := by
  decide +kernel

/-- With a wrong checksum the byte is put out before the trailer has come, and not with it. -/
theorem badTrailer_depends :
    ∃ (chunks chunks' outs outs' : List (List UInt8)) (r r' : Except DecodeError Unit),
      chunks.flatten = storedStart ++ badTrailer ∧ chunks'.flatten = storedStart ++ badTrailer ∧
      Short .gzip (mode (Decoder.new crc32 storedInflate .gzip 4)) (storedStart ++ badTrailer) ∧
      Decode (Decoder.new crc32 storedInflate .gzip 4) chunks outs r ∧
      Decode (Decoder.new crc32 storedInflate .gzip 4) chunks' outs' r' ∧
      outs.flatten ≠ outs'.flatten := by
  have whole : runDecode 9 (Decoder.new crc32 storedInflate .gzip 4)
      [storedStart ++ badTrailer] = some ([], .error .checksum) := by
    decide +kernel
  have parts : runDecode 9 (Decoder.new crc32 storedInflate .gzip 4)
      [storedStart, badTrailer] = some ([[0x41]], .error .checksum) := by
    decide +kernel
  refine ⟨_, _, _, _, _, _, ?_, ?_, stored_short _ rfl, runDecode_decode whole,
    runDecode_decode parts, by decide⟩
  · exact List.append_nil _
  · rfl

end FerroEngine.ContentDecodingChunks
