import FerroEngine.ContentDecoding

set_option autoImplicit false

/-! # Runs of the content decoder

What steps, answers, drains and whole divisions of a body leave.
-/

namespace FerroEngine.ContentDecodingRuns

open GzipHeader GzipHeaderBytes ContentDecoder ContentDecoding

variable {C : Checksum} {I : Inflate}

theorem turned_before {tail : List UInt8} {w w' : Work C I} (turned : Turned tail w w') :
    Before tail w' := by
  obtain ⟨filled, o, _, kept⟩ := turned
  exact ⟨kept.ready, filled, kept.short⟩

/-- Whatever the rest of the body decodes to, what has been put out comes first. -/
theorem kept_refuted {tail o : List UInt8} {d d' : Decoder C I} (kept : Kept tail d o d')
    (refuted : ∀ out, ¬Decodes d'.coding (mode d') (d'.rest ++ tail) out) (out : List UInt8) :
    ¬Decodes d.coding (mode d) (d.rest ++ tail) out := by
  intro decodes
  obtain ⟨out', _, decodes'⟩ := (kept.carried.decodes out).mp decodes
  rw [← kept.coding] at decodes'
  exact refuted out' decodes'

/-- What a step leaves. -/
def Stepped (tail : List UInt8) (w : Work C I) : Except DecodeError (Work C I × StepEnd) → Prop
  | .ok (w', e) => Turned tail w w' ∧ (e = .needInput → Starved w'.decoder)
  | .error _ => ∀ out, ¬Decodes w.decoder.coding (mode w.decoder) (w.decoder.rest ++ tail) out

theorem step_leaves {tail : List UInt8} {w : Work C I}
    {r : Except DecodeError (Work C I × StepEnd)} (step : Step w r) (before : Before tail w) :
    Stepped tail w r := by
  induction step with
  | @ends w w' late e turned =>
    have answers := turn_answers before late
    rw [turned] at answers
    exact answers
  | @fails w late e turned =>
    have answers := turn_answers before late
    rw [turned] at answers
    exact answers
  | @goes w w' late r turned rest ih =>
    have answers := turn_answers before late
    rw [turned] at answers
    have later := ih (turned_before answers)
    obtain ⟨filled, o, out, kept⟩ := answers
    cases r with
    | error e => exact kept_refuted kept later
    | ok p =>
      obtain ⟨w'', e⟩ := p
      obtain ⟨⟨filled', o', out', kept'⟩, starved⟩ := later
      refine ⟨⟨filled', o ++ o', ?_, kept_trans kept kept'⟩, starved⟩
      rw [out', out, List.append_assoc]

/-- What the caller gets of an answer. -/
def Next.bytes : Next → List UInt8
  | .chunk bytes => bytes
  | _ => []

/-- What `next_chunk` leaves. -/
def Advanced (tail : List UInt8) (d : Decoder C I) : Except DecodeError (Decoder C I × Next) → Prop
  | .ok (d', n) => Kept tail d (Next.bytes n) d' ∧ (n = .needInput → Starved d') ∧
    ∀ out, n = .chunk out → out ≠ [] ∧ out.length ≤ d.room
  | .error _ => ∀ out, ¬Decodes d.coding (mode d) (d.rest ++ tail) out

theorem nextChunk_leaves {tail : List UInt8} {d : Decoder C I}
    {r : Except DecodeError (Decoder C I × Next)} (next : NextChunk d r) (ready : Ready d)
    (short : Short d.coding (mode d) (d.rest ++ tail)) : Advanced tail d r := by
  have before : Before tail d.work := ⟨ready, Nat.zero_le _, short⟩
  cases next with
  | error step => exact step_leaves step before
  | @ok w e step =>
    obtain ⟨⟨filled, o, out, kept⟩, starved⟩ := step_leaves step before
    have same : w.out = o := out
    rw [kept.room] at filled
    subst same
    by_cases empty : w.out = []
    · unfold answer
      rw [if_pos empty]
      rw [empty] at kept
      cases e with
      | bound => exact ⟨kept, nofun, nofun⟩
      | needInput => exact ⟨kept, fun _ => starved rfl, nofun⟩
    · unfold answer
      rw [if_neg empty]
      refine ⟨kept, nofun, ?_⟩
      intro out same
      cases same
      exact ⟨empty, filled⟩

/-- What draining leaves. -/
def Drained (tail : List UInt8) (d : Decoder C I) (outs : List (List UInt8)) :
    Except DecodeError (Decoder C I) → Prop
  | .ok d' => Kept tail d outs.flatten d' ∧ Starved d'
  | .error _ => (∀ out, ¬Decodes d.coding (mode d) (d.rest ++ tail) out) ∧
    Yields d.coding (mode d) (d.rest ++ tail) outs.flatten

theorem yields_nil {coding : Coding} (m : Mode C I) (x : List UInt8) : Yields coding m x [] := by
  apply Yields.within
  cases m with
  | inflate st crc => exact List.nil_prefix
  | header first h => rfl
  | sniff crc => rfl
  | trailer crc => rfl
  | done => rfl

theorem kept_yields {tail o z : List UInt8} {d d' : Decoder C I} (kept : Kept tail d o d')
    (yields : Yields d'.coding (mode d') (d'.rest ++ tail) z) :
    Yields d.coding (mode d) (d.rest ++ tail) (o ++ z) := by
  rw [kept.coding] at yields
  exact kept.carried.yields z yields

theorem kept_drained {tail o : List UInt8} {d d' : Decoder C I} {outs : List (List UInt8)}
    {r : Except DecodeError (Decoder C I)} (kept : Kept tail d o d')
    (drained : Drained tail d' outs r) (outs' : List (List UInt8))
    (same : outs'.flatten = o ++ outs.flatten) : Drained tail d outs' r := by
  cases r with
  | ok d'' =>
    refine ⟨?_, drained.2⟩
    rw [same]
    exact kept_trans kept drained.1
  | error e =>
    refine ⟨kept_refuted kept drained.1, ?_⟩
    rw [same]
    exact kept_yields kept drained.2

theorem drain_leaves {tail : List UInt8} {d : Decoder C I} {outs : List (List UInt8)}
    {r : Except DecodeError (Decoder C I)} (drain : Drain d outs r) (ready : Ready d)
    (short : Short d.coding (mode d) (d.rest ++ tail)) :
    Drained tail d outs r ∧ ∀ out ∈ outs, out ≠ [] ∧ out.length ≤ d.room := by
  induction drain with
  | needInput next =>
    obtain ⟨kept, starved, _⟩ := nextChunk_leaves next ready short
    exact ⟨⟨kept, starved rfl⟩, nofun⟩
  | error next =>
    exact ⟨⟨nextChunk_leaves next ready short, yields_nil ..⟩, nofun⟩
  | yield next rest ih =>
    obtain ⟨kept, _, _⟩ := nextChunk_leaves next ready short
    obtain ⟨drained, sizes⟩ := ih kept.ready kept.short
    rw [kept.room] at sizes
    exact ⟨kept_drained kept drained _ rfl, sizes⟩
  | @chunk d d' out outs r next rest ih =>
    obtain ⟨kept, _, sized⟩ := nextChunk_leaves next ready short
    obtain ⟨drained, sizes⟩ := ih kept.ready kept.short
    rw [kept.room] at sizes
    refine ⟨kept_drained kept drained _ rfl, ?_⟩
    intro o member
    rcases List.mem_cons.mp member with rfl | later
    · exact sized _ rfl
    · exact sizes o later

/-! ## Feeding -/

theorem feed_rest (d : Decoder C I) (input : List UInt8) :
    (d.feed input).rest = d.rest ++ input := by
  rw [Decoder.feed]
  split
  · rename_i empty
    rw [empty, List.append_nil]
  · rfl

theorem feed_seen (d : Decoder C I) (input : List UInt8) :
    (d.feed input).seenInput = true ↔ d.seenInput = true ∨ input ≠ [] := by
  rw [Decoder.feed]
  split
  · rename_i empty
    simp [empty]
  · rename_i some
    simp [some]

theorem feed_kept (d : Decoder C I) (input : List UInt8) :
    mode (d.feed input) = mode d ∧ (d.feed input).coding = d.coding ∧
      (d.feed input).room = d.room := by
  rw [Decoder.feed]
  split
  · exact ⟨rfl, rfl, rfl⟩
  · exact ⟨rfl, rfl, rfl⟩

theorem feed_ready {d : Decoder C I} (ready : Ready d) (input : List UInt8) :
    Ready (d.feed input) := by
  rw [Decoder.feed]
  split
  · exact ready
  · exact ⟨ready.sound, ready.unfinished, ready.small, ready.room, ready.fresh⟩

/-- The division of a body up to some chunk. -/
inductive Fed : Decoder C I → List (List UInt8) → List (List UInt8) → Decoder C I → Prop where
  | none {d : Decoder C I} : Fed d [] [] d
  | feed {d d' d'' : Decoder C I} {chunk : List UInt8} {chunks outs outs' : List (List UInt8)}
    (drained : Drain (d.feed chunk) outs (.ok d')) (rest : Fed d' chunks outs' d'') :
    Fed d (chunk :: chunks) (outs ++ outs') d''

/-- A decoder between two chunks. -/
structure Between (later : List UInt8) (d : Decoder C I) : Prop where
  ready : Ready d
  starved : Starved d
  short : Short d.coding (mode d) (d.rest ++ later)

theorem between_feed {chunk later : List UInt8} {d : Decoder C I}
    (between : Between (chunk ++ later) d) :
    Ready (d.feed chunk) ∧
      Short (d.feed chunk).coding (mode (d.feed chunk)) ((d.feed chunk).rest ++ later) := by
  obtain ⟨same, coding, _⟩ := feed_kept d chunk
  rw [same, coding, feed_rest, List.append_assoc]
  exact ⟨feed_ready between.ready chunk, between.short⟩

theorem between_drain {chunk later : List UInt8} {d d' : Decoder C I} {outs : List (List UInt8)}
    (between : Between (chunk ++ later) d) (drained : Drain (d.feed chunk) outs (.ok d')) :
    Kept later (d.feed chunk) outs.flatten d' ∧ Between later d' := by
  obtain ⟨ready, short⟩ := between_feed between
  obtain ⟨⟨kept, starved⟩, _⟩ := drain_leaves drained ready short
  exact ⟨kept, kept.ready, starved, kept.short⟩

theorem between_fed {later : List UInt8} {d d' : Decoder C I} {chunks outs : List (List UInt8)}
    (fed : Fed d chunks outs d') (between : Between (chunks.flatten ++ later) d) :
    Between later d' := by
  induction fed with
  | none => exact between
  | feed drained rest ih =>
    rw [List.flatten_cons, List.append_assoc] at between
    exact ih (between_drain between drained).2

/-! ## The end of the body -/

theorem starved_reads {coding : Coding} {d : Decoder C I} (ready : Ready d) (starved : Starved d) :
    reads coding (mode d) d.rest = none := by
  rw [Starved] at starved
  rw [mode]
  cases state : d.state with
  | gzHeader first =>
    rw [state] at starved
    dsimp only at starved ⊢
    rw [starved, reads, scan]
    exact if_neg ready.unfinished
  | sniff =>
    rw [state] at starved
    dsimp only at starved ⊢
    cases bytes : d.rest with
    | nil => rfl
    | cons cmf rest =>
      cases rest with
      | nil => rfl
      | cons flg rest =>
        rw [bytes, List.length_cons, List.length_cons] at starved
        omega
  | inflate =>
    rw [state] at starved
    dsimp only at starved ⊢
    rw [starved.1, reads, starved.2]
  | gzTrailer =>
    rw [state] at starved
    dsimp only at starved ⊢
    rw [reads]
    exact if_neg fun enough => by omega
  | done => rfl

theorem clean_nil {m : Mode C I} {x : List UInt8} (clean : Clean m x) : x = [] := by
  cases m with
  | header first h => exact clean.2.2
  | done => exact clean
  | sniff crc => exact absurd clean id
  | inflate st crc => exact absurd clean id
  | trailer crc => exact absurd clean id

theorem finish_ok {d : Decoder C I} (seen : d.seenInput = true) :
    d.finish = .ok () ↔ Clean (mode d) d.rest := by
  rw [Decoder.finish, if_neg (by simp [seen]), mode]
  cases d.state with
  | gzHeader first =>
    cases first with
    | true =>
      constructor
      · intro passed
        cases passed
      · rintro ⟨first, _⟩
        cases first
    | false =>
      have started : d.hdr.started = false ↔ d.hdr.len = 0 := by
        rw [GzHeader.started]
        simp
      dsimp only [Clean]
      rw [← started]
      split
      · rename_i both
        exact ⟨fun _ => ⟨rfl, both.2, both.1⟩, fun _ => rfl⟩
      · rename_i other
        exact ⟨fun passed => (by cases passed), fun clean => absurd ⟨clean.2.2, clean.2.1⟩ other⟩
  | sniff => exact ⟨fun passed => (by cases passed), fun clean => absurd clean id⟩
  | inflate => exact ⟨fun passed => (by cases passed), fun clean => absurd clean id⟩
  | gzTrailer => exact ⟨fun passed => (by cases passed), fun clean => absurd clean id⟩
  | done =>
    dsimp only [Clean]
    split
    · rename_i empty
      exact ⟨fun _ => empty, fun _ => rfl⟩
    · rename_i some
      exact ⟨fun passed => (by cases passed), fun empty => absurd empty some⟩

/-- What decoding a body ends with. -/
def Decided (coding : Coding) (m : Mode C I) (x o : List UInt8) : Except DecodeError Unit → Prop
  | .ok _ => Decodes coding m x o
  | .error _ => (∀ out, ¬Decodes coding m x out) ∧ Yields coding m x o

theorem finish_decided {d : Decoder C I} (ready : Ready d) (starved : Starved d)
    (seen : d.seenInput = true) : Decided d.coding (mode d) d.rest [] d.finish := by
  have finished := finish_ok seen
  cases answer : d.finish with
  | ok u => exact .ends (finished.mp answer)
  | error e =>
    refine ⟨?_, yields_nil ..⟩
    intro out decodes
    cases decodes with
    | ends clean =>
      rw [finished.mpr clean] at answer
      cases answer
    | reads part rest =>
      rw [starved_reads ready starved] at part
      cases part

theorem kept_decided {o o' : List UInt8} {tail : List UInt8} {d d' : Decoder C I}
    {r : Except DecodeError Unit} (kept : Kept tail d o d')
    (decided : Decided d'.coding (mode d') (d'.rest ++ tail) o' r) :
    Decided d.coding (mode d) (d.rest ++ tail) (o ++ o') r := by
  cases r with
  | ok u =>
    rw [kept.coding] at decided
    exact (kept.carried.decodes _).mpr ⟨o', rfl, decided⟩
  | error e => exact ⟨kept_refuted kept decided.1, kept_yields kept decided.2⟩

theorem decode_decided {d : Decoder C I} {chunks outs : List (List UInt8)}
    {r : Except DecodeError Unit} (decode : Decode d chunks outs r)
    (between : Between chunks.flatten d) (seen : d.seenInput = true ∨ chunks.flatten ≠ []) :
    Decided d.coding (mode d) (d.rest ++ chunks.flatten) outs.flatten r := by
  induction decode with
  | @finish d =>
    rw [List.flatten_nil, List.append_nil]
    have fed : d.seenInput = true := seen.resolve_right fun some => some rfl
    exact finish_decided between.ready between.starved fed
  | @feed d d' chunk chunks outs outs' r drained rest ih =>
    rw [List.flatten_cons] at between seen ⊢
    obtain ⟨kept, between'⟩ := between_drain between drained
    obtain ⟨same, coding, _⟩ := feed_kept d chunk
    have seen' : d'.seenInput = true ∨ chunks.flatten ≠ [] := by
      rw [kept.seen, feed_seen]
      by_cases empty : chunk = []
      · rw [empty, List.nil_append] at seen
        rcases seen with seen | some
        · exact .inl (.inl seen)
        · exact .inr some
      · exact .inl (.inr empty)
    have decided := kept_decided kept (ih between' seen')
    rw [same, coding, feed_rest, List.append_assoc] at decided
    rw [List.flatten_append]
    exact decided
  | @fail d chunk chunks outs e drained =>
    rw [List.flatten_cons] at between ⊢
    obtain ⟨ready, short⟩ := between_feed between
    obtain ⟨same, coding, _⟩ := feed_kept d chunk
    have failed := (drain_leaves drained ready short).1
    rw [Drained, same, coding, feed_rest, List.append_assoc] at failed
    exact failed

theorem decode_sizes {d : Decoder C I} {chunks outs : List (List UInt8)}
    {r : Except DecodeError Unit} (decode : Decode d chunks outs r)
    (between : Between chunks.flatten d) : ∀ out ∈ outs, out ≠ [] ∧ out.length ≤ d.room := by
  induction decode with
  | finish => nofun
  | @feed d d' chunk chunks outs outs' r drained rest ih =>
    rw [List.flatten_cons] at between
    obtain ⟨ready, short⟩ := between_feed between
    obtain ⟨kept, between'⟩ := between_drain between drained
    have now := (drain_leaves drained ready short).2
    have later := ih between'
    rw [kept.room] at later
    rw [(feed_kept d chunk).2.2] at now later
    intro out member
    rcases List.mem_append.mp member with here | there
    · exact now out here
    · exact later out there
  | @fail d chunk chunks outs e drained =>
    rw [List.flatten_cons] at between
    obtain ⟨ready, short⟩ := between_feed between
    have now := (drain_leaves drained ready short).2
    rw [(feed_kept d chunk).2.2] at now
    exact now

/-! ## A body without bytes -/

/-- A new decoder, before the first byte. -/
def Idle (d : Decoder C I) : Prop :=
  d.rest = [] ∧ d.seenInput = false ∧ ((∃ first, d.state = .gzHeader first) ∨ d.state = .sniff)

theorem turn_idle {d : Decoder C I} (idle : Idle d) (late : Bool) :
    d.work.turn late = .ends d.work .needInput := by
  obtain ⟨empty, _, state⟩ := idle
  have begun : ¬stepMaxInput ≤ d.work.used := Nat.not_succ_le_zero _
  rw [Work.turn, if_neg begun, if_neg fun both => both.1.elim (Nat.lt_irrefl 0) fun h => h rfl]
  rcases state with ⟨first, state⟩ | state
  · rw [Decoder.work]
    dsimp only
    rw [state]
    exact if_pos empty
  · rw [Decoder.work]
    dsimp only
    rw [state]
    dsimp only [Work.sniffTurn]
    rw [empty]

theorem next_idle {d : Decoder C I} {r : Except DecodeError (Decoder C I × Next)} (idle : Idle d)
    (next : NextChunk d r) : r = .ok (d, .needInput) := by
  have turned := turn_idle idle
  cases next with
  | ok step =>
    cases step with
    | ends other =>
      rw [turned] at other
      cases other
      rfl
    | goes other rest =>
      rw [turned] at other
      cases other
  | error step =>
    cases step with
    | fails other =>
      rw [turned] at other
      cases other
    | goes other rest =>
      rw [turned] at other
      cases other

theorem drain_idle {d : Decoder C I} {outs : List (List UInt8)}
    {r : Except DecodeError (Decoder C I)} (idle : Idle d) (drain : Drain d outs r) :
    outs = [] ∧ r = .ok d := by
  cases drain with
  | needInput next =>
    cases next_idle idle next
    exact ⟨rfl, rfl⟩
  | yield next rest => cases next_idle idle next
  | chunk next rest => cases next_idle idle next
  | error next => cases next_idle idle next

theorem decode_idle {d : Decoder C I} {chunks outs : List (List UInt8)}
    {r : Except DecodeError Unit} (decode : Decode d chunks outs r) (idle : Idle d)
    (empty : chunks.flatten = []) : outs = [] ∧ r = .ok () := by
  induction decode with
  | finish =>
    rw [Decoder.finish]
    exact ⟨rfl, if_pos idle.2.1⟩
  | @feed d d' chunk chunks outs outs' r drained rest ih =>
    obtain ⟨none, later⟩ := List.append_eq_nil_iff.mp empty
    rw [none, Decoder.feed, if_pos rfl] at drained
    obtain ⟨nothing, same⟩ := drain_idle idle drained
    cases same
    obtain ⟨nothing', success⟩ := ih idle later
    rw [nothing, nothing']
    exact ⟨rfl, success⟩
  | @fail d chunk chunks outs e drained =>
    obtain ⟨none, later⟩ := List.append_eq_nil_iff.mp empty
    rw [none, Decoder.feed, if_pos rfl] at drained
    cases (drain_idle idle drained).2

end FerroEngine.ContentDecodingRuns
