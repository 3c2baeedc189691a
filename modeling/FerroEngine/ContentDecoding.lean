import FerroEngine.ContentDecoder
import FerroEngine.GzipHeaderChunks

set_option autoImplicit false

/-! # Decoding a body in chunks

What a whole body decodes to, stage by stage, and that the decoder arrives there however the body
is cut and whenever the clock ends a step.
-/

namespace FerroEngine.ContentDecoding

open GzipHeader GzipHeaderBytes GzipHeaderChunks ContentDecoder

variable {C : Checksum} {I : Inflate}

/-! ## Whole bodies -/

/-- What is being read. -/
inductive Mode (C : Checksum) (I : Inflate) where
  | header (first : Bool) (h : GzHeader C)
  | sniff (crc : C.Crc)
  | inflate (st : I.St) (crc : C.Crc)
  | trailer (crc : C.Crc)
  | done

/-- Reads one part of a body whole: what comes next, the bytes after the part, and its output. -/
def reads (coding : Coding) : Mode C I → List UInt8 → Option (Mode C I × List UInt8 × List UInt8)
  | .header _ h, x =>
    match scan h x with
    | .ok g =>
      if g.stage = .done then some (.inflate (I.fresh false) C.new, x.drop (g.len - h.len), [])
      else none
    | .error _ => none
  | .sniff crc, cmf :: flg :: x =>
    some (.inflate (I.fresh (isZlib cmf flg)) crc, cmf :: flg :: x, [])
  | .sniff _, _ => none
  | .inflate st crc, x =>
    match I.whole st x with
    | ⟨out, .ended used⟩ =>
      match coding with
      | .gzip => some (.trailer (C.update crc out), x.drop used, out)
      | .deflate => some (.done, x.drop used, out)
    | _ => none
  | .trailer crc, x =>
    if 8 ≤ x.length ∧ trailerMatches crc (x.take 8) = true then
      some (.header false (.new C), x.drop 8, [])
    else none
  | .done, _ => none

/-- Where a body may end. -/
def Clean : Mode C I → List UInt8 → Prop
  | .header first h, x => first = false ∧ h.len = 0 ∧ x = []
  | .done, x => x = []
  | _, _ => False

inductive Decodes (coding : Coding) : Mode C I → List UInt8 → List UInt8 → Prop where
  | ends {m : Mode C I} {x : List UInt8} (clean : Clean m x) : Decodes coding m x []
  | reads {m m' : Mode C I} {x y out out' : List UInt8} (part : reads coding m x = some (m', y, out))
    (rest : Decodes coding m' y out') : Decodes coding m x (out ++ out')

/-- What one part puts out before it has been read whole. -/
def Partial : Mode C I → List UInt8 → List UInt8 → Prop
  | .inflate st _, x, o => o <+: (I.whole st x).out
  | _, _, o => o = []

/-- What may have been put out at some point of a body. -/
inductive Yields (coding : Coding) : Mode C I → List UInt8 → List UInt8 → Prop where
  | within {m : Mode C I} {x o : List UInt8} (part : Partial m x o) : Yields coding m x o
  | reads {m m' : Mode C I} {x y out o : List UInt8} (part : reads coding m x = some (m', y, out))
    (rest : Yields coding m' y o) : Yields coding m x (out ++ o)

inductive Leads (coding : Coding) : Mode C I → List UInt8 → Mode C I → List UInt8 → Prop where
  | refl {m : Mode C I} {x : List UInt8} : Leads coding m x m x
  | reads {m m' m'' : Mode C I} {x y z out : List UInt8} (part : reads coding m x = some (m', y, out))
    (rest : Leads coding m' y m'' z) : Leads coding m x m'' z

/-- Every member header that the body has is shorter than the limit. -/
def Short (coding : Coding) (m : Mode C I) (x : List UInt8) : Prop :=
  ∀ first h y g, Leads coding m x (.header first h) y → scan h y = .ok g → g.stage = .done →
    g.len < maxGzipHeader

/-- Nothing is left to read at a clean end. -/
theorem reads_of_clean {coding : Coding} {m : Mode C I} {x : List UInt8}
    (open_header : ∀ first h, m = .header first h → h.stage ≠ .done) (clean : Clean m x) :
    reads coding m x = none := by
  cases m with
  | header first h =>
    obtain ⟨-, -, rfl⟩ := clean
    rw [reads, scan]
    exact if_neg (open_header first h rfl)
  | sniff crc => exact absurd clean id
  | inflate st crc => exact absurd clean id
  | trailer crc => exact absurd clean id
  | done => rfl

/-! ## What a turn carries over -/

/-- From `m` with `x` to `m'` with `y`, with `o` put out, where `tail` is still to come. -/
structure Carried (coding : Coding) (tail : List UInt8) (m : Mode C I) (x o : List UInt8)
    (m' : Mode C I) (y : List UInt8) : Prop where
  short : Short coding m' (y ++ tail)
  decodes : ∀ out, Decodes coding m (x ++ tail) out ↔
    ∃ out', out = o ++ out' ∧ Decodes coding m' (y ++ tail) out'
  yields : ∀ z, Yields coding m' (y ++ tail) z → Yields coding m (x ++ tail) (o ++ z)

theorem carried_refl {coding : Coding} {tail : List UInt8} {m : Mode C I} {x : List UInt8}
    (short : Short coding m (x ++ tail)) : Carried coding tail m x [] m x := by
  refine ⟨short, ?_, fun _ yields => yields⟩
  intro out
  constructor
  · intro decodes
    exact ⟨out, rfl, decodes⟩
  · rintro ⟨out', rfl, decodes⟩
    exact decodes

theorem carried_trans {coding : Coding} {tail : List UInt8} {m m' m'' : Mode C I}
    {x y z o o' : List UInt8} (first : Carried coding tail m x o m' y)
    (second : Carried coding tail m' y o' m'' z) :
    Carried coding tail m x (o ++ o') m'' z := by
  refine ⟨second.short, ?_, ?_⟩
  · intro out
    rw [first.decodes]
    constructor
    · rintro ⟨out', rfl, decodes⟩
      obtain ⟨out'', rfl, decodes'⟩ := (second.decodes out').mp decodes
      exact ⟨out'', (List.append_assoc ..).symm, decodes'⟩
    · rintro ⟨out'', rfl, decodes⟩
      exact ⟨o' ++ out'', List.append_assoc .., (second.decodes _).mpr ⟨out'', rfl, decodes⟩⟩
  · intro z yields
    rw [List.append_assoc]
    exact first.yields _ (second.yields z yields)

/-- A part read whole. -/
theorem carried_part {coding : Coding} {tail : List UInt8} {m m' : Mode C I} {x y o : List UInt8}
    (short : Short coding m (x ++ tail)) (dirty : ¬Clean m (x ++ tail))
    (part : reads coding m (x ++ tail) = some (m', y ++ tail, o)) :
    Carried coding tail m x o m' y := by
  constructor
  · intro first h z g leads scanned done
    exact short first h z g (.reads part leads) scanned done
  · intro out
    constructor
    · intro decodes
      cases decodes with
      | ends clean => exact absurd clean dirty
      | reads other rest =>
        rw [part] at other
        cases other
        exact ⟨_, rfl, rest⟩
    · rintro ⟨out', rfl, rest⟩
      exact .reads part rest
  · intro z rest
    exact .reads part rest

/-- A part of which some more has been read. -/
theorem carried_within {coding : Coding} {tail : List UInt8} {m m' : Mode C I} {x y o : List UInt8}
    (short : Short coding m (x ++ tail)) (dirty : ¬Clean m (x ++ tail))
    (dirty' : ¬Clean m' (y ++ tail))
    (part : reads coding m (x ++ tail) =
      (reads coding m' (y ++ tail)).map fun p => (p.1, p.2.1, o ++ p.2.2))
    (within : ∀ z, Partial m' (y ++ tail) z → Partial m (x ++ tail) (o ++ z))
    (header : ∀ first' h' g, m' = .header first' h' → scan h' (y ++ tail) = .ok g →
      ∃ first h, m = .header first h ∧ scan h (x ++ tail) = .ok g) :
    Carried coding tail m x o m' y := by
  constructor
  · intro first h z g leads scanned done
    cases leads with
    | refl =>
      obtain ⟨first', h', rfl, scanned'⟩ := header first h g rfl scanned
      exact short first' h' _ g .refl scanned' done
    | reads next rest =>
      rw [next] at part
      exact short first h z g (.reads part rest) scanned done
  · intro out
    constructor
    · intro decodes
      cases decodes with
      | ends clean => exact absurd clean dirty
      | reads next rest =>
        rw [part] at next
        obtain ⟨⟨m'', z, o'⟩, next', same⟩ := Option.map_eq_some_iff.mp next
        cases same
        exact ⟨_, List.append_assoc .., .reads next' rest⟩
    · rintro ⟨out', rfl, decodes⟩
      cases decodes with
      | ends clean => exact absurd clean dirty'
      | reads next rest =>
        rw [next] at part
        rw [← List.append_assoc]
        exact .reads part rest
  · intro z yields
    cases yields with
    | within here => exact .within (within z here)
    | reads next rest =>
      rw [next] at part
      rw [← List.append_assoc]
      exact .reads part rest

/-! ## The decoder -/

def mode (d : Decoder C I) : Mode C I :=
  match d.state with
  | .gzHeader first => .header first d.hdr
  | .sniff => .sniff d.crc
  | .inflate => .inflate d.inflate d.crc
  | .gzTrailer => .trailer d.crc
  | .done => .done

/-- The header in progress is not finished and within its limit, and outside it there is none. -/
structure Ready (d : Decoder C I) : Prop where
  sound : Sound d.hdr
  unfinished : d.hdr.stage ≠ .done
  small : d.hdr.len < maxGzipHeader
  room : 0 < d.room
  fresh : (∀ first, d.state ≠ .gzHeader first) → d.hdr = .new C

/-- A decoder that can do nothing without more input. -/
def Starved (d : Decoder C I) : Prop :=
  match d.state with
  | .gzHeader _ => d.rest = []
  | .sniff => d.rest.length < 2
  | .inflate => d.rest = [] ∧ I.whole d.inflate [] = ⟨[], .more⟩
  | .gzTrailer => d.rest.length < 8
  | .done => d.rest = []

theorem carry_of_starved {d : Decoder C I} (starved : Starved d) : d.rest.length ≤ 7 := by
  rw [Starved] at starved
  split at starved
  · rw [starved]
    exact Nat.zero_le _
  · omega
  · rw [starved.1]
    exact Nat.zero_le _
  · omega
  · rw [starved]
    exact Nat.zero_le _

/-! ## One turn -/

/-- What putting out `o` leaves, where `tail` is still to come. -/
structure Kept (tail : List UInt8) (d : Decoder C I) (o : List UInt8) (d' : Decoder C I) :
    Prop where
  ready : Ready d'
  coding : d'.coding = d.coding
  seen : d'.seenInput = d.seenInput
  room : d'.room = d.room
  carried : Carried d.coding tail (mode d) d.rest o (mode d') d'.rest

structure Turned (tail : List UInt8) (w w' : Work C I) : Prop where
  filled : w'.out.length ≤ w'.decoder.room
  kept : ∃ o, w'.out = w.out ++ o ∧ Kept tail w.decoder o w'.decoder

/-- What is known before a turn. -/
structure Before (tail : List UInt8) (w : Work C I) : Prop where
  ready : Ready w.decoder
  filled : w.out.length ≤ w.decoder.room
  short : Short w.decoder.coding (mode w.decoder) (w.decoder.rest ++ tail)

def Answers (tail : List UInt8) (w : Work C I) : Turn C I → Prop
  | .goes w' => Turned tail w w'
  | .ends w' e => Turned tail w w' ∧ (e = .needInput → Starved w'.decoder)
  | .fails _ => ∀ out, ¬Decodes w.decoder.coding (mode w.decoder) (w.decoder.rest ++ tail) out

theorem turned_refl {tail : List UInt8} {w : Work C I} (before : Before tail w) :
    Turned tail w w :=
  ⟨before.filled, [], (List.append_nil _).symm, before.ready, rfl, rfl, rfl,
    carried_refl before.short⟩

theorem ready_new (C : Checksum) : Sound (GzHeader.new C) ∧ (GzHeader.new C).stage ≠ .done ∧
    (GzHeader.new C).len < maxGzipHeader :=
  ⟨sound_new C, nofun, Nat.succ_pos _⟩

/-- A header within the limit is read as it is byte by byte. -/
theorem advance_short {first : Bool} {h : GzHeader C} {b tail : List UInt8} {coding : Coding}
    (sound : Sound h) (unfinished : h.stage ≠ .done) (small : h.len < maxGzipHeader)
    (short : Short (I := I) coding (.header first h) (b ++ tail)) :
    h.advance b = expected h b := by
  rcases advance_expected sound unfinished small b with same | ⟨g, excess⟩
  · exact same
  · have scanned : scan h (b ++ tail) = .ok g := by
      rw [scan_append tail excess.scans, scan_done excess.done]
    have less := short first h _ g .refl scanned excess.done
    have long := excess.long
    omega

theorem expected_done {h g : GzHeader C} {b : List UInt8} {used : Nat} (sound : Sound h)
    (answer : expected h b = .ok (g, used)) (done : g.stage = .done) :
    scan h b = .ok g ∧ used = g.len - h.len ∧ used ≤ b.length := by
  rw [expected] at answer
  cases scanned : scan h b with
  | error e =>
    rw [scanned] at answer
    cases answer
  | ok g' =>
    have most := (scan_reads sound scanned).len.2
    rw [scanned] at answer
    dsimp only at answer
    split at answer
    · split at answer
      · cases answer
        exact ⟨rfl, rfl, by omega⟩
      · cases answer
    · rename_i unfinished
      split at answer
      · cases answer
      · cases answer
        exact absurd done unfinished

theorem header_fails {first : Bool} {h : GzHeader C} {b tail : List UInt8} {coding : Coding}
    {e : DecodeError} (sound : Sound h) (some : b ≠ [])
    (short : Short (I := I) coding (.header first h) (b ++ tail))
    (answer : expected h b = .error e) (out : List UInt8) :
    ¬Decodes (I := I) coding (.header first h) (b ++ tail) out := by
  have refused := expected_append_error sound answer tail
  intro decodes
  cases decodes with
  | ends clean => exact some (List.append_eq_nil_iff.mp clean.2.2).1
  | reads part rest =>
    rw [reads] at part
    cases scanned : scan h (b ++ tail) with
    | error e' =>
      rw [scanned] at part
      cases part
    | ok g =>
      rw [scanned] at part
      dsimp only at part
      split at part
      · rename_i done
        have less := short first h _ g .refl scanned done
        rw [expected, scanned] at refused
        dsimp only at refused
        rw [if_pos done, if_pos (Nat.le_of_lt less)] at refused
        cases refused
      · cases part

theorem headerTurn_answers {tail : List UInt8} {w : Work C I} {first : Bool}
    (before : Before tail w) (state : w.decoder.state = .gzHeader first) :
    Answers tail w w.headerTurn := by
  have ⟨⟨sound, unfinished, small, room, _⟩, filled, short⟩ := before
  have here : mode w.decoder = .header first w.decoder.hdr := by
    rw [mode, state]
  rw [Work.headerTurn]
  dsimp only
  split
  · rename_i empty
    refine ⟨turned_refl before, ?_⟩
    intro _
    rw [Starved, state]
    exact empty
  · rename_i some
    split
    · exact ⟨turned_refl before, nofun⟩
    · rw [here] at short
      rw [advance_short sound unfinished small short]
      cases answer : expected w.decoder.hdr w.decoder.rest with
      | error e =>
        intro out
        rw [here]
        exact header_fails sound some short answer out
      | ok p =>
        obtain ⟨g, used⟩ := p
        have dirty : ¬Clean (I := I) (.header first w.decoder.hdr) (w.decoder.rest ++ tail) := by
          rintro ⟨-, -, empty⟩
          exact some (List.append_eq_nil_iff.mp empty).1
        dsimp only
        split
        · rename_i done
          obtain ⟨scanned, consumed, le⟩ := expected_done sound answer done
          obtain ⟨sound', unfinished', small'⟩ := ready_new C
          refine ⟨filled, [], (List.append_nil _).symm,
            ⟨sound', unfinished', small', room, fun _ => rfl⟩, rfl, rfl, rfl, ?_⟩
          rw [here]
          apply carried_part short dirty
          rw [reads, scan_append tail scanned, scan_done done]
          dsimp only
          rw [if_pos done, ← consumed, List.drop_append_of_le_length le]
          rfl
        · rename_i unfinished'
          obtain ⟨scanned, small', all⟩ := expected_more answer unfinished'
          have next := scan_reads sound scanned
          have len := next.unfinished unfinished'
          have pos : 0 < w.decoder.rest.length := List.length_pos_iff.mpr some
          have left : w.decoder.rest.drop used = [] := by
            rw [all, List.drop_length]
          refine ⟨⟨filled, [], (List.append_nil _).symm,
            ⟨next.sound, unfinished', small', room, fun other => absurd state (other first)⟩,
            rfl, rfl, rfl, ?_⟩, ?_⟩
          · have here' : mode { w.decoder with
                rest := w.decoder.rest.drop used
                hdr := g } = .header first g := by
              rw [mode]
              dsimp only
              rw [state]
            rw [here, here', left]
            apply carried_within short dirty
            · rintro ⟨-, zero, -⟩
              omega
            · rw [reads, reads, scan_append tail scanned, List.nil_append]
              cases rest : scan g tail with
              | error e => rfl
              | ok g' =>
                have least := (scan_reads next.sound rest).len.1
                dsimp only
                split
                · have drops : (w.decoder.rest ++ tail).drop (g'.len - w.decoder.hdr.len) =
                      tail.drop (g'.len - g.len) := by
                    rw [List.drop_append, List.drop_of_length_le (by omega), List.nil_append]
                    congr 1
                    omega
                  rw [drops]
                  rfl
                · rfl
            · intro z none
              exact none
            · intro first' h' g' same scanned'
              cases same
              refine ⟨first, _, rfl, ?_⟩
              rw [scan_append tail scanned]
              exact scanned'
          · intro _
            rw [Starved]
            dsimp only
            rw [state]
            exact left

theorem sniffTurn_answers {tail : List UInt8} {w : Work C I} (before : Before tail w)
    (state : w.decoder.state = .sniff) : Answers tail w w.sniffTurn := by
  have here : mode w.decoder = .sniff w.decoder.crc := by
    rw [mode, state]
  rw [Work.sniffTurn]
  split
  · rename_i cmf flg rest bytes
    obtain ⟨⟨sound, unfinished, small, room, fresh⟩, filled, short⟩ := before
    have new : w.decoder.hdr = .new C := fresh fun first => by rw [state]; nofun
    refine ⟨filled, [], (List.append_nil _).symm, ⟨sound, unfinished, small, room, fun _ => new⟩,
      rfl, rfl, rfl, ?_⟩
    rw [here] at short ⊢
    apply carried_part short id
    dsimp only
    rw [bytes]
    rfl
  · rename_i short
    refine ⟨turned_refl before, ?_⟩
    intro _
    rw [Starved, state]
    dsimp only
    cases bytes : w.decoder.rest with
    | nil => exact Nat.zero_lt_two
    | cons cmf rest =>
      cases rest with
      | nil => exact Nat.one_lt_two
      | cons flg rest => exact absurd bytes (short cmf flg rest)

theorem resume {α : Type} {xs tail : List α} {b n : Nat} (le : n ≤ (xs.take b).length) :
    (xs.take b).drop n ++ (xs.drop b ++ tail) = xs.drop n ++ tail := by
  rw [← List.append_assoc, ← List.drop_append_of_le_length le, List.take_append_drop]

theorem whole_cut (st : I.St) (xs tail : List UInt8) (b : Nat) :
    I.whole st (xs ++ tail) = I.whole st (xs.take b ++ (xs.drop b ++ tail)) := by
  rw [← List.append_assoc, List.take_append_drop]

/-- A part of the stream has been inflated, and the checksum follows. -/
theorem reads_inflate {coding : Coding} {st st' : I.St} {crc crc' : C.Crc}
    {x y o : List UInt8} {n : Nat} (drop : x.drop n = y)
    (whole : I.whole st x = (I.whole st' y).behind n o)
    (sum : coding = .gzip → crc' = C.update crc o) :
    reads coding (.inflate st crc) x =
      (reads coding (.inflate st' crc') y).map fun p => (p.1, p.2.1, o ++ p.2.2) := by
  rw [reads, reads, whole]
  cases I.whole st' y with
  | mk out fate =>
    cases fate with
    | ended used =>
      cases coding with
      | gzip =>
        rw [Inflated.behind]
        dsimp only
        rw [sum rfl, C.update_append, ← drop, List.drop_drop]
        rfl
      | deflate =>
        rw [Inflated.behind]
        dsimp only
        rw [← drop, List.drop_drop]
        rfl
    | more => rfl
    | bad => rfl

theorem inflateTurn_answers {tail : List UInt8} {w : Work C I} (before : Before tail w)
    (state : w.decoder.state = .inflate) : Answers tail w w.inflateTurn := by
  have here : mode w.decoder = .inflate w.decoder.inflate w.decoder.crc := by
    rw [mode, state]
  rw [Work.inflateTurn]
  dsimp only
  split
  · exact ⟨turned_refl before, nofun⟩
  · rename_i notFull
    generalize budget : min (stepMaxInput - w.used) inflateSlice = b
    have cut := whole_cut w.decoder.inflate w.decoder.rest tail b
    cases called : I.decompress w.decoder.inflate (w.decoder.rest.take b)
        (w.decoder.room - w.out.length) with
    | none =>
      intro out decodes
      rw [here] at decodes
      cases decodes with
      | ends clean => exact clean
      | reads part rest =>
        have bad := I.fails called (w.decoder.rest.drop b ++ tail)
        rw [← cut] at bad
        rw [reads] at part
        split at part
        · rename_i ended
          rw [ended] at bad
          cases bad
        · cases part
    | some p =>
      obtain ⟨⟨sound, unfinished, small, room, fresh⟩, filled, short⟩ := before
      have new : w.decoder.hdr = .new C := fresh fun first => by rw [state]; nofun
      obtain ⟨consumed, produced⟩ := I.bounded called
      have le : p.consumed ≤ w.decoder.rest.length :=
        Nat.le_trans consumed (List.length_take_le' ..)
      have drop : (w.decoder.rest ++ tail).drop p.consumed =
          w.decoder.rest.drop p.consumed ++ tail := List.drop_append_of_le_length le
      have fits : (w.out ++ p.out).length ≤ w.decoder.room := by
        rw [List.length_append]
        omega
      rw [here] at short
      dsimp only
      have others (notEnd : p.status ≠ .streamEnd) : Turned tail w
          { w with
            used := w.used + p.consumed
            out := w.out ++ p.out
            decoder := { w.decoder with
              inflate := p.state
              rest := w.decoder.rest.drop p.consumed
              crc := if w.decoder.coding = .gzip then C.update w.decoder.crc p.out
                else w.decoder.crc } } := by
        refine ⟨fits, p.out, rfl, ⟨sound, unfinished, small, room, fun _ => new⟩, rfl, rfl, rfl, ?_⟩
        have whole := I.goes_on called notEnd (w.decoder.rest.drop b ++ tail)
        rw [← cut, resume consumed] at whole
        rw [here, mode, state]
        apply carried_within short id id
        · apply reads_inflate drop whole
          intro gzip
          exact if_pos gzip
        · intro z here
          rw [Partial, whole]
          exact (List.prefix_append_right_inj _).mpr here
        · intro first' h' g same
          cases same
      have stays (notEnd : p.status ≠ .streamEnd) (silent : p.out = [] ∧ p.consumed = 0)
          (all : ¬b < w.decoder.rest.length) :
          w.decoder.rest.drop p.consumed = [] ∧ I.whole p.state [] = ⟨[], .more⟩ := by
        obtain ⟨nothing, starved⟩ := I.progress called (by omega) notEnd silent.2 silent.1
        rw [List.take_of_length_le (Nat.le_of_not_lt all)] at nothing
        rw [nothing]
        exact ⟨List.drop_nil, starved⟩
      split
      · rename_i status
        refine ⟨fits, p.out, rfl, ⟨sound, unfinished, small, room, fun _ => new⟩, rfl, rfl, rfl, ?_⟩
        have whole := I.ends called status (w.decoder.rest.drop b ++ tail)
        rw [← cut] at whole
        rw [here]
        apply carried_part short id
        rw [reads, whole]
        dsimp only
        rw [drop]
        cases coding : w.decoder.coding with
        | gzip =>
          rw [mode]
          rfl
        | deflate => rfl
      · rename_i notEnd
        split
        · rename_i silent
          refine ⟨others notEnd, ?_⟩
          intro needs
          split at needs
          · cases needs
          · rename_i all
            rw [Starved]
            dsimp only
            rw [state]
            exact stays notEnd silent all
        · exact others notEnd

theorem trailerTurn_answers {tail : List UInt8} {w : Work C I} (before : Before tail w)
    (state : w.decoder.state = .gzTrailer) : Answers tail w w.trailerTurn := by
  have here : mode w.decoder = .trailer w.decoder.crc := by
    rw [mode, state]
  rw [Work.trailerTurn]
  split
  · rename_i less
    refine ⟨turned_refl before, ?_⟩
    intro _
    rw [Starved, state]
    exact less
  · rename_i enough
    have eight : 8 ≤ w.decoder.rest.length := Nat.le_of_not_lt enough
    have all : 8 ≤ (w.decoder.rest ++ tail).length := by
      rw [List.length_append]
      omega
    have same : (w.decoder.rest ++ tail).take 8 = w.decoder.rest.take 8 :=
      List.take_append_of_le_length eight
    split
    · rename_i matched
      obtain ⟨⟨sound, unfinished, small, room, fresh⟩, filled, short⟩ := before
      have new : w.decoder.hdr = .new C := fresh fun first => by rw [state]; nofun
      refine ⟨filled, [], (List.append_nil _).symm, ⟨sound, unfinished, small, room, fun _ => new⟩,
        rfl, rfl, rfl, ?_⟩
      rw [here] at short ⊢
      apply carried_part short id
      rw [reads, same, if_pos ⟨all, matched⟩, List.drop_append_of_le_length eight, mode]
      dsimp only
      rw [new]
    · rename_i mismatched
      intro out decodes
      rw [here] at decodes
      cases decodes with
      | ends clean => exact clean
      | reads part rest =>
        rw [reads, same, if_neg fun both => mismatched both.2] at part
        cases part

theorem turn_answers {tail : List UInt8} {w : Work C I} (before : Before tail w) (late : Bool) :
    Answers tail w (w.turn late) := by
  rw [Work.turn]
  split
  · exact ⟨turned_refl before, nofun⟩
  · split
    · exact ⟨turned_refl before, nofun⟩
    · split
      · rename_i state
        exact headerTurn_answers before state
      · rename_i state
        exact sniffTurn_answers before state
      · rename_i state
        exact inflateTurn_answers before state
      · rename_i state
        exact trailerTurn_answers before state
      · rename_i state
        split
        · rename_i empty
          refine ⟨turned_refl before, ?_⟩
          intro _
          rw [Starved, state]
          exact empty
        · rename_i some
          have here : mode w.decoder = .done := by
            rw [mode, state]
          intro out decodes
          rw [here] at decodes
          cases decodes with
          | ends clean => exact some (List.append_eq_nil_iff.mp clean).1
          | reads part rest => cases part

theorem kept_trans {tail o o' : List UInt8} {d d' d'' : Decoder C I} (first : Kept tail d o d')
    (second : Kept tail d' o' d'') : Kept tail d (o ++ o') d'' := by
  have carried := second.carried
  rw [first.coding] at carried
  exact ⟨second.ready, second.coding.trans first.coding, second.seen.trans first.seen,
    second.room.trans first.room, carried_trans first.carried carried⟩

theorem Kept.short {tail o : List UInt8} {d d' : Decoder C I} (kept : Kept tail d o d') :
    Short d'.coding (mode d') (d'.rest ++ tail) := by
  rw [kept.coding]
  exact kept.carried.short

end FerroEngine.ContentDecoding
