import FerroEngine.GzipHeaderBytes

set_option autoImplicit false

/-! # Gzip member headers in chunks

`advance` looks at the length of the header after each bite only. The verdict does not depend on
the chunks unless the header ends beyond the limit in a bite that began within it.
-/

namespace FerroEngine.GzipHeaderChunks

open GzipHeader GzipHeaderBytes

variable {C : Checksum}

/-! ## `advance` against the bytes one by one -/

/-- What `advance` answers where the limit is looked at after each byte. -/
def expected (h : GzHeader C) (b : List UInt8) : Except DecodeError (GzHeader C × Nat) :=
  match scan h b with
  | .error e => .error e
  | .ok g =>
    if g.stage = .done then
      if g.len ≤ maxGzipHeader then .ok (g, g.len - h.len) else .error .header
    else if maxGzipHeader ≤ g.len then .error .header
    else .ok (g, b.length)

/-- `advance` takes a header that is too long: it ends in the bite that exceeds the limit. -/
structure Overshoots (h : GzHeader C) (b : List UInt8) (g : GzHeader C) : Prop where
  advanced : h.advance b = .ok (g, g.len - h.len)
  scans : scan h b = .ok g
  done : g.stage = .done
  long : maxGzipHeader < g.len
  bite : ∃ j s, h.len + j < maxGzipHeader ∧ s ≠ .hcrc ∧
    ∀ i, j ≤ i → i < g.len - h.len → ∃ m, scan h (b.take i) = .ok m ∧ m.stage = s

theorem tooLong_iff (h : GzHeader C) :
    h.tooLong = true ↔ h.stage ≠ .done ∧ maxGzipHeader ≤ h.len := by
  rw [GzHeader.tooLong, Bool.and_eq_true, bne_iff_ne, decide_eq_true_eq]

theorem advance_nil (h : GzHeader C) : h.advance [] = .ok (h, 0) := by
  rw [GzHeader.advance]

theorem advance_done {h : GzHeader C} (done : h.stage = .done) (b : List UInt8) :
    h.advance b = .ok (h, 0) := by
  cases b with
  | nil => exact advance_nil h
  | cons c rest =>
    rw [GzHeader.advance, dif_pos done]

theorem advance_error {h : GzHeader C} {c : UInt8} {rest : List UInt8} {e : DecodeError}
    (unfinished : h.stage ≠ .done) (bitten : h.bite c rest = .error e) :
    h.advance (c :: rest) = .error e := by
  rw [GzHeader.advance, dif_neg unfinished]
  split
  · rename_i e' other
    rw [bitten] at other
    cases other
    rfl
  · rename_i h' n other
    rw [bitten] at other
    cases other

theorem advance_bitten {h h' : GzHeader C} {c : UInt8} {rest : List UInt8} {n : Nat}
    (unfinished : h.stage ≠ .done) (bitten : h.bite c rest = .ok (h', n)) :
    h.advance (c :: rest) =
      if h'.tooLong then .error .header
      else (h'.advance ((c :: rest).drop n)).map fun p => (p.1, n + p.2) := by
  rw [GzHeader.advance, dif_neg unfinished]
  split
  · rename_i e other
    rw [bitten] at other
    cases other
  · rename_i h'' m other
    rw [bitten] at other
    cases other
    split
    · rfl
    · cases h'.advance ((c :: rest).drop n) with
      | error e => rfl
      | ok p => rfl

theorem scan_split {h h' : GzHeader C} {b : List UInt8} {n : Nat}
    (scanned : scan h (b.take n) = .ok h') : scan h b = scan h' (b.drop n) := by
  have whole := scan_append (b.drop n) scanned
  rw [List.take_append_drop] at whole
  exact whole

/-- A header that is too long already is refused, whatever follows. -/
theorem expected_long {h : GzHeader C} (sound : Sound h) (unfinished : h.stage ≠ .done)
    (long : maxGzipHeader ≤ h.len) (b : List UInt8) : expected h b = .error .header := by
  rw [expected]
  cases scanned : scan h b with
  | error e => rw [scan_error scanned]
  | ok g =>
    have reads := scan_reads sound scanned
    have least := reads.len.1
    dsimp only
    split
    · rename_i done
      have more := reads.finished unfinished done
      rw [if_neg (by omega)]
    · rw [if_pos (by omega)]

theorem expected_split {h h' : GzHeader C} {b : List UInt8} {n : Nat} (sound : Sound h')
    (len : h'.len = h.len + n) (le : n ≤ b.length) (scanned : scan h (b.take n) = .ok h') :
    expected h b = (expected h' (b.drop n)).map fun p => (p.1, n + p.2) := by
  rw [expected, expected, scan_split scanned]
  cases rest : scan h' (b.drop n) with
  | error e => rfl
  | ok g =>
    have least := (scan_reads sound rest).len.1
    have used : g.len - h.len = n + (g.len - h'.len) := by omega
    have all : b.length = n + (b.drop n).length := by
      rw [List.length_drop]
      omega
    dsimp only
    rw [used]
    split
    · split <;> rfl
    · split
      · rfl
      · rw [all]
        rfl

theorem overshoots_later {h h' g : GzHeader C} {c : UInt8} {rest : List UInt8} {n : Nat}
    (unfinished : h.stage ≠ .done) (bitten : h.bite c rest = .ok (h', n))
    (bite : Bitten h (c :: rest) h' n) (short : h'.tooLong = false)
    (later : Overshoots h' ((c :: rest).drop n) g) : Overshoots h (c :: rest) g := by
  have len := bite.len
  have least := (scan_reads bite.sound later.scans).len.1
  refine ⟨?_, ?_, later.done, later.long, ?_⟩
  · rw [advance_bitten unfinished bitten, short, later.advanced]
    have used : g.len - h.len = n + (g.len - h'.len) := by omega
    rw [used]
    rfl
  · rw [scan_split bite.scans]
    exact later.scans
  · obtain ⟨j, s, early, field, stays⟩ := later.bite
    refine ⟨n + j, s, by omega, field, ?_⟩
    intro i above below
    obtain ⟨m, scanned, stage⟩ := stays (i - n) (by omega) (by omega)
    refine ⟨m, ?_, stage⟩
    have pre : ((c :: rest).take i).take n = (c :: rest).take n := by
      rw [List.take_take, Nat.min_eq_left (by omega)]
    have scans : scan h (((c :: rest).take i).take n) = .ok h' := by
      rw [pre]
      exact bite.scans
    rw [scan_split scans, List.drop_take]
    exact scanned

theorem overshoots_now {h h' : GzHeader C} {c : UInt8} {rest : List UInt8} {n : Nat}
    (unfinished : h.stage ≠ .done) (small : h.len < maxGzipHeader)
    (bitten : h.bite c rest = .ok (h', n)) (bite : Bitten h (c :: rest) h' n)
    (done : h'.stage = .done) (long : maxGzipHeader < h'.len) :
    Overshoots h (c :: rest) h' := by
  have len := bite.len
  have used : h'.len - h.len = n := by omega
  have short : h'.tooLong = false := by
    rw [Bool.eq_false_iff]
    intro tooLong
    exact (tooLong_iff h').mp tooLong |>.1 done
  refine ⟨?_, ?_, done, long, 0, h.stage, small, ?_, ?_⟩
  · rw [advance_bitten unfinished bitten, short, advance_done done, used]
    rfl
  · rw [scan_split bite.scans, scan_done done]
  · intro hcrc
    have one := bite.single hcrc
    omega
  · intro i _ less
    exact bite.same i (by omega)

theorem advance_expected {h : GzHeader C} (sound : Sound h) (unfinished : h.stage ≠ .done)
    (small : h.len < maxGzipHeader) (b : List UInt8) :
    h.advance b = expected h b ∨ ∃ g, Overshoots h b g := by
  induction size : b.length using Nat.strongRecOn generalizing h b with
  | ind total ih =>
    cases b with
    | nil =>
      left
      rw [advance_nil, expected, scan]
      dsimp only
      rw [if_neg unfinished, if_neg (by omega)]
      rfl
    | cons c rest =>
      cases bitten : h.bite c rest with
      | error e =>
        left
        rw [advance_error unfinished bitten, expected, scan, if_neg unfinished,
          (bite_error unfinished bitten).1]
      | ok p =>
        obtain ⟨h', n⟩ := p
        have bite := bite_bitten sound unfinished bitten
        have pos := bite.pos
        have le := bite.le
        have len := bite.len
        by_cases done : h'.stage = .done
        · by_cases fits : h'.len ≤ maxGzipHeader
          · left
            have short : h'.tooLong = false := by
              rw [Bool.eq_false_iff]
              intro tooLong
              exact (tooLong_iff h').mp tooLong |>.1 done
            have used : h'.len - h.len = n := by omega
            rw [advance_bitten unfinished bitten, short, advance_done done, expected,
              scan_split bite.scans, scan_done done]
            dsimp only
            rw [if_pos done, if_pos fits, used]
            rfl
          · right
            exact ⟨h', overshoots_now unfinished small bitten bite done (by omega)⟩
        · by_cases long : maxGzipHeader ≤ h'.len
          · left
            rw [advance_bitten unfinished bitten, if_pos ((tooLong_iff h').mpr ⟨done, long⟩),
              expected_split bite.sound len le bite.scans, expected_long bite.sound done long]
            rfl
          · have short : h'.tooLong = false := by
              rw [Bool.eq_false_iff]
              intro tooLong
              exact long ((tooLong_iff h').mp tooLong).2
            have less : ((c :: rest).drop n).length < total := by
              rw [List.length_drop, size]
              omega
            rcases ih _ less bite.sound done (Nat.lt_of_not_le long) _ rfl with same | ⟨g, later⟩
            · left
              rw [advance_bitten unfinished bitten, short, same,
                expected_split bite.sound len le bite.scans]
              rfl
            · right
              exact ⟨g, overshoots_later unfinished bitten bite short later⟩

/-! ## Divisions -/

/-- The length of the header that `bs` begins with, if it ends there. -/
def headerLength (C : Checksum) (bs : List UInt8) : Option Nat :=
  match scan (GzHeader.new C) bs with
  | .ok h => if h.stage = .done then some h.len else none
  | .error _ => none

/-- The stage of the header after `k` bytes. -/
def stageAt (C : Checksum) (bs : List UInt8) (k : Nat) : Option HdrStage :=
  match scan (GzHeader.new C) (bs.take k) with
  | .ok h => some h.stage
  | .error _ => none

/-- The header is too long, and the field in which it ends, other than the checksum, begins before
the limit. -/
def EndsLate (C : Checksum) (bs : List UInt8) : Prop :=
  ∃ n s, headerLength C bs = some n ∧ maxGzipHeader < n ∧
    stageAt C bs (maxGzipHeader - 1) = some s ∧ stageAt C bs (n - 1) = some s ∧ s ≠ .hcrc

/-- The verdict where the limit is looked at after each byte. -/
def ideal (h : GzHeader C) (offset : Nat) (bs : List UInt8) : GzHeader.Verdict :=
  match expected h bs with
  | .error _ => .refused
  | .ok (g, used) => if g.stage = .done then .done (offset + used) else .more

theorem sound_new (C : Checksum) : Sound (GzHeader.new C) :=
  ⟨nofun, fun _ => ⟨rfl, Nat.succ_pos 9⟩, nofun⟩

theorem headerLength_of_scan {bs : List UInt8} {h : GzHeader C}
    (scanned : scan (GzHeader.new C) bs = .ok h) (done : h.stage = .done) :
    headerLength C bs = some h.len := by
  rw [headerLength, scanned]
  exact if_pos done

theorem stageAt_of_scan {bs : List UInt8} {k : Nat} {h : GzHeader C}
    (scanned : scan (GzHeader.new C) (bs.take k) = .ok h) : stageAt C bs k = some h.stage := by
  rw [stageAt, scanned]

theorem scan_of_headerLength {bs : List UInt8} {n : Nat} (long : headerLength C bs = some n) :
    ∃ h, scan (GzHeader.new C) bs = .ok h ∧ h.stage = .done ∧ h.len = n := by
  rw [headerLength] at long
  cases scanned : scan (GzHeader.new C) bs with
  | error e =>
    rw [scanned] at long
    cases long
  | ok h =>
    rw [scanned] at long
    dsimp only at long
    split at long
    · rename_i done
      cases long
      exact ⟨h, rfl, done, rfl⟩
    · cases long

theorem scan_of_stageAt {bs : List UInt8} {k : Nat} {s : HdrStage}
    (here : stageAt C bs k = some s) :
    ∃ h, scan (GzHeader.new C) (bs.take k) = .ok h ∧ h.stage = s := by
  rw [stageAt] at here
  cases scanned : scan (GzHeader.new C) (bs.take k) with
  | error e =>
    rw [scanned] at here
    cases here
  | ok h =>
    rw [scanned] at here
    cases here
    exact ⟨h, rfl, rfl⟩

/-- A bite that ends a header beyond the limit began within it. -/
theorem endsLate_of_overshoots {pre b after : List UInt8} {h g : GzHeader C}
    (scanned : scan (GzHeader.new C) pre = .ok h) (len : h.len = pre.length)
    (excess : Overshoots h b g) : EndsLate C (pre ++ (b ++ after)) := by
  obtain ⟨j, s, early, field, stays⟩ := excess.bite
  have long := excess.long
  have inside : g.len ≤ h.len + b.length := by
    have sound := (scan_reads (sound_new C) scanned).sound
    exact (scan_reads sound excess.scans).len.2
  have stage : ∀ i, h.len + j ≤ i → i < g.len → stageAt C (pre ++ (b ++ after)) i = some s := by
    intro i above below
    obtain ⟨m, part, stage⟩ := stays (i - h.len) (by omega) (by omega)
    rw [← stage]
    apply stageAt_of_scan
    have cut : (pre ++ (b ++ after)).take i = pre ++ b.take (i - h.len) := by
      rw [List.take_append, List.take_append, List.take_of_length_le (by omega), len]
      have none : i - pre.length - b.length = 0 := by omega
      rw [none, List.take_zero, List.append_nil]
    rw [cut, scan_append _ scanned]
    exact part
  refine ⟨g.len, s, ?_, long, stage _ (by omega) (by omega), stage _ (by omega) (by omega), field⟩
  apply headerLength_of_scan ?_ excess.done
  rw [scan_append _ scanned, scan_append _ excess.scans, scan_done excess.done]

theorem expected_append {h g : GzHeader C} {b : List UInt8} {used : Nat}
    (answer : expected h b = .ok (g, used)) (done : g.stage = .done) (after : List UInt8) :
    expected h (b ++ after) = .ok (g, used) := by
  rw [expected] at answer ⊢
  cases scanned : scan h b with
  | error e =>
    rw [scanned] at answer
    cases answer
  | ok g' =>
    rw [scanned] at answer
    dsimp only at answer
    split at answer
    · rename_i done'
      rw [scan_append after scanned, scan_done done']
      dsimp only
      rw [if_pos done']
      exact answer
    · split at answer
      · cases answer
      · rename_i other _
        cases answer
        exact absurd done other

theorem expected_more {h g : GzHeader C} {b : List UInt8} {used : Nat}
    (answer : expected h b = .ok (g, used)) (unfinished : g.stage ≠ .done) :
    scan h b = .ok g ∧ g.len < maxGzipHeader ∧ used = b.length := by
  rw [expected] at answer
  cases scanned : scan h b with
  | error e =>
    rw [scanned] at answer
    cases answer
  | ok g' =>
    rw [scanned] at answer
    dsimp only at answer
    split at answer
    · rename_i done
      split at answer
      · cases answer
        exact absurd done unfinished
      · cases answer
    · split at answer
      · cases answer
      · rename_i short
        cases answer
        exact ⟨rfl, Nat.lt_of_not_le short, rfl⟩

theorem expected_append_error {h : GzHeader C} {b : List UInt8} {e : DecodeError} (sound : Sound h)
    (answer : expected h b = .error e) (after : List UInt8) :
    expected h (b ++ after) = .error .header := by
  rw [expected] at answer
  cases scanned : scan h b with
  | error e' =>
    rw [expected, scan_append_error after scanned, scan_error scanned]
  | ok g =>
    have reads := scan_reads sound scanned
    rw [scanned] at answer
    dsimp only at answer
    split at answer
    · rename_i done
      split at answer
      · cases answer
      · rename_i long
        rw [expected, scan_append after scanned, scan_done done]
        dsimp only
        rw [if_pos done, if_neg long]
    · rename_i unfinished
      split at answer
      · rename_i long
        have len := reads.unfinished unfinished
        have whole := expected_split (b := b ++ after) reads.sound len
          (by rw [List.length_append]; omega) (by rw [List.take_left' rfl]; exact scanned)
        rw [whole, expected_long reads.sound unfinished long]
        rfl
      · cases answer

/-- A division none of whose chunks overshoots gets the verdict of the bytes one by one. -/
theorem verdict_ideal {pre : List UInt8} {h : GzHeader C} {chunks : List (List UInt8)}
    (scanned : scan (GzHeader.new C) pre = .ok h) (unfinished : h.stage ≠ .done)
    (small : h.len < maxGzipHeader)
    (short : ∀ before b after, chunks = before ++ b :: after → ∀ h' g,
      scan (GzHeader.new C) (pre ++ before.flatten) = .ok h' → h'.stage ≠ .done →
        h'.len < maxGzipHeader → ¬Overshoots h' b g) :
    h.verdict h.len chunks = ideal h h.len chunks.flatten := by
  induction chunks generalizing pre h with
  | nil =>
    rw [GzHeader.verdict, List.flatten_nil, ideal, expected, scan]
    dsimp only
    rw [if_neg unfinished, if_neg (Nat.not_le_of_lt small)]
    dsimp only
    rw [if_neg unfinished]
  | cons b chunks ih =>
    have reads := scan_reads (sound_new C) scanned
    rw [List.flatten_cons]
    have same : h.advance b = expected h b := by
      rcases advance_expected reads.sound unfinished small b with same | ⟨g, excess⟩
      · exact same
      · have none := short [] b chunks rfl h g (by rw [List.flatten_nil, List.append_nil, scanned])
        exact absurd excess (none unfinished small)
    rw [GzHeader.verdict, same]
    cases answer : expected h b with
    | error e =>
      rw [ideal, expected_append_error reads.sound answer]
    | ok p =>
      obtain ⟨g, used⟩ := p
      dsimp only
      by_cases done : g.stage = .done
      · rw [if_pos done, ideal, expected_append answer done]
        dsimp only
        rw [if_pos done]
      · rw [if_neg done]
        obtain ⟨scanned', small', all⟩ := expected_more answer done
        have next := scan_reads reads.sound scanned'
        have len' := next.unfinished done
        have whole := expected_split (b := b ++ chunks.flatten) next.sound len'
          (by rw [List.length_append]; omega) (by rw [List.take_left' rfl]; exact scanned')
        have prefixed : scan (GzHeader.new C) (pre ++ b) = .ok g := by
          rw [scan_append b scanned]
          exact scanned'
        have rest := ih prefixed done small' (by
          intro before d after division h' g' part
          apply short (b :: before) d after (by rw [division]; rfl)
          rw [List.flatten_cons, ← List.append_assoc]
          exact part)
        rw [all, ← len', rest, ideal, ideal, whole, List.drop_left' rfl]
        cases expected g chunks.flatten with
        | error e => rfl
        | ok q =>
          dsimp only [Except.map]
          split
          · rw [len', Nat.add_assoc]
          · rfl

/-! ## A header that ends late -/

theorem rank_injective {r s : HdrStage} (same : rank r = rank s) : r = s := by
  cases r <;> cases s <;> first | rfl | cases same

/-- The field in progress at `m` reaches to the end of the header. -/
theorem bite_ends {m g k : GzHeader C} {c : UInt8} {rest : List UInt8} {n : Nat}
    (sound : Sound m) (field : m.stage = .extra ∨ IsText m.stage)
    (scanned : scan m (c :: rest) = .ok g) (done : g.stage = .done) (len : g.len = m.len + n)
    (before : scan m ((c :: rest).take (n - 1)) = .ok k) (stage : k.stage = m.stage)
    (pos : 0 < n) : m.bite c rest = .ok (g, n) := by
  have unfinished : m.stage ≠ .done := by
    rcases field with stage | text
    · rw [stage]
      nofun
    · exact not_done_of_text text
  cases bitten : m.bite c rest with
  | error e =>
    rw [scan, if_neg unfinished, (bite_error unfinished bitten).1] at scanned
    cases scanned
  | ok p =>
    obtain ⟨h', j⟩ := p
    have bite := bite_bitten sound unfinished bitten
    have len' := bite.len
    have split := scan_split bite.scans
    rw [scanned] at split
    have leaves : h'.stage ≠ m.stage := by
      rcases bite.greedy field with all | leaves
      · intro same
        rw [all, List.drop_length] at split
        cases split
        exact unfinished (same.symm.trans done)
      · exact leaves
    have later : rank m.stage < rank h'.stage := by
      have ranks := bite.ranks
      have other : rank m.stage ≠ rank h'.stage := fun same => leaves (rank_injective same).symm
      omega
    have within : n - 1 < j := by
      by_contra beyond
      have pre : ((c :: rest).take (n - 1)).take j = (c :: rest).take j := by
        rw [List.take_take, Nat.min_eq_left (by omega)]
      have part : scan m (((c :: rest).take (n - 1)).take j) = .ok h' := by
        rw [pre]
        exact bite.scans
      rw [scan_split part] at before
      have ranks := (scan_reads bite.sound before).ranks
      rw [stage] at ranks
      omega
    have finished : h'.stage = .done := by
      by_contra unfinished'
      have more := (scan_reads bite.sound split.symm).finished unfinished' done
      omega
    rw [scan_done finished] at split
    cases split
    have same : j = n := by omega
    rw [same]

theorem late_accepted {bs : List UInt8} (late : EndsLate C bs) :
    ∃ n chunks, headerLength C bs = some n ∧ maxGzipHeader < n ∧ chunks.flatten = bs ∧
      (GzHeader.new C).verdict 0 chunks = .done n := by
  obtain ⟨n, s, length, long, early, last, noHcrc⟩ := late
  obtain ⟨g, scanned, done, len⟩ := scan_of_headerLength length
  obtain ⟨m, first, stage⟩ := scan_of_stageAt early
  obtain ⟨k, before, stage'⟩ := scan_of_stageAt last
  have reads := scan_reads (sound_new C) scanned
  have firsts := scan_reads (sound_new C) first
  have inside : n ≤ bs.length := by
    have most := reads.len.2
    have zero : (GzHeader.new C).len = 0 := rfl
    omega
  have limit : maxGzipHeader = 65536 := rfl
  have unfinished : s ≠ .done := by
    intro excess
    have whole := scan_split before
    rw [scan_done (stage'.trans excess), scanned] at whole
    cases whole
    have most := (scan_reads (sound_new C) before).len.2
    rw [List.length_take] at most
    have zero : (GzHeader.new C).len = 0 := rfl
    omega
  have unfinished' : m.stage ≠ .done := stage ▸ unfinished
  have len' : m.len = maxGzipHeader - 1 := by
    have exact_len := firsts.unfinished unfinished'
    rw [List.length_take] at exact_len
    have zero : (GzHeader.new C).len = 0 := rfl
    omega
  have field : m.stage = .extra ∨ IsText m.stage := by
    rcases stage_cases m.stage with excess | single | field
    · exact absurd excess unfinished'
    · rcases single with fixed | xLen | hcrc
      · have short := firsts.sound.fixed fixed
        omega
      · have short := firsts.sound.xLen xLen
        omega
      · exact absurd (stage.symm.trans hcrc) noHcrc
    · exact field
  refine ⟨n, [bs.take (maxGzipHeader - 1), bs.drop (maxGzipHeader - 1)], length, long, ?_, ?_⟩
  · rw [List.flatten_cons, List.flatten_cons, List.flatten_nil, List.append_nil,
      List.take_append_drop]
  · have advanced : (GzHeader.new C).advance (bs.take (maxGzipHeader - 1)) =
        .ok (m, maxGzipHeader - 1) := by
      have short : ((bs.take (maxGzipHeader - 1))).length = maxGzipHeader - 1 := by
        rw [List.length_take]
        omega
      rcases advance_expected (sound_new C) nofun (by decide : (0 : Nat) < maxGzipHeader)
        (bs.take (maxGzipHeader - 1)) with same | ⟨g', excess⟩
      · rw [same, expected, first]
        dsimp only
        rw [if_neg unfinished', if_neg (by omega), short]
      · have other := excess.scans
        rw [first] at other
        cases other
        exact absurd excess.done unfinished'
    rw [GzHeader.verdict, advanced]
    dsimp only
    rw [if_neg unfinished', GzHeader.verdict]
    have tail := scan_split first
    rw [scanned] at tail
    have lastPart : scan m ((bs.drop (maxGzipHeader - 1)).take (n - (maxGzipHeader - 1) - 1)) =
        .ok k := by
      have pre : (bs.take (n - 1)).take (maxGzipHeader - 1) = bs.take (maxGzipHeader - 1) := by
        rw [List.take_take, Nat.min_eq_left (by omega)]
      have part : scan (GzHeader.new C) ((bs.take (n - 1)).take (maxGzipHeader - 1)) = .ok m := by
        rw [pre]
        exact first
      rw [scan_split part, List.drop_take] at before
      have same : n - 1 - (maxGzipHeader - 1) = n - (maxGzipHeader - 1) - 1 := by omega
      rw [← same]
      exact before
    cases rest : bs.drop (maxGzipHeader - 1) with
    | nil =>
      rw [rest] at tail
      cases tail
      exact absurd done unfinished'
    | cons c rest' =>
      rw [rest] at tail lastPart
      have bitten := bite_ends firsts.sound field tail.symm done
        (n := n - (maxGzipHeader - 1)) (by omega) lastPart (stage'.trans stage.symm) (by omega)
      have short : g.tooLong = false := by
        rw [Bool.eq_false_iff]
        intro tooLong
        exact ((tooLong_iff g).mp tooLong).1 done
      rw [advance_bitten unfinished' bitten, short, advance_done done]
      rw [if_neg Bool.false_ne_true]
      have total : 0 + (maxGzipHeader - 1) + (n - (maxGzipHeader - 1) + 0) = n := by omega
      dsimp only [Except.map]
      rw [if_pos done, total]

/-! ## Every byte string -/

def singles (bs : List UInt8) : List (List UInt8) :=
  bs.map fun c => [c]

theorem flatten_singles (bs : List UInt8) : (singles bs).flatten = bs := by
  induction bs with
  | nil => rfl
  | cons c bs ih =>
    rw [singles, List.map_cons, List.flatten_cons, ← singles, ih]
    rfl

def verdict (C : Checksum) (chunks : List (List UInt8)) : GzHeader.Verdict :=
  (GzHeader.new C).verdict 0 chunks

/-- Every division of `bs` gets the same verdict, and a header that is too long is refused. -/
def Agrees (C : Checksum) (bs : List UInt8) : Prop :=
  ∀ chunks : List (List UInt8), chunks.flatten = bs →
    verdict C chunks = verdict C [bs] ∧ verdict C chunks = verdict C (singles bs) ∧
      ∀ n, headerLength C bs = some n → maxGzipHeader < n → verdict C chunks = .refused

theorem verdict_of_early {bs : List UInt8} (early : ¬EndsLate C bs) {chunks : List (List UInt8)}
    (division : chunks.flatten = bs) : verdict C chunks = ideal (GzHeader.new C) 0 bs := by
  subst division
  apply @verdict_ideal _ [] _ _ rfl nofun (Nat.succ_pos _)
  intro before b after division h' g scanned unfinished _ excess
  apply early
  have len : h'.len = before.flatten.length := by
    have all := (scan_reads (sound_new C) scanned).unfinished unfinished
    rw [all]
    exact Nat.zero_add _
  rw [division, List.flatten_append, List.flatten_cons]
  exact endsLate_of_overshoots scanned len excess

theorem verdict_singles (C : Checksum) (bs : List UInt8) :
    verdict C (singles bs) = ideal (GzHeader.new C) 0 bs := by
  have whole : verdict C (singles bs) = ideal (GzHeader.new C) 0 (singles bs).flatten := by
    apply @verdict_ideal _ [] _ _ rfl nofun (Nat.succ_pos _)
    intro before b after division h' g scanned _ small excess
    have member : b ∈ singles bs := by
      rw [division]
      exact List.mem_append_right before (.head after)
    obtain ⟨c, -, rfl⟩ := List.mem_map.mp member
    have sound := (scan_reads (sound_new C) scanned).sound
    have most := (scan_reads sound excess.scans).len.2
    have long := excess.long
    rw [List.length_singleton] at most
    omega
  rw [whole, flatten_singles]

theorem ideal_long {bs : List UInt8} {n : Nat} (length : headerLength C bs = some n)
    (long : maxGzipHeader < n) : ideal (GzHeader.new C) 0 bs = .refused := by
  obtain ⟨g, scanned, done, len⟩ := scan_of_headerLength length
  have excess : ¬g.len ≤ maxGzipHeader := by omega
  rw [ideal, expected, scanned]
  dsimp only
  rw [if_pos done, if_neg excess]

theorem not_agrees_of_late {bs : List UInt8} (late : EndsLate C bs) : ¬Agrees C bs := by
  intro agrees
  obtain ⟨n, chunks, length, long, division, accepted⟩ := late_accepted late
  have refused := (agrees chunks division).2.2 n length long
  rw [verdict, accepted] at refused
  cases refused

theorem agrees_iff (C : Checksum) (bs : List UInt8) : Agrees C bs ↔ ¬EndsLate C bs := by
  constructor
  · intro agrees late
    exact not_agrees_of_late late agrees
  · intro early chunks division
    have same := verdict_of_early early division
    have whole : ([bs] : List (List UInt8)).flatten = bs := List.flatten_singleton
    refine ⟨?_, ?_, ?_⟩
    · rw [same, verdict_of_early early whole]
    · rw [same, verdict_singles]
    · intro n length long
      rw [same, ideal_long length long]

/-! ## A long extra field -/

def crcBit (c : UInt32) : UInt32 :=
  if c &&& 1 = 1 then (c >>> 1) ^^^ 0xedb88320 else c >>> 1

def crcByte (c : UInt32) (b : UInt8) : UInt32 :=
  crcBit (crcBit (crcBit (crcBit (crcBit (crcBit (crcBit (crcBit (c ^^^ b.toUInt32))))))))

/-- CRC-32. -/
def crc32 : Checksum where
  Crc := UInt32 × UInt32
  new := (0xffffffff, 0)
  update c b := b.foldl (fun c b => (crcByte c.1 b, c.2 + 1)) c
  sum c := c.1 ^^^ 0xffffffff
  amount c := c.2
  update_nil _ := rfl
  update_append _ _ _ := List.foldl_append

example : crc32.sum (crc32.update crc32.new [0x31, 0x32, 0x33]) = 0x884863d2 := by
  decide +kernel

/-- The fixed part of a header with an `FEXTRA` of 65535 bytes, and the length of that. -/
def longExtraStart : List UInt8 :=
  [0x1f, 0x8b, 8, 4, 0, 0, 0, 0, 0, 0, 0xff, 0xff]

theorem advance_byte {h h' : GzHeader C} {c : UInt8} {rest : List UInt8}
    (unfinished : h.stage ≠ .done) (bitten : h.bite c rest = .ok (h', 1))
    (short : h'.tooLong = false) :
    h.advance (c :: rest) = (h'.advance rest).map fun p => (p.1, 1 + p.2) := by
  rw [advance_bitten unfinished bitten, short]
  rfl

/-- The header up to its extra field, whose bytes `advance` takes at once. -/
theorem longExtra_advance (rest : List UInt8) :
    ∃ m : GzHeader crc32, scan (GzHeader.new crc32) longExtraStart = .ok m ∧ m.stage = .extra ∧
      m.extraLeft = 65535 ∧ m.len = 12 ∧ m.flg = 4 ∧
      (GzHeader.new crc32).advance (longExtraStart ++ rest) =
        (m.advance rest).map fun p => (p.1, 12 + p.2) := by
  refine ⟨_, rfl, rfl, rfl, rfl, rfl, ?_⟩
  rw [longExtraStart]
  simp only [List.cons_append, List.nil_append]
  iterate 12 rw [advance_byte (by decide) rfl rfl]
  generalize GzHeader.advance _ rest = answer
  cases answer with
  | error e => rfl
  | ok p =>
    have total : ∀ n, 1 + (1 + (1 + (1 + (1 + (1 + (1 + (1 + (1 + (1 + (1 + (1 + n))))))))))) =
        12 + n := by
      intro n
      omega
    simp only [Except.map, total]

theorem longExtra_accepted {bytes : List UInt8} (size : bytes.length = 65535) :
    ∃ g : GzHeader crc32, g.stage = .done ∧ g.len = 65547 ∧
      scan (GzHeader.new crc32) (longExtraStart ++ bytes) = .ok g ∧
      (GzHeader.new crc32).advance (longExtraStart ++ bytes) = .ok (g, g.len) := by
  obtain ⟨m, scanned, stage, left, len, flg, advanced⟩ := longExtra_advance bytes
  have sound := (scan_reads (sound_new crc32) scanned).sound
  have unfinished : m.stage ≠ .done := by
    rw [stage]
    nofun
  have done : (m.eatExtra bytes).stage = .done := by
    rw [GzHeader.eatExtra]
    dsimp only
    rw [if_pos (by rw [size, left]), GzHeader.after]
    have same : ∀ b, ({ m.eat b with extraLeft := m.extraLeft - b.length } :
        GzHeader crc32).flg = m.flg := fun _ => rfl
    rw [same, flg]
    rfl
  have short : (m.eatExtra bytes).tooLong = false := by
    rw [GzHeader.tooLong, done]
    rfl
  have scans : scan m bytes = .ok (m.eatExtra bytes) :=
    scan_extra stage (by omega) (by omega)
  refine ⟨m.eatExtra bytes, done, ?_, ?_, ?_⟩
  · rw [eatExtra_len, len, size]
  · rw [scan_append _ scanned]
    exact scans
  · rw [advanced]
    cases bytes with
    | nil => cases size
    | cons c rest =>
      have bitten := bite_extra stage c rest
      have all : min m.extraLeft (rest.length + 1) = (c :: rest).length := by
        rw [left, ← size, List.length_cons, Nat.min_self]
      rw [all, List.take_length] at bitten
      rw [advance_bitten unfinished bitten, short, advance_done done, if_neg Bool.false_ne_true,
        eatExtra_len, len]
      rfl

def longExtra : List UInt8 :=
  longExtraStart ++ List.replicate 65535 0

theorem longExtra_depends :
    verdict crc32 [longExtra] = .done 65547 ∧ verdict crc32 (singles longExtra) = .refused ∧
      ¬Agrees crc32 longExtra := by
  obtain ⟨g, done, len, scanned, advanced⟩ :=
    @longExtra_accepted (List.replicate 65535 0) List.length_replicate
  rw [← longExtra] at scanned advanced
  have length := headerLength_of_scan scanned done
  have whole : verdict crc32 [longExtra] = .done 65547 := by
    rw [verdict, GzHeader.verdict, advanced]
    dsimp only
    rw [if_pos done, len, Nat.zero_add]
  have long : maxGzipHeader < g.len := by
    rw [len]
    decide
  refine ⟨whole, ?_, ?_⟩
  · rw [verdict_singles, ideal_long length long]
  · intro agrees
    have refused := (agrees [longExtra] List.flatten_singleton).2.2 g.len length long
    rw [whole] at refused
    cases refused

end FerroEngine.GzipHeaderChunks
