import FerroEngine.ContentDecoder

set_option autoImplicit false

/-! # The content decoder comes to an end

Every turn consumes input, moves towards the end of its member, or takes output off what the
inflater still holds, so the loop of a step ends and so does the drain loop over steps.
-/

namespace FerroEngine.ContentDecodingEnds

open GzipHeader ContentDecoder

variable {C : Checksum} {I : Inflate}

/-- How far a member is from its end. -/
def rank : DecoderState → Nat
  | .gzHeader _ => 3
  | .sniff => 3
  | .inflate => 2
  | .gzTrailer => 1
  | .done => 0

/-- What the inflater still makes of the bytes it has. -/
def left (d : Decoder C I) : Nat :=
  (I.whole d.inflate d.rest).out.length

def Lower (d' d : Decoder C I) : Prop :=
  d'.rest.length < d.rest.length ∨ d'.rest.length = d.rest.length ∧
    (rank d'.state < rank d.state ∨ rank d'.state = rank d.state ∧ left d' < left d)

def AtMost (d' d : Decoder C I) : Prop :=
  Lower d' d ∨ d'.rest.length = d.rest.length ∧ rank d'.state = rank d.state ∧ left d' = left d

theorem lower_wf : WellFounded (Lower (C := C) (I := I)) := by
  have lex := (Prod.lex Nat.lt_wfRel (Prod.lex Nat.lt_wfRel Nat.lt_wfRel)).wf
  have lower := InvImage.wf (fun d : Decoder C I => (d.rest.length, rank d.state, left d)) lex
  apply Subrelation.wf _ lower
  intro d' d less
  rcases less with fewer | ⟨same, nearer | ⟨same', less⟩⟩
  · exact .left _ _ fewer
  · rw [InvImage, same]
    exact .right _ (.left _ _ nearer)
  · rw [InvImage, same, same']
    exact .right _ (.right _ less)

theorem atMost_refl (d : Decoder C I) : AtMost d d :=
  .inr ⟨rfl, rfl, rfl⟩

theorem lower_of_atMost {d d' d'' : Decoder C I} (most : AtMost d'' d') (less : Lower d' d) :
    Lower d'' d := by
  unfold AtMost Lower at *
  omega

theorem lower_of_rank {d d' : Decoder C I} (le : d'.rest.length ≤ d.rest.length)
    (less : rank d'.state < rank d.state) : Lower d' d := by
  unfold Lower
  omega

/-- What a turn does to a decoder; a step that has done nothing ends for want of input. -/
def Falls (w : Work C I) : Turn C I → Prop
  | .goes w' => Lower w'.decoder w.decoder ∧ w'.decoder.room = w.decoder.room
  | .ends w' e => AtMost w'.decoder w.decoder ∧ w'.decoder.room = w.decoder.room ∧
    (w = w.decoder.work → 0 < w.decoder.room → e = .needInput ∧ w'.out = [])
  | .fails _ => True

theorem falls_waiting {w : Work C I} : Falls w (.ends w .needInput) := by
  refine ⟨atMost_refl _, rfl, ?_⟩
  intro first _
  rw [first]
  exact ⟨rfl, rfl⟩

theorem headerTurn_falls {w : Work C I} {first : Bool}
    (state : w.decoder.state = .gzHeader first) : Falls w w.headerTurn := by
  rw [Work.headerTurn]
  dsimp only
  split
  · exact falls_waiting
  · rename_i some
    split
    · rename_i full
      refine ⟨atMost_refl _, rfl, ?_⟩
      intro first _
      rw [first] at full
      exact absurd full.1 (by nofun)
    · split
      · trivial
      · rename_i hdr used advanced
        have pos : 0 < w.decoder.rest.length := List.length_pos_iff.mpr some
        split
        · refine ⟨lower_of_rank ?_ ?_, rfl⟩
          · rw [List.length_drop]
            exact Nat.sub_le ..
          · rw [state]
            exact Nat.lt_succ_self 2
        · refine ⟨?_, rfl, ?_⟩
          · cases used with
            | zero => exact .inr ⟨rfl, rfl, rfl⟩
            | succ n =>
              refine .inl (.inl ?_)
              dsimp only
              rw [List.length_drop]
              omega
          · intro first _
            rw [first]
            exact ⟨rfl, rfl⟩

theorem sniffTurn_falls {w : Work C I} (state : w.decoder.state = .sniff) :
    Falls w w.sniffTurn := by
  rw [Work.sniffTurn]
  split
  · refine ⟨lower_of_rank (Nat.le_refl _) ?_, rfl⟩
    rw [state]
    exact Nat.lt_succ_self 2
  · exact falls_waiting

/-- What has been inflated is taken off what is left. -/
theorem whole_after {st : I.St} {xs : List UInt8} {b room : Nat} {p : Produced I.St}
    (called : I.decompress st (xs.take b) room = some p) (notEnd : p.status ≠ .streamEnd) :
    (I.whole st xs).out = p.out ++ (I.whole p.state (xs.drop p.consumed)).out := by
  have whole := I.goes_on called notEnd (xs.drop b)
  have consumed := (I.bounded called).1
  rw [List.take_append_drop, ← List.drop_append_of_le_length consumed,
    List.take_append_drop] at whole
  rw [whole]
  rfl

theorem inflateTurn_falls {w : Work C I} (state : w.decoder.state = .inflate) :
    Falls w w.inflateTurn := by
  rw [Work.inflateTurn]
  dsimp only
  split
  · rename_i full
    refine ⟨atMost_refl _, rfl, ?_⟩
    intro first room
    rw [first] at full
    exact absurd full (Nat.ne_of_lt room)
  · rename_i notFull
    split
    · trivial
    · rename_i p called
      have consumed := (I.bounded called).1
      have le : p.consumed ≤ w.decoder.rest.length :=
        Nat.le_trans consumed (List.length_take_le' ..)
      split
      · refine ⟨lower_of_rank ?_ ?_, rfl⟩
        · dsimp only
          rw [List.length_drop]
          exact Nat.sub_le ..
        · rw [state]
          dsimp only
          cases w.decoder.coding with
          | gzip => exact Nat.lt_succ_self 1
          | deflate => exact Nat.zero_lt_two
      · rename_i notEnd
        have after := whole_after called notEnd
        split
        · rename_i silent
          rw [silent.1, silent.2, List.nil_append, List.drop_zero] at after
          refine ⟨.inr ?_, rfl, ?_⟩
          · dsimp only
            rw [left, left, silent.2, List.drop_zero, after]
            exact ⟨rfl, rfl, rfl⟩
          · intro first room
            have free : 0 < w.decoder.room - w.out.length := by
              rw [first]
              exact room
            have nothing := (I.progress called free notEnd silent.2 silent.1).1
            have used : w.used = 0 := by rw [first]; rfl
            have out : w.out = [] := by rw [first]; rfl
            have slice : min (stepMaxInput - w.used) inflateSlice = 256 := by rw [used]; rfl
            rw [slice, List.take_eq_nil_iff] at nothing
            have empty : w.decoder.rest = [] := nothing.resolve_left (by nofun)
            rw [empty, out, silent.1]
            exact ⟨rfl, rfl⟩
        · rename_i loud
          refine ⟨?_, rfl⟩
          by_cases none : p.consumed = 0
          · have some : p.out ≠ [] := fun empty => loud ⟨empty, none⟩
            have pos := List.length_pos_iff.mpr some
            rw [none, List.drop_zero] at after
            refine .inr ⟨?_, .inr ⟨rfl, ?_⟩⟩
            · dsimp only
              rw [none]
              rfl
            · rw [left, left, after, List.length_append]
              dsimp only
              rw [none, List.drop_zero]
              omega
          · refine .inl ?_
            dsimp only
            rw [List.length_drop]
            omega

theorem trailerTurn_falls {w : Work C I} : Falls w w.trailerTurn := by
  rw [Work.trailerTurn]
  split
  · exact falls_waiting
  · split
    · refine ⟨.inl ?_, rfl⟩
      dsimp only
      rw [List.length_drop]
      omega
    · trivial

theorem turn_falls (w : Work C I) (late : Bool) : Falls w (w.turn late) := by
  rw [Work.turn]
  split
  · rename_i full
    refine ⟨atMost_refl _, rfl, ?_⟩
    intro first _
    rw [first] at full
    exact absurd full (Nat.not_succ_le_zero _)
  · split
    · rename_i begun
      refine ⟨atMost_refl _, rfl, ?_⟩
      intro first _
      rw [first] at begun
      exact absurd begun.1 (by simp [Decoder.work])
    · split
      · rename_i state
        exact headerTurn_falls state
      · rename_i state
        exact sniffTurn_falls state
      · rename_i state
        exact inflateTurn_falls state
      · exact trailerTurn_falls
      · split
        · exact falls_waiting
        · trivial

/-! ## The loop of a step -/

/-- A turn that goes on. -/
def Turns (w' w : Work C I) : Prop :=
  ∃ late, w.turn late = .goes w'

theorem turns_wf : WellFounded (Turns (C := C) (I := I)) := by
  apply Subrelation.wf _ (InvImage.wf Work.decoder lower_wf)
  rintro w' w ⟨late, turned⟩
  have falls := turn_falls w late
  rw [turned] at falls
  exact falls.1

/-- `step` returns. -/
theorem step_returns (w : Work C I) : ∃ r, Step w r := by
  induction w using turns_wf.induction with
  | h w ih =>
    cases turned : w.turn false with
    | ends w' e => exact ⟨_, .ends turned⟩
    | fails e => exact ⟨_, .fails turned⟩
    | goes w' =>
      obtain ⟨r, rest⟩ := ih w' ⟨false, turned⟩
      exact ⟨r, .goes turned rest⟩

theorem step_atMost {w w' : Work C I} {e : StepEnd} (step : Step w (.ok (w', e))) :
    AtMost w'.decoder w.decoder ∧ w'.decoder.room = w.decoder.room := by
  generalize same : Except.ok (w', e) = r at step
  induction step with
  | @ends w w'' late e' turned =>
    cases same
    have falls := turn_falls w late
    rw [turned] at falls
    exact ⟨falls.1, falls.2.1⟩
  | fails => cases same
  | @goes w w'' late r turned rest ih =>
    have falls := turn_falls w late
    rw [turned] at falls
    obtain ⟨most, room⟩ := ih same
    exact ⟨.inl (lower_of_atMost most falls.1), room.trans falls.2⟩

/-! ## The drain loop -/

/-- An answer of `next_chunk` that is not the last of a drain. -/
def Again (d' d : Decoder C I) : Prop :=
  ∃ n, n ≠ .needInput ∧ NextChunk d (.ok (d', n))

theorem again_lower {d d' : Decoder C I} (room : 0 < d.room) (again : Again d' d) :
    Lower d' d ∧ d'.room = d.room := by
  obtain ⟨n, other, next⟩ := again
  cases next with
  | ok step =>
    cases step with
    | @ends _ w' late e turned =>
      have falls := turn_falls d.work late
      rw [turned] at falls
      obtain ⟨waits, empty⟩ := falls.2.2 rfl room
      rw [waits, empty] at other
      exact absurd rfl other
    | @goes _ w' late _ turned rest =>
      have falls := turn_falls d.work late
      rw [turned] at falls
      obtain ⟨most, same⟩ := step_atMost rest
      exact ⟨lower_of_atMost most falls.1, same.trans falls.2⟩

/-- However often the clock ends a step, the drain loop ends. -/
theorem drain_ends {d : Decoder C I} (room : 0 < d.room) : Acc Again d := by
  induction d using lower_wf.induction with
  | h d ih =>
    apply Acc.intro
    intro d' again
    obtain ⟨less, same⟩ := again_lower room again
    rw [← same] at room
    exact ih d' less room

theorem drain_returns {d : Decoder C I} (room : 0 < d.room) : ∃ outs r, Drain d outs r := by
  induction d using lower_wf.induction with
  | h d ih =>
    obtain ⟨r, step⟩ := step_returns d.work
    cases r with
    | error e => exact ⟨_, _, .error (.error step)⟩
    | ok p =>
      obtain ⟨w, e⟩ := p
      have next : NextChunk d (.ok (w.decoder, answer w.out e)) := .ok step
      cases said : answer w.out e with
      | needInput =>
        rw [said] at next
        exact ⟨_, _, .needInput next⟩
      | yield =>
        rw [said] at next
        obtain ⟨less, same⟩ := again_lower room ⟨.yield, nofun, next⟩
        rw [← same] at room
        obtain ⟨outs, r, rest⟩ := ih _ less room
        exact ⟨_, _, .yield next rest⟩
      | chunk out =>
        rw [said] at next
        obtain ⟨less, same⟩ := again_lower room ⟨.chunk out, nofun, next⟩
        rw [← same] at room
        obtain ⟨outs, r, rest⟩ := ih _ less room
        exact ⟨_, _, .chunk next rest⟩

end FerroEngine.ContentDecodingEnds
