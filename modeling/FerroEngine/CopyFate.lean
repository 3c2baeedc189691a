import FerroEngine.CopyInSoundness
import FerroEngine.CopyOutSoundness

set_option autoImplicit false

/-! # The fate of a COPY -/

namespace FerroEngine.CopyFate

open LabelledRuns FateMapping PostgresErrors InboundChannel CopyRequests
open AutocommitExec (Terminal)

/-- Every terminal of every COPY, in either direction, in autocommit or in a transaction. -/
theorem copy_settled :
    (∀ (req : CopyRequest) (window : Credit) (labels : List CopyIn.Label) (s : CopyIn.State)
      (terminal : Terminal) (ended : Option StreamEnded),
      run CopyIn.step (.start req window) labels = some s → s.point = .done terminal ended →
      CopyInSoundness.Settled s terminal ended) ∧
    (∀ (req : CopyRequest) (labels : List CopyOut.Label) (s : CopyOut.State)
      (terminal : Terminal) (ended : Option StreamEnded),
      run CopyOut.step (.start req) labels = some s → s.point = .done terminal ended →
      CopyOutSoundness.Settled s terminal ended) := by
  refine ⟨?_, ?_⟩
  · intro req window labels s terminal ended reached
    exact (CopyInSoundness.tracked_run reached).settled terminal ended
  · intro req labels s terminal ended reached
    exact (CopyOutSoundness.tracked_run reached).settled terminal ended

/-! ## Sample runs -/

def importRequest (inTx : Bool) : CopyRequest :=
  { sql := "COPY t FROM STDIN".toList, readonly := false, inTx := inTx, supportsCopy := true }

def exportRequest : CopyRequest :=
  { sql := "COPY t TO STDOUT".toList, readonly := true, inTx := true, supportsCopy := true }

def found : Admission :=
  { malformed := none, lookup := .ok (), actorGone := none, poolKnown := true,
    poolText := "\"default\"" }

def smallWindow : Credit :=
  { frames := 2, bytes := 16 }

/-- Two chunks in a transaction, up to the end-of-data. -/
def imports : List CopyIn.Label :=
  [.admission found, .reserves .ready, .opens (.ok ()), .grants true, .delivers (.data [1, 2]),
    .delivers (.data [3]), .delivers .done, .receives, .accepts (.ok ()), .grants true,
    .receives, .accepts (.ok ()), .grants true, .receives]

def exports : List CopyOut.Label :=
  [.admission found, .opens (.ok ()), .yields (.chunk [1, 2]), .polls (some (.chunk [3])),
    .polls none, .sends .ready, .yields .drained, .finishes (.drained 2) 7]

theorem copy_settled_on_sample :
    (∃ s body, run CopyIn.step (.start (importRequest true) smallWindow)
        (imports ++ [.finishes (.ok 2) 7]) = some s ∧
      s.point = .done (.ok body) (some .intact) ∧ s.forwarded = [[1, 2], [3]] ∧
      CopyInSoundness.Settled s (.ok body) (some .intact)) ∧
    (∃ s body, run CopyOut.step (.start exportRequest) exports = some s ∧
      s.point = .done (.ok body) (some .intact) ∧ s.frames = [[1, 2, 3]] ∧
      CopyOutSoundness.Settled s (.ok body) (some .intact)) := by
  have reachedIn : run CopyIn.step (.start (importRequest true) smallWindow)
      (imports ++ [.finishes (.ok 2) 7]) =
      some ((run CopyIn.step (.start (importRequest true) smallWindow)
        (imports ++ [.finishes (.ok 2) 7])).get rfl) := rfl
  have reachedOut : run CopyOut.step (.start exportRequest) exports =
      some ((run CopyOut.step (.start exportRequest) exports).get rfl) := rfl
  refine ⟨⟨_, _, reachedIn, rfl, rfl, ?_⟩, ⟨_, _, reachedOut, rfl, rfl, ?_⟩⟩
  · exact copy_settled.1 _ _ _ _ _ _ reachedIn rfl
  · exact copy_settled.2 _ _ _ _ _ reachedOut rfl

/-- A COPY in a transaction whose link is lost after its end-of-data is `Retryable`, and the
server has answered nothing. -/
theorem lostLink_reports_known_fate :
    ∃ s payload, run CopyIn.step (.start (importRequest true) smallWindow)
        (imports ++ [.finishes (.error .transport) 7]) = some s ∧
      s.point = .done (.error payload) (some .broken) ∧ payload.branch = .retryable ∧
      s.endOfData = true ∧ ∀ e, s.reported = some e → isSessionFatal e = true := by
  have reached : run CopyIn.step (.start (importRequest true) smallWindow)
      (imports ++ [.finishes (.error .transport) 7]) =
      some ((run CopyIn.step (.start (importRequest true) smallWindow)
        (imports ++ [.finishes (.error .transport) 7])).get rfl) := rfl
  refine ⟨_, _, reached, rfl, rfl, rfl, ?_⟩
  intro e reported
  cases reported
  rfl

end FerroEngine.CopyFate
