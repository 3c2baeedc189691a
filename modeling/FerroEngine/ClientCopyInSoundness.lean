import Mathlib.Algebra.Ring.Nat
import FerroEngine.ClientCopyIn

set_option autoImplicit false

/-! # What the COPY_IN sender puts on the wire -/

namespace FerroEngine.ClientCopyInSoundness

open ClientRetry ClientCopyIn

/-! ## The log -/

def framesGranted (log : List Op) : Nat :=
  (log.map fun
    | .read (.grant frames _) => frames
    | _ => 0).sum

def bytesGranted (log : List Op) : Nat :=
  (log.map fun
    | .read (.grant _ bytes) => bytes
    | _ => 0).sum

def chunkOf : Op → List UInt8
  | .data chunk _ => chunk
  | _ => []

/-- The data of the COPY_DATA frames, written whole or in part. -/
def dataOf (log : List Op) : List UInt8 := log.flatMap chunkOf

def isData : Op → Bool
  | .data _ _ => true
  | _ => false

def framesSent (log : List Op) : Nat := log.countP isData

def bytesSent (log : List Op) : Nat := (dataOf log).length

def isDone : Op → Bool
  | .done _ => true
  | _ => false

/-- The link was lost. -/
def loses : Op → Bool
  | .submitted (.refused (.ferro (.transport _ _))) => true
  | .submitted (.refused (.ferro (.connectionLost _ _))) => true
  | .read (.transport _) | .read (.connectionLost _) => true
  | .data _ (.failed _) | .done (.failed _) => true
  | _ => false

/-- The COPY is abandoned. -/
def abandons : Op → Bool
  | .cancel _ | .drained _ => true
  | _ => false

/-- The request, a grant that was read or a chunk that was completely written. -/
def calm : Op → Bool
  | .submitted .written | .read (.grant _ _) | .data _ .written => true
  | _ => false

/-- Nothing was sent beyond the credit at any moment. -/
def Within (log : List Op) : Prop :=
  ∀ before after, log = before ++ after →
    framesSent before ≤ framesGranted before ∧ bytesSent before ≤ bytesGranted before

def Sized (log : List Op) : Prop :=
  ∀ chunk write, .data chunk write ∈ log → chunk ≠ [] ∧ chunk.length ≤ chunkBytes

/-- The pieces of the iterable. -/
def textOf (items : List Item) : List UInt8 :=
  items.flatMap fun
    | .piece bytes => bytes
    | _ => []

/-- A grant, a terminal or a lost link. -/
def plainEvent : Event → Bool
  | .grant _ _ | .end_ _ | .badEnd _ | .transport _ | .connectionLost _ => true
  | .data _ | .desync _ | .malformed _ => false

def plainWrite : Write → Bool
  | .reentrant _ => false
  | _ => true

def isPiece : Item → Bool
  | .piece _ => true
  | _ => false

/-! ## One operation -/

theorem framesSent_concat (log : List Op) (op : Op) :
    framesSent (log ++ [op]) = framesSent log + framesSent [op] := List.countP_append

theorem dataOf_append (log more : List Op) : dataOf (log ++ more) = dataOf log ++ dataOf more :=
  List.flatMap_append

theorem bytesSent_concat (log : List Op) (op : Op) :
    bytesSent (log ++ [op]) = bytesSent log + bytesSent [op] := by
  rw [bytesSent, dataOf_append, List.length_append]
  rfl

theorem framesGranted_concat (log : List Op) (op : Op) :
    framesGranted (log ++ [op]) = framesGranted log + framesGranted [op] := by
  rw [framesGranted, List.map_append, List.sum_append]
  rfl

theorem bytesGranted_concat (log : List Op) (op : Op) :
    bytesGranted (log ++ [op]) = bytesGranted log + bytesGranted [op] := by
  rw [bytesGranted, List.map_append, List.sum_append]
  rfl

theorem within_concat {log : List Op} {op : Op} (within : Within log)
    (frames : framesSent (log ++ [op]) ≤ framesGranted (log ++ [op]))
    (bytes : bytesSent (log ++ [op]) ≤ bytesGranted (log ++ [op])) : Within (log ++ [op]) := by
  intro before after shape
  cases List.eq_nil_or_concat after with
  | inl empty =>
    rw [empty, List.append_nil] at shape
    rw [← shape]
    exact ⟨frames, bytes⟩
  | inr ends =>
    obtain ⟨inner, last, same⟩ := ends
    rw [same, List.concat_eq_append, ← List.append_assoc] at shape
    exact within before inner (List.append_inj_left' shape rfl)

/-- An operation that sends no data stays within the credit. -/
theorem within_quiet {log : List Op} {op : Op} (within : Within log) (quiet : isData op = false) :
    Within (log ++ [op]) := by
  have bounds := within log [] (List.append_nil log).symm
  have frames : framesSent [op] = 0 := by
    rw [framesSent, List.countP_singleton, quiet]
    rfl
  have bytes : bytesSent [op] = 0 := by
    cases op with
    | data _ _ => cases quiet
    | _ => rfl
  refine within_concat within ?_ ?_
  · rw [framesSent_concat, framesGranted_concat]
    omega
  · rw [bytesSent_concat, bytesGranted_concat]
    omega

theorem sized_concat {log : List Op} {op : Op} (sized : Sized log)
    (last : ∀ chunk write, op = .data chunk write → chunk ≠ [] ∧ chunk.length ≤ chunkBytes) :
    Sized (log ++ [op]) := by
  intro chunk write member
  cases List.mem_append.mp member with
  | inl old => exact sized chunk write old
  | inr new => exact last chunk write (List.mem_singleton.mp new).symm

theorem sized_quiet {log : List Op} {op : Op} (sized : Sized log) (quiet : isData op = false) :
    Sized (log ++ [op]) := by
  refine sized_concat sized fun chunk write same => ?_
  rw [same] at quiet
  cases quiet

theorem forall_concat {log : List Op} {op : Op} {p : Op → Prop} (old : ∀ x ∈ log, p x) (new : p op) :
    ∀ x ∈ log ++ [op], p x := by
  intro x member
  cases List.mem_append.mp member with
  | inl inside => exact old x inside
  | inr last =>
    rw [List.mem_singleton.mp last]
    exact new

/-! ## While the COPY goes on -/

/-- The exception that a lost link raises. -/
def isLink : Stop → Bool
  | .threw (.ferro (.transport _ _)) | .threw (.ferro (.connectionLost none _)) => true
  | _ => false

/-- The `catch` clauses set `$wireFailed`. -/
def isWire : Stop → Bool
  | .threw (.ferro (.transport _ _)) | .threw (.ferro (.connectionLost _ _)) => true
  | .threw (.codec _) => true
  | _ => false

/-- The whole text was sent, within the credit, and nothing has ended the COPY. -/
structure Ready (plain : Prop) (text : List UInt8) (s : State) : Prop where
  within : Within s.log
  sized : Sized s.log
  sent : dataOf s.log = text
  frames : framesSent s.log + s.frames = framesGranted s.log
  bytes : bytesSent s.log + s.bytes = bytesGranted s.log
  calm : ∀ op ∈ s.log, calm op = true
  doneSent : s.doneSent = false
  reached : s.reachedTerminal = false
  events : plain → ∀ event ∈ s.events, plainEvent event = true
  writes : plain → ∀ write ∈ s.writes, plainWrite write = true

/-- The runner stopped before COPY_DONE, with a part of the text sent. -/
structure Stopped (plain : Prop) (text : List UInt8) (s : State) (stop : Stop) : Prop where
  within : Within s.log
  sized : Sized s.log
  sent : dataOf s.log <+: text
  doneSent : s.doneSent = false
  before : ∀ op ∈ s.log, isDone op = false ∧ abandons op = false
  reported : (∃ op ∈ s.log, loses op = true) → isLink stop = true
  settled : plain → s.reachedTerminal = true ∨ isWire stop = true ∨ stop = .waiting

/-- How a loop of the runner leaves the state. -/
def Sends (plain : Prop) (text : List UInt8) (result : Option Stop × State) : Prop :=
  match result.1 with
  | none => Ready plain text result.2
  | some stop => Stopped plain text result.2 stop

theorem calm_parts {op : Op} (quiet : calm op = true) :
    isDone op = false ∧ abandons op = false ∧ loses op = false := by
  cases op with
  | submitted submit =>
    cases submit with
    | written => exact ⟨rfl, rfl, rfl⟩
    | refused _ => cases quiet
  | read event =>
    cases event with
    | grant _ _ => exact ⟨rfl, rfl, rfl⟩
    | _ => cases quiet
  | data _ write =>
    cases write with
    | written => exact ⟨rfl, rfl, rfl⟩
    | _ => cases quiet
  | _ => cases quiet

theorem Stopped.mono {plain : Prop} {text more : List UInt8} {s : State} {stop : Stop}
    (stopped : Stopped plain text s stop) (part : text <+: more) : Stopped plain more s stop :=
  { stopped with sent := stopped.sent.trans part }

theorem Ready.unlost {plain : Prop} {text : List UInt8} {s : State} (ready : Ready plain text s) :
    ¬∃ op ∈ s.log, loses op = true := by
  rintro ⟨op, member, lost⟩
  rw [(calm_parts (ready.calm op member)).2.2] at lost
  cases lost

/-- The runner stops without another operation. -/
theorem Ready.stop {plain : Prop} {text : List UInt8} {s : State} (ready : Ready plain text s)
    {stop : Stop} (settled : plain → isWire stop = true ∨ stop = .waiting) :
    Stopped plain text s stop :=
  { within := ready.within
    sized := ready.sized
    sent := ready.sent ▸ List.prefix_rfl
    doneSent := ready.doneSent
    before := fun op member =>
      ⟨(calm_parts (ready.calm op member)).1, (calm_parts (ready.calm op member)).2.1⟩
    reported := fun lost => absurd lost ready.unlost
    settled := fun honest => .inr (settled honest) }

/-- The runner stops at a read. -/
theorem Ready.stop_read {plain : Prop} {text : List UInt8} {s t : State}
    (ready : Ready plain text s) {event : Event} {stop : Stop}
    (log : t.log = s.log ++ [.read event]) (doneSent : t.doneSent = s.doneSent)
    (reported : loses (.read event) = true → isLink stop = true)
    (settled : plain → t.reachedTerminal = true ∨ isWire stop = true ∨ stop = .waiting) :
    Stopped plain text t stop where
  within := by
    rw [log]
    exact within_quiet ready.within rfl
  sized := by
    rw [log]
    exact sized_quiet ready.sized rfl
  sent := by
    rw [log, dataOf_append, ready.sent]
    exact (List.append_nil text).symm ▸ List.prefix_rfl
  doneSent := doneSent.trans ready.doneSent
  before := by
    rw [log]
    refine forall_concat (fun op member => ?_) ⟨rfl, rfl⟩
    exact ⟨(calm_parts (ready.calm op member)).1, (calm_parts (ready.calm op member)).2.1⟩
  reported := by
    rintro ⟨op, member, lost⟩
    rw [log] at member
    cases List.mem_append.mp member with
    | inl old => exact absurd ⟨op, old, lost⟩ ready.unlost
    | inr last =>
      rw [List.mem_singleton.mp last] at lost
      exact reported lost
  settled := settled

/-! ## Credit -/

/-- A grant was read. -/
theorem Ready.grant {plain : Prop} {text : List UInt8} {s : State} (ready : Ready plain text s)
    {frames bytes : Nat} {rest : List Event} (events : s.events = .grant frames bytes :: rest) :
    Ready plain text
      { s.read (.grant frames bytes) rest with
        frames := s.frames + frames
        bytes := s.bytes + bytes } where
  within := within_quiet ready.within rfl
  sized := sized_quiet ready.sized rfl
  sent := by
    change dataOf (s.log ++ [_]) = text
    rw [dataOf_append, ready.sent]
    exact List.append_nil text
  frames := by
    have old := ready.frames
    change framesSent (s.log ++ [_]) + (s.frames + frames) = framesGranted (s.log ++ [_])
    rw [framesSent_concat, framesGranted_concat]
    change framesSent s.log + 0 + (s.frames + frames) = framesGranted s.log + (frames + 0)
    omega
  bytes := by
    have old := ready.bytes
    change bytesSent (s.log ++ [_]) + (s.bytes + bytes) = bytesGranted (s.log ++ [_])
    rw [bytesSent_concat, bytesGranted_concat]
    change bytesSent s.log + 0 + (s.bytes + bytes) = bytesGranted s.log + (bytes + 0)
    omega
  calm := forall_concat ready.calm rfl
  doneSent := ready.doneSent
  reached := ready.reached
  events := fun honest event member =>
    ready.events honest event (by
      rw [events]
      exact List.mem_cons_of_mem _ member)
  writes := ready.writes

/-- The credit suffices for a frame. -/
def Waits (plain : Prop) (text : List UInt8) (result : Option Stop × State) : Prop :=
  match result.1 with
  | none => Ready plain text result.2 ∧ 0 < result.2.frames ∧ 0 < result.2.bytes
  | some stop => Stopped plain text result.2 stop

theorem awaitCredit_waits {plain : Prop} {text : List UInt8} {s : State} (events : List Event)
    (ready : Ready plain text s) (same : s.events = events) :
    Waits plain text (awaitCredit s events) := by
  induction events generalizing s with
  | nil =>
    rw [awaitCredit]
    split
    · exact ready.stop fun _ => .inr rfl
    · rename_i credit
      have more : 0 < s.frames ∧ 0 < s.bytes := by omega
      exact ⟨ready, more.1, more.2⟩
  | cons event rest ih =>
    rw [awaitCredit]
    split
    · have plainOf (honest : plain) : plainEvent event = true := by
        refine ready.events honest event ?_
        rw [same]
        exact List.mem_cons_self ..
      cases event with
      | grant frames bytes => exact ih (ready.grant same) rfl
      | end_ outcome => exact ready.stop_read rfl rfl nofun fun _ => .inl rfl
      | data bytes => exact ready.stop_read rfl rfl nofun fun honest => nomatch plainOf honest
      | badEnd message => exact ready.stop_read rfl rfl nofun fun _ => .inr (.inl rfl)
      | transport message => exact ready.stop_read rfl rfl (fun _ => rfl) fun _ => .inr (.inl rfl)
      | connectionLost message =>
        exact ready.stop_read rfl rfl (fun _ => rfl) fun _ => .inr (.inl rfl)
      | desync message => exact ready.stop_read rfl rfl nofun fun honest => nomatch plainOf honest
      | malformed message =>
        exact ready.stop_read rfl rfl nofun fun honest => nomatch plainOf honest
    · rename_i credit
      have more : 0 < s.frames ∧ 0 < s.bytes := by omega
      exact ⟨ready, more.1, more.2⟩

/-! ## Chunks -/

/-- What a chunk does to the log and the credit. -/
theorem Ready.charged {plain : Prop} {text : List UInt8} {s : State} (ready : Ready plain text s)
    (chunk : List UInt8) (write : Write) (frames : 0 < s.frames) (bytes : chunk.length ≤ s.bytes) :
    framesSent (s.log ++ [.data chunk write]) + (s.frames - 1) =
        framesGranted (s.log ++ [.data chunk write]) ∧
      bytesSent (s.log ++ [.data chunk write]) + (s.bytes - chunk.length) =
        bytesGranted (s.log ++ [.data chunk write]) := by
  have oldFrames := ready.frames
  have oldBytes := ready.bytes
  have sent : bytesSent [.data chunk write] = chunk.length := by
    rw [bytesSent]
    exact congrArg List.length (List.append_nil chunk)
  rw [framesSent_concat, framesGranted_concat, bytesSent_concat, bytesGranted_concat, sent]
  change framesSent s.log + 1 + (s.frames - 1) = framesGranted s.log + 0 ∧
    bytesSent s.log + chunk.length + (s.bytes - chunk.length) = bytesGranted s.log + 0
  omega

theorem Ready.within_chunk {plain : Prop} {text : List UInt8} {s : State}
    (ready : Ready plain text s) (chunk : List UInt8) (write : Write) (frames : 0 < s.frames)
    (bytes : chunk.length ≤ s.bytes) : Within (s.log ++ [.data chunk write]) := by
  have charged := ready.charged chunk write frames bytes
  exact within_concat ready.within (by omega) (by omega)

theorem Ready.sized_chunk {plain : Prop} {text : List UInt8} {s : State}
    (ready : Ready plain text s) (chunk : List UInt8) (write : Write) (some_ : chunk ≠ [])
    (short : chunk.length ≤ chunkBytes) : Sized (s.log ++ [.data chunk write]) := by
  refine sized_concat ready.sized fun other how same => ?_
  cases same
  exact ⟨some_, short⟩

theorem Ready.sent_chunk {plain : Prop} {text : List UInt8} {s : State}
    (ready : Ready plain text s) (chunk : List UInt8) (write : Write) :
    dataOf (s.log ++ [.data chunk write]) = text ++ chunk := by
  rw [dataOf_append, ready.sent]
  exact congrArg (text ++ ·) (List.append_nil chunk)

theorem nextWrite_plain {plain : Prop} {text : List UInt8} {s : State} (ready : Ready plain text s)
    (honest : plain) : plainWrite s.nextWrite = true := by
  cases writes : s.writes with
  | nil =>
    rw [State.nextWrite, writes]
    rfl
  | cons write rest =>
    rw [State.nextWrite, writes]
    exact ready.writes honest write (by
      rw [writes]
      exact List.mem_cons_self ..)

theorem sendCopyData_sends {plain : Prop} {text : List UInt8} {s : State}
    (ready : Ready plain text s) (chunk : List UInt8) (some_ : chunk ≠ [])
    (short : chunk.length ≤ chunkBytes) (frames : 0 < s.frames) (bytes : chunk.length ≤ s.bytes) :
    match sendCopyData s chunk with
    | (some ex, t) => Stopped plain (text ++ chunk) t (.threw ex)
    | (none, t) => Ready plain (text ++ chunk)
        { t with
          frames := t.frames - 1
          bytes := t.bytes - chunk.length } := by
  have stops (ex : Raised) (reported : loses (.data chunk s.nextWrite) = true → isLink (.threw ex) = true)
      (settled : plain → isWire (.threw ex) = true) :
      Stopped plain (text ++ chunk) (s.write (.data chunk)) (.threw ex) :=
    { within := ready.within_chunk chunk _ frames bytes
      sized := ready.sized_chunk chunk _ some_ short
      sent := (ready.sent_chunk chunk s.nextWrite) ▸ List.prefix_rfl
      doneSent := ready.doneSent
      before := by
        refine forall_concat (fun op member => ?_) ⟨rfl, rfl⟩
        exact ⟨(calm_parts (ready.calm op member)).1, (calm_parts (ready.calm op member)).2.1⟩
      reported := by
        rintro ⟨op, member, lost⟩
        cases List.mem_append.mp member with
        | inl old => exact absurd ⟨op, old, lost⟩ ready.unlost
        | inr last =>
          rw [List.mem_singleton.mp last] at lost
          exact reported lost
      settled := fun honest => .inr (.inl (settled honest)) }
  have plainOf := nextWrite_plain ready
  unfold sendCopyData
  cases how : s.nextWrite with
  | failed message => exact stops _ (fun _ => rfl) fun _ => rfl
  | reentrant message =>
    rw [how] at stops plainOf
    exact stops _ nofun fun honest => nomatch plainOf honest
  | written =>
    have charged := ready.charged chunk s.nextWrite frames bytes
    exact
      { within := ready.within_chunk chunk _ frames bytes
        sized := ready.sized_chunk chunk _ some_ short
        sent := ready.sent_chunk chunk _
        frames := charged.1
        bytes := charged.2
        calm := forall_concat ready.calm (by rw [how]; rfl)
        doneSent := ready.doneSent
        reached := ready.reached
        events := ready.events
        writes := fun honest write member =>
          ready.writes honest write (List.mem_of_mem_tail member) }

/-- The piece itself is sent where it is the chunk. -/
theorem chunk_eq (piece : List UInt8) (off n : Nat) :
    (if off = 0 ∧ n = piece.length then piece else (piece.drop off).take n) =
      (piece.drop off).take n := by
  split
  · rename_i whole
    rw [whole.1, whole.2, List.drop_zero, List.take_length]
  · rfl

theorem take_drop_length {piece : List UInt8} {off n : Nat} (fits : n ≤ piece.length - off) :
    ((piece.drop off).take n).length = n := by
  rw [List.length_take, List.length_drop]
  omega

theorem sendFrom_sends {plain : Prop} {text piece : List UInt8} (fuel : Nat) {s : State} {off : Nat}
    (ready : Ready plain (text ++ piece.take off) s) (fits : off ≤ piece.length)
    (enough : piece.length - off ≤ fuel) : Sends plain (text ++ piece) (sendFrom s piece off fuel) := by
  have whole {t : State} {off : Nat} (sent : Ready plain (text ++ piece.take off) t)
      (all : piece.length ≤ off) : Ready plain (text ++ piece) t := by
    rw [List.take_of_length_le all] at sent
    exact sent
  have part (n : Nat) : text ++ piece.take n <+: text ++ piece :=
    (List.prefix_append_right_inj text).mpr (List.take_prefix n piece)
  induction fuel generalizing s off with
  | zero => exact whole ready (by omega)
  | succ fuel ih =>
    rw [sendFrom]
    split
    · rename_i more
      have waits := awaitCredit_waits s.events ready rfl
      revert waits
      cases awaitCredit s s.events with
      | mk stop t =>
        intro waits
        cases stop with
        | some stop => exact waits.mono (part off)
        | none =>
          have ready : Ready plain (text ++ piece.take off) t := waits.1
          have frames : 0 < t.frames := waits.2.1
          have bytes : 0 < t.bytes := waits.2.2
          dsimp only
          rw [chunk_eq]
          generalize size : min (min (piece.length - off) t.bytes) chunkBytes = n
          have bounds : 0 < n ∧ n ≤ piece.length - off ∧ n ≤ t.bytes ∧ n ≤ chunkBytes := by
            unfold chunkBytes at size ⊢
            omega
          have length := take_drop_length bounds.2.1
          have sends := sendCopyData_sends ready ((piece.drop off).take n)
            (List.ne_nil_of_length_pos (by omega)) (by omega) frames (by omega)
          rw [length, List.append_assoc, ← List.take_add] at sends
          revert sends
          cases sendCopyData t ((piece.drop off).take n) with
          | mk raised u =>
            intro sends
            cases raised with
            | some ex => exact sends.mono (part (off + n))
            | none => exact ih sends (by omega) (by omega)
    · exact whole ready (by omega)

theorem send_sends {plain : Prop} {text : List UInt8} {s : State} (piece : List UInt8)
    (ready : Ready plain text s) : Sends plain (text ++ piece) (send s piece) := by
  refine sendFrom_sends piece.length ?_ (Nat.zero_le _) (Nat.sub_le _ _)
  rw [List.take_zero, List.append_nil]
  exact ready

/-! ## Pieces -/

theorem textOf_piece (bytes : List UInt8) (items : List Item) :
    textOf (.piece bytes :: items) = bytes ++ textOf items := rfl

theorem sendItems_sends {plain : Prop} {text : List UInt8} {s : State} (items : List Item)
    (pending : List UInt8) (ready : Ready plain text s)
    (pieces : plain → ∀ item ∈ items, isPiece item = true) :
    Sends plain (text ++ (pending ++ textOf items)) (sendItems s pending items) := by
  induction items generalizing text s pending with
  | nil =>
    rw [sendItems]
    split
    · rename_i empty
      rw [empty]
      exact (List.append_nil text).symm ▸ ready
    · rw [textOf, List.flatMap_nil, List.append_nil]
      exact send_sends pending ready
  | cons item items ih =>
    have first (honest : plain) : isPiece item = true :=
      pieces honest item (List.mem_cons_self ..)
    have later (honest : plain) (item : Item) (member : item ∈ items) : isPiece item = true :=
      pieces honest item (List.mem_cons_of_mem _ member)
    -- A chunk that was sent, and the items that follow it.
    have stops (chunk : List UInt8) {stop : Stop} {t : State} (sent : send s chunk = (some stop, t)) :
        Sends plain (text ++ (chunk ++ textOf items)) (some stop, t) := by
      have sends := send_sends chunk ready
      rw [sent] at sends
      refine Stopped.mono sends ?_
      rw [← List.append_assoc]
      exact List.prefix_append _ _
    have goes (chunk : List UInt8) {t : State} (sent : send s chunk = (none, t)) :
        Sends plain (text ++ (chunk ++ textOf items)) (sendItems t [] items) := by
      have sends := send_sends chunk ready
      rw [sent] at sends
      rw [← List.append_assoc]
      exact ih [] sends later
    have broken (other : isPiece item = false) (honest : plain) : False := by
      rw [first honest] at other
      cases other
    cases item with
    | notString debugType => exact (ready.stop fun honest => (broken rfl honest).elim).mono (List.prefix_append _ _)
    | throws ex => exact (ready.stop fun honest => (broken rfl honest).elim).mono (List.prefix_append _ _)
    | piece bytes =>
      rw [sendItems, textOf_piece, ← List.append_assoc pending]
      split
      · rename_i large
        rw [large.1]
        split
        · rename_i sent
          exact stops bytes sent
        · rename_i sent
          exact goes bytes sent
      · split
        · split
          · rename_i sent
            exact stops (pending ++ bytes) sent
          · rename_i sent
            exact goes (pending ++ bytes) sent
        · exact ih (pending ++ bytes) ready later

/-! ## End of data -/

/-- Every COPY_DONE follows the whole text, completely written, and no other follows it. -/
def DoneOnce (text : List UInt8) (log : List Op) : Prop :=
  ∀ before write after, log = before ++ .done write :: after →
    dataOf before = text ∧ (∀ op ∈ before, calm op = true) ∧ ∀ op ∈ after, isDone op = false

/-- How the inner `try` leaves the COPY. -/
structure Copied (plain : Prop) (text : List UInt8) (result : End) (s : State) : Prop where
  within : Within s.log
  sized : Sized s.log
  sent : dataOf s.log <+: text
  done : DoneOnce text s.log
  doneSent : s.doneSent = true ↔ .done .written ∈ s.log
  quiet : ∀ op ∈ s.log, abandons op = false
  reported : (∃ op ∈ s.log, loses op = true) → ∃ stop, result = .stopped stop ∧ isLink stop = true
  settled : plain → s.reachedTerminal = true ∨
    ∃ stop, result = .stopped stop ∧ (isWire stop = true ∨ stop = .waiting)

theorem Stopped.copied {plain : Prop} {text : List UInt8} {s : State} {stop : Stop}
    (stopped : Stopped plain text s stop) : Copied plain text (.stopped stop) s where
  within := stopped.within
  sized := stopped.sized
  sent := stopped.sent
  done := fun before write after shape => by
    have none := (stopped.before (.done write) (by
      rw [shape]
      exact List.mem_append_right before (List.mem_cons_self ..))).1
    cases none
  doneSent := by
    rw [stopped.doneSent]
    refine ⟨nofun, fun member => ?_⟩
    have none := (stopped.before _ member).1
    cases none
  quiet := fun op member => (stopped.before op member).2
  reported := fun lost => ⟨stop, rfl, stopped.reported lost⟩
  settled := fun honest => (stopped.settled honest).imp id fun kind => ⟨stop, rfl, kind⟩

def isRead : Op → Bool
  | .read _ => true
  | _ => false

theorem read_parts {op : Op} (reads : isRead op = true) :
    isDone op = false ∧ abandons op = false ∧ chunkOf op = [] := by
  cases op with
  | read _ => exact ⟨rfl, rfl, rfl⟩
  | _ => cases reads

/-- From COPY_DONE on. -/
structure Closing (plain : Prop) (text : List UInt8) (write : Write) (s : State) : Prop where
  within : Within s.log
  sized : Sized s.log
  shape : ∃ base more, s.log = base ++ .done write :: more ∧ dataOf base = text ∧
    (∀ op ∈ base, calm op = true) ∧ ∀ op ∈ more, isRead op = true
  doneSent : s.doneSent = true ↔ write = .written
  events : plain → ∀ event ∈ s.events, plainEvent event = true

/-- A list splits in one way at its only element with a property. -/
theorem split_eq {α : Type} {p : α → Bool} {base before more after : List α} {x y : α}
    (same : base ++ x :: more = before ++ y :: after) (here : p y = true)
    (first : ∀ a ∈ base, p a = false) (last : ∀ a ∈ more, p a = false) :
    base = before ∧ more = after := by
  induction base generalizing before with
  | nil =>
    cases before with
    | nil => exact ⟨rfl, (List.cons.inj same).2⟩
    | cons b before =>
      have member : y ∈ more := by
        rw [(List.cons.inj same).2]
        exact List.mem_append_right before (List.mem_cons_self ..)
      rw [last y member] at here
      cases here
  | cons a base ih =>
    cases before with
    | nil =>
      rw [← (List.cons.inj same).1, first a (List.mem_cons_self ..)] at here
      cases here
    | cons b before =>
      have tail := ih (List.cons.inj same).2 fun c member => first c (List.mem_cons_of_mem a member)
      exact ⟨congrArg₂ List.cons (List.cons.inj same).1 tail.1, tail.2⟩

theorem dataOf_reads {log : List Op} (reads : ∀ op ∈ log, isRead op = true) : dataOf log = [] :=
  List.flatMap_eq_nil_iff.mpr fun op member => (read_parts (reads op member)).2.2

theorem Closing.copied {plain : Prop} {text : List UInt8} {write : Write} {s : State}
    (closing : Closing plain text write s) {result : End}
    (reported : (∃ op ∈ s.log, loses op = true) → ∃ stop, result = .stopped stop ∧ isLink stop = true)
    (settled : plain → s.reachedTerminal = true ∨
      ∃ stop, result = .stopped stop ∧ (isWire stop = true ∨ stop = .waiting)) :
    Copied plain text result s := by
  obtain ⟨base, more, shape, sent, calmBase, reads⟩ := closing.shape
  have noneBefore (op : Op) (member : op ∈ base) := calm_parts (calmBase op member)
  have noneAfter (op : Op) (member : op ∈ more) := read_parts (reads op member)
  refine ⟨closing.within, closing.sized, ?_, fun before other after again => ?_, ?_, fun op member => ?_,
    reported, settled⟩
  · rw [shape, dataOf_append, sent]
    change text ++ dataOf more <+: text
    have whole : text ++ dataOf more = text := by rw [dataOf_reads reads, List.append_nil]
    exact ⟨[], (List.append_nil _).trans whole⟩
  · rw [shape] at again
    have same := split_eq (p := isDone) again rfl (fun op member => (noneBefore op member).1)
      fun op member => (noneAfter op member).1
    rw [← same.1, ← same.2]
    exact ⟨sent, calmBase, fun op member => (noneAfter op member).1⟩
  · rw [closing.doneSent, shape]
    constructor
    · intro written
      rw [written]
      exact List.mem_append_right base (List.mem_cons_self ..)
    · intro member
      cases List.mem_append.mp member with
      | inl early => cases (noneBefore _ early).1
      | inr late =>
        cases List.mem_cons.mp late with
        | inl same => exact (Op.done.inj same).symm
        | inr read => cases (noneAfter _ read).1
  · rw [shape] at member
    cases List.mem_append.mp member with
    | inl early => exact (noneBefore op early).2.1
    | inr late =>
      cases List.mem_cons.mp late with
      | inl same =>
        rw [same]
        rfl
      | inr read => exact (noneAfter op read).2.1

/-- A read after COPY_DONE. -/
theorem Closing.read {plain : Prop} {text : List UInt8} {write : Write} {s t : State} {event : Event}
    (closing : Closing plain text write s) (log : t.log = s.log ++ [.read event])
    (doneSent : t.doneSent = s.doneSent)
    (events : plain → ∀ event ∈ t.events, plainEvent event = true) : Closing plain text write t where
  within := by
    rw [log]
    exact within_quiet closing.within rfl
  sized := by
    rw [log]
    exact sized_quiet closing.sized rfl
  shape := by
    obtain ⟨base, more, shape, sent, calmBase, reads⟩ := closing.shape
    refine ⟨base, more ++ [.read event], ?_, sent, calmBase, forall_concat reads rfl⟩
    rw [log, shape, List.append_assoc]
    rfl
  doneSent := by
    rw [doneSent]
    exact closing.doneSent
  events := events

/-- The COPY_DONE frame. -/
theorem Ready.closing {plain : Prop} {text : List UInt8} {s t : State} (ready : Ready plain text s)
    {write : Write} (log : t.log = s.log ++ [.done write])
    (doneSent : t.doneSent = true ↔ write = .written) (events : t.events = s.events) :
    Closing plain text write t where
  within := by
    rw [log]
    exact within_quiet ready.within rfl
  sized := by
    rw [log]
    exact sized_quiet ready.sized rfl
  shape := ⟨s.log, [], log, ready.sent, ready.calm, nofun⟩
  doneSent := doneSent
  events := by
    rw [events]
    exact ready.events

theorem unlost_concat {log : List Op} {op : Op} (unlost : ¬∃ op ∈ log, loses op = true)
    {stop : Stop} (reported : loses op = true → isLink stop = true) :
    (∃ x ∈ log ++ [op], loses x = true) →
      ∃ reason, (.stopped stop : End) = .stopped reason ∧ isLink reason = true := by
  rintro ⟨x, member, lost⟩
  cases List.mem_append.mp member with
  | inl old => exact absurd ⟨x, old, lost⟩ unlost
  | inr last =>
    rw [List.mem_singleton.mp last] at lost
    exact ⟨stop, rfl, reported lost⟩

theorem awaitEnd_copied {plain : Prop} {text : List UInt8} {write : Write} {s : State}
    (events : List Event) (closing : Closing plain text write s) (same : s.events = events)
    (unlost : ¬∃ op ∈ s.log, loses op = true) :
    Copied plain text (awaitEnd s events).1 (awaitEnd s events).2 := by
  induction events generalizing s with
  | nil => exact closing.copied (fun lost => absurd lost unlost) fun _ => .inr ⟨_, rfl, .inr rfl⟩
  | cons event rest ih =>
    have later (honest : plain) (event : Event) (member : event ∈ rest) :
        plainEvent event = true := by
      refine closing.events honest event ?_
      rw [same]
      exact List.mem_cons_of_mem _ member
    have first (honest : plain) : plainEvent event = true := by
      refine closing.events honest event ?_
      rw [same]
      exact List.mem_cons_self ..
    have calmRead (quiet : loses (.read event) = false) :
        ¬∃ op ∈ s.log ++ [.read event], loses op = true := by
      rintro ⟨op, member, lost⟩
      cases List.mem_append.mp member with
      | inl old => exact unlost ⟨op, old, lost⟩
      | inr last =>
        rw [List.mem_singleton.mp last, quiet] at lost
        cases lost
    have next : Closing plain text write (s.read event rest) := closing.read rfl rfl later
    cases event with
    | grant frames bytes => exact ih next rfl (calmRead rfl)
    | end_ outcome =>
      have ended : Closing plain text write
          { s.read (.end_ outcome) rest with reachedTerminal := true } :=
        closing.read rfl rfl later
      rw [awaitEnd]
      split
      · exact ended.copied (fun lost => absurd lost (calmRead rfl)) fun _ => .inl rfl
      · exact ended.copied (fun lost => absurd lost (calmRead rfl)) fun _ => .inl rfl
    | data bytes =>
      rw [awaitEnd]
      dsimp only
      exact next.copied (fun lost => absurd lost (calmRead rfl))
        fun honest => nomatch first honest
    | badEnd message =>
      rw [awaitEnd]
      dsimp only
      exact next.copied (fun lost => absurd lost (calmRead rfl))
        fun _ => .inr ⟨_, rfl, .inl rfl⟩
    | transport message =>
      rw [awaitEnd]
      dsimp only
      exact next.copied (unlost_concat unlost fun _ => rfl)
        fun _ => .inr ⟨_, rfl, .inl rfl⟩
    | connectionLost message =>
      rw [awaitEnd]
      dsimp only
      exact next.copied (unlost_concat unlost fun _ => rfl)
        fun _ => .inr ⟨_, rfl, .inl rfl⟩
    | desync message =>
      rw [awaitEnd]
      dsimp only
      exact next.copied (fun lost => absurd lost (calmRead rfl))
        fun honest => nomatch first honest
    | malformed message =>
      rw [awaitEnd]
      dsimp only
      exact next.copied (fun lost => absurd lost (calmRead rfl))
        fun honest => nomatch first honest

theorem copy_copied {plain : Prop} {s : State} {text : List UInt8} (items : List Item)
    (ready : Ready plain text s) (pieces : plain → ∀ item ∈ items, isPiece item = true) :
    Copied plain (text ++ textOf items) (copy s items).1 (copy s items).2 := by
  have sends := sendItems_sends items [] ready pieces
  rw [List.nil_append] at sends
  unfold copy
  revert sends
  cases sendItems s [] items with
  | mk stop t =>
    intro sends
    cases stop with
    | some stop => exact Stopped.copied sends
    | none =>
      have ready : Ready plain (text ++ textOf items) t := sends
      have plainOf := nextWrite_plain ready
      have refused (same : t.nextWrite ≠ .written) :
          Closing plain (text ++ textOf items) t.nextWrite (t.write .done) := by
        refine ready.closing rfl ⟨fun done => ?_, fun written => absurd written same⟩ rfl
        have unset : (t.write .done).doneSent = false := ready.doneSent
        rw [unset] at done
        cases done
      dsimp only
      unfold sendCopyDone
      cases how : t.nextWrite with
      | written =>
        have log : (t.write .done).log = t.log ++ [.done .written] := by
          rw [State.write, how]
        have closing : Closing plain (text ++ textOf items) .written
            { t.write .done with doneSent := true } :=
          ready.closing log ⟨fun _ => rfl, fun _ => rfl⟩ rfl
        refine awaitEnd_copied _ closing rfl ?_
        rintro ⟨op, member, lost⟩
        rw [log] at member
        cases List.mem_append.mp member with
        | inl old => exact ready.unlost ⟨op, old, lost⟩
        | inr last =>
          rw [List.mem_singleton.mp last] at lost
          cases lost
      | failed message =>
        have closing := refused (by rw [how]; nofun)
        exact closing.copied (unlost_concat ready.unlost fun _ => rfl)
          fun _ => .inr ⟨_, rfl, .inl rfl⟩
      | reentrant message =>
        have closing := refused (by rw [how]; nofun)
        rw [how] at plainOf
        refine closing.copied (unlost_concat ready.unlost fun lost => ?_)
          fun honest => nomatch plainOf honest
        rw [how] at lost
        cases lost

/-! ## Abandonment -/

theorem abandons_one {op : Op} (abandoned : abandons op = true) : ∀ x ∈ [op], abandons x = true := by
  intro x member
  rw [List.mem_singleton.mp member]
  exact abandoned

theorem drain_log (events : List Event) (s : State) :
    ∃ extra, (drain s events).2.log = s.log ++ extra ∧ ∀ op ∈ extra, abandons op = true := by
  induction events generalizing s with
  | nil => exact ⟨[], (List.append_nil _).symm, nofun⟩
  | cons event rest ih =>
    have one : ∃ extra, s.log ++ [.drained event] = s.log ++ extra ∧ ∀ op ∈ extra, abandons op = true :=
      ⟨[.drained event], rfl, abandons_one rfl⟩
    rw [drain]
    split
    · exact one
    · split
      · have later := ih
          { s with
            streamOpen := event.keepsOpen
            events := rest
            log := s.log ++ [.drained event] }
        obtain ⟨extra, log, quiet⟩ := later
        refine ⟨.drained event :: extra, ?_, fun op member => ?_⟩
        · rw [log, List.append_assoc]
          rfl
        · cases List.mem_cons.mp member with
          | inl same =>
            rw [same]
            rfl
          | inr late => exact quiet op late
      · exact one

theorem abandonCopy_log (s : State) :
    ∃ extra, (abandonCopy s).2.log = s.log ++ extra ∧ ∀ op ∈ extra, abandons op = true := by
  unfold abandonCopy
  split
  · dsimp only
    split
    · exact ⟨[.cancel s.nextWrite], rfl, abandons_one rfl⟩
    · obtain ⟨extra, log, quiet⟩ := drain_log (s.write .cancel).events (s.write .cancel)
      refine ⟨.cancel s.nextWrite :: extra, ?_, fun op member => ?_⟩
      · rw [log, State.write, List.append_assoc]
        rfl
      · cases List.mem_cons.mp member with
        | inl same =>
          rw [same]
          rfl
        | inr late => exact quiet op late
  · exact ⟨[], (List.append_nil _).symm, nofun⟩

/-- The `finally` adds the operations of an abandonment, if any. -/
theorem finish_log (s : State) (result : End) (wireFailed : Bool) :
    ∃ extra, (finish s result wireFailed).2 = s.log ++ extra ∧ ∀ op ∈ extra, abandons op = true := by
  unfold finish
  split
  · exact ⟨[], (List.append_nil _).symm, nofun⟩
  · have abandoned := abandonCopy_log s
    revert abandoned
    cases abandonCopy s with
    | mk stop t =>
      intro abandoned
      cases stop with
      | some stop => exact abandoned
      | none => exact abandoned

theorem abandons_parts {op : Op} (abandoned : abandons op = true) :
    isData op = false ∧ isDone op = false ∧ loses op = false ∧ chunkOf op = [] := by
  cases op with
  | cancel _ | drained _ => exact ⟨rfl, rfl, rfl, rfl⟩
  | _ => cases abandoned

theorem within_append {log extra : List Op} (within : Within log)
    (quiet : ∀ op ∈ extra, isData op = false) : Within (log ++ extra) := by
  induction extra generalizing log with
  | nil =>
    rw [List.append_nil]
    exact within
  | cons op extra ih =>
    rw [List.append_cons]
    exact ih (within_quiet within (quiet op (List.mem_cons_self ..)))
      fun other member => quiet other (List.mem_cons_of_mem op member)

theorem doneOnce_append {text : List UInt8} {log extra : List Op} (done : DoneOnce text log)
    (quiet : ∀ op ∈ extra, isDone op = false) : DoneOnce text (log ++ extra) := by
  intro before write after shape
  cases List.append_eq_append_iff.mp shape with
  | inl late =>
    obtain ⟨middle, _, rest⟩ := late
    have none := quiet (.done write) (by
      rw [rest]
      exact List.mem_append_right middle (List.mem_cons_self ..))
    cases none
  | inr early =>
    obtain ⟨middle, first, rest⟩ := early
    cases middle with
    | nil =>
      have none := quiet (.done write) (by
        rw [List.nil_append] at rest
        rw [← rest]
        exact List.mem_cons_self ..)
      cases none
    | cons op middle =>
      rw [← (List.cons.inj rest).1] at first
      obtain ⟨sent, calmBefore, unique⟩ := done before write middle first
      refine ⟨sent, calmBefore, fun other member => ?_⟩
      rw [(List.cons.inj rest).2] at member
      cases List.mem_append.mp member with
      | inl inside => exact unique other inside
      | inr extra => exact quiet other extra

/-! ## A call -/

/-- A lost link in autocommit: Retryable before COPY_DONE, Indeterminate after it. -/
structure Autocommit (run : End × List Op) : Prop where
  retryable : (∃ payload, run.1 = .stopped (.threw (.ferro (.retryable payload)))) ↔
    .done .written ∉ run.2
  indeterminate : .done .written ∈ run.2 →
    ∃ payload cause, run.1 = .stopped (.threw (.ferro (.indeterminate payload cause)))

/-- What a call does, whatever it meets. -/
structure Orderly (inTx : Bool) (text : List UInt8) (run : End × List Op) : Prop where
  within : Within run.2
  sized : Sized run.2
  sent : dataOf run.2 <+: text
  done : DoneOnce text run.2
  lost : (∃ op ∈ run.2, loses op = true) → if inTx then
      ∃ payload, run.1 = .stopped (.threw (.ferro (.retryable payload)))
    else Autocommit run

theorem lost_before (inTx epochChanged : Bool) (message : String) :
    ∃ payload, lost inTx epochChanged false none message = .retryable payload := ⟨_, rfl⟩

theorem lost_inTx (epochChanged doneSent : Bool) (message : String) :
    ∃ payload, lost true epochChanged doneSent none message = .retryable payload := by
  cases doneSent <;> exact ⟨_, rfl⟩

theorem lost_after (epochChanged : Bool) (message : String) :
    ∃ payload cause, lost false epochChanged true none message = .indeterminate payload cause :=
  ⟨_, _, rfl⟩

/-- The end of a call whose link was lost. -/
theorem caught_link (inTx epochChanged doneSent : Bool) {stop : Stop} (link : isLink stop = true) :
    ∃ message, caught inTx epochChanged doneSent (.stopped stop) =
      (.stopped (.threw (.ferro (lost inTx epochChanged doneSent none message))), true) := by
  cases stop with
  | waiting => cases link
  | threw ex =>
    cases ex with
    | ferro ex =>
      cases ex with
      | transport requestUnsent message => exact ⟨message, rfl⟩
      | connectionLost server message =>
        cases server with
        | none => exact ⟨message, rfl⟩
        | some _ => cases link
      | _ => cases link
    | _ => cases link

theorem caught_wire {inTx epochChanged doneSent : Bool} {stop : Stop} (wire : isWire stop = true) :
    (caught inTx epochChanged doneSent (.stopped stop)).2 = true := by
  cases stop with
  | waiting => cases wire
  | threw ex =>
    cases ex with
    | ferro ex =>
      cases ex with
      | transport _ _ | connectionLost _ _ => rfl
      | _ => cases wire
    | codec _ => rfl
    | _ => cases wire

theorem autocommit_lost {epochChanged : Bool} {doneSent : Bool} {message : String} {log : List Op}
    (done : doneSent = true ↔ .done .written ∈ log) :
    Autocommit (.stopped (.threw (.ferro (lost false epochChanged doneSent none message))), log) := by
  cases doneSent with
  | true =>
    have written := done.mp rfl
    obtain ⟨payload, cause, unsure⟩ := lost_after epochChanged message
    rw [unsure]
    refine ⟨⟨?_, fun unwritten => absurd written unwritten⟩, fun _ => ⟨payload, cause, rfl⟩⟩
    rintro ⟨other, same⟩
    cases same
  | false =>
    have unwritten : .done .written ∉ log := fun written => nomatch done.mpr written
    obtain ⟨payload, again⟩ := lost_before false epochChanged message
    rw [again]
    exact ⟨⟨fun _ => unwritten, fun _ => ⟨payload, rfl⟩⟩, fun written => absurd written unwritten⟩

theorem finish_wire (s : State) (result : End) : finish s result true = (result, s.log) := by
  unfold finish
  rw [if_pos (.inr (.inr rfl))]

/-- The end of a call after the inner `try`. -/
theorem Copied.orderly {plain : Prop} {text : List UInt8} {result : End} {s : State}
    (copied : Copied plain text result s) (inTx epochChanged : Bool) :
    Orderly inTx text (finish s (caught inTx epochChanged s.doneSent result).1
      (caught inTx epochChanged s.doneSent result).2) := by
  obtain ⟨extra, log, abandoned⟩ := finish_log s (caught inTx epochChanged s.doneSent result).1
    (caught inTx epochChanged s.doneSent result).2
  have parts (op : Op) (member : op ∈ extra) := abandons_parts (abandoned op member)
  refine ⟨?_, ?_, ?_, ?_, ?_⟩
  · rw [log]
    exact within_append copied.within fun op member => (parts op member).1
  · rw [log]
    intro chunk write member
    cases List.mem_append.mp member with
    | inl inside => exact copied.sized chunk write inside
    | inr late => cases (parts _ late).1
  · have none : dataOf extra = [] :=
      List.flatMap_eq_nil_iff.mpr fun op member => (parts op member).2.2.2
    rw [log, dataOf_append, none, List.append_nil]
    exact copied.sent
  · rw [log]
    exact doneOnce_append copied.done fun op member => (parts op member).2.1
  · rintro ⟨op, member, lost⟩
    rw [log] at member
    have inside : op ∈ s.log := by
      cases List.mem_append.mp member with
      | inl inside => exact inside
      | inr late =>
        rw [(parts op late).2.2.1] at lost
        cases lost
    obtain ⟨stop, same, link⟩ := copied.reported ⟨op, inside, lost⟩
    obtain ⟨message, ends⟩ := caught_link inTx epochChanged s.doneSent link
    rw [same, ends, finish_wire]
    cases inTx with
    | true =>
      obtain ⟨payload, again⟩ := lost_inTx epochChanged s.doneSent message
      exact ⟨payload, by rw [again]⟩
    | false => exact autocommit_lost copied.doneSent

theorem Copied.unabandoned {plain : Prop} {text : List UInt8} {result : End} {s : State}
    (copied : Copied plain text result s) (inTx epochChanged : Bool) (honest : plain) :
    ∀ op ∈ (finish s (caught inTx epochChanged s.doneSent result).1
      (caught inTx epochChanged s.doneSent result).2).2, abandons op = false := by
  have stays : (finish s (caught inTx epochChanged s.doneSent result).1
      (caught inTx epochChanged s.doneSent result).2).2 = s.log := by
    unfold finish
    rw [if_pos]
    cases copied.settled honest with
    | inl reached => exact .inr (.inl reached)
    | inr stopped =>
      obtain ⟨stop, same, kind⟩ := stopped
      rw [same]
      cases kind with
      | inl wire => exact .inr (.inr (caught_wire wire))
      | inr waits =>
        rw [waits]
        exact .inl rfl
  rw [stays]
  exact copied.quiet

theorem opened_ready {plain : Prop} (frames bytes : Nat) (events : List Event) (writes : List Write)
    (plainEvents : plain → ∀ event ∈ events, plainEvent event = true)
    (plainWrites : plain → ∀ write ∈ writes, plainWrite write = true) :
    Ready plain [] (.opened frames bytes events writes) where
  within := by
    have start : Within [] := by
      intro before after shape
      rw [(List.append_eq_nil_iff.mp shape.symm).1]
      exact ⟨Nat.le_refl 0, Nat.le_refl 0⟩
    have submitted : Within [.submitted .written] := @within_quiet [] _ start rfl
    exact within_quiet submitted rfl
  sized := by
    intro chunk write member
    simp [State.opened] at member
  sent := rfl
  frames := by
    change 0 + frames = 0 + (frames + 0)
    omega
  bytes := by
    change 0 + bytes = 0 + (bytes + 0)
    omega
  calm := by
    intro op member
    simp only [State.opened, List.mem_cons, List.not_mem_nil, or_false] at member
    cases member with
    | inl same | inr same =>
      rw [same]
      rfl
  doneSent := rfl
  reached := rfl
  events := plainEvents
  writes := plainWrites

/-- A call that ends before any COPY_DATA or COPY_DONE. -/
theorem orderly_unstarted {inTx : Bool} {text : List UInt8} {result : End} {log : List Op}
    (quiet : ∀ op ∈ log, isData op = false ∧ isDone op = false)
    (lost : (∃ op ∈ log, loses op = true) →
      ∃ payload, result = .stopped (.threw (.ferro (.retryable payload)))) :
    Orderly inTx text (result, log) := by
  have undone (write : Write) : .done write ∉ log := fun member => nomatch (quiet _ member).2
  have unsent : dataOf log = [] := by
    refine List.flatMap_eq_nil_iff.mpr fun op member => ?_
    have none := (quiet op member).1
    cases op with
    | data _ _ => cases none
    | _ => rfl
  refine ⟨?_, fun chunk write member => (nomatch (quiet _ member).1), ?_, ?_, fun cut => ?_⟩
  · have start : Within [] := by
      intro before after shape
      rw [(List.append_eq_nil_iff.mp shape.symm).1]
      exact ⟨Nat.le_refl 0, Nat.le_refl 0⟩
    exact within_append start fun op member => (quiet op member).1
  · rw [unsent]
    exact List.nil_prefix
  · intro before write after shape
    have whole : log = before ++ .done write :: after := shape
    refine absurd ?_ (undone write)
    rw [whole]
    exact List.mem_append_right before (List.mem_cons_self ..)
  · obtain ⟨payload, again⟩ := lost cut
    cases inTx with
    | true => exact ⟨payload, again⟩
    | false =>
      exact ⟨⟨fun _ => undone .written, fun _ => ⟨payload, again⟩⟩,
        fun written => absurd written (undone .written)⟩

theorem openError_lost {ex : Raised} (lost : loses (.submitted (.refused ex)) = true) :
    ∃ payload, openError ex = .ferro (.retryable payload) := by
  cases ex with
  | ferro ex =>
    cases ex with
    | transport _ _ | connectionLost _ _ => exact ⟨_, rfl⟩
    | _ => cases lost
  | _ => cases lost

/-- The sender stays within its credit, sends the text in order, ends it once, and reports a lost
link by whether COPY_DONE was written; and it abandons no COPY that meets strings, grants, terminals
and losses only. -/
theorem in_orderly (inTx epochChanged : Bool) (requestId : Nat) (submit : Submit)
    (events : List Event) (writes : List Write) (items : List Item) :
    Orderly inTx (textOf items) (in_ inTx epochChanged requestId submit events writes items) ∧
      ((∀ item ∈ items, isPiece item = true) → (∀ event ∈ events, plainEvent event = true) →
        (∀ write ∈ writes, plainWrite write = true) →
        ∀ op ∈ (in_ inTx epochChanged requestId submit events writes items).2,
          abandons op = false) := by
  have early (event : Event) : ∀ op ∈ [Op.submitted .written, .read event],
      isData op = false ∧ isDone op = false ∧ abandons op = false := by
    intro op member
    simp only [List.mem_cons, List.not_mem_nil, or_false] at member
    cases member with
    | inl same | inr same =>
      rw [same]
      exact ⟨rfl, rfl, rfl⟩
  cases submit with
  | refused ex =>
    refine ⟨orderly_unstarted (fun op member => ?_) fun cut => ?_, fun _ _ _ op member => ?_⟩
    · rw [List.mem_singleton.mp member]
      exact ⟨rfl, rfl⟩
    · obtain ⟨op, member, lost⟩ := cut
      rw [List.mem_singleton.mp member] at lost
      obtain ⟨payload, again⟩ := openError_lost lost
      exact ⟨payload, by rw [again]⟩
    · rw [List.mem_singleton.mp member]
      rfl
  | written =>
    cases events with
    | nil =>
      have one (op : Op) (member : op ∈ [Op.submitted .written]) := early (.grant 0 0) op
        (List.mem_cons.mpr (.inl (List.mem_singleton.mp member)))
      refine ⟨orderly_unstarted (fun op member => ⟨(one op member).1, (one op member).2.1⟩)
        fun cut => ?_, fun _ _ _ op member => (one op member).2.2⟩
      obtain ⟨op, member, lost⟩ := cut
      rw [List.mem_singleton.mp member] at lost
      cases lost
    | cons event rest =>
      have unstarted (result : End) (lost : loses (.read event) = true →
          ∃ payload, result = .stopped (.threw (.ferro (.retryable payload)))) :
          Orderly inTx (textOf items) (result, [.submitted .written, .read event]) := by
        refine orderly_unstarted (fun op member => ⟨(early event op member).1,
          (early event op member).2.1⟩) ?_
        rintro ⟨op, member, cut⟩
        simp only [List.mem_cons, List.not_mem_nil, or_false] at member
        cases member with
        | inl same =>
          rw [same] at cut
          cases cut
        | inr same =>
          rw [same] at cut
          exact lost cut
      cases event with
      | grant frames bytes =>
        have ready : Ready ((∀ item ∈ items, isPiece item = true) ∧
            (∀ event ∈ rest, plainEvent event = true) ∧ ∀ write ∈ writes, plainWrite write = true) []
            (.opened frames bytes rest writes) :=
          opened_ready frames bytes rest writes (fun honest => honest.2.1) fun honest => honest.2.2
        have copied := copy_copied items ready fun honest => honest.1
        exact ⟨copied.orderly inTx epochChanged, fun pieces plainEvents plainWrites =>
          copied.unabandoned inTx epochChanged ⟨pieces,
            fun event member => plainEvents event (List.mem_cons_of_mem _ member), plainWrites⟩⟩
      | transport message =>
        exact ⟨unstarted _ fun _ => ⟨_, rfl⟩, fun _ _ _ op member => (early _ op member).2.2⟩
      | connectionLost message =>
        exact ⟨unstarted _ fun _ => ⟨_, rfl⟩, fun _ _ _ op member => (early _ op member).2.2⟩
      | end_ outcome => exact ⟨unstarted _ nofun, fun _ _ _ op member => (early _ op member).2.2⟩
      | data bytes => exact ⟨unstarted _ nofun, fun _ _ _ op member => (early _ op member).2.2⟩
      | badEnd message => exact ⟨unstarted _ nofun, fun _ _ _ op member => (early _ op member).2.2⟩
      | desync message => exact ⟨unstarted _ nofun, fun _ _ _ op member => (early _ op member).2.2⟩
      | malformed message =>
        exact ⟨unstarted _ nofun, fun _ _ _ op member => (early _ op member).2.2⟩

/-- Two pieces in one buffer, cut at the credit of the first grant. -/
example : dataOf (in_ false false 1 .written [.grant 1 2, .grant 1 5, .end_ (.ok (.ok 3))] []
    [.piece [1, 2], .piece [3]]).2 = [1, 2, 3] := rfl

end FerroEngine.ClientCopyInSoundness

