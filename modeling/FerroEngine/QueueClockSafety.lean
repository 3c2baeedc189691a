import FerroEngine.QueueClock
import FerroEngine.QueueFenceSteps

set_option autoImplicit false

/-! # When a job may be taken -/

namespace FerroEngine.QueueClockSafety

open QueueClock QueueFence QueueFenceSteps QueueIdentifiers QueueTable

/-! ## The clock -/

theorem second_le {a b : Int} (order : a ≤ b) : second a ≤ second b := by
  unfold second
  omega

/-- A row keeps to the history. -/
structure OnTime (cfg : StoreConfig) (s : Timed) (row : Row) : Prop where
  entered : s.entered row.id ≤ s.clock
  available : row.availableAt = availableAt (second (s.entered row.id)) (s.delayS row.id)
  fits : fitsInteger row.availableAt = true
  held : ∀ r, row.reservedAt = some r → r = second (s.held row.id) ∧ s.held row.id ≤ s.clock ∧
    row.availableAt ≤ r ∧ s.deadline row.id = r + cfg.leaseS + 1 ∧
    SourceText.byteLen row.payload ≤ cfg.maxPayloadBytes

structure Timely (cfg : StoreConfig) (s : Timed) : Prop where
  sound : Sound s.store
  now : s.store.now = second s.clock
  rows : ∀ row ∈ s.store.rows, OnTime cfg s row

/-- A row that a step keeps, with its part of the history. -/
theorem OnTime.keep {cfg : StoreConfig} {s t : Timed} {row : Row} (onTime : OnTime cfg s row)
    (clock : s.clock ≤ t.clock) (entered : t.entered row.id = s.entered row.id)
    (delayS : t.delayS row.id = s.delayS row.id) (held : t.held row.id = s.held row.id)
    (deadline : t.deadline row.id = s.deadline row.id) : OnTime cfg t row where
  entered := by
    rw [entered]
    exact onTime.entered.trans clock
  available := by
    rw [entered, delayS]
    exact onTime.available
  fits := onTime.fits
  held := fun r stamp => by
    obtain ⟨same, before, rest⟩ := onTime.held r stamp
    rw [held, deadline]
    exact ⟨same, before.trans clock, rest⟩

/-- A row that is held from now on. -/
theorem OnTime.hold {cfg : StoreConfig} {s t : Timed} {row row' : Row} (onTime : OnTime cfg s row)
    (clock : t.clock = s.clock) (entered : t.entered row.id = s.entered row.id)
    (delayS : t.delayS row.id = s.delayS row.id) (held : t.held row.id = s.clock)
    (deadline : t.deadline row.id = second s.clock + cfg.leaseS + 1) (id : row'.id = row.id)
    (available : row'.availableAt = row.availableAt) (payload : row'.payload = row.payload)
    (stamp : row'.reservedAt = some (second s.clock)) (due : row.availableAt ≤ second s.clock)
    (small : SourceText.byteLen row.payload ≤ cfg.maxPayloadBytes) : OnTime cfg t row' where
  entered := by
    rw [id, entered, clock]
    exact onTime.entered
  available := by
    rw [id, entered, delayS, available]
    exact onTime.available
  fits := by
    rw [available]
    exact onTime.fits
  held := fun r same => by
    rw [stamp] at same
    rw [id, held, deadline, clock, available, payload, ← Option.some.inj same]
    exact ⟨rfl, le_rfl, due, rfl, small⟩

/-- A row that a statement writes. -/
theorem onTime_new {cfg : StoreConfig} {t : Timed} {id : JobId} {queue payload : SourceText.Text}
    {attempts : Int} {delay : Nat} (entered : t.entered id = t.clock) (delayS : t.delayS id = delay)
    (fits : (newRow (second t.clock) id queue payload attempts delay).fits = true) :
    OnTime cfg t (newRow (second t.clock) id queue payload attempts delay) where
  entered := entered.le
  available := by
    change availableAt (second t.clock) delay = availableAt (second (t.entered id)) (t.delayS id)
    rw [entered, delayS]
  fits := (Bool.and_eq_true _ _ ▸ fits : _ ∧ _).1
  held := nofun

/-! ## Statements -/

theorem find?_key {α : Type} {key : α → JobId} {xs : List α} (distinct : (xs.map key).Nodup) {x : α}
    (member : x ∈ xs) : xs.find? (fun y => key y == key x) = some x := by
  induction xs with
  | nil => cases member
  | cons y rest ih =>
    rw [List.map_cons, List.nodup_cons] at distinct
    rw [List.find?_cons]
    cases List.mem_cons.mp member with
    | inl same =>
      rw [same, beq_self_eq_true]
    | inr later =>
      have differ : (key y == key x) = false := by
        rw [beq_eq_false_iff_ne]
        exact fun same => distinct.1 (same ▸ List.mem_map_of_mem later)
      rw [differ]
      exact ih distinct.2 later

theorem find?_key_none {α : Type} {key : α → JobId} {xs : List α} {id : JobId}
    (absent : id ∉ xs.map key) : xs.find? (fun y => key y == id) = none := by
  rw [List.find?_eq_none]
  intro y member same
  exact absent (List.mem_map.mpr ⟨y, member, eq_of_beq same⟩)

theorem reservable_payload {now : Int} {queue : SourceText.Text} {lease maxPayload : Nat} {row : Row}
    (holds : reservable now queue lease maxPayload row = true) :
    SourceText.byteLen row.payload ≤ maxPayload := by
  unfold reservable at holds
  simp only [Bool.and_eq_true, decide_eq_true_eq] at holds
  exact holds.1.2

theorem lockRows_reservable {now : Int} {rows : Table} {queue : SourceText.Text}
    {lease maxPayload limit : Nat} {locked : List JobId} {row : Row}
    (chosen : row ∈ lockRows now rows queue lease maxPayload limit locked) :
    row ∈ rows ∧ reservable now queue lease maxPayload row = true := by
  have kept := (List.mem_insertionSort _).mp (List.mem_of_mem_take chosen)
  obtain ⟨listed, holds⟩ := List.mem_filter.mp kept
  exact ⟨listed, ((Bool.and_eq_true _ _).mp holds).1⟩

/-- A row is taken at its time or later. -/
theorem OnTime.due {cfg : StoreConfig} {s : Timed} {row : Row} (onTime : OnTime cfg s row) {now : Int}
    {queue : SourceText.Text} (holds : reservable now queue cfg.leaseS cfg.maxPayloadBytes row = true) :
    row.availableAt ≤ now := by
  unfold reservable at holds
  simp only [Bool.and_eq_true] at holds
  cases stamp : row.reservedAt with
  | none =>
    rw [stamp] at holds
    exact of_decide_eq_true holds.2
  | some r =>
    rw [stamp] at holds
    have expired : r < now - cfg.leaseS := of_decide_eq_true holds.2
    have before := (onTime.held r stamp).2.2.1
    omega

theorem enqueue_onTime {cfg : StoreConfig} {s : Timed} (timely : Timely cfg s)
    {jobs : List (EnqueueJob × JobId)} {rows : Table}
    (fresh : (s.store.used ++ jobs.map Prod.snd).Nodup)
    (entered : enqueue s.store.now s.store.rows jobs = some rows) (store : Store) :
    ∀ row ∈ rows, OnTime cfg { note cfg s (.enqueue jobs) with store := store } row := by
  unfold enqueue at entered
  dsimp only at entered
  split_ifs at entered with fits
  cases entered
  intro row member
  cases List.mem_append.mp member with
  | inl old =>
    have absent : row.id ∉ jobs.map Prod.snd := fun new =>
      List.disjoint_of_nodup_append fresh (timely.sound.used row old) new
    refine (timely.rows row old).keep le_rfl ?_ ?_ rfl rfl
    · exact if_neg absent
    · dsimp only [note]
      rw [find?_key_none absent]
  | inr new =>
    obtain ⟨job, listed, same⟩ := List.mem_map.mp new
    have narrow := List.all_eq_true.mp fits row new
    rw [← same, timely.now] at narrow ⊢
    refine onTime_new ?_ ?_ narrow
    · exact if_pos (List.mem_map_of_mem listed)
    · dsimp only [note]
      rw [find?_key fresh.of_append_right listed]

theorem release_onTime {cfg : StoreConfig} {s : Timed} (timely : Timely cfg s) {id newId : JobId}
    {token : Token} {delay : Nat} {rows : Table} {new : Row} (fresh : newId ∉ s.store.used)
    (released : release s.store.now s.store.rows id token delay newId = some (rows, .ok new))
    (store : Store) :
    ∀ row ∈ rows, OnTime cfg { note cfg s (.release id token delay newId) with store := store } row := by
  unfold release at released
  split at released
  · rename_i row _
    dsimp only at released
    split_ifs at released with fits
    cases released
    intro other member
    cases List.mem_append.mp member with
    | inl old =>
      have listed := (List.mem_filter.mp old).1
      have differ : other.id ≠ newId := fun same => fresh (same ▸ timely.sound.used other listed)
      refine (timely.rows other listed).keep le_rfl ?_ ?_ rfl rfl
      · exact Function.update_of_ne differ _ _
      · exact Function.update_of_ne differ _ _
    | inr new =>
      rw [List.mem_singleton.mp new, timely.now]
      rw [timely.now] at fits
      refine onTime_new ?_ ?_ fits
      · exact Function.update_self ..
      · exact Function.update_self ..
  · cases released

/-- The answer of RESERVE for a row. -/
def answer (now : Int) (lease : Nat) (row : Row) : Reserved :=
  (row.reserve now).reserved now lease

theorem noteReserved_taken (s : Timed) {now : Int} {lease : Nat} {chosen : Table} {row : Row}
    (ids : (chosen.map (·.id)).Nodup) (took : row ∈ chosen) :
    (noteReserved s (chosen.map (answer now lease))).held row.id = s.clock ∧
      (noteReserved s (chosen.map (answer now lease))).deadline row.id = now + lease + 1 := by
  have same : (chosen.map (answer now lease)).map (·.id) = chosen.map (·.id) := by
    rw [List.map_map]
    rfl
  have listed : answer now lease row ∈ chosen.map (answer now lease) := List.mem_map_of_mem took
  have distinct : ((chosen.map (answer now lease)).map (·.id)).Nodup := by
    rw [same]
    exact ids
  have found := find?_key distinct listed
  constructor
  · unfold noteReserved
    dsimp only
    rw [if_pos]
    rw [same]
    exact List.mem_map_of_mem (f := fun row : Row => row.id) took
  · unfold noteReserved
    dsimp only
    have id : (answer now lease row).id = row.id := rfl
    rw [id] at found
    rw [found]
    rfl

theorem noteReserved_other (s : Timed) {now : Int} {lease : Nat} {chosen : Table} {id : JobId}
    (absent : id ∉ chosen.map (·.id)) :
    (noteReserved s (chosen.map (answer now lease))).held id = s.held id ∧
      (noteReserved s (chosen.map (answer now lease))).deadline id = s.deadline id := by
  have same : (chosen.map (answer now lease)).map (·.id) = chosen.map (·.id) := by
    rw [List.map_map]
    rfl
  rw [← same] at absent
  unfold noteReserved
  dsimp only
  rw [if_neg absent, find?_key_none absent]
  exact ⟨rfl, rfl⟩

theorem reserve_onTime {cfg : StoreConfig} {s : Timed} (timely : Timely cfg s)
    {queue : SourceText.Text} {limit : Nat} {locked : List JobId} {result : Table × List Reserved}
    (taken : reserve s.store.now s.store.rows queue cfg.leaseS cfg.maxPayloadBytes limit locked =
      some result) (store : Store) :
    ∀ row ∈ result.1, OnTime cfg { noteReserved s result.2 with store := store } row := by
  unfold reserve at taken
  dsimp only at taken
  split_ifs at taken with narrow
  cases taken
  have ids := @lockRows_ids s.store.now s.store.rows queue cfg.leaseS cfg.maxPayloadBytes limit locked
    timely.sound.ids
  have inside (row : Row) (chosen : row ∈ lockRows s.store.now s.store.rows queue cfg.leaseS
      cfg.maxPayloadBytes limit locked) := lockRows_reservable chosen
  revert ids inside
  generalize lockRows s.store.now s.store.rows queue cfg.leaseS cfg.maxPayloadBytes limit locked =
    chosen
  intro ids inside row' member
  obtain ⟨row, listed, same⟩ := List.mem_map.mp member
  have onTime := timely.rows row listed
  by_cases took : row ∈ chosen
  · rw [if_pos took] at same
    have ghosts := @noteReserved_taken s s.store.now cfg.leaseS chosen row ids took
    have due := onTime.due (inside row took).2
    rw [timely.now] at due
    subst same
    exact onTime.hold rfl rfl rfl ghosts.1 (ghosts.2.trans (by rw [timely.now])) rfl rfl rfl (congrArg some timely.now) due
      (reservable_payload (inside row took).2)
  · rw [if_neg took] at same
    have absent : row.id ∉ chosen.map (·.id) := by
      intro other
      obtain ⟨chosenRow, took', id⟩ := List.mem_map.mp other
      exact took (row_unique timely.sound.ids (inside chosenRow took').1 listed id ▸ took')
    have ghosts := @noteReserved_other s s.store.now cfg.leaseS chosen row.id absent
    rw [← same]
    exact onTime.keep le_rfl rfl rfl ghosts.1 ghosts.2

theorem note_reserve (cfg : StoreConfig) (s : Timed) (queue : SourceText.Text) (limit : Nat)
    (locked : List JobId) :
    note cfg s (.reserve queue limit locked) =
      match reserve s.store.now s.store.rows queue cfg.leaseS cfg.maxPayloadBytes limit locked with
      | some (_, jobs) => noteReserved s jobs
      | none => s := rfl

theorem note_extend (cfg : StoreConfig) (s : Timed) (id : JobId) (token : Token) :
    note cfg s (.extend id token) =
      match extend s.store.now s.store.rows id token cfg.leaseS with
      | some (_, some reported) => noteExtended s id reported
      | _ => s := rfl

theorem extend_onTime {cfg : StoreConfig} {s : Timed} (timely : Timely cfg s) {id : JobId}
    {token : Token} {result : Table × Option Int}
    (taken : extend s.store.now s.store.rows id token cfg.leaseS = some result) (store : Store) :
    ∀ row ∈ result.1, OnTime cfg { note cfg s (.extend id token) with store := store } row := by
  rw [note_extend, taken]
  unfold extend at taken
  split_ifs at taken with found fits
  · cases taken
    intro row' member
    obtain ⟨row, listed, same⟩ := List.mem_map.mp member
    have onTime := timely.rows row listed
    dsimp only
    by_cases held : extendable id token row = true
    · rw [if_pos held] at same
      obtain ⟨fenced, stamped⟩ := (Bool.and_eq_true _ _).mp held
      obtain ⟨r, stamp⟩ := Option.isSome_iff_exists.mp stamped
      obtain ⟨rSame, before, due, _, small⟩ := onTime.held r stamp
      have later := second_le before
      subst same
      refine onTime.hold rfl rfl rfl ?_ ?_ rfl rfl rfl (congrArg some timely.now) (by omega) small
      · rw [fence_id fenced]
        exact Function.update_self ..
      · rw [fence_id fenced]
        unfold noteExtended
        dsimp only
        rw [Function.update_self, timely.now]
    · rw [if_neg held] at same
      rw [← same]
      have differ : row.id ≠ id := by
        intro sameId
        obtain ⟨other, listed', held'⟩ := List.any_eq_true.mp found
        have id' := fence_id ((Bool.and_eq_true _ _).mp held').1
        exact held (row_unique timely.sound.ids listed listed' (sameId.trans id'.symm) ▸ held')
      exact onTime.keep le_rfl rfl rfl (Function.update_of_ne differ _ _)
        (Function.update_of_ne differ _ _)
  · cases taken
    intro row member
    exact (timely.rows row member).keep le_rfl rfl rfl rfl rfl

/-! ## Runs -/

/-- Rows that go out of the table, or stay as they are. -/
theorem kept_onTime {cfg : StoreConfig} {s t : Timed} {rows : Table}
    (onTime : ∀ row ∈ s.store.rows, OnTime cfg s row) (inside : ∀ row ∈ rows, row ∈ s.store.rows)
    (clock : s.clock ≤ t.clock) (entered : t.entered = s.entered) (delayS : t.delayS = s.delayS)
    (held : t.held = s.held) (deadline : t.deadline = s.deadline) :
    ∀ row ∈ rows, OnTime cfg t row := by
  intro row member
  exact (onTime row (inside row member)).keep clock (congrFun entered _) (congrFun delayS _)
    (congrFun held _) (congrFun deadline _)

theorem unreserve_onTime {cfg : StoreConfig} {s : Timed} (timely : Timely cfg s)
    (keys : List Unreserve) (store : Store) :
    ∀ row ∈ unreserve s.store.rows keys, OnTime cfg { s with store := store } row := by
  intro row' member
  obtain ⟨row, listed, same⟩ := List.mem_map.mp member
  have onTime := timely.rows row listed
  split_ifs at same
  · subst same
    exact ⟨onTime.entered, onTime.available, onTime.fits, nofun⟩
  · subst same
    exact onTime.keep le_rfl rfl rfl rfl rfl

theorem step_timely {cfg : StoreConfig} {s t : Timed} {verb : Verb} (timely : Timely cfg s)
    (taken : step cfg s verb = some t) : Timely cfg t := by
  obtain ⟨store, moved, rfl⟩ := Option.map_eq_some_iff.mp taken
  have sound := step_sound timely.sound moved
  cases verb with
  | wait micros =>
    cases moved
    have later := @second_le s.clock (s.clock + micros) (by omega)
    refine ⟨sound, ?_, kept_onTime timely.rows (fun row member => member) ?_ rfl rfl rfl rfl⟩
    · change s.store.now + ((second (s.clock + micros) - second s.clock).toNat : Int) =
        second (s.clock + micros)
      rw [timely.now]
      omega
    · change s.clock ≤ s.clock + micros
      omega
  | enqueue jobs =>
    unfold event QueueTable.step at moved
    dsimp only at moved
    split_ifs at moved with fresh
    obtain ⟨rows, entered, rfl⟩ := Option.map_eq_some_iff.mp moved
    exact ⟨sound, timely.now, enqueue_onTime timely fresh entered _⟩
  | reserve queue limit locked =>
    obtain ⟨result, reserved, rfl⟩ := Option.map_eq_some_iff.mp moved
    have noted : note cfg s (.reserve queue limit locked) = noteReserved s result.2 := by
      rw [note_reserve, reserved]
    rw [noted]
    exact ⟨sound, timely.now, reserve_onTime timely reserved _⟩
  | deliver n =>
    unfold event QueueTable.step at moved
    dsimp only at moved
    split_ifs at moved
    cases moved
    exact ⟨sound, timely.now, kept_onTime timely.rows (fun row member => member) le_rfl rfl rfl rfl rfl⟩
  | ack id token =>
    unfold event QueueTable.step at moved
    dsimp only at moved
    split at moved
    · cases moved
      exact ⟨sound, timely.now, kept_onTime timely.rows
        (fun row member => (List.mem_filter.mp member).1) le_rfl rfl rfl rfl rfl⟩
    · cases moved
      exact ⟨sound, timely.now,
        kept_onTime timely.rows (fun row member => member) le_rfl rfl rfl rfl rfl⟩
  | release id token delay newId =>
    unfold event QueueTable.step at moved
    dsimp only at moved
    split_ifs at moved with fresh
    obtain ⟨⟨rows, result⟩, released, rfl⟩ := Option.map_eq_some_iff.mp moved
    cases result with
    | ok new => exact ⟨sound, timely.now, release_onTime timely fresh released _⟩
    | error verdict =>
      refine ⟨sound, timely.now, fun row member => ?_⟩
      have differ : row.id ≠ newId := fun same => fresh (same ▸ timely.sound.used row member)
      exact (timely.rows row member).keep le_rfl (Function.update_of_ne differ _ _)
        (Function.update_of_ne differ _ _) rfl rfl
  | extend id token =>
    obtain ⟨result, extended, rfl⟩ := Option.map_eq_some_iff.mp moved
    have now : (note cfg s (.extend id token)).clock = s.clock := by
      rw [note_extend]
      split <;> rfl
    refine ⟨sound, ?_, extend_onTime timely extended _⟩
    exact timely.now.trans (congrArg second now.symm)
  | clear queue =>
    cases moved
    exact ⟨sound, timely.now, kept_onTime timely.rows
      (fun row member => (List.mem_filter.mp member).1) le_rfl rfl rfl rfl rfl⟩
  | unreserve ns =>
    unfold event QueueTable.step at moved
    dsimp only at moved
    split_ifs at moved with allowed
    cases moved
    exact ⟨sound, timely.now, unreserve_onTime timely _ _⟩

theorem run_timely {cfg : StoreConfig} {clock : Int} {verbs : List Verb} {s : Timed}
    (reached : run cfg (start clock) verbs = some s) : Timely cfg s :=
  LabelledRuns.run_always (step cfg) step_timely
    ⟨sound_init (second clock), rfl, List.forall_mem_nil _⟩ reached

/-! ## The times of a row -/

theorem takeable_pending {cfg : StoreConfig} {row : Row} {clock : Int} (pending : row.reservedAt = none)
    (takes : takeable cfg row clock = true) : row.availableAt ≤ second clock := by
  unfold takeable reservable at takes
  rw [pending, Bool.and_eq_true] at takes
  exact of_decide_eq_true takes.2

theorem reservable_held {cfg : StoreConfig} {row : Row} {r now : Int} (stamp : row.reservedAt = some r)
    (small : SourceText.byteLen row.payload ≤ cfg.maxPayloadBytes) :
    reservable now row.queue cfg.leaseS cfg.maxPayloadBytes row = true ↔
      row.attempts < attemptsCeiling ∧ r + cfg.leaseS + 1 ≤ now := by
  unfold reservable
  rw [stamp]
  simp only [beq_self_eq_true, Bool.true_and, Bool.and_eq_true, decide_eq_true_eq]
  constructor
  · rintro ⟨⟨below, _⟩, expired⟩
    exact ⟨below, by omega⟩
  · rintro ⟨below, expired⟩
    exact ⟨⟨below, small⟩, by omega⟩

/-- The times at which a row of the table may be taken. -/
structure Punctual (cfg : StoreConfig) (s : Timed) (row : Row) : Prop where
  /-- A delayed job is not taken before its time. -/
  delayed : 0 < s.delayS row.id → ∀ clock, takeable cfg row clock = true →
    s.entered row.id + s.delayS row.id * 1000000 ≤ clock
  /-- A held job is not taken before its lease is over. -/
  leased : row.reservedAt.isSome = true → ∀ clock, takeable cfg row clock = true →
    s.held row.id + cfg.leaseS * 1000000 ≤ clock
  /-- Below the ceiling it may be taken one second later. -/
  lapsed : row.reservedAt.isSome = true → row.attempts < attemptsCeiling → ∀ clock,
    s.held row.id + (cfg.leaseS + 1) * 1000000 ≤ clock → takeable cfg row clock = true
  /-- The deadline that was reported is the first second of a takeover. -/
  deadline : row.reservedAt.isSome = true → row.attempts < attemptsCeiling → ∀ now,
    reservable now row.queue cfg.leaseS cfg.maxPayloadBytes row = true ↔ s.deadline row.id ≤ now
  columns : fitsInteger row.availableAt = true ∧ 0 ≤ row.attempts ∧ row.attempts ≤ attemptsCeiling

theorem Timely.punctual {cfg : StoreConfig} {s : Timed} (timely : Timely cfg s) {row : Row}
    (listed : row ∈ s.store.rows) : Punctual cfg s row := by
  have onTime := timely.rows row listed
  have stacked := timely.sound.stacked row listed
  refine ⟨fun late clock takes => ?_, fun held clock takes => ?_, fun held below clock past => ?_,
    fun held below now => ?_, onTime.fits,
    le_trans (Int.natCast_nonneg _) stacked.low, stacked.high⟩
  · have due : row.availableAt ≤ second clock := by
      cases stamp : row.reservedAt with
      | none => exact takeable_pending stamp takes
      | some r => exact onTime.due takes
    rw [onTime.available, availableAt, if_neg (by omega)] at due
    unfold second at due
    omega
  · obtain ⟨r, stamp⟩ := Option.isSome_iff_exists.mp held
    obtain ⟨same, _, _, _, small⟩ := onTime.held r stamp
    have expired := ((reservable_held stamp small).mp takes).2
    rw [same] at expired
    unfold second at expired
    omega
  · obtain ⟨r, stamp⟩ := Option.isSome_iff_exists.mp held
    obtain ⟨same, _, _, _, small⟩ := onTime.held r stamp
    refine (reservable_held stamp small).mpr ⟨below, ?_⟩
    rw [same]
    unfold second
    omega
  · obtain ⟨r, stamp⟩ := Option.isSome_iff_exists.mp held
    obtain ⟨_, _, _, reported, small⟩ := onTime.held r stamp
    rw [reservable_held stamp small, reported]
    exact ⟨fun both => both.2, fun past => ⟨below, past⟩⟩

/-- An accepted delay fits its column while the database's second does. -/
theorem delay_fits {delayS : Nat} {engine database : Int}
    (accepted : delay delayS (second engine) .postgres = .ok ())
    (ahead : database ≤ engine + 86400 * 1000000) (fits : fitsInteger (second database) = true) :
    fitsInteger (availableAt (second database) delayS) = true := by
  have low := of_decide_eq_true fits
  unfold delay at accepted
  split at accepted
  · rw [availableAt, if_pos (by omega)]
    exact fits
  · dsimp only at accepted
    split_ifs at accepted with large
    rw [availableAt, if_neg (by omega)]
    refine decide_eq_true ⟨by omega, ?_⟩
    have widest : timeColumnMax .postgres = 2147483647 := rfl
    rw [widest, delayClockMarginS] at large
    unfold second at low large ⊢
    omega

theorem queue_punctual {cfg : StoreConfig} {clock : Int} {verbs : List Verb} {s : Timed}
    (reached : run cfg (start clock) verbs = some s) :
    (∀ row ∈ s.store.rows, Punctual cfg s row) ∧
      ∀ delayS engine database, delay delayS (second engine) .postgres = .ok () →
        database ≤ engine + 86400 * 1000000 → fitsInteger (second database) = true →
        fitsInteger (availableAt (second database) delayS) = true :=
  ⟨fun _ listed => (run_timely reached).punctual listed,
    fun _ _ _ accepted ahead fits => delay_fits accepted ahead fits⟩

/-- A delayed job is reserved, and extended in its lease, at fractions of a second. -/
def sampleVerbs : List Verb :=
  let job : EnqueueJob :=
    { queue := "mail".toList
      payload := "hi".toList
      delayS := 5 }
  [.enqueue [(job, 1)], .wait 5600000, .reserve "mail".toList 1 [], .deliver 0, .wait 2300000,
    .extend 1 (Token.fromPg 1000 1)]

theorem queue_punctual_on_sample : ∃ s, run ⟨10, 100⟩ (start 1000500000) sampleVerbs = some s ∧
    s.store.rows.map (fun row => (row.availableAt, row.reservedAt)) = [(1006, some 1008)] ∧
    s.deadline 1 = 1019 ∧ ∀ row ∈ s.store.rows, Punctual ⟨10, 100⟩ s row := by
  have reached : run ⟨10, 100⟩ (start 1000500000) sampleVerbs =
      some ((run ⟨10, 100⟩ (start 1000500000) sampleVerbs).get rfl) := rfl
  exact ⟨_, reached, rfl, rfl, (queue_punctual reached).1⟩

/-- A job in its last reservation. -/
def lastReservation : Row :=
  { id := 1
    queue := "mail".toList
    payload := "hi".toList
    attempts := 32767
    reservedAt := some 1000
    availableAt := 1000
    createdAt := 1000 }

/-- The check accepts a zero delay when the second itself no longer fits its column, and the lease of
a job at the ceiling never ends in a takeover. -/
theorem zeroDelay_overflows : delay 0 (second 2147483648000000) .postgres = .ok () ∧
    fitsInteger (availableAt (second 2147483648000000) 0) = false ∧
    ∀ clock, takeable ⟨10, 100⟩ lastReservation clock = false := by
  refine ⟨rfl, by decide, fun clock => ?_⟩
  rw [← Bool.not_eq_true]
  intro takes
  have small : SourceText.byteLen lastReservation.payload ≤ 100 := by decide
  have below := ((@reservable_held ⟨10, 100⟩ lastReservation 1000 (second clock) rfl small).mp takes).1
  exact absurd below (by decide)

end FerroEngine.QueueClockSafety
