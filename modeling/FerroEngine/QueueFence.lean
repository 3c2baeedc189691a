import FerroEngine.BitWords
import FerroEngine.QueueTable

set_option autoImplicit false

/-! # The fence of a queue store

The reservations of a row that are not undone stand on each other, and a row's `attempts` names the
newest one. So a delivered token is good until the next delivery, and an unreserve statement finds
only its own reservation.
-/

namespace FerroEngine.QueueFence

open BitWords QueueTable

/-! ## Tokens -/

theorem fromPg_attempts {createdAt attempts : Int} (low : -2 ^ 15 ≤ attempts)
    (high : attempts < 2 ^ 15) : (Token.fromPg createdAt attempts).pgAttempts = attempts := by
  unfold Token.fromPg Token.pgAttempts
  rw [BitVec.toInt_ofInt]
  apply Int.bmod_eq_of_le
  · omega
  · omega

theorem fromPg_createdAt {createdAt attempts : Int} (fits : fitsInteger createdAt = true) :
    (Token.fromPg createdAt attempts).pgCreatedAt = createdAt := by
  unfold fitsInteger at fits
  rw [decide_eq_true_eq] at fits
  unfold Token.fromPg Token.pgCreatedAt
  rw [BitVec.toInt_ofInt]
  apply Int.bmod_eq_of_le
  · omega
  · omega

/-- The bytes that a client sends back are read as the token that it was given. -/
theorem token_decode_encode (token : Token) : Token.decode token.encode = some token := by
  obtain ⟨createdAt, attempts⟩ := token
  have low := attempts.isLt
  have high := createdAt.isLt
  have bits : (0#16 ++ (createdAt ++ attempts) : BitVec 64).toNat =
      createdAt.toNat * 2 ^ 16 + attempts.toNat := by
    rw [toNat_append_eq, toNat_append_eq]
    simp
  have zero : ∀ start, 48 ≤ start →
      (0#16 ++ (createdAt ++ attempts) : BitVec 64).extractLsb' start 8 = 0 := by
    intro start above
    rw [← BitVec.toNat_inj, toNat_extract, bits]
    have small : createdAt.toNat * 2 ^ 16 + attempts.toNat < 2 ^ start :=
      lt_of_lt_of_le (by omega) (Nat.pow_le_pow_right (by omega) above)
    rw [Nat.div_eq_of_lt small]
    rfl
  unfold Token.encode
  change Token.decode [_, _, _, _, _, _, _, _] = _
  unfold Token.decode
  dsimp only
  rw [if_neg (by rw [zero 56 (by omega), zero 48 (by omega)]; simp)]
  rw [Option.some.injEq, Token.mk.injEq, ← BitVec.toNat_inj, ← BitVec.toNat_inj]
  simp only [toNat_append_eq, toNat_extract]
  constructor
  · omega
  · omega

/-! ## Standing reservations -/

def stands (id : JobId) (r : Reservation) : Bool :=
  r.reserved.id == id && !r.undone

/-- The tokens of the reservations of a row that are not undone, in order. -/
def tokens (id : JobId) (reservations : List Reservation) : List Token :=
  (reservations.filter (stands id)).map (·.reserved.token)

/-- All that `tokens` looks at. -/
def summary (r : Reservation) : JobId × Token × Bool :=
  (r.reserved.id, r.reserved.token, r.undone)

theorem tokens_append (id : JobId) (older newer : List Reservation) :
    tokens id (older ++ newer) = tokens id older ++ tokens id newer := by
  unfold tokens
  rw [List.filter_append, List.map_append]

theorem tokens_cons (id : JobId) (r : Reservation) (rest : List Reservation) :
    tokens id (r :: rest) = (if stands id r then [r.reserved.token] else []) ++ tokens id rest := by
  unfold tokens
  rw [List.filter_cons]
  split_ifs <;> rfl

theorem tokens_congr {id : JobId} (before : List Reservation) :
    ∀ after : List Reservation, after.map summary = before.map summary →
      tokens id after = tokens id before := by
  induction before with
  | nil =>
    intro after same
    rw [List.map_eq_nil_iff.mp same]
  | cons r rest ih =>
    intro after same
    cases after with
    | nil => cases same
    | cons r' rest' =>
      rw [List.map_cons, List.map_cons, List.cons.injEq] at same
      obtain ⟨head, tail⟩ := same
      unfold summary at head
      rw [Prod.mk.injEq, Prod.mk.injEq] at head
      rw [tokens_cons, tokens_cons, ih rest' tail]
      unfold stands
      rw [head.1, head.2.1, head.2.2]

/-- The standing reservations carry the last numbers up to the row's `attempts`. -/
structure Stacked (row : Row) (live : List Token) : Prop where
  created : fitsInteger row.createdAt = true
  low : (live.length : Int) ≤ row.attempts
  high : row.attempts ≤ attemptsCeiling
  numbered : ∀ (k : Nat) token, live[k]? = some token →
    token = Token.fromPg row.createdAt (row.attempts - live.length + k + 1)

/-- The fence lets through only the newest standing token. -/
theorem newest_of_fence {row : Row} {id : JobId} {older newer : List Token} {token : Token}
    (stacked : Stacked row (older ++ token :: newer)) (passes : fence id token row = true) :
    newer = [] := by
  have here : (older ++ token :: newer)[older.length]? = some token := by
    rw [List.getElem?_append_right le_rfl, Nat.sub_self]
    rfl
  have value := stacked.numbered _ _ here
  have low := stacked.low
  have high := stacked.high
  unfold attemptsCeiling at high
  rw [List.length_append, List.length_cons] at low value
  unfold fence at passes
  simp only [Bool.and_eq_true, beq_iff_eq] at passes
  have same := passes.1.2
  rw [value, fromPg_attempts (by push_cast at low ⊢; omega) (by push_cast at low ⊢; omega)] at same
  apply List.eq_nil_of_length_eq_zero
  push_cast at same
  omega

theorem Stacked.push {row : Row} {live : List Token} {now : Int} (stacked : Stacked row live)
    (room : row.attempts < attemptsCeiling) :
    Stacked (row.reserve now) (live ++ [Token.fromPg row.createdAt (row.attempts + 1)]) := by
  have low := stacked.low
  constructor
  · exact stacked.created
  · rw [List.length_append, List.length_singleton]
    change ((live.length + 1 : Nat) : Int) ≤ row.attempts + 1
    push_cast
    omega
  · change row.attempts + 1 ≤ attemptsCeiling
    omega
  · intro k token found
    change token = Token.fromPg row.createdAt (row.attempts + 1 - _ + k + 1)
    rw [List.length_append, List.length_singleton]
    push_cast
    by_cases inside : k < live.length
    · rw [List.getElem?_append_left inside] at found
      rw [stacked.numbered k token found]
      congr 1
      omega
    · rw [List.getElem?_append_right (Nat.le_of_not_lt inside)] at found
      cases rest : k - live.length with
      | succ m =>
        rw [rest] at found
        cases found
      | zero =>
        rw [rest] at found
        cases found
        congr 1
        omega

theorem Stacked.pop {row row' : Row} {older : List Token} {token : Token}
    (stacked : Stacked row (older ++ [token])) (created : row'.createdAt = row.createdAt)
    (attempts : row'.attempts = row.attempts - 1) : Stacked row' older := by
  have low := stacked.low
  have high := stacked.high
  rw [List.length_append, List.length_singleton] at low
  push_cast at low
  constructor
  · rw [created]
    exact stacked.created
  · omega
  · omega
  · intro k other found
    have inside : k < older.length := (List.getElem?_eq_some_iff.mp found).1
    have before : (older ++ [token])[k]? = some other := by
      rw [List.getElem?_append_left inside]
      exact found
    rw [stacked.numbered k other before, List.length_append, List.length_singleton, created,
      attempts]
    congr 1
    push_cast
    omega

theorem Stacked.of_same {row row' : Row} {live : List Token} (stacked : Stacked row live)
    (created : row'.createdAt = row.createdAt) (attempts : row'.attempts = row.attempts) :
    Stacked row' live := by
  constructor
  · rw [created]
    exact stacked.created
  · rw [attempts]
    exact stacked.low
  · rw [attempts]
    exact stacked.high
  · rw [attempts, created]
    exact stacked.numbered

theorem stacked_new {row : Row} (fits : fitsInteger row.createdAt = true) (low : 0 ≤ row.attempts)
    (high : row.attempts ≤ attemptsCeiling) : Stacked row [] :=
  ⟨fits, low, high, fun k token found => by cases found⟩

/-! ## The invariant -/

structure Sound (st : Store) : Prop where
  ids : (st.rows.map (·.id)).Nodup
  used : ∀ row ∈ st.rows, row.id ∈ st.used
  bounded : ∀ id ∈ st.used, st.job id < st.enqueued
  jobs : (st.rows.map (fun row => st.job row.id) ++ st.removed.map Prod.fst).Perm
    (List.range st.enqueued)
  stacked : ∀ row ∈ st.rows, Stacked row (tokens row.id st.reservations)
  reserved : ∀ r ∈ st.reservations, r.reserved.id ∈ st.used ∧ r.key.id = r.reserved.id ∧
    r.key.token = r.reserved.token ∧ (r.delivered = true → r.asked = false) ∧
    (r.undone = true → r.asked = true)
  born : ∀ row ∈ st.rows, st.before row.id ≤ st.reservations.length
  lineage : ∀ row ∈ st.rows, ∀ n r, st.reservations[n]? = some r →
    st.job r.reserved.id = st.job row.id →
    (r.reserved.id = row.id ∨ n < st.before row.id) ∧
      (r.reserved.id = row.id → st.before row.id ≤ n)

theorem row_unique {rows : Table} (ids : (rows.map (·.id)).Nodup) {row other : Row}
    (listed : row ∈ rows) (listed' : other ∈ rows) (same : row.id = other.id) : row = other :=
  List.inj_on_of_nodup_map ids listed listed' same

theorem jobs_unique {st : Store} (sound : Sound st) {row other : Row} (listed : row ∈ st.rows)
    (listed' : other ∈ st.rows) (same : st.job row.id = st.job other.id) : row = other := by
  have distinct : (st.rows.map fun row => st.job row.id).Nodup :=
    (sound.jobs.nodup_iff.mpr List.nodup_range).of_append_left
  exact List.inj_on_of_nodup_map distinct listed listed' same

/-- What is left to show when the rows keep their ids and their jobs. -/
theorem sound_map {st : Store} (sound : Sound st) (change : Row → Row)
    (reservations : List Reservation) (keep : ∀ row, (change row).id = row.id)
    (longer : st.reservations.length ≤ reservations.length)
    (stacked : ∀ row ∈ st.rows, Stacked (change row) (tokens row.id reservations))
    (reserved : ∀ r ∈ reservations, r.reserved.id ∈ st.used ∧ r.key.id = r.reserved.id ∧
      r.key.token = r.reserved.token ∧ (r.delivered = true → r.asked = false) ∧
      (r.undone = true → r.asked = true))
    (lineage : ∀ row ∈ st.rows, ∀ n r, reservations[n]? = some r →
      st.job r.reserved.id = st.job row.id →
      (r.reserved.id = row.id ∨ n < st.before row.id) ∧
        (r.reserved.id = row.id → st.before row.id ≤ n)) :
    Sound { st with rows := st.rows.map change, reservations := reservations } := by
  have ids : (st.rows.map change).map (·.id) = st.rows.map (·.id) := by
    rw [List.map_map]
    apply List.map_congr_left
    intro row _
    exact keep row
  have jobs : (st.rows.map change).map (fun row => st.job row.id) =
      st.rows.map fun row => st.job row.id := by
    rw [List.map_map]
    apply List.map_congr_left
    intro row _
    exact congrArg st.job (keep row)
  constructor
  · rw [ids]
    exact sound.ids
  · intro row listed
    obtain ⟨old, listed', rfl⟩ := List.mem_map.mp listed
    rw [keep]
    exact sound.used old listed'
  · exact sound.bounded
  · change ((st.rows.map change).map (fun row => st.job row.id) ++ _).Perm _
    rw [jobs]
    exact sound.jobs
  · intro row listed
    obtain ⟨old, listed', rfl⟩ := List.mem_map.mp listed
    rw [keep]
    exact stacked old listed'
  · exact reserved
  · intro row listed
    obtain ⟨old, listed', rfl⟩ := List.mem_map.mp listed
    rw [keep]
    exact (sound.born old listed').trans longer
  · intro row listed
    obtain ⟨old, listed', rfl⟩ := List.mem_map.mp listed
    rw [keep]
    exact lineage old listed'

/-- The rows that stay keep their history. -/
theorem sound_remove {st : Store} (sound : Sound st) (gone : Row → Bool) (how : Removal) :
    Sound (st.remove gone how) := by
  have inside : ∀ row ∈ st.rows.filter fun row => !gone row, row ∈ st.rows :=
    fun row listed => List.mem_of_mem_filter listed
  constructor
  · exact sound.ids.sublist (List.filter_sublist.map _)
  · exact fun row listed => sound.used row (inside row listed)
  · exact sound.bounded
  · refine List.Perm.trans ?_ sound.jobs
    unfold Store.remove
    dsimp only
    rw [List.map_append, List.map_map, ← List.append_assoc]
    refine List.Perm.trans ?_ ((List.filter_append_perm gone st.rows).map
      (fun row => st.job row.id) |>.append_right _)
    rw [List.map_append]
    refine List.Perm.trans ?_ (List.perm_append_comm.append_right _)
    rw [List.append_assoc, List.append_assoc]
    exact List.perm_append_comm.append_left _
  · exact fun row listed => sound.stacked row (inside row listed)
  · exact sound.reserved
  · exact fun row listed => sound.born row (inside row listed)
  · exact fun row listed => sound.lineage row (inside row listed)

theorem sound_extend {st : Store} (sound : Sound st) {id : JobId} {token : Token} {lease : Nat}
    {result : Table × Option Int}
    (taken : extend st.now st.rows id token lease = some result) :
    Sound { st with rows := result.1 } := by
  unfold extend at taken
  split_ifs at taken with found fits
  · cases taken
    apply sound_map sound _ st.reservations
    · intro row
      split_ifs <;> rfl
    · exact le_rfl
    · intro row listed
      apply (sound.stacked row listed).of_same
      · split_ifs <;> rfl
      · split_ifs <;> rfl
    · exact sound.reserved
    · exact sound.lineage
  · cases taken
    exact sound

end FerroEngine.QueueFence
