import FerroEngine.QueueFence

set_option autoImplicit false

/-! # The fence under every statement

Each statement on the table keeps the invariant of the fence, and so does every run.
-/

namespace FerroEngine.QueueFenceSteps

open SourceText QueueTable QueueFence

/-! ## Reservations -/

theorem open_found {st : Store} {n : Nat} (isOpen : open' st n = true) :
    ∃ r, st.reservations[n]? = some r ∧ r.delivered = false ∧ r.asked = false := by
  unfold open' at isOpen
  split at isOpen
  · next r found =>
    rw [Bool.and_eq_true, Bool.not_eq_true', Bool.not_eq_true'] at isOpen
    exact ⟨r, found, isOpen⟩
  · cases isOpen

theorem sound_deliver {st : Store} (sound : Sound st) {n : Nat} (isOpen : open' st n = true) :
    Sound (st.markDelivered n) := by
  have each : ∀ (k : Nat) r', (st.reservations.modify n
      fun r => { r with delivered := true })[k]? = some r' →
      ∃ r, st.reservations[k]? = some r ∧ summary r' = summary r ∧ r'.key = r.key ∧
        r'.asked = r.asked ∧ (r'.delivered = true → r.asked = false) := by
    intro k r' found
    rw [List.getElem?_modify] at found
    obtain ⟨r, found', rfl⟩ := Option.map_eq_some_iff.mp found
    refine ⟨r, found', ?_⟩
    have delivered := (sound.reserved r (List.mem_of_getElem? found')).2.2.2.1
    split_ifs with here
    · refine ⟨rfl, rfl, rfl, fun _ => ?_⟩
      obtain ⟨r₁, found₁, _, fresh⟩ := open_found isOpen
      rw [here, found', Option.some.injEq] at found₁
      exact found₁ ▸ fresh
    · exact ⟨rfl, rfl, rfl, delivered⟩
  have same : (st.reservations.modify n fun r => { r with delivered := true }).map summary =
      st.reservations.map summary := by
    apply List.ext_getElem?
    intro k
    rw [List.getElem?_map, List.getElem?_map, List.getElem?_modify, Option.map_eq_map,
      Option.map_map]
    congr 1
    funext r
    change summary (if _ then _ else _) = _
    split_ifs <;> rfl
  have kept := sound_map sound id
    (st.reservations.modify n fun r => { r with delivered := true }) (fun _ => rfl)
  rw [List.map_id] at kept
  apply kept
  · rw [List.length_modify]
  · intro row listed
    rw [tokens_congr _ _ same]
    exact sound.stacked row listed
  · intro r' listed
    obtain ⟨k, found⟩ := List.mem_iff_getElem?.mp listed
    obtain ⟨r, found', looks, key, asked, delivered⟩ := each k r' found
    obtain ⟨known, keyId, keyToken, _, undone⟩ := sound.reserved r (List.mem_of_getElem? found')
    unfold summary at looks
    rw [Prod.mk.injEq, Prod.mk.injEq] at looks
    rw [looks.1, looks.2.1, looks.2.2, key, asked]
    exact ⟨known, keyId, keyToken, delivered, undone⟩
  · intro row listed k r' found
    obtain ⟨r, found', looks, _⟩ := each k r' found
    rw [show r'.reserved.id = r.reserved.id from congrArg Prod.fst looks]
    exact sound.lineage row listed k r found'

theorem lockRows_chosen {now : Int} {rows : Table} {queue : Text}
    {lease maxPayload limit : Nat} {locked : List JobId} {row : Row}
    (chosen : row ∈ lockRows now rows queue lease maxPayload limit locked) :
    row ∈ rows ∧ row.attempts < attemptsCeiling := by
  have kept := (List.mem_insertionSort _).mp (List.mem_of_mem_take chosen)
  obtain ⟨listed, holds⟩ := List.mem_filter.mp kept
  refine ⟨listed, ?_⟩
  unfold reservable at holds
  simp only [Bool.and_eq_true, decide_eq_true_eq] at holds
  exact holds.1.1.1.2

theorem lockRows_ids {now : Int} {rows : Table} {queue : Text}
    {lease maxPayload limit : Nat} {locked : List JobId} (ids : (rows.map (·.id)).Nodup) :
    ((lockRows now rows queue lease maxPayload limit locked).map (·.id)).Nodup := by
  have sorted := (List.perm_insertionSort (fun a b : Row => a.id ≤ b.id)
    (rows.filter fun row => reservable now queue lease maxPayload row &&
      !locked.contains row.id)).map (·.id)
  have kept := sorted.nodup_iff.mpr (ids.sublist (List.filter_sublist.map _))
  exact kept.sublist ((List.take_sublist _ _).map _)

/-- What RESERVE adds to the history. -/
def opened (now : Int) (lease : Nat) (row : Row) : Reservation :=
  { reserved := (row.reserve now).reserved now lease
    key := ((row.reserve now).reserved now lease).unreserve lease
    delivered := false
    asked := false
    undone := false }

theorem tokens_opened {now : Int} {lease : Nat} {rows chosen : Table} {row : Row}
    (ids : (rows.map (·.id)).Nodup) (listed : row ∈ rows) (inside : ∀ c ∈ chosen, c ∈ rows)
    (distinct : (chosen.map (·.id)).Nodup) :
    tokens row.id (chosen.map (opened now lease)) =
      if row ∈ chosen then [Token.fromPg row.createdAt (row.attempts + 1)] else [] := by
  induction chosen with
  | nil => rfl
  | cons c rest ih =>
    rw [List.map_cons, List.nodup_cons] at distinct
    have tail := ih (fun x member => inside x (List.mem_cons_of_mem _ member)) distinct.2
    rw [List.map_cons, tokens_cons, tail]
    by_cases same : c = row
    · subst same
      have absent : c ∉ rest := fun member => distinct.1 (List.mem_map_of_mem member)
      rw [if_neg absent, if_pos List.mem_cons_self, if_pos (by simp [stands, opened, Row.reserve,
        Row.reserved])]
      rfl
    · have other : c.id ≠ row.id := fun same' =>
        same (row_unique ids (inside c List.mem_cons_self) listed same')
      rw [if_neg (by simpa [stands, opened, Row.reserve, Row.reserved] using other),
        List.nil_append]
      have iff : row ∈ c :: rest ↔ row ∈ rest := by
        rw [List.mem_cons]
        constructor
        · rintro (same' | member)
          · exact absurd same'.symm same
          · exact member
        · exact Or.inr
      simp only [iff]

theorem sound_reserve {st : Store} (sound : Sound st) {queue : Text}
    {lease maxPayload limit : Nat} {locked : List JobId} {result : Table × List Reserved}
    (taken : reserve st.now st.rows queue lease maxPayload limit locked = some result) :
    Sound { st with
      rows := result.1
      reservations := st.reservations ++ result.2.map fun reserved =>
        { reserved := reserved
          key := reserved.unreserve lease
          delivered := false
          asked := false
          undone := false } } := by
  unfold reserve at taken
  extract_lets chosen at taken
  split_ifs at taken with refused
  cases taken
  have inside : ∀ c ∈ chosen, c ∈ st.rows := fun c member => (lockRows_chosen member).1
  have distinct : (chosen.map (·.id)).Nodup := lockRows_ids sound.ids
  dsimp only
  rw [List.map_map]
  change Sound { st with
    rows := st.rows.map _
    reservations := st.reservations ++ chosen.map (opened st.now lease) }
  apply sound_map sound
  · intro row
    split_ifs <;> rfl
  · rw [List.length_append]
    omega
  · intro row listed
    rw [tokens_append, tokens_opened sound.ids listed inside distinct]
    split_ifs with member
    · exact (sound.stacked row listed).push (lockRows_chosen member).2
    · rw [List.append_nil]
      exact sound.stacked row listed
  · intro r listed
    rcases List.mem_append.mp listed with old | new
    · exact sound.reserved r old
    · obtain ⟨c, member, rfl⟩ := List.mem_map.mp new
      exact ⟨sound.used c (inside c member), rfl, rfl, fun _ => rfl, fun undone => by cases undone⟩
  · intro row listed n r found sameJob
    by_cases old : n < st.reservations.length
    · rw [List.getElem?_append_left old] at found
      exact sound.lineage row listed n r found sameJob
    · rw [List.getElem?_append_right (Nat.le_of_not_lt old)] at found
      obtain ⟨c, member, rfl⟩ := List.mem_map.mp (List.mem_of_getElem? found)
      have same : c = row := jobs_unique sound (inside c member) listed sameJob
      subst same
      have born := sound.born c listed
      exact ⟨Or.inl rfl, fun _ => by omega⟩

/-! ## New rows -/

theorem tokens_unused {st : Store} (sound : Sound st) {id : JobId} (fresh : id ∉ st.used) :
    tokens id st.reservations = [] := by
  unfold tokens
  rw [List.map_eq_nil_iff, List.filter_eq_nil_iff]
  intro r listed stands'
  unfold stands at stands'
  rw [Bool.and_eq_true, beq_iff_eq] at stands'
  exact fresh (stands'.1 ▸ (sound.reserved r listed).1)

theorem idxOf?_of_nodup {ids : List JobId} (distinct : ids.Nodup) {i : Nat} {id : JobId}
    (found : ids[i]? = some id) : ids.idxOf? id = some i := by
  obtain ⟨inside, rfl⟩ := List.getElem?_eq_some_iff.mp found
  rw [List.idxOf?_eq_some_iff]
  refine ⟨inside, rfl, fun j before same => ?_⟩
  have := distinct.getElem_inj_iff.mp same
  omega

theorem enter_job_used {st : Store} {rows : Table} {jobs : List (EnqueueJob × JobId)} {id : JobId}
    (other : id ∉ jobs.map Prod.snd) : (st.enter rows jobs).job id = st.job id := by
  dsimp only [Store.enter]
  rw [List.idxOf?_eq_none_iff.mpr other]

theorem enter_job_new {st : Store} {rows : Table} {jobs : List (EnqueueJob × JobId)}
    (distinct : (jobs.map Prod.snd).Nodup) {i : Nat} {id : JobId}
    (found : (jobs.map Prod.snd)[i]? = some id) :
    (st.enter rows jobs).job id = st.enqueued + i := by
  dsimp only [Store.enter]
  rw [idxOf?_of_nodup distinct found]

theorem sound_enqueue {st : Store} (sound : Sound st) {jobs : List (EnqueueJob × JobId)}
    {rows : Table} (fresh : (st.used ++ jobs.map Prod.snd).Nodup)
    (taken : enqueue st.now st.rows jobs = some rows) : Sound (st.enter rows jobs) := by
  obtain ⟨_, distinct, apart⟩ := List.nodup_append.mp fresh
  have new : ∀ id ∈ st.used, id ∉ jobs.map Prod.snd := fun id listed member =>
    apart id listed id member rfl
  have oldJob : ∀ id ∈ st.used, (st.enter rows jobs).job id = st.job id :=
    fun id listed => enter_job_used (new id listed)
  have oldBefore : ∀ id ∈ st.used, (st.enter rows jobs).before id = st.before id :=
    fun id listed => if_neg (new id listed)
  have newJob : ∀ (i : Nat) id, (jobs.map Prod.snd)[i]? = some id →
      (st.enter rows jobs).job id = st.enqueued + i := fun i id => enter_job_new distinct
  have newBefore : ∀ id ∈ jobs.map Prod.snd,
      (st.enter rows jobs).before id = st.reservations.length := fun id member => if_pos member
  unfold enqueue at taken
  extract_lets added at taken
  split_ifs at taken with fits
  cases taken
  have addedIds : added.map (·.id) = jobs.map Prod.snd := by
    rw [List.map_map]
    rfl
  have addedJobs : added.map (fun row => (st.enter (st.rows ++ added) jobs).job row.id) =
      (List.range jobs.length).map (st.enqueued + ·) := by
    apply List.ext_getElem?
    intro i
    rw [List.getElem?_map, List.getElem?_map, List.getElem?_map]
    by_cases inside : i < jobs.length
    · rw [List.getElem?_range inside, List.getElem?_eq_getElem inside]
      have found : (jobs.map Prod.snd)[i]? = some jobs[i].2 := by
        rw [List.getElem?_map, List.getElem?_eq_getElem inside]
        rfl
      exact congrArg some (newJob i _ found)
    · rw [List.getElem?_eq_none (by omega), List.getElem?_eq_none (by simpa using inside)]
      rfl
  have ofAdded : ∀ row ∈ added, row.id ∈ jobs.map Prod.snd ∧ row.attempts = 0 ∧
      fitsInteger row.createdAt = true := by
    intro row member
    refine ⟨addedIds ▸ List.mem_map_of_mem member, ?_, ?_⟩
    · obtain ⟨job, _, rfl⟩ := List.mem_map.mp member
      rfl
    · have fit := List.all_eq_true.mp fits row member
      unfold Row.fits at fit
      rw [Bool.and_eq_true] at fit
      exact fit.2
  constructor
  · change ((st.rows ++ added).map (·.id)).Nodup
    rw [List.map_append, addedIds, List.nodup_append]
    refine ⟨sound.ids, distinct, ?_⟩
    intro a listed b member same
    obtain ⟨row, listed', rfl⟩ := List.mem_map.mp listed
    exact new row.id (sound.used row listed') (same ▸ member)
  · intro row listed
    change row.id ∈ st.used ++ jobs.map Prod.snd
    rw [List.mem_append]
    rcases List.mem_append.mp listed with old | member
    · exact Or.inl (sound.used row old)
    · exact Or.inr (ofAdded row member).1
  · intro id listed
    change _ < st.enqueued + jobs.length
    rcases List.mem_append.mp listed with old | member
    · rw [oldJob id old]
      have := sound.bounded id old
      omega
    · obtain ⟨i, found⟩ := List.mem_iff_getElem?.mp member
      rw [newJob i id found]
      have := (List.getElem?_eq_some_iff.mp found).1
      rw [List.length_map] at this
      omega
  · change ((st.rows ++ added).map _ ++ _).Perm (List.range (st.enqueued + jobs.length))
    rw [List.map_append, addedJobs, List.range_add]
    have oldJobs : st.rows.map (fun row => (st.enter (st.rows ++ added) jobs).job row.id) =
        st.rows.map fun row => st.job row.id :=
      List.map_congr_left fun row listed => oldJob row.id (sound.used row listed)
    rw [oldJobs]
    refine List.Perm.trans ?_ (sound.jobs.append_right _)
    rw [List.append_assoc, List.append_assoc]
    exact List.perm_append_comm.append_left _
  · intro row listed
    change Stacked row (tokens row.id st.reservations)
    rcases List.mem_append.mp listed with old | member
    · exact sound.stacked row old
    · obtain ⟨isNew, zero, fit⟩ := ofAdded row member
      rw [tokens_unused sound (fun old => new row.id old isNew)]
      apply stacked_new fit
      · omega
      · unfold attemptsCeiling
        omega
  · intro r listed
    obtain ⟨known, rest⟩ := sound.reserved r listed
    exact ⟨List.mem_append_left _ known, rest⟩
  · intro row listed
    change _ ≤ st.reservations.length
    rcases List.mem_append.mp listed with old | member
    · rw [oldBefore row.id (sound.used row old)]
      exact sound.born row old
    · rw [newBefore row.id (ofAdded row member).1]
  · intro row listed n r found sameJob
    have known := (sound.reserved r (List.mem_of_getElem? found)).1
    rw [oldJob _ known] at sameJob
    rcases List.mem_append.mp listed with old | member
    · rw [oldJob _ (sound.used row old)] at sameJob
      rw [oldBefore row.id (sound.used row old)]
      exact sound.lineage row old n r found sameJob
    · obtain ⟨i, found'⟩ := List.mem_iff_getElem?.mp (ofAdded row member).1
      rw [newJob i row.id found'] at sameJob
      have := sound.bounded _ known
      omega

theorem fence_id {id : JobId} {token : Token} {row : Row} (passes : fence id token row = true) :
    row.id = id := by
  unfold fence at passes
  rw [Bool.and_eq_true, Bool.and_eq_true, beq_iff_eq] at passes
  exact passes.1.1

/-- A fence that a row passes picks this row alone. -/
theorem filter_fence {rows : Table} (ids : (rows.map (·.id)).Nodup) {id : JobId} {token : Token}
    {row : Row} (listed : row ∈ rows) (passes : fence id token row = true) :
    rows.filter (fence id token) = [row] := by
  have only : ∀ other ∈ rows.filter (fence id token), other = row := by
    intro other member
    obtain ⟨listed', passes'⟩ := List.mem_filter.mp member
    exact row_unique ids listed' listed ((fence_id passes').trans (fence_id passes).symm)
  have distinct : (rows.filter (fence id token)).Nodup := (List.Nodup.of_map _ ids).filter _
  exact List.perm_singleton.mp ((List.perm_ext_iff_of_nodup distinct (List.nodup_singleton row)).mpr
    fun other => ⟨fun member => List.mem_singleton.mpr (only other member), fun member =>
      List.mem_singleton.mp member ▸ List.mem_filter.mpr ⟨listed, passes⟩⟩)

theorem sound_release {st : Store} (sound : Sound st) {id newId : JobId} {token : Token}
    {delay : Nat} {rows : Table} {new : Row} (fresh : newId ∉ st.used)
    (taken : release st.now st.rows id token delay newId = some (rows, .ok new)) :
    Sound { st with
      rows := rows
      used := st.used ++ [newId]
      job := Function.update st.job newId (st.job id)
      before := Function.update st.before newId st.reservations.length } := by
  unfold release at taken
  split at taken
  · next row found =>
    have passes := List.find?_some found
    have listed := List.mem_of_find?_eq_some found
    have stacked := sound.stacked row listed
    extract_lets added at taken
    split_ifs at taken with fits
    rw [Option.some.injEq, Prod.mk.injEq, Except.ok.injEq] at taken
    obtain ⟨rfl, rfl⟩ := taken
    have inside : ∀ other ∈ st.rows.filter fun row => !fence id token row, other ∈ st.rows :=
      fun other member => List.mem_of_mem_filter member
    have known : ∀ other ∈ st.used, other ≠ newId := fun other member same => fresh (same ▸ member)
    have oldJob : ∀ other ∈ st.used,
        Function.update st.job newId (st.job id) other = st.job other :=
      fun other member => Function.update_of_ne (known other member) _ _
    have oldBefore : ∀ other ∈ st.used,
        Function.update st.before newId st.reservations.length other = st.before other :=
      fun other member => Function.update_of_ne (known other member) _ _
    have newJob : Function.update st.job newId (st.job id) newId = st.job row.id := by
      rw [Function.update_self, fence_id passes]
    have fit : fitsInteger added.createdAt = true := by
      unfold Row.fits at fits
      rw [Bool.and_eq_true] at fits
      exact fits.2
    constructor
    · dsimp only
      rw [List.map_append, List.nodup_append]
      refine ⟨sound.ids.sublist (List.filter_sublist.map _), List.nodup_singleton _, ?_⟩
      intro a member b last same
      obtain ⟨other, member', rfl⟩ := List.mem_map.mp member
      rw [List.map_singleton, List.mem_singleton] at last
      exact known other.id (sound.used other (inside other member')) (same.trans last)
    · intro other member
      rw [List.mem_append]
      rcases List.mem_append.mp member with old | last
      · exact Or.inl (sound.used other (inside other old))
      · rw [List.mem_singleton] at last
        exact Or.inr (List.mem_singleton.mpr (congrArg Row.id last))
    · intro other member
      dsimp only
      rcases List.mem_append.mp member with old | last
      · rw [oldJob other old]
        exact sound.bounded other old
      · rw [List.mem_singleton.mp last, newJob]
        exact sound.bounded row.id (sound.used row listed)
    · dsimp only
      refine List.Perm.trans (List.Perm.append_right _ ?_) sound.jobs
      have oldJobs : (st.rows.filter fun row => !fence id token row).map
          (fun row => Function.update st.job newId (st.job id) row.id) =
          (st.rows.filter fun row => !fence id token row).map fun row => st.job row.id :=
        List.map_congr_left fun other member => oldJob _ (sound.used other (inside other member))
      have split := (List.filter_append_perm (fence id token) st.rows).map fun row => st.job row.id
      rw [filter_fence sound.ids listed passes, List.map_append] at split
      rw [List.map_append, oldJobs, List.map_singleton]
      change (_ ++ [Function.update st.job newId (st.job id) newId]).Perm _
      rw [newJob]
      exact List.perm_append_comm.trans split
    · intro other member
      dsimp only
      rcases List.mem_append.mp member with old | last
      · exact sound.stacked other (inside other old)
      · rw [List.mem_singleton] at last
        subst last
        change Stacked _ (tokens newId st.reservations)
        rw [tokens_unused sound fresh]
        have low := stacked.low
        apply stacked_new fit
        · change 0 ≤ row.attempts
          omega
        · exact stacked.high
    · intro r member
      obtain ⟨known, rest⟩ := sound.reserved r member
      exact ⟨List.mem_append_left _ known, rest⟩
    · intro other member
      dsimp only
      rcases List.mem_append.mp member with old | last
      · rw [oldBefore _ (sound.used other (inside other old))]
        exact sound.born other (inside other old)
      · rw [List.mem_singleton] at last
        subst last
        exact le_of_eq (Function.update_self _ _ _)
    · intro other member n r found sameJob
      dsimp only at found sameJob ⊢
      have known' := (sound.reserved r (List.mem_of_getElem? found)).1
      rw [oldJob _ known'] at sameJob
      rcases List.mem_append.mp member with old | last
      · have listed' := inside other old
        rw [oldJob _ (sound.used other listed')] at sameJob
        rw [oldBefore _ (sound.used other listed')]
        exact sound.lineage other listed' n r found sameJob
      · rw [List.mem_singleton] at last
        subst last
        refine ⟨Or.inr ?_, fun same => absurd same (known _ known')⟩
        change n < Function.update st.before newId st.reservations.length newId
        rw [Function.update_self]
        exact (List.getElem?_eq_some_iff.mp found).1
  · cases taken

/-! ## Unreserving -/

theorem tokens_mapIdx {id : JobId} {reservations : List Reservation} :
    ∀ {change : Nat → Reservation → Reservation},
      (∀ n r, reservations[n]? = some r → stands id (change n r) = stands id r ∧
        (change n r).reserved.token = r.reserved.token) →
      tokens id (reservations.mapIdx change) = tokens id reservations := by
  induction reservations with
  | nil => exact fun _ => rfl
  | cons r rest ih =>
    intro change same
    obtain ⟨stands', token⟩ := same 0 r rfl
    rw [List.mapIdx_cons, tokens_cons, tokens_cons, stands', token,
      ih fun n r' found => same (n + 1) r' found]

theorem open_stands {st : Store} (sound : Sound st) {n : Nat} {r : Reservation}
    (isOpen : open' st n = true) (found : st.reservations[n]? = some r) : r.undone = false := by
  obtain ⟨r', found', _, asked⟩ := open_found isOpen
  rw [found, Option.some.injEq] at found'
  subst found'
  rw [Bool.eq_false_iff]
  intro undone
  rw [(sound.reserved r (List.mem_of_getElem? found)).2.2.2.2 undone] at asked
  cases asked

theorem names_id {key : Unreserve} {row : Row} (names : key.names row = true) :
    row.id = key.id := by
  unfold Unreserve.names at names
  rw [Bool.and_eq_true] at names
  exact fence_id names.1

/-- A key finds no other row than the one that has its id. -/
theorem any_names {st : Store} (sound : Sound st) {row : Row} {r : Reservation}
    (listed : row ∈ st.rows) (known : r ∈ st.reservations) (same : r.reserved.id = row.id) :
    st.rows.any r.key.names = r.key.names row := by
  have keyId := (sound.reserved r known).2.1
  rw [Bool.eq_iff_iff, List.any_eq_true]
  constructor
  · rintro ⟨other, listed', names⟩
    have same' := row_unique sound.ids listed' listed
      ((names_id names).trans (keyId.trans same))
    exact same' ▸ names
  · exact fun names => ⟨row, listed, names⟩

theorem split_found {reservations : List Reservation} {n : Nat} {r : Reservation}
    (found : reservations[n]? = some r) :
    reservations = reservations.take n ++ r :: reservations.drop (n + 1) ∧
      (reservations.take n).length = n := by
  obtain ⟨inside, value⟩ := List.getElem?_eq_some_iff.mp found
  constructor
  · rw [← value, ← List.drop_eq_getElem_cons inside, List.take_append_drop]
  · rw [List.length_take]
    omega

/-- The standing reservation whose token passes the fence is the newest one. -/
theorem tokens_split {st : Store} (sound : Sound st) {row : Row} {n : Nat} {r : Reservation}
    (listed : row ∈ st.rows) (found : st.reservations[n]? = some r) (standing : r.undone = false)
    (passes : fence r.reserved.id r.reserved.token row = true) :
    tokens row.id (st.reservations.drop (n + 1)) = [] := by
  have same := fence_id passes
  have stacked := sound.stacked row listed
  rw [(split_found found).1, tokens_append, tokens_cons,
    if_pos (by simp [stands, same, standing]), List.singleton_append] at stacked
  exact newest_of_fence stacked passes

/-- Of the standing reservations of a row at most one key names it. -/
theorem names_unique {st : Store} (sound : Sound st) {row : Row} {n m : Nat} {r r' : Reservation}
    (listed : row ∈ st.rows) (found : st.reservations[n]? = some r)
    (found' : st.reservations[m]? = some r') (standing : r.undone = false)
    (standing' : r'.undone = false) (names : r.key.names row = true)
    (names' : r'.key.names row = true) : n = m := by
  have later : ∀ {n m : Nat} {r r' : Reservation}, st.reservations[n]? = some r →
      st.reservations[m]? = some r' → r.undone = false → r'.undone = false →
      r.key.names row = true → r'.key.names row = true → ¬ n < m := by
    intro n m r r' found found' standing standing' names names' before
    obtain ⟨_, keyId, keyToken, _⟩ := sound.reserved r (List.mem_of_getElem? found)
    obtain ⟨_, keyId', _⟩ := sound.reserved r' (List.mem_of_getElem? found')
    have none_left := tokens_split sound listed found standing (by
      rw [← keyId, ← keyToken]
      exact (Bool.and_eq_true _ _ ▸ names : _ ∧ _).1)
    have member : r' ∈ st.reservations.drop (n + 1) := by
      apply List.mem_of_getElem? (i := m - (n + 1))
      rw [List.getElem?_drop, show n + 1 + (m - (n + 1)) = m by omega]
      exact found'
    unfold tokens at none_left
    rw [List.map_eq_nil_iff, List.filter_eq_nil_iff] at none_left
    apply none_left r' member
    simp [stands, ← keyId', names_id names', standing']
  have first := later found found' standing standing' names names'
  have second := later found' found standing' standing names' names
  omega

/-- What an unreserve statement of the given reservations makes of one of the history. -/
def settled (st : Store) (ns : List Nat) (n : Nat) (r : Reservation) : Reservation :=
  if n ∈ ns then { r with asked := true, undone := st.rows.any r.key.names } else r

theorem settled_reserved (st : Store) (ns : List Nat) (n : Nat) (r : Reservation) :
    (settled st ns n r).reserved = r.reserved := by
  unfold settled
  split_ifs <;> rfl

theorem stands_settled {st : Store} (sound : Sound st) {ns : List Nat}
    (isOpen : ∀ n ∈ ns, open' st n = true) {row : Row} (listed : row ∈ st.rows) {n : Nat}
    {r : Reservation} (found : st.reservations[n]? = some r)
    (quiet : n ∈ ns → r.key.names row = false) :
    stands row.id (settled st ns n r) = stands row.id r := by
  unfold settled
  split_ifs with asked
  · unfold stands
    by_cases same : r.reserved.id = row.id
    · rw [any_names sound listed (List.mem_of_getElem? found) same, quiet asked,
        open_stands sound (isOpen n asked) found]
    · rw [beq_false_of_ne same, Bool.false_and, Bool.false_and]
  · rfl

theorem named_by_key {st : Store} {ns : List Nat} {row : Row} :
    (ns.filterMap fun n => (st.reservations[n]?).map (·.key)).any (·.names row) = true ↔
      ∃ n ∈ ns, ∃ r, st.reservations[n]? = some r ∧ r.key.names row = true := by
  rw [List.any_eq_true]
  constructor
  · rintro ⟨key, member, names⟩
    obtain ⟨n, asked, found⟩ := List.mem_filterMap.mp member
    obtain ⟨r, found', rfl⟩ := Option.map_eq_some_iff.mp found
    exact ⟨n, asked, r, found', names⟩
  · rintro ⟨n, asked, r, found, names⟩
    exact ⟨r.key, List.mem_filterMap.mpr ⟨n, asked, by rw [found]; rfl⟩, names⟩

/-- The reservation that the statement undoes was the last one that stood. -/
theorem tokens_settled {st : Store} (sound : Sound st) {ns : List Nat}
    (isOpen : ∀ n ∈ ns, open' st n = true) {row : Row} (listed : row ∈ st.rows) {n : Nat}
    {r : Reservation} (asked : n ∈ ns) (found : st.reservations[n]? = some r)
    (names : r.key.names row = true) :
    tokens row.id st.reservations =
      tokens row.id (st.reservations.mapIdx (settled st ns)) ++ [r.reserved.token] := by
  obtain ⟨_, keyId, keyToken, _⟩ := sound.reserved r (List.mem_of_getElem? found)
  have standing := open_stands sound (isOpen n asked) found
  have same : r.reserved.id = row.id := keyId.symm.trans (names_id names).symm
  have passes : fence r.reserved.id r.reserved.token row = true := by
    rw [← keyId, ← keyToken]
    exact (Bool.and_eq_true _ _ ▸ names : _ ∧ _).1
  have newer := tokens_split sound listed found standing passes
  -- no other reservation of the statement names the row
  have others : ∀ k r', st.reservations[k]? = some r' → k ≠ n →
      stands row.id (settled st ns k r') = stands row.id r' ∧
        (settled st ns k r').reserved.token = r'.reserved.token := by
    intro k r' found' apart
    refine ⟨stands_settled sound isOpen listed found' ?_, by rw [settled_reserved]⟩
    intro asked'
    rw [Bool.eq_false_iff]
    exact fun names' => apart (names_unique sound listed found' found
      (open_stands sound (isOpen k asked') found') standing names' names)
  have undone : stands row.id (settled st ns n r) = false := by
    unfold settled
    rw [if_pos asked]
    unfold stands
    simp [any_names sound listed (List.mem_of_getElem? found) same, names]
  obtain ⟨split, short⟩ := split_found found
  have older : tokens row.id ((st.reservations.take n).mapIdx (settled st ns)) =
      tokens row.id (st.reservations.take n) := by
    apply tokens_mapIdx
    intro k r' found'
    have before : k < n := by
      have := (List.getElem?_eq_some_iff.mp found').1
      omega
    rw [List.getElem?_take_of_lt before] at found'
    exact others k r' found' (by omega)
  have younger : tokens row.id ((st.reservations.drop (n + 1)).mapIdx
      fun i => settled st ns (i + 1 + n)) = tokens row.id (st.reservations.drop (n + 1)) := by
    apply tokens_mapIdx
    intro k r' found'
    rw [List.getElem?_drop] at found'
    rw [show k + 1 + n = n + 1 + k by omega]
    exact others _ r' found' (by omega)
  calc tokens row.id st.reservations
      = tokens row.id (st.reservations.take n) ++ [r.reserved.token] := by
        nth_rewrite 1 [split]
        rw [tokens_append, tokens_cons, newer, if_pos (by simp [stands, same, standing]),
          List.append_nil]
    _ = tokens row.id (st.reservations.mapIdx (settled st ns)) ++ [r.reserved.token] := by
        nth_rewrite 2 [split]
        rw [List.mapIdx_append, List.mapIdx_cons, tokens_append, tokens_cons, older, short,
          Nat.zero_add, undone, younger, newer]
        simp

theorem sound_giveBack {st : Store} (sound : Sound st) {ns : List Nat}
    (isOpen : ∀ n ∈ ns, open' st n = true) : Sound (st.giveBack ns) := by
  have each : ∀ (k : Nat) r', (st.reservations.mapIdx (settled st ns))[k]? = some r' →
      ∃ r, st.reservations[k]? = some r ∧ r' = settled st ns k r := by
    intro k r' found
    rw [List.getElem?_mapIdx] at found
    obtain ⟨r, found', rfl⟩ := Option.map_eq_some_iff.mp found
    exact ⟨r, found', rfl⟩
  apply sound_map sound _ (st.reservations.mapIdx (settled st ns))
  · intro row
    split_ifs <;> rfl
  · rw [List.length_mapIdx]
  · intro row listed
    have stacked := sound.stacked row listed
    split_ifs with named
    · obtain ⟨n, asked, r, found, names⟩ := named_by_key.mp named
      rw [tokens_settled sound isOpen listed asked found names] at stacked
      exact stacked.pop rfl rfl
    · rw [tokens_mapIdx]
      · exact stacked
      · intro n r found
        refine ⟨stands_settled sound isOpen listed found ?_, by rw [settled_reserved]⟩
        intro asked
        rw [Bool.eq_false_iff]
        exact fun names => named (named_by_key.mpr ⟨n, asked, r, found, names⟩)
  · intro r' member
    obtain ⟨k, found⟩ := List.mem_iff_getElem?.mp member
    obtain ⟨r, found', rfl⟩ := each k r' found
    have known := sound.reserved r (List.mem_of_getElem? found')
    unfold settled
    split_ifs with asked
    · refine ⟨known.1, known.2.1, known.2.2.1, ?_, fun _ => rfl⟩
      intro delivered
      obtain ⟨r₁, found₁, fresh, _⟩ := open_found (isOpen k asked)
      rw [found', Option.some.injEq] at found₁
      subst found₁
      change r.delivered = true at delivered
      rw [fresh] at delivered
      cases delivered
    · exact known
  · intro row listed k r' found
    obtain ⟨r, found', rfl⟩ := each k r' found
    rw [settled_reserved]
    exact sound.lineage row listed k r found'

/-! ## Whole runs -/

theorem sound_init (now : Int) : Sound (init now) := by
  constructor
  · exact List.nodup_nil
  · intro row listed
    cases listed
  · intro id listed
    cases listed
  · exact List.Perm.refl _
  · intro row listed
    cases listed
  · intro r listed
    cases listed
  · intro row listed
    cases listed
  · intro row listed
    cases listed

theorem step_sound {st st' : Store} {event : Event} (sound : Sound st)
    (taken : step st event = some st') : Sound st' := by
  cases event with
  | tick seconds =>
    cases taken
    exact ⟨sound.ids, sound.used, sound.bounded, sound.jobs, sound.stacked, sound.reserved,
      sound.born, sound.lineage⟩
  | enqueue jobs =>
    unfold step at taken
    dsimp only at taken
    split_ifs at taken with fresh
    obtain ⟨rows, entered, rfl⟩ := Option.map_eq_some_iff.mp taken
    exact sound_enqueue sound fresh entered
  | reserve queue lease maxPayload limit locked =>
    obtain ⟨result, reserved, rfl⟩ := Option.map_eq_some_iff.mp taken
    exact sound_reserve sound reserved
  | deliver n =>
    unfold step at taken
    dsimp only at taken
    split_ifs at taken with isOpen
    cases taken
    exact sound_deliver sound isOpen
  | ack id token =>
    unfold step at taken
    dsimp only at taken
    split at taken
    · cases taken
      exact sound_remove sound _ _
    · cases taken
      exact sound
  | release id token delay newId =>
    unfold step at taken
    dsimp only at taken
    split_ifs at taken with fresh
    obtain ⟨⟨rows, result⟩, released, rfl⟩ := Option.map_eq_some_iff.mp taken
    cases result with
    | ok new => exact sound_release sound fresh released
    | error verdict => exact sound
  | extend id token lease =>
    obtain ⟨result, extended, rfl⟩ := Option.map_eq_some_iff.mp taken
    exact sound_extend sound extended
  | clear queue =>
    cases taken
    exact sound_remove sound _ _
  | unreserve ns =>
    unfold step at taken
    dsimp only at taken
    split_ifs at taken with allowed
    cases taken
    exact sound_giveBack sound (List.all_eq_true.mp allowed.2)

theorem run_sound {now : Int} {events : List Event} {st : Store}
    (reached : run (init now) events = some st) : Sound st :=
  LabelledRuns.run_always step step_sound (sound_init now) reached

end FerroEngine.QueueFenceSteps
