import FerroEngine.HttpBreaker

set_option autoImplicit false

/-! # The breaker refines a three-state machine

The reference machine has no generations and no counter: a closed period has its members and the
outcomes they reported, a half-open one has the ticket that probes.
-/

namespace FerroEngine.HttpBreakerRefinement

open HttpBreaker
open LabelledRuns (run replying run_simulates replying_eq_some run_nil run_cons)

/-! ## The reference -/

/-- The counted failures since the last success, newest outcome first. -/
def consecutive : List Outcome → Nat
  | [] => 0
  | .counted :: log => consecutive log + 1
  | .other :: log => consecutive log
  | .success :: _ => 0

inductive Phase where
  | closed (members : List Nat) (log : List Outcome)
  | opened (deadline : Nat)
  | halfOpen (probe : Option Nat)

structure View where
  probe : Bool
  spent : Bool
  handles : Nat

structure Reference where
  phase : Phase
  tickets : List View

namespace Reference

def init : Reference :=
  { phase := .closed [] []
    tickets := [] }

def issue (r : Reference) (probe : Bool) (phase : Phase) : Reference :=
  { phase := phase
    tickets := r.tickets ++ [{ probe := probe, spent := false, handles := 1 }] }

def admitAt (r : Reference) (now : Nat) : Reference × Reply :=
  let next := r.tickets.length
  match r.phase with
  | .closed members log =>
    (r.issue false (.closed (next :: members) log), .admitted next)
  | .opened deadline =>
    if now < deadline then (r, .refused (.opened (msUntil deadline now)))
    else (r.issue true (.halfOpen (some next)), .admitted next)
  | .halfOpen (some _) => (r, .refused .probeBusy)
  | .halfOpen none => (r.issue true (.halfOpen (some next)), .admitted next)

/-- The first outcome that a ticket reports. -/
def report (cfg : Config) (phase : Phase) (t : Nat) (outcome : Outcome) (now : Nat) : Phase :=
  match phase with
  | .closed members log =>
    if t ∈ members then
      if consecutive (outcome :: log) = cfg.limit then .opened (now + cfg.openFor)
      else .closed members (outcome :: log)
    else phase
  | .halfOpen (some probe) =>
    if t = probe then
      match outcome with
      | .success => .closed [] []
      | .counted => .opened (now + cfg.openFor)
      | .other => .halfOpen none
    else phase
  | .halfOpen none => phase
  | .opened _ => phase

def record (cfg : Config) (r : Reference) (t : Nat) (v : View) (outcome : Outcome) (now : Nat) :
    Reference :=
  if v.spent then r
  else
    { phase := report cfg r.phase t outcome now
      tickets := r.tickets.set t { v with spent := true } }

def recheck (r : Reference) (t : Nat) (v : View) (now : Nat) : Reference × Reply :=
  if v.probe then (r, .passed)
  else
    match r.phase with
    | .closed members log => ({ r with phase := .closed (t :: members) log }, .passed)
    | .opened deadline =>
      (r, .refused (.opened (if now < deadline then msUntil deadline now else 1)))
    | .halfOpen (some _) => (r, .refused .probeBusy)
    | .halfOpen none => (r, .refused (.opened 1))

def held (r : Reference) (t : Nat) : Option View :=
  (r.tickets[t]?).filter fun v => 0 < v.handles

def step (cfg : Config) (r : Reference) (e : Event) : Option (Reference × Reply) :=
  match e with
  | .admitAt now => some (r.admitAt now)
  | .clone t =>
    (r.held t).map fun v =>
      ({ r with tickets := r.tickets.set t { v with handles := v.handles + 1 } }, .done)
  | .record t outcome now => (r.held t).map fun v => (r.record cfg t v outcome now, .done)
  | .release t now =>
    (r.held t).map fun v =>
      let left := { v with handles := v.handles - 1 }
      let r := { r with tickets := r.tickets.set t left }
      (if left.handles = 0 then r.record cfg t left .other now else r, .done)
  | .recheck t now => (r.held t).map fun v => r.recheck t v now

end Reference

/-! ## Tickets in a list -/

section Lists

variable {α : Type} {P : α → Prop} {l : List α} {t : Nat} {k k' : α}

/-- The entry at a position has the property. -/
def At (P : α → Prop) (l : List α) (t : Nat) : Prop :=
  ∃ k, l[t]? = some k ∧ P k

theorem lookup_set (found : l[t]? = some k) (j : Nat) :
    (l.set t k')[j]? = if j = t then some k' else l[j]? := by
  obtain ⟨bound, -⟩ := List.getElem?_eq_some_iff.mp found
  rw [List.getElem?_set]
  by_cases same : t = j
  · rw [if_pos same, if_pos bound, if_pos same.symm]
  · rw [if_neg same, if_neg (Ne.symm same)]

theorem at_self (found : l[t]? = some k) : At P l t ↔ P k := by
  constructor
  · rintro ⟨other, found', holds⟩
    rw [found, Option.some.injEq] at found'
    exact found' ▸ holds
  · intro holds
    exact ⟨k, found, holds⟩

theorem at_set_self (found : l[t]? = some k) : At P (l.set t k') t ↔ P k' :=
  at_self (by rw [lookup_set found, if_pos rfl])

theorem at_set_ne {j : Nat} (other : j ≠ t) : At P (l.set t k') j ↔ At P l j := by
  rw [At, At, List.getElem?_set_ne (Ne.symm other)]

theorem at_set (found : l[t]? = some k) (same : P k' ↔ P k) (j : Nat) :
    At P (l.set t k') j ↔ At P l j := by
  by_cases here : j = t
  · subst here
    rw [at_set_self found, at_self found, same]
  · exact at_set_ne here

theorem at_append (j : Nat) : At P (l ++ [k]) j ↔ At P l j ∨ (j = l.length ∧ P k) := by
  rcases Nat.lt_trichotomy j l.length with before | here | after
  · rw [At, At, List.getElem?_append_left before]
    constructor
    · exact Or.inl
    · rintro (holds | ⟨rfl, -⟩)
      · exact holds
      · exact absurd before (Nat.lt_irrefl _)
  · subst here
    rw [At, List.getElem?_concat_length]
    have outside : ¬At P l l.length := by
      rintro ⟨other, found, -⟩
      rw [List.getElem?_eq_none (Nat.le_refl _)] at found
      cases found
    constructor
    · rintro ⟨other, found, holds⟩
      cases found
      exact .inr ⟨rfl, holds⟩
    · rintro (inside | ⟨-, holds⟩)
      · exact absurd inside outside
      · exact ⟨k, rfl, holds⟩
  · have outside : (l ++ [k])[j]? = none :=
      List.getElem?_eq_none (by rw [List.length_append, List.length_singleton]; omega)
    have outside' : l[j]? = none := List.getElem?_eq_none (by omega)
    rw [At, At, outside, outside']
    constructor
    · rintro ⟨other, found, -⟩
      cases found
    · rintro (⟨other, found, -⟩ | ⟨rfl, -⟩)
      · cases found
      · exact absurd after (Nat.lt_irrefl _)

end Lists

/-! ## The relation -/

def Ticket.view (k : Ticket) : View :=
  { probe := k.probe
    spent := k.recorded
    handles := k.handles }

/-- A ticket of the closed period that the breaker is in. -/
def Current (s : State) (t : Nat) : Prop :=
  At (fun k => k.probe = false ∧ k.generation = s.breaker.generation) s.tickets t

def UnsettledProbe (s : State) (t : Nat) : Prop :=
  At (fun k => k.probe = true ∧ k.recorded = false) s.tickets t

/-- No ordinary ticket's generation reaches this. -/
def horizon (b : Breaker) : Nat :=
  match b.st with
  | .closed _ => b.generation + 1
  | _ => b.generation

/-- The two machines are in the same of the three states. -/
def SamePhase (cfg : Config) (st : St) (phase : Phase) : Prop :=
  match st, phase with
  | .closed failures, .closed _ log => consecutive log = failures ∧ failures < cfg.limit
  | .opened deadline, .opened deadline' => deadline = deadline'
  | .halfOpen probing, .halfOpen probe => probing = probe.isSome
  | _, _ => False

structure Matches (cfg : Config) (s : State) (r : Reference) : Prop where
  tickets : r.tickets = s.tickets.map Ticket.view
  phase : SamePhase cfg s.breaker.st r.phase
  members : ∀ members log, r.phase = .closed members log → ∀ t, t ∈ members ↔ Current s t
  older : ∀ t, At (fun k => k.probe = false ∧ horizon s.breaker ≤ k.generation) s.tickets t → False
  probe : ∀ t, r.phase = .halfOpen (some t) ↔ UnsettledProbe s t

theorem limit_pos (cfg : Config) : 0 < cfg.limit := by
  unfold Config.limit
  omega

theorem matches_init (cfg : Config) : Matches cfg init Reference.init := by
  refine ⟨rfl, ⟨rfl, limit_pos cfg⟩, ?_, ?_, ?_⟩
  · intro members log same t
    cases same
    constructor
    · nofun
    · rintro ⟨k, found, -⟩
      cases found
  · rintro t ⟨k, found, -⟩
    cases found
  · intro t
    constructor
    · nofun
    · rintro ⟨k, found, -⟩
      cases found

/-! ## One call -/

section Steps

variable {cfg : Config} {s s' : State} {r : Reference} {t : Nat} {k k' : Ticket}

theorem held_eq_some : held s t = some k ↔ s.tickets[t]? = some k ∧ 0 < k.handles := by
  rw [held, Option.filter_eq_some_iff, decide_eq_true_eq]

theorem Matches.held (same : Matches cfg s r) (holds : HttpBreaker.held s t = some k) :
    r.held t = some (Ticket.view k) := by
  obtain ⟨found, positive⟩ := held_eq_some.mp holds
  rw [Reference.held, same.tickets, List.getElem?_map, found, Option.map_some,
    Option.filter_some]
  exact if_pos (decide_eq_true positive)

theorem Matches.set_view (same : Matches cfg s r) (t : Nat) (k' : Ticket) :
    r.tickets.set t (Ticket.view k') = (s.tickets.set t k').map Ticket.view := by
  rw [same.tickets, List.map_set]

/-- A call that changes a ticket's handles only. -/
theorem Matches.setHandles (same : Matches cfg s r) (found : s.tickets[t]? = some k)
    (n : Nat) :
    Matches cfg { s with tickets := s.tickets.set t { k with handles := n } }
      { r with tickets := r.tickets.set t { Ticket.view k with handles := n } } where
  tickets := same.set_view t { k with handles := n }
  phase := same.phase
  members := by
    intro members log closed j
    exact (same.members members log closed j).trans (at_set found (by exact Iff.rfl) j).symm
  older := by
    intro j late
    exact same.older j ((at_set found (by exact Iff.rfl) j).mp late)
  probe := by
    intro j
    exact (same.probe j).trans (at_set found (by exact Iff.rfl) j).symm

theorem Matches.not_current (same : Matches cfg s r) (notClosed : ∀ n, s.breaker.st ≠ .closed n)
    (t : Nat) : ¬Current s t := by
  rintro ⟨k, found, ordinary, now⟩
  refine same.older t ⟨k, found, ordinary, ?_⟩
  rw [horizon]
  split
  · rename_i n closed
    exact absurd closed (notClosed n)
  · omega

theorem samePhase_halfOpen {st : St} {probe : Option Nat}
    (same : SamePhase cfg st (.halfOpen probe)) : st = .halfOpen probe.isSome := by
  cases st with
  | closed n => exact same.elim
  | opened d => exact same.elim
  | halfOpen probing => exact congrArg St.halfOpen same

theorem samePhase_closed {n : Nat} {phase : Phase} (same : SamePhase cfg (.closed n) phase) :
    ∃ members log, phase = .closed members log ∧ consecutive log = n ∧ n < cfg.limit := by
  cases phase with
  | closed members log => exact ⟨members, log, rfl, same⟩
  | opened d => exact same.elim
  | halfOpen probe => exact same.elim

theorem samePhase_opened {d : Nat} {phase : Phase} (same : SamePhase cfg (.opened d) phase) :
    phase = .opened d := by
  cases phase with
  | closed members log => exact same.elim
  | opened d' => exact congrArg Phase.opened same.symm
  | halfOpen probe => exact same.elim

theorem samePhase_probing {probing : Bool} {phase : Phase}
    (same : SamePhase cfg (.halfOpen probing) phase) :
    ∃ probe, phase = .halfOpen probe ∧ probing = probe.isSome := by
  cases phase with
  | closed members log => exact same.elim
  | opened d => exact same.elim
  | halfOpen probe => exact ⟨probe, rfl, same⟩

/-- After the probe has recorded there is none. -/
theorem Matches.no_probe (same : Matches cfg s r) (found : s.tickets[t]? = some k)
    (unsettled : UnsettledProbe s t) (j : Nat) :
    ¬At (fun k => k.probe = true ∧ k.recorded = false)
      (s.tickets.set t { k with recorded := true }) j := by
  intro left
  by_cases here : j = t
  · subst here
    exact Bool.noConfusion ((at_set_self found).mp left).2
  · have first := (same.probe t).mpr unsettled
    have second := (same.probe j).mpr ((at_set_ne here).mp left)
    rw [first, Phase.halfOpen.injEq, Option.some.injEq] at second
    exact here second.symm

/-- The probe's first outcome. -/
theorem Matches.settleProbe (same : Matches cfg s r) (found : s.tickets[t]? = some k)
    (probes : k.probe = true) (fresh : k.recorded = false) (outcome : Outcome) (now : Nat) :
    Matches cfg
      { breaker := s.breaker.settle cfg .probe outcome now
        tickets := s.tickets.set t { k with recorded := true } }
      { phase := Reference.report cfg r.phase t outcome now
        tickets := r.tickets.set t { Ticket.view k with spent := true } } := by
  have unsettled : UnsettledProbe s t := ⟨k, found, probes, fresh⟩
  have phase := (same.probe t).mpr unsettled
  have st : s.breaker.st = .halfOpen true := samePhase_halfOpen (phase ▸ same.phase)
  have gone := same.no_probe found unsettled
  have notClosed : ∀ n, s.breaker.st ≠ .closed n := by
    rw [st]
    nofun
  have strict : ∀ j, ¬At (fun k => k.probe = false ∧ s.breaker.generation ≤ k.generation)
      (s.tickets.set t { k with recorded := true }) j := by
    intro j late
    have before := (at_set found (by exact Iff.rfl) j).mp late
    have edge : horizon s.breaker = s.breaker.generation := by
      rw [horizon, st]
    exact same.older j (edge ▸ before)
  have reported : Reference.report cfg r.phase t outcome now =
      match outcome with
      | .success => .closed [] []
      | .counted => .opened (now + cfg.openFor)
      | .other => .halfOpen none := by
    rw [phase]
    exact if_pos rfl
  rw [reported]
  cases outcome with
  | success =>
    refine ⟨same.set_view t { k with recorded := true }, ⟨rfl, limit_pos cfg⟩, ?_, ?_, ?_⟩
    · intro members log closed j
      cases closed
      constructor
      · nofun
      · rintro ⟨k', found', ordinary, now'⟩
        exact (strict j ⟨k', found', ordinary, Nat.le_of_eq now'.symm⟩).elim
    · rintro j ⟨k', found', ordinary, late⟩
      exact strict j ⟨k', found', ordinary, Nat.le_of_succ_le late⟩
    · intro j
      exact ⟨nofun, fun left => (gone j left).elim⟩
  | counted =>
    refine ⟨same.set_view t { k with recorded := true }, rfl, nofun, strict, ?_⟩
    intro j
    exact ⟨nofun, fun left => (gone j left).elim⟩
  | other =>
    refine ⟨same.set_view t { k with recorded := true }, rfl, nofun, strict, ?_⟩
    intro j
    exact ⟨nofun, fun left => (gone j left).elim⟩

/-- An ordinary ticket's recording changes none of what the relation reads of the tickets. -/
theorem Matches.setRecorded (same : Matches cfg s r) (found : s.tickets[t]? = some k)
    (ordinary : k.probe = false) :
    Matches cfg { s with tickets := s.tickets.set t { k with recorded := true } }
      { r with tickets := r.tickets.set t { Ticket.view k with spent := true } } where
  tickets := same.set_view t { k with recorded := true }
  phase := same.phase
  members := by
    intro members log closed j
    exact (same.members members log closed j).trans (at_set found (by exact Iff.rfl) j).symm
  older := by
    intro j late
    exact same.older j ((at_set found (by exact Iff.rfl) j).mp late)
  probe := by
    intro j
    refine (same.probe j).trans (at_set found ?_ j).symm
    dsimp only
    rw [ordinary]
    constructor <;> nofun

/-- A ticket of an earlier period reports nothing. -/
theorem Matches.report_stale (same : Matches cfg s r) (found : s.tickets[t]? = some k)
    (ordinary : k.probe = false) (stale : k.generation ≠ s.breaker.generation)
    (outcome : Outcome) (now : Nat) :
    Reference.report cfg r.phase t outcome now = r.phase := by
  cases phase : r.phase with
  | closed members log =>
    have absent : t ∉ members := by
      intro member
      have current := ((same.members members log phase t).mp member)
      exact stale ((at_self found).mp current).2
    exact if_neg absent
  | opened d => rfl
  | halfOpen probe =>
    cases probe with
    | none => rfl
    | some p =>
      have different : t ≠ p := by
        rintro rfl
        have unsettled := (at_self found).mp ((same.probe t).mp phase)
        rw [ordinary] at unsettled
        exact Bool.noConfusion unsettled.1
      exact if_neg different

/-- An outcome of a ticket of the current closed period. -/
theorem settle_current (cfg : Config) (b : Breaker) {n : Nat} (closed : b.st = .closed n)
    (outcome : Outcome) (now : Nat) : b.settle cfg (.closed b.generation) outcome now =
      match outcome with
      | .success => { b with st := .closed 0 }
      | .other => b
      | .counted =>
        if cfg.limit ≤ n + 1 then
          { st := .opened (now + cfg.openFor)
            generation := b.generation + 1 }
        else { b with st := .closed (n + 1) } := by
  unfold Breaker.settle
  dsimp only
  rewrite [if_neg (not_not_intro rfl), closed]
  cases outcome <;> rfl

theorem Matches.settleCurrent {n : Nat} {log : List Outcome} {members : List Nat}
    (same : Matches cfg s r) (closed : s.breaker.st = .closed n)
    (phase : r.phase = .closed members log) (counts : consecutive log = n)
    (below : n < cfg.limit) (member : t ∈ members) (outcome : Outcome) (now : Nat) :
    Matches cfg
      { s with breaker := s.breaker.settle cfg (.closed s.breaker.generation) outcome now }
      { r with phase := Reference.report cfg r.phase t outcome now } := by
  have noProbe : ∀ j, ¬UnsettledProbe s j := by
    intro j unsettled
    have half := (same.probe j).mpr unsettled
    rw [phase] at half
    cases half
  have settled := settle_current cfg s.breaker closed outcome now
  have reported : Reference.report cfg r.phase t outcome now =
      if consecutive (outcome :: log) = cfg.limit then .opened (now + cfg.openFor)
      else .closed members (outcome :: log) := by
    rw [phase]
    exact if_pos member
  have edge : horizon s.breaker = s.breaker.generation + 1 := by
    rw [horizon, closed]
  have older : ∀ j, ¬At (fun k => k.probe = false ∧ s.breaker.generation + 1 ≤ k.generation)
      s.tickets j := fun j late => same.older j (edge ▸ late)
  have stays : ∀ members' log', Phase.closed members (outcome :: log) = .closed members' log' →
      ∀ j, j ∈ members' ↔ Current s j := by
    intro members' log' equal j
    cases equal
    exact same.members members log phase j
  cases outcome with
  | success =>
    have zero : consecutive (.success :: log) = 0 := rfl
    have positive := limit_pos cfg
    have fewer : consecutive (.success :: log) ≠ cfg.limit := by omega
    rw [settled, reported, if_neg fewer]
    refine ⟨same.tickets, ⟨zero, positive⟩, stays, older, ?_⟩
    intro j
    exact ⟨fun half => (by cases half), fun left => (noProbe j left).elim⟩
  | other =>
    have count : consecutive (.other :: log) = n := counts
    have fewer : consecutive (.other :: log) ≠ cfg.limit := by omega
    rw [settled, reported, if_neg fewer]
    refine ⟨same.tickets, ?_, stays, same.older, ?_⟩
    · change SamePhase cfg s.breaker.st _
      rw [closed]
      exact ⟨count, below⟩
    · intro j
      exact ⟨fun half => (by cases half), fun left => (noProbe j left).elim⟩
  | counted =>
    have count : consecutive (.counted :: log) = n + 1 := congrArg (· + 1) counts
    by_cases last : cfg.limit ≤ n + 1
    · rw [settled, reported, if_pos last, if_pos (by omega)]
      refine ⟨same.tickets, rfl, fun _ _ equal => (by cases equal), older, ?_⟩
      intro j
      exact ⟨fun half => (by cases half), fun left => (noProbe j left).elim⟩
    · rw [settled, reported, if_neg last, if_neg (by omega)]
      refine ⟨same.tickets, ⟨count, Nat.lt_of_not_le last⟩, stays, older, ?_⟩
      intro j
      exact ⟨fun half => (by cases half), fun left => (noProbe j left).elim⟩

theorem Matches.recordAt (same : Matches cfg s r) (found : s.tickets[t]? = some k)
    (outcome : Outcome) (now : Nat) :
    Matches cfg (HttpBreaker.recordAt cfg s t k outcome now)
      (r.record cfg t (Ticket.view k) outcome now) := by
  unfold HttpBreaker.recordAt Reference.record
  by_cases recorded : k.recorded = true
  · rw [if_pos recorded]
    have spent : (Ticket.view k).spent = true := recorded
    rw [if_pos spent]
    exact same
  · have spent : ¬(Ticket.view k).spent = true := recorded
    rw [if_neg recorded, if_neg spent]
    by_cases probes : k.probe = true
    · rw [Ticket.kind, if_pos probes]
      exact same.settleProbe found probes (Bool.eq_false_iff.mpr recorded) outcome now
    · have ordinary := Bool.eq_false_iff.mpr probes
      have marked := same.setRecorded found ordinary
      have found' : (s.tickets.set t { k with recorded := true })[t]? =
          some { k with recorded := true } := by
        rw [lookup_set found, if_pos rfl]
      rw [Ticket.kind, if_neg probes]
      by_cases current : k.generation = s.breaker.generation
      · -- a ticket of this generation exists, so the breaker is closed
        have member : Current s t := ⟨k, found, ordinary, current⟩
        cases st : s.breaker.st with
        | closed n =>
          obtain ⟨members, log, phase, counts, below⟩ := samePhase_closed (st ▸ same.phase)
          have kind : TicketKind.closed k.generation = .closed s.breaker.generation :=
            congrArg TicketKind.closed current
          rw [kind]
          exact marked.settleCurrent st phase counts below
            ((same.members members log phase t).mpr member) outcome now
        | opened d => exact (same.not_current (by rw [st]; nofun) t member).elim
        | halfOpen probing => exact (same.not_current (by rw [st]; nofun) t member).elim
      · have kept : s.breaker.settle cfg (.closed k.generation) outcome now = s.breaker :=
          if_pos current
        rw [kept, same.report_stale found ordinary current]
        exact marked

theorem issue_view (kind : TicketKind) :
    Ticket.view (Ticket.issue kind) =
      { probe := decide (kind = .probe)
        spent := false
        handles := 1 } := by
  cases kind <;> rfl

theorem Matches.issue_tickets (same : Matches cfg s r) (kind : TicketKind) :
    r.tickets ++ [{ probe := decide (kind = .probe), spent := false, handles := 1 }] =
      (s.tickets ++ [Ticket.issue kind]).map Ticket.view := by
  rw [List.map_append, same.tickets, List.map_singleton, issue_view]

/-- The probe is issued from a breaker that is not closed and has none. -/
theorem Matches.issueProbe (same : Matches cfg s r) (notClosed : ∀ n, s.breaker.st ≠ .closed n)
    (none : ∀ j, ¬UnsettledProbe s j) :
    Matches cfg
      { breaker := { s.breaker with st := .halfOpen true }
        tickets := s.tickets ++ [Ticket.issue .probe] }
      (r.issue true (.halfOpen (some r.tickets.length))) := by
  have length : r.tickets.length = s.tickets.length := by
    rw [same.tickets, List.length_map]
  refine ⟨same.issue_tickets .probe, rfl, nofun, ?_, ?_⟩
  · intro j late
    rw [at_append] at late
    rcases late with ⟨k, found, ordinary, late⟩ | ⟨-, probes, -⟩
    · refine same.older j ⟨k, found, ordinary, ?_⟩
      have edge : horizon s.breaker = s.breaker.generation := by
        rw [horizon]
        split
        · rename_i n closed
          exact absurd closed (notClosed n)
        · rfl
      rw [edge]
      exact late
    · exact Bool.noConfusion probes
  · intro j
    rw [length, UnsettledProbe, at_append]
    constructor
    · intro here
      rw [Reference.issue, Phase.halfOpen.injEq, Option.some.injEq] at here
      exact .inr ⟨here.symm, rfl, rfl⟩
    · rintro (left | ⟨rfl, -, -⟩)
      · exact (none j left).elim
      · rfl

theorem Matches.issueClosed {members : List Nat} {log : List Outcome} {n : Nat}
    (same : Matches cfg s r) (closed : s.breaker.st = .closed n)
    (phase : r.phase = .closed members log) :
    Matches cfg
      { s with tickets := s.tickets ++ [Ticket.issue (.closed s.breaker.generation)] }
      (r.issue false (.closed (r.tickets.length :: members) log)) := by
  have length : r.tickets.length = s.tickets.length := by
    rw [same.tickets, List.length_map]
  refine ⟨same.issue_tickets (.closed s.breaker.generation), ?_, ?_, ?_, ?_⟩
  · have before := same.phase
    rw [phase, closed] at before
    change SamePhase cfg s.breaker.st _
    rw [closed]
    exact before
  · intro members' log' equal j
    cases equal
    rw [List.mem_cons, same.members members log phase j, length]
    unfold Current
    rw [at_append, or_comm]
    exact or_congr_right (and_iff_left ⟨rfl, rfl⟩).symm
  · intro j late
    rw [at_append] at late
    rcases late with late | ⟨-, -, late⟩
    · exact same.older j late
    · have edge : horizon s.breaker = s.breaker.generation + 1 := by
        rw [horizon, closed]
      change horizon s.breaker ≤ s.breaker.generation at late
      omega
  · intro j
    rw [UnsettledProbe, at_append]
    constructor
    · nofun
    · rintro (left | ⟨-, probes, -⟩)
      · have half := (same.probe j).mpr left
        rw [phase] at half
        cases half
      · exact Bool.noConfusion probes

theorem Matches.recheckClosed {members : List Nat} {log : List Outcome} {n : Nat}
    (same : Matches cfg s r) (found : s.tickets[t]? = some k) (ordinary : k.probe = false)
    (closed : s.breaker.st = .closed n) (phase : r.phase = .closed members log) :
    Matches cfg
      { s with tickets := s.tickets.set t { k with generation := s.breaker.generation } }
      { r with phase := .closed (t :: members) log } := by
  have edge : horizon s.breaker = s.breaker.generation + 1 := by
    rw [horizon, closed]
  have kept : r.tickets =
      (s.tickets.set t { k with generation := s.breaker.generation }).map Ticket.view := by
    have viewed : (s.tickets.map Ticket.view)[t]? = some (Ticket.view k) := by
      rw [List.getElem?_map, found, Option.map_some]
    obtain ⟨bound, value⟩ := List.getElem?_eq_some_iff.mp viewed
    rw [List.map_set, same.tickets]
    change _ = (s.tickets.map Ticket.view).set t (Ticket.view k)
    rw [← value, List.set_getElem_self]
  refine ⟨kept, ?_, ?_, ?_, ?_⟩
  · have before := same.phase
    rw [phase, closed] at before
    change SamePhase cfg s.breaker.st _
    rw [closed]
    exact before
  · intro members' log' equal j
    cases equal
    rw [List.mem_cons, same.members members log phase j]
    unfold Current
    by_cases here : j = t
    · subst here
      rw [at_set_self found]
      exact ⟨fun _ => ⟨ordinary, rfl⟩, fun _ => .inl rfl⟩
    · rw [at_set_ne here]
      exact or_iff_right here
  · intro j late
    by_cases here : j = t
    · subst here
      have late := ((at_set_self found).mp late).2
      change horizon s.breaker ≤ s.breaker.generation at late
      omega
    · exact same.older j ((at_set_ne here).mp late)
  · intro j
    constructor
    · nofun
    · intro left
      have before : UnsettledProbe s j := (at_set found (by exact Iff.rfl) j).mp left
      have half := (same.probe j).mpr before
      rw [phase] at half
      cases half

theorem Matches.admitAt (same : Matches cfg s r) {now : Nat} {reply : Reply}
    (taken : HttpBreaker.step cfg s (.admitAt now) = some (s', reply)) :
    ∃ r', Reference.step cfg r (.admitAt now) = some (r', reply) ∧ Matches cfg s' r' := by
  have length : r.tickets.length = s.tickets.length := by
    rw [same.tickets, List.length_map]
  unfold HttpBreaker.step Breaker.admitAt at taken
  unfold Reference.step Reference.admitAt
  dsimp only at taken ⊢
  cases st : s.breaker.st with
  | closed n =>
    obtain ⟨members, log, phase, -⟩ := samePhase_closed (st ▸ same.phase)
    rw [st] at taken
    rw [phase]
    cases taken
    rw [length]
    exact ⟨_, rfl, length ▸ same.issueClosed st phase⟩
  | opened deadline =>
    have phase := samePhase_opened (st ▸ same.phase)
    have none : ∀ j, ¬UnsettledProbe s j := by
      intro j unsettled
      have half := (same.probe j).mpr unsettled
      rw [phase] at half
      cases half
    rw [st] at taken
    rw [phase]
    dsimp only at taken ⊢
    by_cases early : now < deadline
    · rw [if_pos early] at taken ⊢
      cases taken
      exact ⟨_, rfl, same⟩
    · rw [if_neg early] at taken ⊢
      cases taken
      rw [length]
      exact ⟨_, rfl, length ▸ same.issueProbe (by rw [st]; nofun) none⟩
  | halfOpen probing =>
    obtain ⟨probe, phase, slot⟩ := samePhase_probing (st ▸ same.phase)
    rw [st] at taken
    rw [phase]
    cases probe with
    | some p =>
      subst slot
      cases taken
      exact ⟨_, rfl, same⟩
    | none =>
      subst slot
      have none : ∀ j, ¬UnsettledProbe s j := by
        intro j unsettled
        have half := (same.probe j).mpr unsettled
        rw [phase] at half
        cases half
      cases taken
      rw [length]
      exact ⟨_, rfl, length ▸ same.issueProbe (by rw [st]; nofun) none⟩

theorem Matches.recheck (same : Matches cfg s r) {now : Nat} {reply : Reply}
    (holds : HttpBreaker.held s t = some k)
    (taken : HttpBreaker.step cfg s (.recheck t now) = some (s', reply)) :
    ∃ r', Reference.step cfg r (.recheck t now) = some (r', reply) ∧ Matches cfg s' r' := by
  obtain ⟨found, -⟩ := held_eq_some.mp holds
  unfold HttpBreaker.step HttpBreaker.recheck at taken
  unfold Reference.step Reference.recheck
  dsimp only at taken ⊢
  rw [holds, Option.map_some] at taken
  rw [same.held holds, Option.map_some]
  by_cases probes : k.probe = true
  · have probes' : (Ticket.view k).probe = true := probes
    rw [if_pos probes] at taken
    rw [if_pos probes']
    cases taken
    exact ⟨_, rfl, same⟩
  · have probes' : ¬(Ticket.view k).probe = true := probes
    rw [if_neg probes] at taken
    rw [if_neg probes']
    cases st : s.breaker.st with
    | closed n =>
      obtain ⟨members, log, phase, -⟩ := samePhase_closed (st ▸ same.phase)
      rw [st] at taken
      rw [phase]
      cases taken
      exact ⟨_, rfl, same.recheckClosed found (Bool.eq_false_iff.mpr probes) st phase⟩
    | opened deadline =>
      have phase := samePhase_opened (st ▸ same.phase)
      rw [st] at taken
      rw [phase]
      dsimp only at taken ⊢
      by_cases early : now < deadline
      · rw [if_pos early] at taken ⊢
        cases taken
        exact ⟨_, rfl, same⟩
      · rw [if_neg early] at taken ⊢
        cases taken
        exact ⟨_, rfl, same⟩
    | halfOpen probing =>
      obtain ⟨probe, phase, slot⟩ := samePhase_probing (st ▸ same.phase)
      rw [st] at taken
      rw [phase]
      cases probe <;> subst slot <;> cases taken <;> exact ⟨_, rfl, same⟩

/-- Every call of the breaker is a call of the reference, with the same answer. -/
theorem Matches.step (same : Matches cfg s r) {e : Event} {reply : Reply}
    (taken : HttpBreaker.step cfg s e = some (s', reply)) :
    ∃ r', Reference.step cfg r e = some (r', reply) ∧ Matches cfg s' r' := by
  cases e with
  | admitAt now => exact same.admitAt taken
  | clone t =>
    obtain ⟨k, holds, moved⟩ := Option.map_eq_some_iff.mp taken
    cases moved
    refine ⟨_, ?_, same.setHandles (held_eq_some.mp holds).1 (k.handles + 1)⟩
    rw [Reference.step, same.held holds]
    rfl
  | record t outcome now =>
    obtain ⟨k, holds, moved⟩ := Option.map_eq_some_iff.mp taken
    cases moved
    refine ⟨_, ?_, same.recordAt (held_eq_some.mp holds).1 outcome now⟩
    rw [Reference.step, same.held holds]
    rfl
  | release t now =>
    obtain ⟨k, holds, moved⟩ := Option.map_eq_some_iff.mp taken
    have found := (held_eq_some.mp holds).1
    have fewer := same.setHandles found (k.handles - 1)
    rw [Reference.step, same.held holds, Option.map_some]
    dsimp only at moved ⊢
    by_cases last : k.handles - 1 = 0
    · have last' : (Ticket.view k).handles - 1 = 0 := last
      rw [if_pos last] at moved
      rw [if_pos last']
      cases moved
      refine ⟨_, rfl, fewer.recordAt ?_ .other now⟩
      rw [lookup_set found, if_pos rfl]
    · have last' : ¬(Ticket.view k).handles - 1 = 0 := last
      rw [if_neg last] at moved
      rw [if_neg last']
      cases moved
      exact ⟨_, rfl, fewer⟩
  | recheck t now =>
    obtain ⟨k, holds, -⟩ := Option.map_eq_some_iff.mp taken
    exact same.recheck holds taken

end Steps

/-! ## What the reference says of a run -/

/-- At most one probe is unsettled, and there is one exactly while the breaker is probing. -/
def ProbeSlot (s : State) : Prop :=
  (∀ t t', UnsettledProbe s t → UnsettledProbe s t' → t = t') ∧
    ((∃ t, UnsettledProbe s t) ↔ s.breaker.st = .halfOpen true)

def Unrecorded (s : State) (t : Nat) : Prop :=
  At (fun k => k.recorded = false) s.tickets t

/-- The failures that open a breaker: the probe's, and the last one of a closed period. -/
def Opening (cfg : Config) (s : State) (phase : Phase) (t : Nat) : Prop :=
  UnsettledProbe s t ∨
    ∃ members log, phase = .closed members log ∧ t ∈ members ∧ Unrecorded s t ∧
      consecutive (.counted :: log) = cfg.limit

def OpensExactly (cfg : Config) (s : State) (phase : Phase) : Prop :=
  ∀ e s' reply deadline, step cfg s e = some (s', reply) →
    ((∀ d, s.breaker.st ≠ .opened d) ∧ s'.breaker.st = .opened deadline ↔
      ∃ t now, e = .record t .counted now ∧ deadline = now + cfg.openFor ∧
        Opening cfg s phase t)

/-- The calls by which a ticket can report an outcome. -/
def Event.Reports (e : Event) (t : Nat) : Prop :=
  (∃ outcome now, e = .record t outcome now) ∨ ∃ now, e = .release t now

/-- An ordinary ticket moves the breaker only as a member of the closed period it is in. -/
def StaleInert (cfg : Config) (s : State) (phase : Phase) : Prop :=
  ∀ t, At (fun k => k.probe = false) s.tickets t →
    (∀ members log, phase = .closed members log → t ∉ members) →
    ∀ e s' reply, Event.Reports e t → step cfg s e = some (s', reply) →
      s'.breaker = s.breaker

def FirstRecordCounts (cfg : Config) (s : State) : Prop :=
  ∀ t, At (fun k => k.recorded = true) s.tickets t →
    ∀ e s' reply, Event.Reports e t → step cfg s e = some (s', reply) →
      s'.breaker = s.breaker

def Event.time : Event → Option Nat
  | .admitAt now => some now
  | .clone _ => none
  | .record _ _ now => some now
  | .release _ now => some now
  | .recheck _ now => some now

/-- Before the cool-down has passed an open breaker stays open and admits nothing. -/
def CoolsDown (cfg : Config) (s : State) : Prop :=
  ∀ deadline, s.breaker.st = .opened deadline →
    ∀ later s' replies, run (replying (step cfg)) (s, []) later = some (s', replies) →
      (∀ e ∈ later, ∀ now, Event.time e = some now → now < deadline) →
      s'.breaker.st = .opened deadline ∧ ∀ t, .admitted t ∉ replies

section Consequences

variable {cfg : Config} {s s' : State} {r r' : Reference} {t : Nat}

theorem Matches.probeSlot (same : Matches cfg s r) : ProbeSlot s := by
  constructor
  · intro t t' first second
    have one := (same.probe t).mpr first
    have two := (same.probe t').mpr second
    rw [one, Phase.halfOpen.injEq, Option.some.injEq] at two
    exact two
  · constructor
    · rintro ⟨t, unsettled⟩
      have phase := (same.probe t).mpr unsettled
      exact samePhase_halfOpen (phase ▸ same.phase)
    · intro probing
      obtain ⟨probe, phase, slot⟩ := samePhase_probing (probing ▸ same.phase)
      obtain ⟨t, rfl⟩ := Option.isSome_iff_exists.mp slot.symm
      exact ⟨t, (same.probe t).mp phase⟩

theorem Matches.opened_iff (same : Matches cfg s r) (d : Nat) :
    s.breaker.st = .opened d ↔ r.phase = .opened d := by
  constructor
  · intro st
    exact samePhase_opened (st ▸ same.phase)
  · intro phase
    have here := same.phase
    rw [phase] at here
    cases st : s.breaker.st with
    | closed n => exact (st ▸ here : SamePhase cfg (.closed n) (.opened d)).elim
    | opened d' => exact congrArg St.opened (st ▸ here : SamePhase cfg (.opened d') (.opened d))
    | halfOpen probing =>
      exact (st ▸ here : SamePhase cfg (.halfOpen probing) (.opened d)).elim

/-- What a call can do to the breaker. -/
theorem step_breaker {e : Event} {reply : Reply} (taken : step cfg s e = some (s', reply)) :
    (∃ now, e = .admitAt now ∧ s'.breaker = (s.breaker.admitAt now).2) ∨
      (∃ t k outcome now, s.tickets[t]? = some k ∧ k.recorded = false ∧
        s'.breaker = s.breaker.settle cfg k.kind outcome now ∧ reply = .done ∧
        (e = .record t outcome now ∨ outcome = .other ∧ e = .release t now)) ∨
      s'.breaker = s.breaker ∧ ∀ t, reply ≠ .admitted t := by
  cases e with
  | admitAt now =>
    refine .inl ⟨now, rfl, ?_⟩
    unfold step at taken
    dsimp only at taken
    split at taken <;> (rename_i admitted; cases taken; rw [admitted])
  | clone t =>
    obtain ⟨k, holds, moved⟩ := Option.map_eq_some_iff.mp taken
    cases moved
    exact .inr (.inr ⟨rfl, nofun⟩)
  | record t outcome now =>
    obtain ⟨k, holds, moved⟩ := Option.map_eq_some_iff.mp taken
    cases moved
    unfold recordAt
    split
    · exact .inr (.inr ⟨rfl, nofun⟩)
    · rename_i fresh
      exact .inr (.inl ⟨t, k, outcome, now, (held_eq_some.mp holds).1,
        Bool.eq_false_iff.mpr fresh, rfl, rfl, .inl rfl⟩)
  | release t now =>
    obtain ⟨k, holds, moved⟩ := Option.map_eq_some_iff.mp taken
    dsimp only at moved
    split at moved
    · unfold recordAt at moved
      split at moved
      · cases moved
        exact .inr (.inr ⟨rfl, nofun⟩)
      · rename_i fresh
        cases moved
        exact .inr (.inl ⟨t, k, .other, now, (held_eq_some.mp holds).1,
          Bool.eq_false_iff.mpr fresh, rfl, rfl, .inr ⟨rfl, rfl⟩⟩)
    · cases moved
      exact .inr (.inr ⟨rfl, nofun⟩)
  | recheck t now =>
    obtain ⟨k, holds, moved⟩ := Option.map_eq_some_iff.mp taken
    refine .inr (.inr ?_)
    have kept : (recheck s t k now).2.breaker = s.breaker := by
      unfold recheck
      split
      · rfl
      · split
        · rfl
        · split <;> rfl
        · rfl
        · rfl
    split at moved
    · rename_i checked
      cases moved
      rw [checked] at kept
      exact ⟨kept, nofun⟩
    · rename_i checked
      cases moved
      rw [checked] at kept
      exact ⟨kept, nofun⟩

/-- An ordinary ticket's first outcome, when its period is over. -/
theorem Matches.settle_stale {k : Ticket} (same : Matches cfg s r)
    (found : s.tickets[t]? = some k) (ordinary : k.probe = false)
    (outside : ∀ members log, r.phase = .closed members log → t ∉ members)
    (outcome : Outcome) (now : Nat) : s.breaker.settle cfg k.kind outcome now = s.breaker := by
  rw [Ticket.kind, if_neg (Bool.eq_false_iff.mp ordinary)]
  by_cases current : k.generation = s.breaker.generation
  · have member : Current s t := ⟨k, found, ordinary, current⟩
    cases st : s.breaker.st with
    | closed n =>
      obtain ⟨members, log, phase, -⟩ := samePhase_closed (st ▸ same.phase)
      exact absurd ((same.members members log phase t).mpr member) (outside members log phase)
    | opened d => exact (same.not_current (by rw [st]; nofun) t member).elim
    | halfOpen probing => exact (same.not_current (by rw [st]; nofun) t member).elim
  · exact if_pos current

theorem reports_eq {e : Event} {u : Nat} {outcome : Outcome} {now : Nat}
    (reports : Event.Reports e t)
    (call : e = .record u outcome now ∨ outcome = .other ∧ e = .release u now) : u = t := by
  rcases reports with ⟨o, n, rfl⟩ | ⟨n, rfl⟩
  · rcases call with call | ⟨-, call⟩ <;> cases call
    rfl
  · rcases call with call | ⟨-, call⟩ <;> cases call
    rfl

theorem reports_not_admission {e : Event} {now : Nat} (reports : Event.Reports e t) :
    e ≠ .admitAt now := by
  rcases reports with ⟨o, n, rfl⟩ | ⟨n, rfl⟩ <;> nofun

theorem Matches.staleInert (same : Matches cfg s r) : StaleInert cfg s r.phase := by
  intro t ordinary outside e s' reply reports taken
  rcases step_breaker taken with ⟨now, rfl, -⟩ | ⟨u, k, outcome, now, found, -, settled, -, call⟩ |
    ⟨kept, -⟩
  · exact absurd rfl (reports_not_admission reports)
  · have here := reports_eq reports call
    subst here
    rw [settled]
    exact same.settle_stale found ((at_self found).mp ordinary) outside outcome now
  · exact kept

theorem firstRecordCounts (cfg : Config) (s : State) : FirstRecordCounts cfg s := by
  intro t recorded e s' reply reports taken
  rcases step_breaker taken with ⟨now, rfl, -⟩ | ⟨u, k, outcome, now, found, fresh, -, -, call⟩ |
    ⟨kept, -⟩
  · exact absurd rfl (reports_not_admission reports)
  · have here := reports_eq reports call
    subst here
    rw [(at_self found).mp recorded] at fresh
    cases fresh
  · exact kept

/-- While the breaker is open no ticket can settle anything. -/
theorem Matches.settle_opened {k : Ticket} {d : Nat} (same : Matches cfg s r)
    (opened : s.breaker.st = .opened d) (found : s.tickets[t]? = some k)
    (fresh : k.recorded = false) (outcome : Outcome) (now : Nat) :
    s.breaker.settle cfg k.kind outcome now = s.breaker := by
  have phase := (same.opened_iff d).mp opened
  by_cases probes : k.probe = true
  · have half := (same.probe t).mpr ⟨k, found, probes, fresh⟩
    rw [phase] at half
    cases half
  · refine same.settle_stale found (Bool.eq_false_iff.mpr probes) ?_ outcome now
    rw [phase]
    nofun

theorem Matches.opened_step {e : Event} {reply : Reply} {d : Nat} (same : Matches cfg s r)
    (opened : s.breaker.st = .opened d) (taken : HttpBreaker.step cfg s e = some (s', reply))
    (early : ∀ now, Event.time e = some now → now < d) :
    s'.breaker.st = .opened d ∧ ∀ t, reply ≠ .admitted t := by
  rcases step_breaker taken with ⟨now, rfl, -⟩ | ⟨u, k, outcome, now, found, fresh, settled,
    rfl, -⟩ | ⟨kept, other⟩
  · have before := early now rfl
    unfold HttpBreaker.step Breaker.admitAt at taken
    dsimp only at taken
    rw [opened] at taken
    dsimp only at taken
    rw [if_pos before] at taken
    cases taken
    exact ⟨opened, nofun⟩
  · rw [settled, same.settle_opened opened found fresh]
    exact ⟨opened, nofun⟩
  · rw [kept]
    exact ⟨opened, other⟩

theorem Matches.coolsDown (same : Matches cfg s r) : CoolsDown cfg s := by
  intro d opened later s' replies ran early
  have general : ∀ (later : List Event) (s : State) (r : Reference) (before : List Reply),
      Matches cfg s r → s.breaker.st = .opened d → (∀ t, .admitted t ∉ before) →
      (∀ e ∈ later, ∀ now, Event.time e = some now → now < d) →
      run (replying (HttpBreaker.step cfg)) (s, before) later = some (s', replies) →
      s'.breaker.st = .opened d ∧ ∀ t, .admitted t ∉ replies := by
    intro later
    induction later with
    | nil =>
      intro s r before _ opened none _ ran
      rw [run_nil] at ran
      cases ran
      exact ⟨opened, none⟩
    | cons e later ih =>
      intro s r before same opened none early ran
      rw [run_cons, Option.bind_eq_some_iff] at ran
      obtain ⟨⟨u, middle⟩, first, rest⟩ := ran
      obtain ⟨b, taken, answers⟩ := replying_eq_some first
      obtain ⟨r', -, same'⟩ := same.step taken
      obtain ⟨opened', other⟩ := same.opened_step opened taken (early e List.mem_cons_self)
      refine ih u r' middle same' opened' ?_
        (fun e' inLater => early e' (List.mem_cons_of_mem e inLater)) rest
      intro t member
      dsimp only at answers
      rw [answers, List.mem_append, List.mem_singleton] at member
      rcases member with member | member
      · exact none t member
      · exact other t member.symm
  exact general later s r [] same opened nofun early ran

/-- An outcome that is no failure opens nothing. -/
theorem settle_not_opened {b : Breaker} {kind : TicketKind} {outcome : Outcome} {now d : Nat}
    (closed : ∀ d, b.st ≠ .opened d) (harmless : outcome ≠ .counted) :
    (b.settle cfg kind outcome now).st ≠ .opened d := by
  unfold Breaker.settle
  cases kind with
  | probe =>
    cases outcome with
    | success => nofun
    | counted => exact absurd rfl harmless
    | other => nofun
  | closed generation =>
    dsimp only
    split
    · exact closed d
    · split
      · cases outcome with
        | success => nofun
        | counted => exact absurd rfl harmless
        | other => exact closed d
      · exact closed d

/-- A first counted failure opens the breaker exactly when it is an opening one. -/
theorem Matches.settle_counted {k : Ticket} {now d : Nat} (same : Matches cfg s r)
    (found : s.tickets[t]? = some k) (fresh : k.recorded = false)
    (shut : ∀ d, s.breaker.st ≠ .opened d) :
    (s.breaker.settle cfg k.kind .counted now).st = .opened d ↔
      d = now + cfg.openFor ∧ Opening cfg s r.phase t := by
  by_cases probes : k.probe = true
  · have unsettled : UnsettledProbe s t := ⟨k, found, probes, fresh⟩
    rw [Ticket.kind, if_pos probes]
    constructor
    · intro opened
      cases opened
      exact ⟨rfl, .inl unsettled⟩
    · rintro ⟨rfl, -⟩
      rfl
  · have ordinary := Bool.eq_false_iff.mpr probes
    have notProbe : ¬UnsettledProbe s t := by
      intro unsettled
      exact probes ((at_self found).mp unsettled).1
    by_cases outside : ∀ members log, r.phase = .closed members log → t ∉ members
    · rw [same.settle_stale found ordinary outside]
      constructor
      · intro opened
        exact absurd opened (shut d)
      · rintro ⟨-, unsettled | ⟨members, log, phase, member, -⟩⟩
        · exact absurd unsettled notProbe
        · exact absurd member (outside members log phase)
    · obtain ⟨members, inside⟩ := Classical.not_forall.mp outside
      obtain ⟨log, inside⟩ := Classical.not_forall.mp inside
      obtain ⟨phase, member⟩ := Classical.not_imp.mp inside
      have member := Classical.not_not.mp member
      have current := (at_self found).mp ((same.members members log phase t).mp member)
      have here := same.phase
      rw [phase] at here
      cases st : s.breaker.st with
      | opened d' => exact absurd st (shut d')
      | halfOpen probing =>
        rw [st] at here
        exact here.elim
      | closed n =>
        rw [st] at here
        obtain ⟨counts, below⟩ := here
        have settled : s.breaker.settle cfg k.kind .counted now =
            if cfg.limit ≤ n + 1 then
              { st := .opened (now + cfg.openFor)
                generation := s.breaker.generation + 1 }
            else { s.breaker with st := .closed (n + 1) } := by
          rw [Ticket.kind, if_neg probes, current.2]
          unfold Breaker.settle
          dsimp only
          rw [if_neg (not_not_intro rfl), st]
        have count : consecutive (.counted :: log) = n + 1 := congrArg (· + 1) counts
        rw [settled]
        by_cases last : cfg.limit ≤ n + 1
        · rw [if_pos last]
          constructor
          · intro opened
            cases opened
            exact ⟨rfl, .inr ⟨members, log, phase, member, ⟨k, found, fresh⟩, by omega⟩⟩
          · rintro ⟨rfl, -⟩
            rfl
        · rw [if_neg last]
          constructor
          · nofun
          · rintro ⟨-, unsettled | ⟨members', log', phase', -, -, full⟩⟩
            · exact absurd unsettled notProbe
            · rw [phase] at phase'
              cases phase'
              omega

theorem admission_not_opened {b : Breaker} {now d : Nat} (shut : ∀ d, b.st ≠ .opened d) :
    (b.admitAt now).2.st ≠ .opened d := by
  unfold Breaker.admitAt
  split
  · rename_i d' opened
    exact absurd opened (shut d')
  · exact shut d
  · exact shut d
  · nofun

theorem Matches.opening_shut (same : Matches cfg s r) (opening : Opening cfg s r.phase t)
    (d : Nat) : s.breaker.st ≠ .opened d := by
  intro opened
  have phase := (same.opened_iff d).mp opened
  rcases opening with unsettled | ⟨members, log, closed, -⟩
  · rw [(same.probe t).mpr unsettled] at phase
    cases phase
  · rw [closed] at phase
    cases phase

theorem Opening.unrecorded {phase : Phase} (opening : Opening cfg s phase t) :
    Unrecorded s t := by
  rcases opening with ⟨k, found, -, fresh⟩ | ⟨members, log, -, -, fresh, -⟩
  · exact ⟨k, found, fresh⟩
  · exact fresh

theorem Matches.opensExactly (same : Matches cfg s r) : OpensExactly cfg s r.phase := by
  intro e s' reply d taken
  constructor
  · rintro ⟨shut, opened⟩
    rcases step_breaker taken with ⟨now, -, moved⟩ | ⟨t, k, outcome, now, found, fresh, settled,
      -, call⟩ | ⟨kept, -⟩
    · rw [moved] at opened
      exact absurd opened (admission_not_opened shut)
    · rw [settled] at opened
      by_cases counted : outcome = .counted
      · subst counted
        rcases call with rfl | ⟨other, -⟩
        · obtain ⟨time, opening⟩ := (same.settle_counted found fresh shut).mp opened
          exact ⟨t, now, rfl, time, opening⟩
        · cases other
      · exact absurd opened (settle_not_opened shut counted)
    · rw [kept] at opened
      exact absurd opened (shut d)
  · rintro ⟨t, now, rfl, time, opening⟩
    have shut := same.opening_shut opening
    refine ⟨shut, ?_⟩
    obtain ⟨k, holds, moved⟩ := Option.map_eq_some_iff.mp taken
    have found := (held_eq_some.mp holds).1
    have fresh := (at_self found).mp opening.unrecorded
    cases moved
    rw [HttpBreaker.recordAt, if_neg (Bool.eq_false_iff.mp fresh)]
    exact (same.settle_counted found fresh shut).mpr ⟨time, opening⟩

end Consequences

/-- Over every sequence of calls the breaker answers as the reference does and is in its state. -/
theorem breaker_refines (cfg : Config) {events : List Event} {s : State} {replies : List Reply}
    (ran : run (replying (step cfg)) (init, []) events = some (s, replies)) :
    ∃ r, run (replying (Reference.step cfg)) (Reference.init, []) events = some (r, replies) ∧
      SamePhase cfg s.breaker.st r.phase ∧ ProbeSlot s ∧ OpensExactly cfg s r.phase ∧
      StaleInert cfg s r.phase ∧ FirstRecordCounts cfg s ∧ CoolsDown cfg s := by
  have simulates : ∀ {s s' : State} {r : Reference} {e : Event} {reply : Reply},
      Matches cfg s r → step cfg s e = some (s', reply) →
        ∃ r', Reference.step cfg r e = some (r', reply) ∧ Matches cfg s' r' :=
    fun same taken => same.step taken
  obtain ⟨r, ran', same⟩ := run_simulates simulates (matches_init cfg) ran
  exact ⟨r, ran', same.phase, same.probeSlot, same.opensExactly, same.staleInert,
    firstRecordCounts cfg s, same.coolsDown⟩

/-- The breaker opens on the second request's failure and closes again on the probe's success. -/
def reopened : List Event :=
  [.admitAt 0, .record 1 .counted 0, .admitAt 1000000, .record 2 .success 1000000]

theorem breaker_refines_reopened :
    ∃ s replies,
      run (replying (step { failures := 1, openMs := 1 })) (init, []) (.admitAt 0 :: reopened) =
          some (s, replies) ∧
        s.breaker.st = .closed 0 ∧ s.breaker.generation = 1 ∧ ProbeSlot s := by
  refine ⟨_, _, rfl, rfl, rfl, ?_⟩
  obtain ⟨r, -, -, slot, -⟩ := breaker_refines { failures := 1, openMs := 1 }
    (show run _ _ (.admitAt 0 :: reopened) = _ from rfl)
  exact slot

/-- A request of the first closed period is rechecked in the second one, and its failure there
opens the breaker. -/
theorem recheckedTicket_opens :
    ∃ s₁ s₂ s₃ replies,
      step { failures := 1, openMs := 1 } init (.admitAt 0) = some (s₁, .admitted 0) ∧
        run (replying (step { failures := 1, openMs := 1 })) (s₁, [])
            (reopened ++ [.recheck 0 1000000]) = some (s₂, replies) ∧
        s₁.breaker.generation < s₂.breaker.generation ∧
        step { failures := 1, openMs := 1 } s₂ (.record 0 .counted 1000000) =
            some (s₃, .done) ∧
        s₂.breaker.st = .closed 0 ∧ s₃.breaker.st = .opened 2000000 :=
  ⟨_, _, _, _, rfl, rfl, by decide, rfl, rfl, rfl⟩

end FerroEngine.HttpBreakerRefinement
