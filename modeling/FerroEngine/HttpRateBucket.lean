import FerroEngine.HttpBreaker
import FerroEngine.LabelledRuns

set_option autoImplicit false

/-! # The rate bucket of an HTTP upstream

`RateBucket` of `engine/limits.rs`: a GCRA in nanoseconds whose reservations may be given back.
Instants and durations are counted in nanoseconds.
-/

namespace FerroEngine.HttpRateBucket

open LabelledRuns HttpBreaker

/-- `config::Rate`; an enabled upstream has a burst of at least one. -/
structure Rate where
  perSecMilli : Nat
  burst : Nat
  maxWaitMs : Nat
  burst_pos : 0 < burst
  wait_u32 : maxWaitMs < 4294967296

structure RateBucket where
  base : Nat
  interval : Nat
  tolerance : Nat
  maxWait : Nat
  tat : Nat
  deriving DecidableEq, Repr

inductive RateDecision where
  | admits
  | wait (wait after : Nat)
  | refuse (retryAfterMs : Nat)
  deriving DecidableEq, Repr

def u64Max : Nat := 18446744073709551615

def interval (rate : Rate) : Nat :=
  (1000000000000 + (max rate.perSecMilli 1 - 1)) / max rate.perSecMilli 1

namespace RateBucket

def new (rate : Rate) (base : Nat) : RateBucket :=
  { base := base
    interval := HttpRateBucket.interval rate
    tolerance := HttpRateBucket.interval rate * (max rate.burst 1 - 1)
    maxWait := rate.maxWaitMs * 1000000
    tat := 0 }

def reserves (b : RateBucket) (next : Nat) : RateBucket :=
  { b with tat := next + b.interval }

def take (b : RateBucket) (now remaining : Nat) : RateBucket × RateDecision :=
  let t := now - b.base
  let next := max b.tat t
  let waitNs := next - b.tolerance - t
  if waitNs = 0 then (b.reserves next, .admits)
  else
    let wait := if waitNs ≤ u64Max then waitNs else u64Max
    if min b.maxWait remaining < wait then (b, .refuse (ceilMs wait))
    else (b.reserves next, .wait wait (next + b.interval))

/-- The drop of a `RateWait` that was not kept. -/
def giveBack (b : RateBucket) (after : Nat) : RateBucket :=
  if b.tat = after then { b with tat := after - b.interval } else b

end RateBucket

/-! ## Tokens -/

inductive Fate where
  | admitted
  | waiting
  | kept
  | givenBack
  /-- Dropped while a later slot was scheduled. -/
  | lost
  deriving DecidableEq, Repr

structure Slot where
  due : Nat
  /-- The bucket's `tat` right after the reservation. -/
  after : Nat
  deriving DecidableEq, Repr

structure Token where
  slot : Slot
  fate : Fate
  deriving DecidableEq, Repr

structure State where
  bucket : RateBucket
  now : Nat
  tokens : List Token
  deriving DecidableEq, Repr

def State.start (rate : Rate) (base now : Nat) : State :=
  { bucket := .new rate base, now := now, tokens := [] }

inductive Label where
  | passes (nanos : Nat)
  | takes (remaining : Nat)
  | keeps (i : Nat)
  | drops (i : Nat)
  deriving DecidableEq, Repr

/-- The token of a decision. -/
def token (b : RateBucket) (now : Nat) : RateDecision → Option Token
  | .admits => some ⟨⟨now, b.tat⟩, .admitted⟩
  | .wait wait after => some ⟨⟨now + wait, after⟩, .waiting⟩
  | .refuse _ => none

def step (s : State) : Label → Option State
  | .passes nanos => some { s with now := s.now + nanos }
  | .takes remaining =>
    let taken := s.bucket.take s.now remaining
    some { s with
      bucket := taken.1
      tokens := s.tokens ++ (token taken.1 s.now taken.2).toList }
  | .keeps i =>
    s.tokens[i]?.bind fun k =>
      if k.fate = .waiting then
        some { s with tokens := s.tokens.set i { k with fate := .kept } }
      else none
  | .drops i =>
    s.tokens[i]?.bind fun k =>
      if k.fate = .waiting then
        some { s with
          bucket := s.bucket.giveBack k.slot.after
          tokens := s.tokens.set i
            { k with fate := if s.bucket.tat = k.slot.after then .givenBack else .lost } }
      else none

/-- The slots of the tokens that were never given back, in the order of their reservation. -/
def slots (s : State) : List Slot :=
  (s.tokens.filter fun k => k.fate ≠ .givenBack).map Token.slot

/-! ## Spaced reservations -/

theorem length_of_spaced {α : Type} {key : α → Nat} {gap first last : Nat} {l : List α}
    (spaced : l.Pairwise fun a b => key a + gap ≤ key b) (low : ∀ a ∈ l, first ≤ key a)
    (high : ∀ a ∈ l, key a ≤ last) (some : l ≠ []) : first + l.length * gap ≤ last + gap := by
  induction l generalizing first with
  | nil => exact absurd rfl some
  | cons a l ih =>
    have least := low a (.head l)
    have most := high a (.head l)
    rw [List.pairwise_cons] at spaced
    rw [List.length_cons, Nat.succ_mul]
    by_cases more : l = []
    · subst more
      rw [List.length_nil]
      omega
    · have rest := ih spaced.2 spaced.1 (fun b member => high b (.tail a member)) more
      omega

/-- An earlier and a later reservation: a slot apart, and due no closer than the burst allows. -/
def Apart (b : RateBucket) (first later : Slot) : Prop :=
  first.after + b.interval ≤ later.after ∧
    first.due + later.after ≤ later.due + first.after + b.tolerance

theorem length_of_apart {b : RateBucket} {l : List Slot} {x w : Nat}
    (apart : l.Pairwise (Apart b)) (inside : ∀ k ∈ l, x ≤ k.due ∧ k.due ≤ x + w) :
    l.length * b.interval ≤ w + b.tolerance + b.interval := by
  cases l with
  | nil => rw [List.length_nil, Nat.zero_mul]; exact Nat.zero_le _
  | cons a l =>
    have first := inside a (.head l)
    have spaced : (a :: l).Pairwise fun a b' => a.after + b.interval ≤ b'.after :=
      apart.imp fun both => both.1
    rw [List.pairwise_cons] at apart
    have low : ∀ k ∈ a :: l, a.after ≤ k.after := by
      intro k member
      rcases List.mem_cons.mp member with rfl | member
      · exact Nat.le_refl _
      · have above := (apart.1 k member).1
        omega
    have high : ∀ k ∈ a :: l, k.after ≤ a.after + w + b.tolerance := by
      intro k member
      have last := inside k member
      rcases List.mem_cons.mp member with rfl | member
      · omega
      · have near := (apart.1 k member).2
        omega
    have total := length_of_spaced spaced low high (List.cons_ne_nil a l)
    omega

/-! ## The steps -/

structure Spaced (s : State) : Prop where
  interval : 0 < s.bucket.interval
  u64 : s.bucket.maxWait < u64Max
  apart : (slots s).Pairwise (Apart s.bucket)
  below : ∀ k ∈ slots s, k.after ≤ s.bucket.tat
  due : ∀ k ∈ slots s, k.due + s.bucket.interval ≤ k.after + min s.bucket.base s.now
  /-- The theoretical arrival time stays near the clock, so it never overflows. -/
  ahead : s.bucket.tat ≤
    s.now - s.bucket.base + s.bucket.tolerance + s.bucket.maxWait + s.bucket.interval

/-- What a take reserves. -/
structure Reserved (b : RateBucket) (now : Nat) (after : RateBucket) (k : Token) : Prop where
  bucket : after = b.reserves (max b.tat (now - b.base))
  slot : k.slot.after = after.tat
  due : k.slot.due = now + (max b.tat (now - b.base) - b.tolerance - (now - b.base))
  wait : max b.tat (now - b.base) - b.tolerance - (now - b.base) ≤ b.maxWait
  live : k.fate ≠ .givenBack

theorem take_reserves {b : RateBucket} (u64 : b.maxWait < u64Max) (now remaining : Nat) :
    (∃ r, b.take now remaining = (b, .refuse r)) ∨
      ∃ k, token (b.take now remaining).1 now (b.take now remaining).2 = some k ∧
        Reserved b now (b.take now remaining).1 k := by
  rw [RateBucket.take]
  dsimp only
  generalize waited : max b.tat (now - b.base) - b.tolerance - (now - b.base) = waitNs
  rw [← Nat.min_def]
  split
  · rename_i none
    refine .inr ⟨_, rfl, rfl, rfl, ?_, ?_, nofun⟩
    · rw [waited, none]
      rfl
    · rw [waited, none]
      exact Nat.zero_le _
  · split
    · exact .inl ⟨_, rfl⟩
    · rename_i allowed
      -- A clamped wait is longer than any that is allowed.
      have exact_wait : min waitNs u64Max = waitNs ∧ waitNs ≤ b.maxWait := by omega
      refine .inr ⟨_, rfl, rfl, rfl, ?_, ?_, nofun⟩
      · rw [waited, exact_wait.1]
      · rw [waited]
        exact exact_wait.2

theorem slots_push (s : State) (b : RateBucket) {k : Token} (live : k.fate ≠ .givenBack) :
    slots { s with
      bucket := b
      tokens := s.tokens ++ [k] } = slots s ++ [k.slot] := by
  rw [slots, slots]
  dsimp only
  rw [List.filter_append, List.map_append]
  simp [live]

theorem split_at {α : Type} {l : List α} {i : Nat} {x : α} (found : l[i]? = some x) :
    ∃ before after, l = before ++ x :: after ∧ ∀ y, l.set i y = before ++ y :: after := by
  induction l generalizing i with
  | nil => cases found
  | cons z l ih =>
    cases i with
    | zero =>
      cases found
      exact ⟨[], l, rfl, fun _ => rfl⟩
    | succ i =>
      obtain ⟨before, after, same, set⟩ := ih found
      refine ⟨z :: before, after, congrArg (z :: ·) same, ?_⟩
      intro y
      exact congrArg (z :: ·) (set y)

theorem spaced_keeps {s t : State} (spaced : Spaced s) (bucket : t.bucket = s.bucket)
    (now : t.now = s.now) (same : slots t = slots s) : Spaced t := by
  obtain ⟨interval, u64, apart, below, due, ahead⟩ := spaced
  constructor
  · rw [bucket]
    exact interval
  · rw [bucket]
    exact u64
  · rw [bucket, same]
    exact apart
  · rw [bucket, same]
    exact below
  · rw [bucket, same, now]
    exact due
  · rw [bucket, now]
    exact ahead

theorem spaced_passes {s : State} (spaced : Spaced s) (nanos : Nat) :
    Spaced { s with now := s.now + nanos } := by
  refine ⟨spaced.interval, spaced.u64, spaced.apart, spaced.below, ?_, ?_⟩
  · intro k member
    have due := spaced.due k member
    dsimp only
    omega
  · have ahead := spaced.ahead
    dsimp only
    omega

theorem spaced_reserved {s : State} (spaced : Spaced s) {b : RateBucket} {k : Token}
    (reserved : Reserved s.bucket s.now b k) :
    Spaced { s with
      bucket := b
      tokens := s.tokens ++ [k] } := by
  obtain ⟨bucket, slot, due, wait, live⟩ := reserved
  have top : k.slot.after = max s.bucket.tat (s.now - s.bucket.base) + s.bucket.interval := by
    rw [slot, bucket]
    rfl
  have all : ∀ old ∈ slots s, Apart s.bucket old k.slot := by
    intro old member
    have below := spaced.below old member
    have early := spaced.due old member
    constructor
    · omega
    · omega
  have rows := slots_push s b live
  have interval := spaced.interval
  constructor
  · rw [bucket]
    exact spaced.interval
  · rw [bucket]
    exact spaced.u64
  · rw [rows, List.pairwise_append, bucket]
    refine ⟨spaced.apart, List.pairwise_singleton .., ?_⟩
    intro old member new last
    rw [List.mem_singleton.mp last]
    exact all old member
  · intro old member
    rw [rows] at member
    dsimp only
    rw [bucket, RateBucket.reserves]
    dsimp only
    rcases List.mem_append.mp member with member | last
    · have below := spaced.below old member
      omega
    · rw [List.mem_singleton.mp last]
      omega
  · intro old member
    rw [rows] at member
    dsimp only
    rw [bucket, RateBucket.reserves]
    dsimp only
    rcases List.mem_append.mp member with member | last
    · exact spaced.due old member
    · rw [List.mem_singleton.mp last]
      omega
  · dsimp only
    rw [bucket, RateBucket.reserves]
    dsimp only
    omega

/-- A change of fate that gives nothing back leaves the slots. -/
theorem slots_set {s : State} {i : Nat} {k next : Token} (found : s.tokens[i]? = some k)
    (slot : next.slot = k.slot) (live : k.fate ≠ .givenBack) (live' : next.fate ≠ .givenBack) :
    slots { s with tokens := s.tokens.set i next } = slots s := by
  obtain ⟨before, after, same, set⟩ := split_at found
  rw [slots, slots]
  dsimp only
  rw [set next, same]
  simp [live, live', slot]

theorem slots_without {s : State} {i : Nat} {k : Token} (b : RateBucket)
    (found : s.tokens[i]? = some k) (live : k.fate ≠ .givenBack) :
    ∃ before after, slots s = before ++ k.slot :: after ∧
      slots { s with
        bucket := b
        tokens := s.tokens.set i { k with fate := .givenBack } } = before ++ after := by
  obtain ⟨before, after, same, set⟩ := split_at found
  refine ⟨(before.filter fun k => k.fate ≠ .givenBack).map Token.slot,
    (after.filter fun k => k.fate ≠ .givenBack).map Token.slot, ?_, ?_⟩
  · rw [slots, same]
    simp [live]
  · rw [slots]
    dsimp only
    rw [set]
    simp

/-- The slot of a token whose `after` is still the bucket's `tat` is the last one scheduled. -/
theorem spaced_givesBack {s : State} {i : Nat} {k : Token} (spaced : Spaced s)
    (found : s.tokens[i]? = some k) (live : k.fate ≠ .givenBack)
    (last : s.bucket.tat = k.slot.after) :
    Spaced { s with
      bucket := { s.bucket with tat := k.slot.after - s.bucket.interval }
      tokens := s.tokens.set i { k with fate := .givenBack } } := by
  obtain ⟨before, after, rows, rest⟩ :=
    slots_without { s.bucket with tat := k.slot.after - s.bucket.interval } found live
  have interval := spaced.interval
  have apart := spaced.apart
  rw [rows, List.pairwise_append, List.pairwise_cons] at apart
  obtain ⟨first, ⟨later, second⟩, across⟩ := apart
  have members : ∀ old ∈ before ++ after, old ∈ slots s := by
    intro old member
    rw [rows]
    rcases List.mem_append.mp member with member | member
    · exact List.mem_append_left _ member
    · exact List.mem_append_right _ (.tail _ member)
  refine ⟨interval, spaced.u64, ?_, ?_, ?_, ?_⟩
  · rw [rest, List.pairwise_append]
    refine ⟨first, second, ?_⟩
    intro a member b member'
    exact across a member b (.tail _ member')
  · intro old member
    rw [rest] at member
    dsimp only
    rcases List.mem_append.mp member with member | member
    · have gap := (across old member k.slot (.head _)).1
      omega
    · have gap := (later old member).1
      have below := spaced.below old (members old (List.mem_append_right _ member))
      omega
  · intro old member
    rw [rest] at member
    exact spaced.due old (members old member)
  · have ahead := spaced.ahead
    dsimp only
    omega

theorem step_spaced {s t : State} {a : Label} (spaced : Spaced s) (taken : step s a = some t) :
    Spaced t := by
  cases a with
  | passes nanos =>
    cases taken
    exact spaced_passes spaced nanos
  | takes remaining =>
    dsimp only [step] at taken
    rw [Option.some.injEq] at taken
    subst taken
    rcases take_reserves spaced.u64 s.now remaining with ⟨r, refused⟩ | ⟨k, issued, reserved⟩
    · rw [refused]
      apply spaced_keeps spaced
      · rfl
      · rfl
      · rw [slots, token, Option.toList_none, List.append_nil]
        rfl
    · rw [issued]
      exact spaced_reserved spaced reserved
  | keeps i =>
    obtain ⟨k, found, taken⟩ := Option.bind_eq_some_iff.mp taken
    split at taken
    · rename_i waiting
      cases taken
      have live : k.fate ≠ .givenBack := by rw [waiting]; nofun
      exact spaced_keeps spaced rfl rfl (slots_set found rfl live nofun)
    · cases taken
  | drops i =>
    obtain ⟨k, found, taken⟩ := Option.bind_eq_some_iff.mp taken
    split at taken
    · rename_i waiting
      cases taken
      have live : k.fate ≠ .givenBack := by rw [waiting]; nofun
      rw [RateBucket.giveBack]
      by_cases last : s.bucket.tat = k.slot.after
      · rw [if_pos last, if_pos last]
        exact spaced_givesBack spaced found live last
      · rw [if_neg last, if_neg last]
        exact spaced_keeps spaced rfl rfl (slots_set found rfl live nofun)
    · cases taken

/-! ## Every run -/

theorem interval_pos (rate : Rate) : 0 < interval rate := by
  have positive : 0 < max rate.perSecMilli 1 := by omega
  rw [interval]
  apply Nat.div_pos
  · omega
  · exact positive

theorem spaced_start (rate : Rate) (base now : Nat) : Spaced (State.start rate base now) := by
  have small := rate.wait_u32
  refine ⟨interval_pos rate, ?_, .nil, ?_, ?_, Nat.zero_le _⟩
  · rw [State.start, RateBucket.new, u64Max]
    dsimp only
    omega
  · intro k member
    cases member
  · intro k member
    cases member

/-- A step leaves the settings of the bucket. -/
def settings (b : RateBucket) : Nat × Nat × Nat × Nat :=
  (b.base, b.interval, b.tolerance, b.maxWait)

theorem take_settings (b : RateBucket) (now remaining : Nat) :
    settings (b.take now remaining).1 = settings b := by
  rw [RateBucket.take]
  dsimp only
  rw [← Nat.min_def]
  split
  · rfl
  · split <;> rfl

theorem step_settings {s t : State} {a : Label} (taken : step s a = some t) :
    settings t.bucket = settings s.bucket := by
  cases a with
  | passes nanos =>
    cases taken
    rfl
  | takes remaining =>
    dsimp only [step] at taken
    rw [Option.some.injEq] at taken
    subst taken
    exact take_settings s.bucket s.now remaining
  | keeps i =>
    obtain ⟨k, -, taken⟩ := Option.bind_eq_some_iff.mp taken
    split at taken
    · cases taken
      rfl
    · cases taken
  | drops i =>
    obtain ⟨k, -, taken⟩ := Option.bind_eq_some_iff.mp taken
    split at taken
    · cases taken
      dsimp only
      rw [RateBucket.giveBack]
      split <;> rfl
    · cases taken

def inWindow (x w : Nat) (k : Slot) : Bool :=
  decide (x ≤ k.due) && decide (k.due ≤ x + w)

theorem countP_le {s : State} (spaced : Spaced s) (x w : Nat) :
    (slots s).countP (inWindow x w) * s.bucket.interval ≤
      w + s.bucket.tolerance + s.bucket.interval := by
  rw [List.countP_eq_length_filter]
  apply length_of_apart (x := x)
  · exact spaced.apart.filter _
  · intro k member
    have inside := (List.mem_filter.mp member).2
    rw [inWindow, Bool.and_eq_true, decide_eq_true_eq, decide_eq_true_eq] at inside
    exact inside

/-- Among the tokens never given back no window holds more than the rate allows, and no two of them
hold the same slot. -/
theorem never_overAdmits {rate : Rate} {base now : Nat} {labels : List Label} {s : State}
    (reached : run step (State.start rate base now) labels = some s) :
    (∀ x w, (slots s).countP (inWindow x w) ≤ rate.burst + w / interval rate) ∧
      ((slots s).map Slot.after).Nodup := by
  have spaced := run_always step step_spaced (spaced_start rate base now) reached
  have keep : ∀ {s t : State} {a : Label}, settings s.bucket = settings (RateBucket.new rate base) →
      step s a = some t → settings t.bucket = settings (RateBucket.new rate base) :=
    fun same taken => (step_settings taken).trans same
  have kept : settings s.bucket = settings (RateBucket.new rate base) :=
    run_always step keep rfl reached
  have gap : s.bucket.interval = interval rate := congrArg (fun b => b.2.1) kept
  have tolerance : s.bucket.tolerance = interval rate * (max rate.burst 1 - 1) :=
    congrArg (fun b => b.2.2.1) kept
  have positive := interval_pos rate
  constructor
  · intro x w
    have counted := countP_le spaced x w
    have burst := rate.burst_pos
    have whole : interval rate * (max rate.burst 1 - 1) + interval rate =
        interval rate * rate.burst := by
      have more : max rate.burst 1 = rate.burst - 1 + 1 := by omega
      rw [more, Nat.add_sub_cancel, ← Nat.mul_succ, Nat.succ_eq_add_one]
      congr 1
      omega
    rw [gap, tolerance, Nat.add_assoc, whole] at counted
    have divided := (Nat.le_div_iff_mul_le positive).mpr counted
    rw [Nat.add_mul_div_left w rate.burst positive] at divided
    omega
  · rw [List.Nodup, List.pairwise_map]
    apply spaced.apart.imp
    intro a b apart
    have far := apart.1
    omega

def onePerSecond : Rate :=
  { perSecMilli := 1000, burst := 1, maxWaitMs := 10000, burst_pos := by decide,
    wait_u32 := by decide }

/-- The drop of a middle slot gives nothing back, and the drop of the last one does. -/
def outOfOrder : List Label :=
  [.takes 60000000000, .takes 60000000000, .takes 60000000000, .takes 60000000000, .drops 1,
    .takes 60000000000, .drops 4, .takes 60000000000]

theorem never_overAdmits_outOfOrder :
    ∃ s, run step (State.start onePerSecond 5 5) outOfOrder = some s ∧
      (∀ x w, (slots s).countP (inWindow x w) ≤ 1 + w / interval onePerSecond) ∧
      ((slots s).map Slot.after).Nodup ∧
      s.tokens.map Token.fate = [.admitted, .lost, .waiting, .waiting, .givenBack, .waiting] := by
  have ran : ((run step (State.start onePerSecond 5 5) outOfOrder).map fun s =>
      s.tokens.map Token.fate) =
        some [.admitted, .lost, .waiting, .waiting, .givenBack, .waiting] := by decide +kernel
  obtain ⟨s, reached, fates⟩ := Option.map_eq_some_iff.mp ran
  have sound := never_overAdmits reached
  exact ⟨s, reached, sound.1, sound.2, fates⟩

end FerroEngine.HttpRateBucket
