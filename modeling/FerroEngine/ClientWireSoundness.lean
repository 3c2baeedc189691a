import FerroEngine.ClientWire

set_option autoImplicit false

/-! # Whole frames, and what is reported as unsent

The bytes on the wire are whole frames and at most one proper prefix, in every run. What a request
is told about its frame is true in the runs whose destructors keep their exceptions.
-/

namespace FerroEngine.ClientWireSoundness

open LabelledRuns ClientWire

/-! ## The bytes -/

def sendingOf : Phase → Option Sending
  | .sending w => some w
  | _ => none

/-- The frames being written, the innermost call first. -/
def senders (stack : List Call) : List Sending :=
  stack.filterMap fun c => sendingOf c.phase

/-- What one step does with the bytes. -/
inductive Wrote (s t : State) : Prop where
  | quiet (out : t.out = s.out) (begun : t.begun = s.begun) (writing : t.writing = s.writing)
      (same : senders t.stack = senders s.stack) (poisoned : s.poisoned = true → t.poisoned = true)
  | begins (frame : List UInt8) (role : Role) (open' : s.dead = false) (idle : s.writing = false)
      (out : t.out = s.out) (begun : t.begun = s.begun ++ [frame]) (writing : t.writing = true)
      (added : senders t.stack = ⟨frame, 0, role⟩ :: senders s.stack)
  | accepts (w : Sending) (k : Nat) (others : List Sending) (alive : s.poisoned = false)
      (inside : w.written + k ≤ w.frame.length) (writing : t.writing = s.writing)
      (before : senders s.stack = w :: others)
      (after : senders t.stack = { w with written := w.written + k } :: others)
      (begun : t.begun = s.begun) (out : t.out = s.out ++ (w.frame.drop w.written).take k)
  | completes (w : Sending) (others : List Sending) (whole : w.written = w.frame.length)
      (before : senders s.stack = w :: others) (after : senders t.stack = others)
      (begun : t.begun = s.begun) (out : t.out = s.out) (writing : t.writing = false)
      (poisoned : t.poisoned = s.poisoned)
  | aborts (w : Sending) (others : List Sending) (before : senders s.stack = w :: others)
      (after : senders t.stack = others) (begun : t.begun = s.begun) (out : t.out = s.out)
      (writing : t.writing = false) (poisoned : t.poisoned = true)

theorem senders_cons (op : Op) (phase : Phase) (rest : List Call) :
    senders (⟨op, phase⟩ :: rest) = (sendingOf phase).toList ++ senders rest := by
  cases phase <;> rfl

theorem raiseReading_wrote {s : State} {op : Op} {rest : List Call} (e : Exn)
    (stack : s.stack = ⟨op, .reading⟩ :: rest) : Wrote s (raiseReading s op rest e) := by
  have same : senders (⟨op, .rests (some (readError s.fatal op e))⟩ :: rest) = senders s.stack := by
    rw [stack]
    rfl
  cases e <;> exact .quiet rfl rfl rfl same (fun poisoned => by first | exact poisoned | rfl)

theorem raiseSending_wrote {s : State} {op : Op} {w : Sending} {rest : List Call} (e : Exn)
    (stack : s.stack = ⟨op, .sending w⟩ :: rest) : Wrote s (raiseSending s op w rest e) := by
  have before : senders s.stack = w :: senders rest := by
    rw [stack]
    rfl
  rw [raiseSending]
  cases w.role <;> exact .aborts w (senders rest) before rfl rfl rfl rfl rfl

/-- The step of the innermost call writes as `Wrote` says. -/
theorem callStep_wrote {s t : State} {op : Op} {phase : Phase} {rest : List Call} {a : Label}
    (stack : s.stack = ⟨op, phase⟩ :: rest) (taken : callStep s op phase rest a = some t) :
    Wrote s t := by
  have rests : ∀ {pending}, phase = .rests pending → senders s.stack = senders rest := by
    rintro pending rfl
    rw [stack]
    rfl
  have rests' : phase = .reading → senders s.stack = senders rest := by
    rintro rfl
    rw [stack]
    rfl
  cases a with
  | waits =>
    unfold callStep at taken
    dsimp only at taken
    split at taken
    · split at taken
      · cases taken
        exact .quiet rfl rfl rfl (rests rfl).symm id
      · cases taken
        exact .quiet rfl rfl rfl (rests rfl).symm id
    · cases taken
  | parks =>
    unfold callStep at taken
    dsimp only at taken
    split at taken
    · cases taken
      exact .quiet rfl rfl rfl (rests rfl).symm id
    · cases taken
  | sends =>
    unfold callStep at taken
    dsimp only at taken
    split at taken
    · rename_i token frame
      split at taken
      · cases taken
        exact .quiet rfl rfl rfl (rests rfl).symm id
      · rename_i alive
        split at taken
        · cases taken
          exact .quiet rfl rfl rfl (rests rfl).symm id
        · rename_i idle
          cases taken
          exact .begins frame .own (Bool.eq_false_iff.mpr alive) (Bool.eq_false_iff.mpr idle) rfl rfl
            rfl (by rewrite [stack]; rfl)
    · cases taken
  | flushes frame =>
    unfold callStep at taken
    dsimp only at taken
    split at taken
    · rename_i pending
      split at taken
      · cases taken
      · rename_i free
        rw [Bool.or_eq_true, Bool.or_eq_true, not_or, not_or] at free
        cases taken
        exact .begins frame (.flush pending) (Bool.eq_false_iff.mpr free.1.1)
          (Bool.eq_false_iff.mpr free.1.2) rfl rfl rfl (by rewrite [stack]; rfl)
    · cases taken
  | pings frame =>
    unfold callStep at taken
    dsimp only at taken
    split at taken
    · split at taken
      · cases taken
      · rename_i free
        rw [Bool.or_eq_true, Bool.or_eq_true, not_or, not_or] at free
        cases taken
        refine .begins frame .ping (Bool.eq_false_iff.mpr free.1.1)
          (Bool.eq_false_iff.mpr free.1.2) rfl rfl rfl ?_
        rw [stack]
        rfl
    · cases taken
  | accepts k =>
    unfold callStep at taken
    dsimp only at taken
    split at taken
    · rename_i w
      split at taken
      · rename_i room
        cases taken
        exact .accepts w k (senders rest) room.1 room.2.2 rfl (by rewrite [stack]; rfl) rfl rfl rfl
      · cases taken
    · cases taken
  | completes =>
    unfold callStep at taken
    dsimp only at taken
    split at taken
    · rename_i w
      have before : senders s.stack = w :: senders rest := by rw [stack]; rfl
      split at taken
      · rename_i whole
        split at taken <;> cases taken <;>
          exact .completes w (senders rest) whole before rfl rfl rfl rfl rfl
      · cases taken
    · cases taken
  | received fatal =>
    unfold callStep at taken
    dsimp only at taken
    split at taken
    · cases taken
      exact .quiet rfl rfl rfl (by rewrite [stack]; rfl) id
    · cases taken
      exact .quiet rfl rfl rfl (by rewrite [stack]; rfl) id
    · cases taken
  | desyncs =>
    unfold callStep at taken
    dsimp only at taken
    split at taken
    · cases taken
      exact .quiet rfl rfl rfl (rests' rfl).symm (fun _ => rfl)
    · cases taken
  | fails =>
    unfold callStep at taken
    dsimp only at taken
    split at taken
    · cases taken
      exact raiseReading_wrote _ stack
    · split at taken
      · cases taken
        exact raiseSending_wrote _ stack
      · cases taken
    · cases taken
  | escapes e =>
    unfold callStep at taken
    dsimp only at taken
    split at taken
    · cases taken
      exact raiseReading_wrote _ stack
    · cases taken
      exact raiseSending_wrote _ stack
    · cases taken
  | returns =>
    unfold callStep at taken
    dsimp only at taken
    split at taken
    · cases taken
    · cases taken
      exact .quiet rfl rfl rfl (rests rfl).symm (fun _ => rfl)
    · cases taken
      exact .quiet rfl rfl rfl (rests rfl).symm id
    · cases taken
  | submits frame => cases taken
  | controls about frame => cases taken
  | reads about => cases taken
  | closes frame => cases taken

theorem step_wrote {s t : State} {a : Label} (taken : step s a = some t) : Wrote s t := by
  have alive_of : ∀ {d w : Bool}, ¬(d || w) = true → d = false ∧ w = false := by
    intro d w free
    rw [Bool.or_eq_true, not_or] at free
    exact ⟨Bool.eq_false_iff.mpr free.1, Bool.eq_false_iff.mpr free.2⟩
  cases a with
  | submits frame =>
    dsimp only [step] at taken
    split at taken
    · cases taken
    · split at taken
      · cases taken
        exact .quiet rfl rfl rfl rfl id
      · cases taken
        exact .quiet rfl rfl rfl rfl id
  | controls about frame =>
    dsimp only [step] at taken
    split at taken
    · split at taken
      · cases taken
        exact .quiet rfl rfl rfl rfl id
      · rename_i free
        cases taken
        exact .begins frame .own (alive_of free).1 (alive_of free).2 rfl rfl rfl rfl
    · cases taken
  | reads about =>
    dsimp only [step] at taken
    split at taken
    · split at taken
      · cases taken
        exact .quiet rfl rfl rfl rfl id
      · cases taken
        exact .quiet rfl rfl rfl rfl id
    · cases taken
  | closes frame =>
    dsimp only [step] at taken
    split at taken
    · cases taken
    · split at taken
      · cases taken
        exact .quiet rfl rfl rfl rfl (fun _ => rfl)
      · rename_i free
        cases taken
        exact .begins frame .own (alive_of free).1 (alive_of free).2 rfl rfl rfl rfl
  | _ =>
    dsimp only [step] at taken
    split at taken
    · cases taken
    · rename_i c rest stack
      exact callStep_wrote stack taken

/-- Whole frames, and a rest that is being written, or that nothing follows. -/
def Framed (s : State) : Prop :=
  ∃ (whole : List (List UInt8)) (rest : List UInt8), s.out = whole.flatten ++ rest ∧
    (∀ f ∈ whole, f ∈ s.begun) ∧
    ((s.writing = false ∧ senders s.stack = [] ∧
        (rest = [] ∨ (s.poisoned = true ∧ ∃ f ∈ s.begun, rest <+: f ∧ rest ≠ f))) ∨
      (s.writing = true ∧ ∃ w, senders s.stack = [w] ∧ w.frame ∈ s.begun ∧
        w.written ≤ w.frame.length ∧ rest = w.frame.take w.written))

theorem take_prefix_ne {frame : List UInt8} {k : Nat} (less : k < frame.length) :
    frame.take k <+: frame ∧ frame.take k ≠ frame := by
  refine ⟨List.take_prefix k frame, ?_⟩
  intro same
  have length := congrArg List.length same
  rw [List.length_take] at length
  omega

theorem mem_concat_begun {whole begun : List (List UInt8)} {frame : List UInt8}
    (inBegun : ∀ f ∈ whole, f ∈ begun) (ours : frame ∈ begun) : ∀ f ∈ whole ++ [frame], f ∈ begun := by
  intro f member
  rcases List.mem_append.mp member with old | new
  · exact inBegun f old
  · rw [List.mem_singleton.mp new]
    exact ours

theorem step_framed {s t : State} {a : Label} (framed : Framed s) (taken : step s a = some t) :
    Framed t := by
  obtain ⟨whole, rest, out, inBegun, place⟩ := framed
  cases step_wrote taken with
  | quiet out' begun writing same poisoned =>
    refine ⟨whole, rest, out'.trans out, by rw [begun]; exact inBegun, ?_⟩
    rw [writing, same, begun]
    rcases place with ⟨idle, none, clean⟩ | active
    · refine .inl ⟨idle, none, ?_⟩
      rcases clean with clean | ⟨dead, cut⟩
      · exact .inl clean
      · exact .inr ⟨poisoned dead, cut⟩
    · exact .inr active
  | begins frame role open' idle out' begun writing added =>
    rcases place with ⟨-, none, clean⟩ | ⟨active, -⟩
    · have clean : rest = [] := by
        rcases clean with clean | ⟨dead, -⟩
        · exact clean
        · rw [State.dead, dead] at open'
          cases open'
      refine ⟨whole, rest, out'.trans out, ?_, .inr ⟨writing, ⟨frame, 0, role⟩, ?_, ?_, ?_, ?_⟩⟩
      · intro f member
        rw [begun]
        exact List.mem_append_left _ (inBegun f member)
      · rw [added, none]
      · rw [begun]
        exact List.mem_append_right _ (List.mem_singleton_self frame)
      · exact Nat.zero_le _
      · exact clean
    · rw [idle] at active
      cases active
  | accepts w k others alive inside writing before after begun out' =>
    rcases place with ⟨-, none, -⟩ | ⟨active, v, only, ours, -, cut⟩
    · rw [before] at none
      cases none
    · rw [before] at only
      obtain ⟨rfl, rfl⟩ := List.cons.inj only
      refine ⟨whole, rest ++ (w.frame.drop w.written).take k, ?_, by rw [begun]; exact inBegun,
        .inr ⟨writing.trans active, _, after, by rw [begun]; exact ours, inside, ?_⟩⟩
      · rw [out', out, List.append_assoc]
      · rw [cut, List.take_add]
  | completes w others done before after begun out' writing poisoned =>
    rcases place with ⟨-, none, -⟩ | ⟨active, v, only, ours, -, cut⟩
    · rw [before] at none
      cases none
    · rw [before] at only
      obtain ⟨rfl, rfl⟩ := List.cons.inj only
      refine ⟨whole ++ [w.frame], [], ?_, ?_, .inl ⟨writing, after, .inl rfl⟩⟩
      · rw [out', out, cut, done, List.take_length, List.flatten_append, List.flatten_singleton,
          List.append_nil]
      · rw [begun]
        exact mem_concat_begun inBegun ours
  | aborts w others before after begun out' writing poisoned =>
    rcases place with ⟨-, none, -⟩ | ⟨active, v, only, ours, inside, cut⟩
    · rw [before] at none
      cases none
    · rw [before] at only
      obtain ⟨rfl, rfl⟩ := List.cons.inj only
      rcases Nat.lt_or_eq_of_le inside with less | done
      · refine ⟨whole, rest, out'.trans out, by rw [begun]; exact inBegun,
          .inl ⟨writing, after, .inr ⟨poisoned, w.frame, by rw [begun]; exact ours, ?_⟩⟩⟩
        rw [cut]
        exact take_prefix_ne less
      · refine ⟨whole ++ [w.frame], [], ?_, ?_, .inl ⟨writing, after, .inl rfl⟩⟩
        · rw [out', out, cut, done, List.take_length, List.flatten_append, List.flatten_singleton,
            List.append_nil]
        · rw [begun]
          exact mem_concat_begun inBegun ours

/-! ## What is reported as unsent -/

/-- The exception that waits for the call to return. -/
def pendingOf : Phase → Option Exn
  | .rests pending => pending
  | .reading => none
  | .sending w =>
    match w.role with
    | .flush pending => pending
    | _ => none

def flagged (phase : Phase) : Prop := pendingOf phase = some (.transport true)

/-- The frame of the call itself is not accepted to its last byte. -/
def unfinished : Phase → Prop
  | .sending w => w.role = .own ∧ w.written < w.frame.length
  | _ => False

def readsNow : Phase → Prop
  | .reading => True
  | .sending w => w.role = .ping
  | .rests _ => False

def sendsOwn : Phase → Prop
  | .sending w => w.role = .own
  | _ => False

/-- The exception that a call will report is true of its request. -/
def Honest (complete : List Nat) (op : Op) (phase : Phase) : Prop :=
  match op with
  | .submit token _ waiting =>
    (waiting = true ∨ flagged phase ∨ unfinished phase → token ∉ complete) ∧
      (readsNow phase → waiting = true) ∧ (sendsOwn phase → waiting = false)
  | _ => ¬flagged phase

def tokenOf : Op → Option Nat
  | .submit token _ _ => some token
  | _ => none

/-- The requests that are being submitted. -/
def tokens (stack : List Call) : List Nat :=
  stack.filterMap fun c => tokenOf c.op

structure Tokens (s : State) : Prop where
  complete : ∀ k ∈ s.complete, k < s.next
  unsent : ∀ k ∈ s.unsent, k < s.next ∧ k ∉ s.complete
  honest : ∀ c ∈ s.stack, Honest s.complete c.op c.phase
  nodup : (tokens s.stack).Nodup
  fresh : ∀ k ∈ tokens s.stack, k < s.next ∧ k ∉ s.unsent

/-- No destructor's exception names another request as unsent, and none comes after the last byte
of a request. -/
def Contained (s : State) : Label → Prop
  | .escapes e => e ≠ .transport true ∧ ∀ token frame waiting w rest,
    s.stack = ⟨.submit token frame waiting, .sending w⟩ :: rest → w.role = .own →
      w.written < w.frame.length
  | _ => True

theorem tokens_cons (c : Call) (rest : List Call) :
    tokens (c :: rest) = (tokenOf c.op).toList ++ tokens rest := by
  rw [tokens, List.filterMap_cons]
  cases tokenOf c.op <;> rfl

/-- The innermost call goes on. -/
theorem tokens_top {s t : State} {op op' : Op} {phase phase' : Phase} {rest : List Call}
    (inv : Tokens s) (stack : s.stack = ⟨op, phase⟩ :: rest) (after : t.stack = ⟨op', phase'⟩ :: rest)
    (same : tokenOf op' = tokenOf op) (complete : t.complete = s.complete)
    (unsent : t.unsent = s.unsent) (next : t.next = s.next)
    (honest : Honest s.complete op' phase') : Tokens t := by
  have tokens' : tokens t.stack = tokens s.stack := by
    rw [after, stack, tokens_cons, tokens_cons, same]
  refine ⟨?_, ?_, ?_, ?_, ?_⟩
  · rw [complete, next]
    exact inv.complete
  · rw [unsent, next, complete]
    exact inv.unsent
  · rw [after, complete]
    intro c member
    rcases List.mem_cons.mp member with rfl | member
    · exact honest
    · exact inv.honest c (by rw [stack]; exact .tail _ member)
  · rw [tokens']
    exact inv.nodup
  · rw [tokens', unsent, next]
    exact inv.fresh

/-- A step that leaves the calls and the reports alone. -/
theorem tokens_same {s t : State} (inv : Tokens s) (stack : t.stack = s.stack)
    (complete : t.complete = s.complete) (unsent : t.unsent = s.unsent) (next : t.next = s.next) :
    Tokens t := by
  refine ⟨?_, ?_, ?_, ?_, ?_⟩
  · rw [complete, next]
    exact inv.complete
  · rw [unsent, next, complete]
    exact inv.unsent
  · rw [stack, complete]
    exact inv.honest
  · rw [stack]
    exact inv.nodup
  · rw [stack, unsent, next]
    exact inv.fresh

/-- A call begins that submits nothing. -/
theorem tokens_push {s t : State} {op : Op} {phase : Phase} (inv : Tokens s)
    (after : t.stack = ⟨op, phase⟩ :: s.stack) (none : tokenOf op = none)
    (complete : t.complete = s.complete) (unsent : t.unsent = s.unsent) (next : t.next = s.next)
    (honest : Honest s.complete op phase) : Tokens t := by
  have tokens' : tokens t.stack = tokens s.stack := by
    rw [after, tokens_cons, none]
    rfl
  refine ⟨?_, ?_, ?_, ?_, ?_⟩
  · rw [complete, next]
    exact inv.complete
  · rw [unsent, next, complete]
    exact inv.unsent
  · rw [after, complete]
    intro c member
    rcases List.mem_cons.mp member with rfl | member
    · exact honest
    · exact inv.honest c member
  · rw [tokens']
    exact inv.nodup
  · rw [tokens', unsent, next]
    exact inv.fresh

/-- The innermost call returns, and reports what it has to. -/
theorem tokens_pop {s t : State} {op : Op} {phase : Phase} {rest : List Call} (inv : Tokens s)
    (stack : s.stack = ⟨op, phase⟩ :: rest) (after : t.stack = rest)
    (complete : t.complete = s.complete) (next : t.next = s.next)
    (unsent : ∀ k ∈ t.unsent, k ∈ s.unsent ∨ (flagged phase ∧ op.subject = some k)) : Tokens t := by
  have top := inv.honest ⟨op, phase⟩ (by rw [stack]; exact .head rest)
  have nodup := inv.nodup
  rw [stack, tokens_cons] at nodup
  have fresh := inv.fresh
  rw [stack, tokens_cons] at fresh
  -- A flagged report comes from a submission, and names its own request.
  have reported : ∀ k, flagged phase → op.subject = some k → tokenOf op = some k ∧ k ∉ s.complete := by
    intro k flag subject
    cases op with
    | submit token frame waiting =>
      cases subject
      exact ⟨rfl, top.1 (.inr (.inl flag))⟩
    | control about => exact absurd flag top
    | read about => exact absurd flag top
    | close => exact absurd flag top
  refine ⟨?_, ?_, ?_, ?_, ?_⟩
  · rw [complete, next]
    exact inv.complete
  · rw [next, complete]
    intro k member
    rcases unsent k member with old | ⟨flag, subject⟩
    · exact inv.unsent k old
    · obtain ⟨ours, absent⟩ := reported k flag subject
      refine ⟨(fresh k (List.mem_append_left _ ?_)).1, absent⟩
      rw [ours]
      exact List.mem_singleton_self k
  · rw [after, complete]
    intro c member
    exact inv.honest c (by rw [stack]; exact .tail _ member)
  · rw [after]
    exact (List.nodup_append.mp nodup).2.1
  · rw [after, next]
    intro k member
    refine ⟨(fresh k (List.mem_append_right _ member)).1, ?_⟩
    intro listed
    rcases unsent k listed with old | ⟨flag, subject⟩
    · exact (fresh k (List.mem_append_right _ member)).2 old
    · obtain ⟨ours, -⟩ := reported k flag subject
      rw [ours] at nodup
      exact (List.nodup_append.mp nodup).2.2 k (List.mem_singleton_self k) k member rfl

theorem honest_rests {complete : List Nat} {op : Op} {pending : Option Exn}
    (plain : pending ≠ some (.transport true))
    (waits : ∀ token frame, op = .submit token frame true → token ∉ complete) :
    Honest complete op (.rests pending) := by
  cases op with
  | submit token frame waiting =>
    refine ⟨?_, nofun, nofun⟩
    rintro (rfl | flag | never)
    · exact waits token frame rfl
    · exact absurd flag plain
    · cases never
  | control about => exact plain
  | read about => exact plain
  | close => exact plain

theorem honest_waiting {complete : List Nat} {op : Op} {phase : Phase}
    (honest : Honest complete op phase) (token : Nat) (frame : List UInt8)
    (waiting : op = .submit token frame true) : token ∉ complete := by
  subst waiting
  exact honest.1 (.inl rfl)

theorem readError_plain {op : Op} {fatal : Bool} {e : Exn} (plain : e ≠ .transport true)
    (other : tokenOf op = none) : readError fatal op e ≠ .transport true := by
  cases op with
  | submit token frame waiting => cases other
  | read about =>
    cases e with
    | transport unsent =>
      cases fatal with
      | true => exact nofun
      | false => exact plain
    | _ => exact plain
  | _ => cases e <;> exact plain

/-- What a read leaves to its call. -/
theorem honest_readError {complete : List Nat} {op : Op} {phase : Phase} {fatal : Bool} {e : Exn}
    (honest : Honest complete op phase) (reads : readsNow phase) (plain : e ≠ .transport true) :
    Honest complete op (.rests (some (readError fatal op e))) := by
  cases op with
  | submit token frame waiting =>
    have absent : token ∉ complete := honest.1 (.inl (honest.2.1 reads))
    exact ⟨fun _ => absent, nofun, nofun⟩
  | control about =>
    exact fun flag => @readError_plain (.control about) fatal e plain rfl (Option.some.inj flag)
  | read about => exact fun flag => @readError_plain (.read about) fatal e plain rfl (Option.some.inj flag)
  | close => exact fun flag => @readError_plain .close fatal e plain rfl (Option.some.inj flag)

theorem tokens_raiseReading {s : State} {op : Op} {rest : List Call} {e : Exn} (inv : Tokens s)
    (stack : s.stack = ⟨op, .reading⟩ :: rest) (plain : e ≠ .transport true) :
    Tokens (raiseReading s op rest e) := by
  have honest := inv.honest ⟨op, .reading⟩ (by rw [stack]; exact .head rest)
  have after : Honest s.complete op (.rests (some (readError s.fatal op e))) :=
    honest_readError honest trivial plain
  cases e <;> exact tokens_top inv stack rfl rfl rfl rfl rfl after

theorem writeError_plain {e : Exn} (plain : e ≠ .transport true) :
    writeError false e ≠ .transport true := by
  cases e with
  | transport unsent => exact plain
  | _ => exact nofun

/-- A deferred frame is over, and the exception behind it waits as before. -/
theorem honest_flushed {complete : List Nat} {op : Op} {w : Sending} {pending : Option Exn}
    (honest : Honest complete op (.sending w)) (role : w.role = .flush pending) :
    Honest complete op (.rests pending) := by
  have same : flagged (.sending w) ↔ flagged (.rests pending) := by
    rw [flagged, flagged, pendingOf, pendingOf, role]
  cases op with
  | submit token frame waiting =>
    refine ⟨?_, nofun, nofun⟩
    rintro (waits | flag | never)
    · exact honest.1 (.inl waits)
    · exact honest.1 (.inr (.inl (same.mpr flag)))
    · cases never
  | control about => exact fun flag => honest (same.mpr flag)
  | read about => exact fun flag => honest (same.mpr flag)
  | close => exact fun flag => honest (same.mpr flag)

theorem tokens_raiseSending {s : State} {op : Op} {w : Sending} {rest : List Call} {e : Exn}
    (inv : Tokens s) (stack : s.stack = ⟨op, .sending w⟩ :: rest) (plain : e ≠ .transport true)
    (short : tokenOf op ≠ none → w.role = .own → w.written < w.frame.length) :
    Tokens (raiseSending s op w rest e) := by
  have honest := inv.honest ⟨op, .sending w⟩ (by rw [stack]; exact .head rest)
  dsimp only at honest
  rw [raiseSending]
  cases role : w.role with
  | own =>
    refine tokens_top inv stack rfl rfl rfl rfl rfl ?_
    cases op with
    | submit token frame waiting =>
      have absent : token ∉ s.complete := honest.1 (.inr (.inr ⟨role, short nofun role⟩))
      exact ⟨fun _ => absent, nofun, nofun⟩
    | control about =>
      intro flag
      exact writeError_plain plain (Option.some.inj flag)
    | read about =>
      intro flag
      exact writeError_plain plain (Option.some.inj flag)
    | close => exact nofun
  | flush pending =>
    refine tokens_top inv stack rfl rfl rfl rfl rfl ?_
    have kept : Honest s.complete op (.rests pending) := honest_flushed honest role
    have request : isRequest op (.flush pending) = false := by cases op <;> rfl
    rw [request]
    cases lost : writeError false e with
    | transport unsent => exact kept
    | _ => exact honest_rests (by cases op <;> exact nofun) (honest_waiting honest)
  | ping =>
    refine tokens_top inv stack rfl rfl rfl rfl rfl ?_
    have request : isRequest op .ping = false := by cases op <;> rfl
    rw [request]
    exact honest_readError honest role (writeError_plain plain)

/-- A frame begins to be written for a reason other than a submission. -/
theorem honest_begins {complete : List Nat} {op : Op} {phase : Phase} {frame : List UInt8}
    {role : Role} (honest : Honest complete op phase) (other : role ≠ .own)
    (pending : pendingOf (.sending ⟨frame, 0, role⟩) = pendingOf phase)
    (reads : role = .ping → readsNow phase) : Honest complete op (.sending ⟨frame, 0, role⟩) := by
  have same : flagged (.sending ⟨frame, 0, role⟩) ↔ flagged phase := by
    rw [flagged, pending]
    rfl
  cases op with
  | submit token frame' waiting =>
    refine ⟨?_, fun ping => honest.2.1 (reads ping), fun own => absurd own other⟩
    rintro (waits | flag | ⟨own, -⟩)
    · exact honest.1 (.inl waits)
    · exact honest.1 (.inr (.inl (same.mp flag)))
    · exact absurd own other
  | control about => exact fun flag => honest (same.mp flag)
  | read about => exact fun flag => honest (same.mp flag)
  | close => exact fun flag => honest (same.mp flag)

/-- The last byte of a request is accepted. -/
theorem tokens_complete {s t : State} {token k : Nat} {frame : List UInt8} {waiting : Bool}
    {w : Sending} {rest : List Call} (inv : Tokens s)
    (stack : s.stack = ⟨.submit token frame waiting, .sending w⟩ :: rest)
    (after : t.stack = ⟨.submit token frame waiting, .sending { w with written := w.written + k }⟩ ::
      rest)
    (complete : t.complete = token :: s.complete) (unsent : t.unsent = s.unsent)
    (next : t.next = s.next) (sent : waiting = false) (own : w.role = .own)
    (whole : w.written + k = w.frame.length) : Tokens t := by
  have tokens' : tokens t.stack = tokens s.stack := by
    rw [after, stack, tokens_cons, tokens_cons]
  have nodup := inv.nodup
  have fresh := inv.fresh
  rw [stack, tokens_cons] at nodup fresh
  have ours := fresh token (.head _)
  -- No other call submits this request.
  have apart : token ∉ tokens rest := fun other =>
    (List.nodup_append.mp nodup).2.2 token (.head _) token other rfl
  refine ⟨?_, ?_, ?_, ?_, ?_⟩
  · rw [complete, next]
    intro k member
    rcases List.mem_cons.mp member with rfl | member
    · exact ours.1
    · exact inv.complete k member
  · rw [unsent, next, complete]
    intro k member
    refine ⟨(inv.unsent k member).1, ?_⟩
    intro listed
    rcases List.mem_cons.mp listed with rfl | listed
    · exact ours.2 member
    · exact (inv.unsent k member).2 listed
  · rw [after, complete]
    intro c member
    rcases List.mem_cons.mp member with rfl | member
    · refine ⟨?_, ?_, fun _ => sent⟩
      · rintro (waits | flag | ⟨-, short⟩)
        · rw [sent] at waits
          cases waits
        · rw [flagged, pendingOf, own] at flag
          cases flag
        · dsimp only at short
          omega
      · intro ping
        have contrary : w.role = .ping := ping
        rw [own] at contrary
        cases contrary
    · have honest := inv.honest c (by rw [stack]; exact .tail _ member)
      cases op : c.op with
      | submit other frame' waiting' =>
        rw [op] at honest
        refine ⟨?_, honest.2⟩
        intro reason listed
        rcases List.mem_cons.mp listed with same | listed
        · apply apart
          rw [tokens, List.mem_filterMap]
          exact ⟨c, member, by rw [op, tokenOf, same]⟩
        · exact honest.1 reason listed
      | _ =>
        rw [op] at honest
        exact honest
  · rw [tokens']
    exact inv.nodup
  · rw [tokens', unsent, next]
    exact inv.fresh

/-- The socket accepts bytes of the innermost call. -/
theorem tokens_accepts {s t : State} {op : Op} {w : Sending} {k : Nat} {rest : List Call}
    (inv : Tokens s) (stack : s.stack = ⟨op, .sending w⟩ :: rest)
    (after : t.stack = ⟨op, .sending { w with written := w.written + k }⟩ :: rest)
    (complete : t.complete =
      if isRequest op w.role && decide (w.written + k = w.frame.length) then
        op.subject.toList ++ s.complete
      else s.complete)
    (more : 0 < k) (unsent : t.unsent = s.unsent)
    (next : t.next = s.next) : Tokens t := by
  have honest := inv.honest ⟨op, .sending w⟩ (by rw [stack]; exact .head rest)
  dsimp only at honest
  have phases : flagged (.sending { w with written := w.written + k }) ↔ flagged (.sending w) :=
    Iff.rfl
  by_cases last : (isRequest op w.role && decide (w.written + k = w.frame.length)) = true
  · rw [if_pos last] at complete
    rw [Bool.and_eq_true, decide_eq_true_eq] at last
    obtain ⟨request, whole⟩ := last
    cases op with
    | submit token frame waiting =>
      have own : w.role = .own := by
        cases role : w.role with
        | own => rfl
        | _ => rw [role] at request; cases request
      have sent : waiting = false := honest.2.2 own
      exact tokens_complete inv stack after complete unsent next sent own whole
    | _ => cases request
  · rw [if_neg last] at complete
    refine tokens_top inv stack after rfl complete unsent next ?_
    cases op with
    | submit token frame waiting =>
      refine ⟨?_, honest.2⟩
      rintro (waits | flag | ⟨own, short⟩)
      · exact honest.1 (.inl waits)
      · exact honest.1 (.inr (.inl flag))
      · exact honest.1 (.inr (.inr ⟨own, by dsimp only at short; omega⟩))
    | control about => exact honest
    | read about => exact honest
    | close => exact honest

/-- A submission is refused at its start. -/
theorem tokens_refused {s : State} (inv : Tokens s) :
    Tokens { s with
      next := s.next + 1
      unsent := s.next :: s.unsent } := by
  refine ⟨fun k member => Nat.lt_succ_of_lt (inv.complete k member), ?_, inv.honest, inv.nodup, ?_⟩
  · intro k member
    rcases List.mem_cons.mp member with rfl | member
    · exact ⟨Nat.lt_succ_self _, fun listed => Nat.lt_irrefl _ (inv.complete _ listed)⟩
    · exact ⟨Nat.lt_succ_of_lt (inv.unsent k member).1, (inv.unsent k member).2⟩
  · intro k member
    have fresh := inv.fresh k member
    refine ⟨Nat.lt_succ_of_lt fresh.1, ?_⟩
    intro listed
    rcases List.mem_cons.mp listed with rfl | listed
    · exact Nat.lt_irrefl _ fresh.1
    · exact fresh.2 listed

/-- A submission begins. -/
theorem tokens_submits {s : State} {frame : List UInt8} (inv : Tokens s) :
    Tokens { s.push (.submit s.next frame true) (.rests none) with next := s.next + 1 } := by
  have absent : s.next ∉ s.complete := fun listed => Nat.lt_irrefl _ (inv.complete _ listed)
  refine ⟨fun k member => Nat.lt_succ_of_lt (inv.complete k member), ?_, ?_, ?_, ?_⟩
  · intro k member
    exact ⟨Nat.lt_succ_of_lt (inv.unsent k member).1, (inv.unsent k member).2⟩
  · intro c member
    rcases List.mem_cons.mp member with rfl | member
    · exact ⟨fun _ => absent, nofun, nofun⟩
    · exact inv.honest c member
  · refine List.nodup_cons.mpr ⟨?_, inv.nodup⟩
    intro member
    exact Nat.lt_irrefl _ (inv.fresh _ member).1
  · intro k member
    rcases List.mem_cons.mp member with rfl | member
    · exact ⟨Nat.lt_succ_self _, fun listed => Nat.lt_irrefl _ (inv.unsent _ listed).1⟩
    · exact ⟨Nat.lt_succ_of_lt (inv.fresh k member).1, (inv.fresh k member).2⟩

theorem callStep_tokens {s t : State} {op : Op} {phase : Phase} {rest : List Call} {a : Label}
    (inv : Tokens s) (contained : Contained s a) (stack : s.stack = ⟨op, phase⟩ :: rest)
    (taken : callStep s op phase rest a = some t) : Tokens t := by
  have honest : Honest s.complete op phase :=
    inv.honest ⟨op, phase⟩ (by rw [stack]; exact .head rest)
  cases a with
  | waits =>
    unfold callStep at taken
    dsimp only at taken
    split at taken
    · have absent := honest.1 (.inl rfl)
      split at taken
      · cases taken
        exact tokens_top inv stack rfl rfl rfl rfl rfl ⟨fun _ => absent, nofun, nofun⟩
      · cases taken
        exact tokens_top inv stack rfl rfl rfl rfl rfl ⟨fun _ => absent, fun _ => rfl, nofun⟩
    · cases taken
  | parks =>
    unfold callStep at taken
    dsimp only at taken
    split at taken
    · have absent := honest.1 (.inl rfl)
      cases taken
      exact tokens_top inv stack rfl rfl rfl rfl rfl ⟨fun _ => absent, nofun, nofun⟩
    · cases taken
  | sends =>
    unfold callStep at taken
    dsimp only at taken
    split at taken
    · have absent := honest.1 (.inl rfl)
      split at taken
      · cases taken
        exact tokens_top inv stack rfl rfl rfl rfl rfl ⟨fun _ => absent, nofun, nofun⟩
      · split at taken
        · cases taken
          exact tokens_top inv stack rfl rfl rfl rfl rfl ⟨fun _ => absent, nofun, nofun⟩
        · cases taken
          exact tokens_top inv stack rfl rfl rfl rfl rfl ⟨fun _ => absent, nofun, fun _ => rfl⟩
    · cases taken
  | flushes frame =>
    unfold callStep at taken
    dsimp only at taken
    split at taken
    · split at taken
      · cases taken
      · cases taken
        exact tokens_top inv stack rfl rfl rfl rfl rfl (honest_begins honest nofun rfl nofun)
    · cases taken
  | pings frame =>
    unfold callStep at taken
    dsimp only at taken
    split at taken
    · split at taken
      · cases taken
      · cases taken
        exact tokens_top inv stack rfl rfl rfl rfl rfl
          (honest_begins honest nofun rfl (fun _ => trivial))
    · cases taken
  | accepts k =>
    unfold callStep at taken
    dsimp only at taken
    split at taken
    · split at taken
      · rename_i room
        cases taken
        exact tokens_accepts inv stack rfl rfl room.2.1 rfl rfl
      · cases taken
    · cases taken
  | completes =>
    unfold callStep at taken
    dsimp only at taken
    split at taken
    · rename_i w
      split at taken
      · rename_i whole
        cases role : w.role with
        | own =>
          rw [role] at taken
          cases taken
          refine tokens_top inv stack rfl rfl rfl rfl rfl (honest_rests nofun (honest_waiting honest))
        | flush pending =>
          rw [role] at taken
          cases taken
          refine tokens_top inv stack rfl rfl rfl rfl rfl ?_
          exact honest_flushed honest role
        | ping =>
          rw [role] at taken
          cases taken
          refine tokens_top inv stack rfl rfl rfl rfl rfl ?_
          cases op with
          | submit token frame waiting =>
            have waits : waiting = true := honest.2.1 role
            exact ⟨fun _ => honest.1 (.inl waits), fun _ => waits, nofun⟩
          | _ => exact nofun
      · cases taken
    · cases taken
  | received fatal =>
    unfold callStep at taken
    dsimp only at taken
    split at taken
    · cases taken
      exact tokens_top inv stack rfl rfl rfl rfl rfl (honest_rests nofun (honest_waiting honest))
    · cases taken
      exact tokens_top inv stack rfl rfl rfl rfl rfl honest
    · cases taken
  | desyncs =>
    unfold callStep at taken
    dsimp only at taken
    split at taken
    · cases taken
      have poisoned : Tokens s.poison := tokens_same inv rfl rfl rfl rfl
      exact tokens_raiseReading poisoned stack nofun
    · cases taken
  | fails =>
    unfold callStep at taken
    dsimp only at taken
    split at taken
    · cases taken
      exact tokens_raiseReading inv stack nofun
    · split at taken
      · rename_i short
        cases taken
        exact tokens_raiseSending inv stack nofun (fun _ _ => short)
      · cases taken
    · cases taken
  | escapes e =>
    unfold callStep at taken
    dsimp only at taken
    split at taken
    · cases taken
      exact tokens_raiseReading inv stack contained.1
    · rename_i w
      cases taken
      refine tokens_raiseSending inv stack contained.1 ?_
      intro submits own
      cases op with
      | submit token frame waiting => exact contained.2 token frame waiting w rest stack own
      | _ => exact absurd rfl submits
    · cases taken
  | returns =>
    unfold callStep at taken
    dsimp only at taken
    split at taken
    · cases taken
    · cases taken
      exact tokens_pop inv stack rfl rfl rfl (fun k member => .inl member)
    · rename_i pending _ _
      cases taken
      refine tokens_pop inv stack rfl rfl rfl ?_
      intro k member
      dsimp only at member
      split at member
      · rename_i flag
        rcases List.mem_append.mp member with new | old
        · exact .inr ⟨flag, by simpa using new⟩
        · exact .inl old
      · exact .inl member
    · cases taken
  | submits frame => cases taken
  | controls about frame => cases taken
  | reads about => cases taken
  | closes frame => cases taken

theorem step_tokens {s t : State} {a : Label} (inv : Tokens s) (contained : Contained s a)
    (taken : step s a = some t) : Tokens t := by
  cases a with
  | submits frame =>
    dsimp only [step] at taken
    split at taken
    · cases taken
    · split at taken
      · cases taken
        exact tokens_refused inv
      · cases taken
        exact tokens_submits inv
  | controls about frame =>
    dsimp only [step] at taken
    split at taken
    · split at taken
      · cases taken
        exact inv
      · cases taken
        exact tokens_push inv rfl rfl rfl rfl rfl (fun flag => by cases flag)
    · cases taken
  | reads about =>
    dsimp only [step] at taken
    split at taken
    · split at taken
      · cases taken
        exact inv
      · cases taken
        exact tokens_push inv rfl rfl rfl rfl rfl (fun flag => by cases flag)
    · cases taken
  | closes frame =>
    dsimp only [step] at taken
    split at taken
    · cases taken
    · split at taken
      · cases taken
        exact tokens_same inv rfl rfl rfl rfl
      · cases taken
        exact tokens_push inv rfl rfl rfl rfl rfl (fun flag => by cases flag)
  | _ =>
    dsimp only [step] at taken
    split at taken
    · cases taken
    · rename_i c rest stack
      exact callStep_tokens inv contained stack taken

/-! ## Every run -/

structure Sound (s : State) : Prop where
  framed : ∃ (whole : List (List UInt8)) (rest : List UInt8), s.out = whole.flatten ++ rest ∧
    (∀ f ∈ whole, f ∈ s.begun) ∧
    (rest = [] ∨ ∃ f ∈ s.begun, rest <+: f ∧ rest ≠ f ∧ (s.writing = true ∨ s.poisoned = true))
  quiet : s.poisoned = true → ∀ more t, run step s more = some t → t.out = s.out
  unsent : ∀ k ∈ s.unsent, k ∉ s.complete

theorem framed_parts {s : State} (framed : Framed s) :
    ∃ (whole : List (List UInt8)) (rest : List UInt8), s.out = whole.flatten ++ rest ∧
      (∀ f ∈ whole, f ∈ s.begun) ∧
      (rest = [] ∨
        ∃ f ∈ s.begun, rest <+: f ∧ rest ≠ f ∧ (s.writing = true ∨ s.poisoned = true)) := by
  obtain ⟨whole, rest, out, inBegun, place⟩ := framed
  rcases place with ⟨-, -, clean | ⟨dead, f, ours, cut, short⟩⟩ | ⟨active, w, -, ours, inside, cut⟩
  · exact ⟨whole, rest, out, inBegun, .inl clean⟩
  · exact ⟨whole, rest, out, inBegun, .inr ⟨f, ours, cut, short, .inr dead⟩⟩
  · rcases Nat.lt_or_eq_of_le inside with less | done
    · refine ⟨whole, rest, out, inBegun, .inr ⟨w.frame, ours, ?_⟩⟩
      rw [cut]
      exact ⟨(take_prefix_ne less).1, (take_prefix_ne less).2, .inl active⟩
    · refine ⟨whole ++ [w.frame], [], ?_, mem_concat_begun inBegun ours, .inl rfl⟩
      rw [out, cut, done, List.take_length, List.flatten_append, List.flatten_singleton,
        List.append_nil]

/-- Nothing is written on a closed transport. -/
theorem step_poisoned {s t : State} {a : Label} (poisoned : s.poisoned = true)
    (taken : step s a = some t) : t.poisoned = true ∧ t.out = s.out := by
  cases step_wrote taken with
  | quiet out begun writing same kept => exact ⟨kept poisoned, out⟩
  | begins frame role open' idle out begun writing added =>
    rw [State.dead, poisoned] at open'
    cases open'
  | accepts w k others alive inside writing before after begun out =>
    rw [poisoned] at alive
    cases alive
  | completes w others whole before after begun out writing kept => exact ⟨kept.trans poisoned, out⟩
  | aborts w others before after begun out writing dead => exact ⟨dead, out⟩

theorem run_poisoned {s t : State} {more : List Label} (poisoned : s.poisoned = true)
    (reached : run step s more = some t) : t.out = s.out := by
  have keep : ∀ {u v : State} {a : Label}, u.poisoned = true ∧ u.out = s.out → step u a = some v →
      v.poisoned = true ∧ v.out = s.out := by
    intro u v a inv taken
    obtain ⟨dead, same⟩ := step_poisoned inv.1 taken
    exact ⟨dead, same.trans inv.2⟩
  exact (run_always step keep ⟨poisoned, rfl⟩ reached).2

theorem framed_start : Framed .start :=
  ⟨[], [], rfl, fun _ member => (nomatch member), .inl ⟨rfl, rfl, .inl rfl⟩⟩

theorem tokens_start : Tokens .start :=
  ⟨fun _ member => (nomatch member), fun _ member => (nomatch member),
    fun _ member => (nomatch member), .nil, fun _ member => (nomatch member)⟩

/-- The wire carries whole frames and at most one proper prefix, whatever the destructors do. -/
theorem run_framed {labels : List Label} {s : State} (reached : run step .start labels = some s) :
    Framed s :=
  run_always step step_framed framed_start reached

theorem sound_of_contained {labels : List Label} {s : State}
    (contained : Meets step Contained .start labels) (reached : run step .start labels = some s) :
    Sound s := by
  have tokens : Tokens s := run_invariant step step_tokens tokens_start contained reached
  exact ⟨framed_parts (run_framed reached), fun poisoned _ _ => run_poisoned poisoned,
    fun k member => (tokens.unsent k member).2⟩

def sampleFrame : List UInt8 := List.replicate 16 7

/-- A request is written in two parts around a destructor that reads, and the next one breaks. -/
def brokenWrite : List Label :=
  [.submits sampleFrame, .sends, .accepts 10, .reads none, .escapes .other, .returns, .accepts 6,
    .completes, .returns, .submits sampleFrame, .sends, .accepts 3, .fails, .returns]

theorem sound_of_contained_brokenWrite :
    ∃ s, run step .start brokenWrite = some s ∧ Sound s ∧ s.out.length = 19 ∧ s.unsent = [1] := by
  have reached : run step .start brokenWrite = some ((run step .start brokenWrite).get rfl) := rfl
  have contained : Meets step Contained .start brokenWrite := by
    refine meets_cons step trivial rfl (meets_cons step trivial rfl (meets_cons step trivial rfl
      (meets_cons step trivial rfl (meets_cons step ⟨nofun, ?_⟩ rfl ?_))))
    · intro token frame waiting w rest stack
      cases stack
    · exact meets_of_forall step (fun a member s => by
        simp only [List.mem_cons, List.not_mem_nil, or_false] at member
        rcases member with rfl | rfl | rfl | rfl | rfl | rfl | rfl | rfl | rfl <;> trivial) _
  exact ⟨_, reached, sound_of_contained contained reached, rfl, rfl⟩

/-- While the first request is awaited, a destructor submits another one; the link breaks in the
middle of that frame, and its exception ends the wait of the first. -/
def borrowedException : List Label :=
  [.submits sampleFrame, .sends, .accepts 16, .completes, .returns, .reads (some 0),
    .submits sampleFrame, .sends, .accepts 3, .fails, .returns, .escapes (.transport true), .returns]

theorem borrowedException_misreports :
    ∃ s, run step .start borrowedException = some s ∧ ∃ k ∈ s.unsent, k ∈ s.complete := by
  exact ⟨_, rfl, 0, by decide, by decide⟩

end FerroEngine.ClientWireSoundness
