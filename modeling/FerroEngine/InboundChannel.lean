import Mathlib.Data.List.Basic

set_option autoImplicit false

/-! # The data channel of a COPY

`Credit` of `session/flow.rs`, `InboundCell` and `Registry::deliver` of `session/registry.rs`, and
the re-grant accounting of `session/responder.rs`. A chunk of COPY data is its bytes.
-/

namespace FerroEngine.InboundChannel

def u32Max : Nat := 4294967295

structure Credit where
  frames : Nat
  bytes : Nat
  deriving DecidableEq, Repr

namespace Credit

def tryDebit (c : Credit) (bytes : Nat) : Option Credit :=
  if c.frames = 0 ∨ c.bytes < bytes then none
  else some { frames := c.frames - 1, bytes := c.bytes - bytes }

/-- Saturating. -/
def replenish (c : Credit) (frames bytes : Nat) : Credit :=
  { frames := min (c.frames + frames) u32Max, bytes := min (c.bytes + bytes) u32Max }

end Credit

inductive Inbound where
  | data (chunk : List UInt8)
  | done
  deriving DecidableEq, Repr

structure Channel where
  credit : Credit
  /-- One item more than the frames of the window. -/
  capacity : Nat
  queue : List Inbound
  /-- The receiver is gone. -/
  closed : Bool
  deriving DecidableEq, Repr

/-- `open_inbound_with_capacity`: no credit before the first grant. -/
def Channel.opened (window : Credit) : Channel :=
  { credit := { frames := 0, bytes := 0 }, capacity := window.frames + 1, queue := [],
    closed := false }

inductive Delivery where
  | delivered
  | discarded
  | violation (why : String)
  deriving DecidableEq, Repr

def debitFor (c : Channel) : Inbound → Option Credit
  | .data chunk => c.credit.tryDebit (min chunk.length u32Max)
  | .done => some c.credit

/-- `Registry::deliver` for a request that is in flight. -/
def deliver (channel : Option Channel) (item : Inbound) : Delivery × Option Channel :=
  match channel with
  | none => (.violation "COPY data for a request that is not an open COPY_IN", none)
  | some c =>
    if c.closed then (.discarded, some c)
    else match debitFor c item with
      | none => (.violation "COPY data beyond the engine's grant", some c)
      | some credit =>
        if c.queue.length < c.capacity then
          (.delivered, some { c with credit := credit, queue := c.queue ++ [item] })
        else
          (.violation "COPY frames beyond the engine's grant", some { c with credit := credit })

/-- What has left the channel since the last grant. -/
structure Regrant where
  window : Credit
  frames : Nat
  bytes : Nat
  deriving DecidableEq, Repr

def Regrant.new (window : Credit) : Regrant :=
  { window := window, frames := 0, bytes := 0 }

/-- The grant that is due once half the window has been consumed. -/
def Regrant.consumed (r : Regrant) (len : Nat) : Regrant × Option (Nat × Nat) :=
  let frames := r.frames + 1
  let bytes := min (r.bytes + min len u32Max) u32Max
  if (r.window.frames + 1) / 2 ≤ frames ∨ (r.window.bytes + 1) / 2 ≤ bytes then
    ({ r with frames := 0, bytes := 0 }, some (frames, bytes))
  else ({ r with frames := frames, bytes := bytes }, none)

/-- A delivered item goes to the end of an open queue; otherwise the queue stays. -/
theorem deliver_cases (channel : Option Channel) (item : Inbound) :
    (∃ c credit, channel = some c ∧ c.closed = false ∧
      deliver channel item =
        (.delivered, some { c with credit := credit, queue := c.queue ++ [item] })) ∨
      ((deliver channel item).1 ≠ .delivered ∧
        (deliver channel item).2.map Channel.queue = channel.map Channel.queue ∧
        (deliver channel item).2.map Channel.closed = channel.map Channel.closed) := by
  cases channel with
  | none => exact Or.inr ⟨Delivery.noConfusion, rfl, rfl⟩
  | some c =>
    simp only [deliver]
    by_cases closed : c.closed = true
    · rw [if_pos closed]
      exact Or.inr ⟨Delivery.noConfusion, rfl, rfl⟩
    · rw [if_neg closed]
      cases debitFor c item with
      | none => exact Or.inr ⟨Delivery.noConfusion, rfl, rfl⟩
      | some credit =>
        by_cases room : c.queue.length < c.capacity
        · simp only [if_pos room]
          exact Or.inl ⟨c, credit, rfl, Bool.eq_false_iff.mpr closed, rfl⟩
        · simp only [if_neg room]
          exact Or.inr ⟨Delivery.noConfusion, rfl, rfl⟩

end FerroEngine.InboundChannel
