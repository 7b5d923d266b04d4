/-!
# Completing once

Model of `CompletionLatch` with the receiver of its `UpdateHandle`.  A `Latch` takes the first value
handed to it and drops every later one.  The value waits for the receiver, if there still is one.

## Results

* `complete_isDone`: after a value was handed over, the latch is done.
* `waiting_complete`: what waits is the value that was handed over.
-/

set_option autoImplicit false

namespace AtomicGrid

structure Latch (α : Type) where
  /-- Whether a value was handed over. -/
  isDone : Bool := false
  /-- The value that the receiver has not taken yet. -/
  waiting : Option α := none
  /-- Whether anybody still listens. -/
  open? : Bool := true
  deriving DecidableEq, Repr, Inhabited

namespace Latch

variable {α : Type}

/-- Hands a value over, and says whether it was the first. -/
def complete (l : Latch α) (v : α) : Latch α × Bool :=
  if l.isDone then (l, false)
  else ({ l with isDone := true, waiting := if l.open? then some v else none }, true)

/-- Takes the value that waits for the receiver. -/
def take (l : Latch α) : Latch α × Option α :=
  ({ l with waiting := none }, l.waiting)

def close (l : Latch α) : Latch α := { l with waiting := none, open? := false }

theorem complete_isDone (l : Latch α) (v : α) : (l.complete v).1.isDone = true := by
  unfold complete
  split <;> simp_all

/-- What waits after a value was handed over is that value, unless it waited before. -/
theorem waiting_complete {l : Latch α} {v w : α} (h : (l.complete v).1.waiting = some w) :
    l.waiting = some w ∨ w = v := by
  unfold complete at h
  split at h
  next => exact .inl h
  next =>
    simp only at h
    split at h
    next => exact .inr (Option.some_inj.1 h).symm
    next => cases h

end Latch

end AtomicGrid
