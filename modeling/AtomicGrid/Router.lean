import AtomicGrid.CacheError
import AtomicGrid.Wire.Encoding

/-!
# Messages between nodes

Model of `LoopbackRouter`, whose `deliver` is `refusal` with `send`.  A `Router` takes messages as
bytes from node to node.  Each attached node has an inbox in which the frames of all senders wait in
the order they came.  Links can be blocked: what is sent over a blocked link is lost, and its sender
is not told.

## Results

* `Router.waiting_send_of_ne`: a message changes no inbox but its receiver's.
-/

set_option autoImplicit false

namespace AtomicGrid

/-- The bytes of a message with its sender. -/
abbrev Frame := NodeId × Bytes

/-- The connections between nodes. -/
structure Router where
  attached : NodeSet := ∅
  /-- Links, from and to, over which messages are lost. -/
  blocked : List (NodeId × NodeId) := []
  /-- The frames that wait, for each node that still reads its inbox. -/
  inboxes : SortedMap NodeId (List Frame) := ∅

namespace Router

/-- Attaches a node, with a new inbox. -/
def register (r : Router) (n : NodeId) : Router :=
  { r with attached := r.attached.add n, inboxes := r.inboxes.insert n [] }

/-- Detaches a node; what waits in its inbox can still be read. -/
def unregister (r : Router) (n : NodeId) : Router := { r with attached := r.attached.erase n }

def dropInbox (r : Router) (n : NodeId) : Router := { r with inboxes := r.inboxes.erase n }

def block (r : Router) (sender receiver : NodeId) : Router :=
  { r with blocked := (sender, receiver) :: r.blocked }

def unblock (r : Router) (sender receiver : NodeId) : Router :=
  { r with blocked := r.blocked.filter (· ≠ (sender, receiver)) }

def isBlocked (r : Router) (sender receiver : NodeId) : Bool := (sender, receiver) ∈ r.blocked

/-- What the sender of a message is told, if it is not handed on. -/
def refusal (r : Router) (sender receiver : NodeId) : Option SendError :=
  if r.isBlocked sender receiver then none
  else if !r.attached.contains sender then
    some (.failed receiver s!"{sender.name} is detached")
  else if !r.attached.contains receiver || !r.inboxes.contains receiver then
    some (.nodeLeft receiver)
  else none

/-- The frames that wait for a node. -/
def waiting (r : Router) (n : NodeId) : List Frame := (r.inboxes.get? n).getD []

def delivers (r : Router) (sender receiver : NodeId) : Bool :=
  !r.isBlocked sender receiver && (r.refusal sender receiver).isNone

def send (r : Router) (sender receiver : NodeId) (m : Message) : Router :=
  if r.delivers sender receiver then
    { r with inboxes := r.inboxes.modify receiver (· ++ [(sender, m.encode)]) }
  else r

/-- Takes the first frame that waits for a node. -/
def next (r : Router) (n : NodeId) : Option (Router × Frame) :=
  match r.waiting n with
  | [] => none
  | frame :: rest => some ({ r with inboxes := r.inboxes.insert n rest }, frame)

/-- Takes all frames that wait for a node. -/
def receive (r : Router) (n : NodeId) : Router × List Frame :=
  ({ r with inboxes := r.inboxes.modify n fun _ => [] }, r.waiting n)

theorem waiting_send_of_ne {r : Router} {sender receiver n : NodeId} (h : n ≠ receiver)
    (m : Message) : (r.send sender receiver m).waiting n = r.waiting n := by
  unfold send
  split
  · simp only [waiting, SortedMap.modify]
    split
    · rw [SortedMap.get?_insert_of_ne _ _ h]
    · rfl
  · rfl

end Router

end AtomicGrid
