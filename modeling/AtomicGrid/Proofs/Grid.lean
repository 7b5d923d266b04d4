import AtomicGrid.Cluster
import Mathlib.Logic.Function.Basic

/-!
# Runs of a grid

A `Grid` runs the nodes of one cache in any order of events.  What a node sends to another waits on
the link between them, and every link is a queue; which link delivers next, which waiting task goes
on, and which node hears next of a departure is left open.  A node that departs takes what is on its
links to it along; what it has sent before still arrives.  All nodes see one topology.

The nodes are those of a `Cluster`, whose scheduler is one of the possible ones.  A message arrives
as its receiver reads it from the wire.

Whatever happens on a node is one or more moves.  Each is recorded in the log with the node and its
view at the time, so that properties can speak of what has happened before.

## Results

* `Router.refusal_eq`: a router without blocked links refuses messages as the grid does.
* `Node.departed_eq_each`: a node hears of a departure coordinator by coordinator.
-/

set_option autoImplicit false

namespace AtomicGrid

inductive Move where
  | submit (update : Update)
  | receive (sender : NodeId) (message : Message)
  | resume (task : Task) (awaited : Except CacheError TopologyVersion)
  /-- A coordinator hears that a node has left. -/
  | lose (gone : NodeId) (coordinator : FutureId × Registered)
  /-- The near cache of a node comes to hold a key. -/
  | watch (key : Key) (reader : NodeId)
  /-- The store begins, or ceases, to refuse updates of a key. -/
  | refuse (key : Key) (cause : Option FailureCause)

/-- The keys refused after a change. -/
def Node.refusing (n : Node) (key : Key) : Option FailureCause → SortedMap Key FailureCause
  | some cause => n.faults.insert key cause
  | none => n.faults.erase key

def Node.move (view : View) (n : Node) : Move → Node × List Effect
  | .submit u => ((n.submit view u).1, (n.submit view u).2.1)
  | .receive sender m => n.receive view sender m
  | .resume task awaited => n.resume view task awaited
  | .lose gone coordinator => n.tellDeparture view gone coordinator
  | .watch key reader => ({ n with store := n.store.addReader key reader }, [])
  | .refuse key cause => ({ n with faults := n.refusing key cause }, [])

theorem Node.departed_eq_each (view : View) (n : Node) (gone : NodeId) :
    n.departed view gone = each (Node.move view) n (n.registry.entries.map (.lose gone)) := by
  have h (rs : List (FutureId × Registered)) : ∀ n : Node,
      each (tellDeparture view gone) n rs = each (Node.move view) n (rs.map (.lose gone)) := by
    induction rs with
    | nil => exact fun _ => rfl
    | cons r rs ih =>
      intro n
      simp only [each, List.map_cons, Node.move, ih]
  exact h _ n

/-- What a message is on its way to a node, if the effect is that it was sent there. -/
def Effect.sentTo? (receiver : NodeId) : Effect → Option Message
  | .sent r m => if r = receiver then some m.received else none
  | _ => none

def Effect.wait? : Effect → Option Wait
  | .waits w => some w
  | _ => none

/-- A move on record: where it happened, what the node saw, and what the node was before. -/
structure Moment where
  node : NodeId
  view : View
  before : Node
  move : Move

namespace Moment

def after (t : Moment) : Node := (t.before.move t.view t.move).1

def effects (t : Moment) : List Effect := (t.before.move t.view t.move).2

def sentTo (t : Moment) (receiver : NodeId) : List Message :=
  t.effects.filterMap (Effect.sentTo? receiver)

def waits (t : Moment) : List Wait := t.effects.filterMap Effect.wait?

end Moment

/-- Why a message is not handed on, if it is not. -/
def refusal (attached : NodeSet) (sender receiver : NodeId) : Option SendError :=
  if !attached.contains sender then some (.failed receiver s!"{sender.name} is detached")
  else if !attached.contains receiver then some (.nodeLeft receiver)
  else none

theorem Router.refusal_eq {r : Router} (hb : r.blocked = [])
    (hi : ∀ n, r.attached.contains n = true → r.inboxes.contains n = true)
    (sender receiver : NodeId) :
    r.refusal sender receiver = AtomicGrid.refusal r.attached sender receiver := by
  have hf : r.isBlocked sender receiver = false := by simp [isBlocked, hb]
  cases ha : r.attached.contains receiver with
  | false => simp [Router.refusal, AtomicGrid.refusal, hf, ha]
  | true => simp [Router.refusal, AtomicGrid.refusal, hf, ha, hi receiver ha]

/-- The nodes of one cache with what is under way between them. -/
structure Grid where
  topology : Topology
  affinity : Affinity
  /-- The nodes that have not departed. -/
  attached : NodeSet
  nodes : NodeId → Node
  /-- The messages under way, from and to, the oldest first. -/
  links : NodeId → NodeId → List Message := fun _ _ => []
  /-- Tasks that wait for the topology, with their nodes. -/
  tasks : List (NodeId × Wait) := []
  /-- The nodes that have still to hear of a departure, with who departed. -/
  untold : List (NodeId × NodeId) := []
  /-- All moves so far, the last one first. -/
  log : List Moment := []

inductive Event where
  | submit (n : NodeId) (update : Update)
  /-- A link delivers its oldest message. -/
  | deliver (sender receiver : NodeId)
  /-- A waiting task goes on, if its version is ready. -/
  | resume (i : Nat)
  | depart (n : NodeId)
  /-- A node hears of a departure. -/
  | tell (i : Nat)
  /-- An exchange starts. -/
  | exchange (members : List NodeId)
  /-- The exchange ends. -/
  | settle
  | watch (n : NodeId) (key : Key) (reader : NodeId)
  | refuse (n : NodeId) (key : Key) (cause : Option FailureCause)

namespace Grid

/-- The nodes `ids` at the first topology, all alike but for their numbers. -/
def start (ids : List NodeId) (config : Config) (affinity : Affinity) (processors : Processors) :
    Grid where
  topology := .start ids
  affinity := affinity
  attached := SortedSet.ofList ids
  nodes n := .ofConfig { config with nodeId := n.id } processors

def view (g : Grid) (n : NodeId) : View where
  topology := g.topology
  affinity := g.affinity
  refusal := refusal g.attached n

/-- The record of a move that happens now. -/
def moment (g : Grid) (n : NodeId) (move : Move) : Moment := ⟨n, g.view n, g.nodes n, move⟩

def act (g : Grid) (n : NodeId) (move : Move) : Grid :=
  let t := g.moment n move
  { g with
    nodes := Function.update g.nodes n t.after
    links := fun s r => if s = n then g.links s r ++ t.sentTo r else g.links s r
    tasks := g.tasks ++ t.waits.map (n, ·)
    log := t :: g.log }

def setLink (g : Grid) (sender receiver : NodeId) (ms : List Message) : Grid :=
  { g with links := fun s r => if s = sender ∧ r = receiver then ms else g.links s r }

/-- Several coordinators of a node hear that another has left. -/
def loseAll (g : Grid) (n gone : NodeId) (coordinators : List (FutureId × Registered)) : Grid :=
  coordinators.foldl (fun g r => g.act n (.lose gone r)) g

def tell (g : Grid) (n gone : NodeId) : Grid :=
  if g.attached.contains n then g.loseAll n gone (g.nodes n).registry.entries else g

def depart (g : Grid) (n : NodeId) : Grid :=
  { g with
    topology := g.topology.nodeLeft n
    attached := g.attached.erase n
    links := fun s r => if r = n then [] else g.links s r
    untold := g.untold ++ (g.attached.erase n).keys.map (·, n) }

/-- One event.  Nothing happens if it cannot happen now. -/
def step (g : Grid) : Event → Grid
  | .submit n u => if g.attached.contains n then g.act n (.submit u) else g
  | .deliver s r =>
    match g.links s r with
    | m :: ms => if g.attached.contains r then (g.setLink s r ms).act r (.receive s m) else g
    | [] => g
  | .resume i =>
    match g.tasks[i]? with
    | some (n, w) =>
      match g.topology.awaited w.version with
      | some awaited => { g with tasks := g.tasks.eraseIdx i }.act n (.resume w.task awaited)
      | none => g
    | none => g
  | .depart n => if g.attached.contains n then g.depart n else g
  | .tell i =>
    match g.untold[i]? with
    | some (n, gone) => { g.tell n gone with untold := g.untold.eraseIdx i }
    | none => g
  | .exchange members => { g with topology := g.topology.beginExchange members }
  | .settle => { g with topology := g.topology.completeExchange }
  | .watch n key reader => g.act n (.watch key reader)
  | .refuse n key cause => g.act n (.refuse key cause)

def run (g : Grid) (es : List Event) : Grid := es.foldl step g

end Grid

end AtomicGrid
