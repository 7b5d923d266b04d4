import AtomicGrid.Proofs.Fanout
import Mathlib.Data.List.Nodup

/-!
# The life of a fan-out

A fan-out is given its entries, and then hears, in any order and any number of times, from its
receivers and from others, that nodes acknowledge or are lost; listeners come in, and at some point
it is mapped, when the receivers that cannot be reached are lost.  The first time a receiver is
mentioned counts, and nothing else.

What has happened is a list of calls, the last of them first.  `recorded` reads off it whom the
fan-out must have on record, `Complete` whether it must have ended, `listening` who must be told of
the end, and `reported` whose loss the caller's node must have been told.

## Results

* `Fanout.Kept.call`: every call keeps the books.
* `Fanout.accounts_loaded`: what has become of a fan-out, and what it has asked for, is what its
  history says.
* `Fanout.reports_unmapped`: a loss before the requests are sent is reported in every mode.
-/

set_option autoImplicit false

namespace AtomicGrid

/-- The listener told of the end, with the success flag. -/
def FanoutAction.news? : FanoutAction → Option (String × Bool)
  | .notify listener success => some (listener, success)
  | _ => none

def FanoutAction.notice? : FanoutAction → Option (NodeId × BackupNotice)
  | .send receiver (.backupNotice m) => some (receiver, m)
  | _ => none

namespace Fanout

/-! ## Calls -/

/-- An entry that a fan-out is given at the start. -/
inductive Addition where
  | entry (view : View) (e : BackupEntry)
  | nearEntry (view : View) (readers : List NodeId) (e : NearEntry)

def load (site : Site) (f : Fanout) : Addition → Fanout
  | .entry view e => f.addEntry site view e
  | .nearEntry view readers e => f.addNearEntry site view readers e

/-- The fan-out of a request from `near`, with its entries. -/
def loaded (site : Site) (near : NodeId) (request : UpdateRequest) (id : FutureId)
    (entries : List Addition) : Fanout :=
  entries.foldl (load site) (start site near request id)

/-- What befalls a fan-out that has its entries. -/
inductive Call where
  /-- A node acknowledges, or is lost. -/
  | hear (n : NodeId) (lost : Bool)
  | listen (listener : String)
  | map (view : View) (response : UpdateResponse) (ret : UpdateReturn) (route : ReplyRoute)

def Call.maps : Call → Bool
  | .map _ _ _ _ => true
  | _ => false

/-- The fan-out after a call, what it asks for, and whether the call was heeded. -/
def call (site : Site) (f : Fanout) : Call → Fanout × List FanoutAction × Bool
  | .hear n lost => f.register site n lost
  | .listen listener => ((f.listen listener).1, [], (f.listen listener).2)
  | .map view response ret route =>
    ((f.map site view response ret route).1, (f.map site view response ret route).2, true)

def after (site : Site) (f : Fanout) : List Call → Fanout
  | [] => f
  | c :: cs => ((f.after site cs).call site c).1

def asked (site : Site) (f : Fanout) : List Call → List FanoutAction
  | [] => []
  | c :: cs => f.asked site cs ++ ((f.after site cs).call site c).2.1

/-! ## Histories -/

/-- The nodes that have acknowledged, or were lost, in order. -/
def mentions (f : Fanout) : List Call → List (NodeId × Bool)
  | [] => []
  | .hear n lost :: cs => f.mentions cs ++ [(n, lost)]
  | .listen _ :: cs => f.mentions cs
  | .map view _ _ _ :: cs =>
    f.mentions cs ++ (f.nodes.filter fun n => !view.reaches n).map fun n => (n, true)

/-- Puts a receiver on record, unless it is there. -/
def note (nodes : List NodeId) (noted : List (NodeId × Bool)) (e : NodeId × Bool) :
    List (NodeId × Bool) :=
  if e.1 ∈ nodes ∧ e.1 ∉ noted.map (·.1) then noted ++ [e] else noted

/-- The first mention of every receiver, in order. -/
def recorded (f : Fanout) (cs : List Call) : List (NodeId × Bool) :=
  (f.mentions cs).foldl (note f.nodes) []

/-- The success flag the fan-out was mapped with. -/
def mappedWith : List Call → Option Bool
  | [] => none
  | .map _ _ ret _ :: _ => some ret.success
  | _ :: cs => mappedWith cs

/-- The requests were sent, and every receiver is on record. -/
def Complete (f : Fanout) (cs : List Call) : Prop :=
  (mappedWith cs).isSome = true ∧ ∀ n ∈ f.nodes, n ∈ (f.recorded cs).map (·.1)

instance (f : Fanout) (cs : List Call) : Decidable (f.Complete cs) :=
  inferInstanceAs (Decidable (_ ∧ _))

/-- The listeners that came before the end. -/
def listening (f : Fanout) : List Call → List String
  | [] => []
  | .listen listener :: cs =>
    if f.Complete cs then f.listening cs else f.listening cs ++ [listener]
  | _ :: cs => f.listening cs

/-- The calls before the requests were sent. -/
def unmapped : List Call → List Call
  | [] => []
  | .map _ _ _ _ :: cs => cs
  | c :: cs => if (mappedWith cs).isSome then unmapped cs else c :: cs

/-- The receivers whose loss the caller's node is told of: all of them if its caller waits for all,
otherwise those lost before the requests were sent. -/
def reported (f : Fanout) (cs : List Call) : List NodeId :=
  ((f.recorded (if f.base.syncMode = .fullSync then cs else unmapped cs)).filter (·.2)).map (·.1)

/-- What the caller's node is told of a loss. -/
def lossOf (site : Site) (f : Fanout) (n : NodeId) : BackupNotice where
  cacheId := site.cacheId
  partition := f.base.partition
  future := f.base.nearFuture
  primary := site.node
  mapping := f.nodes
  failedNode := some n
  flags := {}

/-! ## The books -/

/-- A fan-out that started as `f₀` and has asked for `as` agrees with its books: the receivers
`noted`, those of them noted when the requests were sent, the flag these were sent with, and the
listeners. -/
structure Tally (site : Site) (f₀ f : Fanout) (as : List FanoutAction)
    (noted early : List (NodeId × Bool)) (flag : Option Bool) (ls : List String) : Prop where
  sound : f.Sound
  base : f.base = f₀.base
  nodes : f.nodes = f₀.nodes
  deferred : flag = none → f.deferred = none
  mapped : f.mapped = flag.isSome
  success : ∀ s, flag = some s → f.success = s
  replied : f.repliedToNear = (flag.isSome && decide (f₀.base.syncMode ≠ .fullSync))
  responded : ∀ o, f.Responded o ↔ o ∈ noted.map (·.1)
  count : f.responses = noted.length
  listeners : f.listeners = if f.done then [] else ls
  news : as.filterMap FanoutAction.news? =
    if f.done then ls.map fun l => (l, flag.getD true) else []
  told : as.filterMap FanoutAction.notice? =
    ((if f.repliedToNear then early else noted).filter (·.2)).map fun e =>
      (f₀.base.nearNode, f₀.lossOf site e.1)

variable {site : Site} {f₀ f : Fanout} {as : List FanoutAction}
  {noted early : List (NodeId × Bool)} {flag : Option Bool} {ls : List String}

theorem Tally.done_iff (h : Tally site f₀ f as noted early flag ls) :
    f.done = true ↔ flag.isSome = true ∧ ∀ o ∈ f₀.nodes, o ∈ noted.map (·.1) := by
  rw [h.sound.done, h.mapped, allResponded_iff, h.nodes]
  simp only [h.responded]

theorem Tally.waiting (h : Tally site f₀ f as noted early flag ls) (hd : f.done = false) :
    f.listeners = ls :=
  h.listeners.trans (by rw [hd]; rfl)

/-- Before the end no listener was told of anything. -/
theorem Tally.silent (h : Tally site f₀ f as noted early flag ls) (hd : f.done = false) :
    as.filterMap FanoutAction.news? = [] :=
  h.news.trans (by rw [hd]; rfl)

theorem news?_losses (n : NodeId) (lost : Bool) :
    (f.losses site n lost).filterMap FanoutAction.news? = [] := by
  unfold losses
  split
  · rfl
  · rfl

theorem notice?_losses (n : NodeId) (lost : Bool) :
    (f.losses site n lost).filterMap FanoutAction.notice? =
      if lost && !f.repliedToNear then [(f.base.nearNode, f.lossOf site n)] else [] := by
  unfold losses
  split
  · rfl
  · rfl

theorem news?_endings :
    f.endings.filterMap FanoutAction.news? = f.listeners.map fun l => (l, f.success) := by
  have hl : (f.listeners.map (FanoutAction.notify · f.success)).filterMap FanoutAction.news? =
      f.listeners.map fun l => (l, f.success) := by
    rw [List.filterMap_map]
    exact congrFun List.filterMap_eq_map' _
  unfold endings
  cases f.deferred with
  | none => exact hl
  | some d => exact hl

theorem notice?_endings : f.endings.filterMap FanoutAction.notice? = [] := by
  rw [List.filterMap_eq_nil_iff]
  intro act hact
  simp only [endings, List.mem_cons, List.mem_append, List.mem_map] at hact
  rcases hact with (rfl | ⟨d, -, rfl⟩) | ⟨l, -, rfl⟩
  · rfl
  · rfl
  · rfl

theorem lossOf_eq (hb : f.base = f₀.base) (hn : f.nodes = f₀.nodes) (n : NodeId) :
    f.lossOf site n = f₀.lossOf site n := by
  simp only [lossOf, hb, hn]

theorem note_of_new {nodes : List NodeId} {e : NodeId × Bool} (hn : e.1 ∈ nodes)
    (hnew : e.1 ∉ noted.map (·.1)) : note nodes noted e = noted ++ [e] :=
  if_pos ⟨hn, hnew⟩

theorem note_of_old {nodes : List NodeId} {e : NodeId × Bool}
    (h : e.1 ∈ nodes → e.1 ∈ noted.map (·.1)) : note nodes noted e = noted :=
  if_neg fun hc => hc.2 (h hc.1)

theorem not_responded {n : NodeId} {r : Receiver} (h : f.receivers.get? n = some r)
    (hr : r.responded = false) : ¬ f.Responded n := by
  rintro ⟨r', hr', hresp⟩
  rw [h, Option.some_inj] at hr'
  rw [← hr', hr] at hresp
  cases hresp

/-- A receiver that has not responded is noted. -/
theorem Tally.note_unresponded (h : Tally site f₀ f as noted early flag ls) {n : NodeId}
    {r : Receiver} (hr : f.receivers.get? n = some r) (hresp : r.responded = false) (lost : Bool) :
    note f₀.nodes noted (n, lost) = noted ++ [(n, lost)] :=
  note_of_new (h.nodes ▸ mem_nodes_iff.2 ⟨r, hr⟩) fun hin =>
    not_responded hr hresp ((h.responded n).2 hin)

/-- What the caller's node is told as one more receiver is noted. -/
theorem Tally.told_noted (h : Tally site f₀ f as noted early flag ls) (n : NodeId) (lost : Bool) :
    (as ++ f.losses site n lost).filterMap FanoutAction.notice? =
      ((if f.repliedToNear then early else noted ++ [(n, lost)]).filter (·.2)).map fun e =>
        (f₀.base.nearNode, f₀.lossOf site e.1) := by
  rw [List.filterMap_append, h.told, notice?_losses, lossOf_eq h.base h.nodes, h.base]
  cases f.repliedToNear with
  | true => simp
  | false =>
    cases lost with
    | true => simp
    | false => simp

/-- What is the same in the books however a receiver was recorded: five entries are left to check. -/
theorem Tally.tracked {f' : Fanout} {as' : List FanoutAction} {noted' : List (NodeId × Bool)}
    {n : NodeId} (h : Tally site f₀ f as noted early flag ls) (ht : Tracks f n f')
    (responded : ∀ o, f'.Responded o ↔ o ∈ noted'.map (·.1))
    (count : f'.responses = noted'.length)
    (listeners : f'.listeners = if f'.done then [] else ls)
    (news : as'.filterMap FanoutAction.news? =
      if f'.done then ls.map fun l => (l, flag.getD true) else [])
    (told : as'.filterMap FanoutAction.notice? =
      ((if f.repliedToNear then early else noted').filter (·.2)).map fun e =>
        (f₀.base.nearNode, f₀.lossOf site e.1)) :
    Tally site f₀ f' as' noted' early flag ls where
  sound := ht.sound
  base := ht.base.trans h.base
  nodes := ht.nodes.trans h.nodes
  deferred hf := by
    rw [ht.deferred, h.deferred hf]
    split <;> rfl
  mapped := ht.mapped.trans h.mapped
  success s hs := ht.success.trans (h.success s hs)
  replied := ht.repliedToNear.trans h.replied
  responded := responded
  count := count
  listeners := listeners
  news := news
  told := by rw [ht.repliedToNear]; exact told

theorem Tally.responded_recorded (h : Tally site f₀ f as noted early flag ls) (n : NodeId)
    (r : Receiver) (lost : Bool) (o : NodeId) :
    (f.record n r).Responded o ↔ o ∈ (noted ++ [(n, lost)]).map (·.1) := by
  rw [responded_record, h.responded]
  simp

/-- Recording a receiver, or ignoring a node, keeps the books. -/
theorem Tally.register (h : Tally site f₀ f as noted early flag ls) (n : NodeId) (lost : Bool) :
    Tally site f₀ (f.register site n lost).1 (as ++ (f.register site n lost).2.1)
      (note f₀.nodes noted (n, lost)) early flag ls := by
  have htr := tracks_register site h.sound n lost
  have hrec := recorded_register site h.sound n lost
  generalize (f.register site n lost).1 = f' at htr hrec ⊢
  generalize (f.register site n lost).2.1 = acts at hrec ⊢
  cases hrec with
  | ignored hi =>
    have hold : note f₀.nodes noted (n, lost) = noted := note_of_old fun hn => by
      obtain ⟨r, hr⟩ := mem_nodes_iff.1 (h.nodes.symm ▸ hn)
      exact (h.responded n).1 ⟨r, hr, hi r hr⟩
    rw [hold, List.append_nil]
    exact h
  | @counted r hr hresp hm =>
    have hd : f.done = false := done_of_unresponded h.sound hr hresp
    have hd' : (f.record n r).done = false := hd
    rw [h.note_unresponded hr hresp]
    refine h.tracked htr (h.responded_recorded n r lost) ?_ ?_ ?_ (h.told_noted n lost)
    · simp [record, h.count]
    · rw [hd']
      exact h.waiting hd
    · rw [List.filterMap_append, h.silent hd, news?_losses, hd']
      rfl
  | @finished r hr hresp hm =>
    have hd : f.done = false := done_of_unresponded h.sound hr hresp
    obtain ⟨s, hs⟩ := Option.isSome_iff_exists.1 (h.mapped.symm.trans hm.1)
    have hls : (f.record n r).listeners = ls := h.waiting hd
    have hsucc : (f.record n r).success = s := h.success s hs
    rw [h.note_unresponded hr hresp]
    refine h.tracked htr (h.responded_recorded n r lost) ?_ rfl ?_ ?_
    · simp [record, ended, h.count]
    · rw [List.filterMap_append, List.filterMap_append, h.silent hd, news?_losses, news?_endings, hls,
        hsucc, hs]
      rfl
    · rw [← List.append_assoc, List.filterMap_append, notice?_endings, List.append_nil]
      exact h.told_noted n lost

theorem listen_ended (hd : f.done = true) (listener : String) :
    f.listen listener = (f, false) := by
  rw [Fanout.listen, if_pos hd]

theorem listen_pending (hd : f.done = false) (listener : String) :
    f.listen listener = ({ f with listeners := f.listeners ++ [listener] }, true) := by
  rw [Fanout.listen, if_neg (by simp [hd])]

/-- A listener that comes before the end is told of it. -/
theorem Tally.listen (h : Tally site f₀ f as noted early flag ls) (listener : String) :
    Tally site f₀ (f.listen listener).1 as noted early flag
      (if f.done then ls else ls ++ [listener]) := by
  by_cases hd : f.done = true
  · rw [listen_ended hd, if_pos hd]
    exact h
  · have hd' : f.done = false := Bool.eq_false_iff.2 hd
    rw [listen_pending hd', if_neg hd]
    exact {
      sound := ⟨h.sound.counted, h.sound.done, h.sound.held⟩
      base := h.base
      nodes := h.nodes
      deferred := h.deferred
      mapped := h.mapped
      success := h.success
      replied := h.replied
      responded := h.responded
      count := h.count
      listeners := by rw [if_neg hd, h.waiting hd']
      news := by rw [if_neg hd, h.silent hd']
      told := h.told }

/-! ## Sending the requests -/

/-- The actions tell nobody of a loss or of the end. -/
structure Mute (as : List FanoutAction) : Prop where
  news : as.filterMap FanoutAction.news? = []
  notices : as.filterMap FanoutAction.notice? = []

theorem Mute.append {as bs : List FanoutAction} (h : Mute as) (h' : Mute bs) : Mute (as ++ bs) where
  news := by rw [List.filterMap_append, h.news, h'.news, List.append_nil]
  notices := by rw [List.filterMap_append, h.notices, h'.notices, List.append_nil]

theorem mute_nil : Mute [] := ⟨rfl, rfl⟩

/-- What else is asked for does not matter. -/
theorem Tally.mute (h : Tally site f₀ f as noted early flag ls) {bs : List FanoutAction}
    (hn : bs.filterMap FanoutAction.news? = as.filterMap FanoutAction.news?)
    (ht : bs.filterMap FanoutAction.notice? = as.filterMap FanoutAction.notice?) :
    Tally site f₀ f bs noted early flag ls :=
  { h with news := hn.trans h.news, told := ht.trans h.told }

variable {view : View} {response : UpdateResponse} {ret : UpdateReturn} {route : ReplyRoute}

theorem mute_reply (c : Bool) (route : ReplyRoute) (response : UpdateResponse) :
    Mute (if c then [.reply route response] else []) := by
  cases c
  · exact mute_nil
  · exact ⟨rfl, rfl⟩

theorem mute_mappings : Mute (f.mappings site ret) := by
  unfold mappings
  split
  · exact ⟨rfl, rfl⟩
  · exact mute_nil

/-- What a fan-out that is mapped does: it ends at once if nothing is pending, and otherwise sends
that.  What else it asks for sees to the primary's answer. -/
inductive Maps (site : Site) (view : View) (g : Fanout) : Fanout × List FanoutAction → Prop
  | ended {reply : List FanoutAction} (h : g.pending = []) (hr : Mute reply) :
      Maps site view g (g.finish.1, reply ++ g.finish.2)
  | sent {last : List FanoutAction} (h : g.pending ≠ []) (hl : Mute last) (id : FutureId) :
      Maps site view g ((g.sendRequests site view g.pending).1,
        .enlist id :: (g.sendRequests site view g.pending).2 ++ last)

theorem pending_of_isEmpty (he : f.receivers.isEmpty = true) : f.pending = [] :=
  pending_eq_nil_iff.2 fun o r hr => by simp [SortedMap.isEmpty_iff.1 he o] at hr

theorem maps_map_empty (hd : f.deferred = none) (he : f.receivers.isEmpty = true) :
    Maps site view (f.prepared site response ret route) (f.map site view response ret route) := by
  rw [map_of_isEmpty hd he]
  show Maps site view _ (_, [.reply route response] ++ _)
  refine .ended (pending_of_isEmpty ?_) ⟨rfl, rfl⟩
  rw [receivers_prepared_of_isEmpty he]
  exact he

theorem maps_map (hd : f.deferred = none) :
    Maps site view (f.prepared site response ret route) (f.map site view response ret route) := by
  cases hne : f.receivers.isEmpty with
  | true => exact maps_map_empty hd hne
  | false =>
    have hreply : Mute (f.promptly site response ret route) := mute_reply _ _ _
    rw [map_of_receivers hd hne]
    simp only
    split
    next h => exact .ended (List.isEmpty_iff.1 h) hreply
    next h =>
      rw [List.append_assoc]
      exact .sent (fun hc => h (List.isEmpty_iff.2 hc)) (mute_mappings.append hreply) _

/-- The losses that come to light as the requests `rs` are sent, in order. -/
def lostOf (view : View) (rs : List (NodeId × BackupRequest)) : List (NodeId × Bool) :=
  (rs.filter fun e => !view.reaches e.1).map fun e => (e.1, true)

/-- Sending requests keeps the books: each one that does not get through notes its receiver. -/
theorem Tally.sendRequests (rs : List (NodeId × BackupRequest)) : ∀ {f : Fanout}
    {as : List FanoutAction} {noted : List (NodeId × Bool)},
    Tally site f₀ f as noted early flag ls →
      Tally site f₀ (f.sendRequests site view rs).1 (as ++ (f.sendRequests site view rs).2)
        ((lostOf view rs).foldl (note f₀.nodes) noted) early flag ls := by
  induction rs with
  | nil =>
    intro f as noted h
    rw [Fanout.sendRequests, List.append_nil]
    exact h
  | cons e rs ih =>
    intro f as noted h
    obtain ⟨n, b⟩ := e
    cases hv : view.reaches n with
    | true =>
      have hl : lostOf view ((n, b) :: rs) = lostOf view rs := by simp [lostOf, hv]
      rw [sendRequests_reached hv, hl]
      refine (ih h).mute ?_ ?_
      · rw [List.filterMap_append, List.filterMap_append]
        rfl
      · rw [List.filterMap_append, List.filterMap_append]
        rfl
    | false =>
      have hl : lostOf view ((n, b) :: rs) = (n, true) :: lostOf view rs := by simp [lostOf, hv]
      rw [sendRequests_lost hv, hl, List.foldl_cons]
      refine (ih (h.register n true)).mute ?_ ?_
      · rw [List.append_assoc, List.filterMap_append, List.filterMap_append]
        rfl
      · rw [List.append_assoc, List.filterMap_append, List.filterMap_append]
        rfl

/-- Whoever is on record already can be left out. -/
theorem foldl_note_filter {nodes : List NodeId} (old : List NodeId) (es : List (NodeId × Bool)) :
    ∀ {noted : List (NodeId × Bool)}, (∀ o ∈ old, o ∈ noted.map (·.1)) →
      es.foldl (note nodes) noted = (es.filter (·.1 ∉ old)).foldl (note nodes) noted := by
  induction es with
  | nil => exact fun _ => rfl
  | cons e es ih =>
    intro noted h
    have hgrow : ∀ o ∈ old, o ∈ (note nodes noted e).map (·.1) := fun o ho => by
      have := h o ho
      unfold note
      split
      · rw [List.map_append]
        exact List.mem_append_left _ this
      · exact this
    rw [List.foldl_cons, List.filter_cons]
    split
    next => exact ih hgrow
    next hc =>
      have he : e.1 ∈ old := by simpa using hc
      rw [note_of_old fun _ => h e.1 he]
      exact ih h

/-- The requests still to be sent are those to the receivers that are not on record. -/
theorem pending_eq (h : ∀ o, f.Responded o ↔ o ∈ noted.map (·.1)) :
    f.pending = (f.receivers.entries.filter fun e => e.1 ∉ noted.map (·.1)).map
      fun e => (e.1, e.2.request) := by
  have hr (e : NodeId × Receiver) (he : e ∈ f.receivers.entries) :
      (!e.2.responded) = decide (e.1 ∉ noted.map (·.1)) := by
    have hg := SortedMap.get?_eq_some_iff.2 he
    cases hresp : e.2.responded with
    | true =>
      have : e.1 ∈ noted.map (·.1) := (h e.1).1 ⟨e.2, hg, hresp⟩
      rw [decide_eq_false (not_not_intro this)]
      rfl
    | false =>
      have : e.1 ∉ noted.map (·.1) := fun hc => not_responded hg hresp ((h e.1).2 hc)
      rw [decide_eq_true this]
      rfl
  unfold pending
  rw [List.filter_congr hr]

/-- The losses that come to light as a fan-out is mapped are those of the receivers that are not on
record. -/
theorem lostOf_pending (h : ∀ o, f.Responded o ↔ o ∈ noted.map (·.1)) :
    lostOf view f.pending = ((f.nodes.filter fun n => !view.reaches n).map fun n => (n, true)).filter
      (·.1 ∉ noted.map (·.1)) := by
  rw [pending_eq h]
  simp only [lostOf, nodes, SortedMap.keys, List.filter_map, List.map_map, List.filter_filter]
  congr 1
  refine List.filter_congr fun e _ => ?_
  simp [Bool.and_comm]

theorem responded_prepared_iff (o : NodeId) :
    (f.prepared site response ret route).Responded o ↔ f.Responded o := by
  unfold Responded
  rw [receivers_prepared]
  cases f.receivers.get? o with
  | none => simp
  | some r => by_cases hr : f.relays site = true <;> simp [hr]

theorem countP_prepared :
    (f.prepared site response ret route).receivers.entries.countP (·.2.responded) =
      f.receivers.entries.countP (·.2.responded) := by
  unfold Fanout.prepared
  by_cases hr : f.relays site = true
  · simp only [hr, if_true, SortedMap.mapValues, List.countP_map]
    rfl
  · simp only [hr, if_false, Bool.false_eq_true]

theorem Tally.unfinished (h : Tally site f₀ f as noted early none ls) : f.done = false := by
  rw [← Bool.not_eq_true, h.done_iff]
  exact fun hc => Bool.noConfusion hc.1

/-- What the books say of the caller's node as the requests are sent. -/
theorem Tally.told_prepared (h : Tally site f₀ f as noted early none ls) (c : Bool) :
    as.filterMap FanoutAction.notice? = ((if c then noted else noted).filter (·.2)).map fun e =>
      (f₀.base.nearNode, f₀.lossOf site e.1) := by
  have hr : f.repliedToNear = false := h.replied
  rw [h.told, hr, if_neg Bool.false_ne_true, ite_self]

section

variable (response ret route)

theorem Tally.counted_prepared (h : Tally site f₀ f as noted early none ls) :
    f.responses =
      (f.prepared site response ret route).receivers.entries.countP (·.2.responded) :=
  h.sound.counted.trans countP_prepared.symm

theorem Tally.nodes_prepared (h : Tally site f₀ f as noted early none ls) :
    (f.prepared site response ret route).nodes = f₀.nodes :=
  Fanout.nodes_prepared.trans h.nodes

theorem Tally.replied_prepared (h : Tally site f₀ f as noted early none ls) :
    (f.prepared site response ret route).repliedToNear = decide (f₀.base.syncMode ≠ .fullSync) :=
  congrArg (fun b : BackupRequest => decide (b.syncMode ≠ .fullSync)) h.base

theorem Tally.responded_prepared (h : Tally site f₀ f as noted early none ls) (o : NodeId) :
    (f.prepared site response ret route).Responded o ↔ o ∈ noted.map (·.1) :=
  (responded_prepared_iff o).trans (h.responded o)

end

theorem Tally.prepared (h : Tally site f₀ f as noted early none ls)
    (hp : ¬ (f.prepared site response ret route).AllResponded) :
    Tally site f₀ (f.prepared site response ret route) as noted noted (some ret.success) ls := by
  have hd : f.done = false := h.unfinished
  have hd' : (f.prepared site response ret route).done = false := hd
  exact {
    sound := {
      counted := h.counted_prepared response ret route
      done := by
        rw [hd']
        exact ⟨fun hc => Bool.noConfusion hc, fun hc => absurd hc.2 hp⟩
      held := fun hc => by simp [hd'] at hc }
    base := h.base
    nodes := h.nodes_prepared response ret route
    deferred := fun hc => nomatch hc
    mapped := rfl
    success := fun s hs => Option.some_inj.1 hs
    replied := h.replied_prepared response ret route
    responded := h.responded_prepared response ret route
    count := h.count
    listeners := by
      rw [hd', if_neg Bool.false_ne_true]
      exact h.waiting hd
    news := by rw [hd', h.silent hd, if_neg Bool.false_ne_true]
    told := h.told_prepared _ }

/-- A fan-out that misses nobody ends as it is mapped. -/
theorem Tally.prepared_ended (h : Tally site f₀ f as noted early none ls)
    (hp : (f.prepared site response ret route).AllResponded) :
    Tally site f₀ (f.prepared site response ret route).ended
      (as ++ (f.prepared site response ret route).endings) noted noted (some ret.success) ls := by
  have hd : f.done = false := h.unfinished
  exact {
    sound := {
      counted := h.counted_prepared response ret route
      done := ⟨fun _ => ⟨rfl, hp⟩, fun _ => rfl⟩
      held := fun _ => rfl }
    base := h.base
    nodes := h.nodes_prepared response ret route
    deferred := fun hc => nomatch hc
    mapped := rfl
    success := fun s hs => Option.some_inj.1 hs
    replied := h.replied_prepared response ret route
    responded := h.responded_prepared response ret route
    count := h.count
    listeners := rfl
    news := by
      rw [List.filterMap_append, h.silent hd, news?_endings]
      show f.listeners.map _ = _
      rw [h.waiting hd]
      rfl
    told := by
      rw [List.filterMap_append, notice?_endings, List.append_nil]
      exact h.told_prepared _ }

theorem Tally.map (h : Tally site f₀ f as noted early none ls) :
    Tally site f₀ (f.map site view response ret route).1
      (as ++ (f.map site view response ret route).2)
      (((f₀.nodes.filter fun n => !view.reaches n).map fun n => (n, true)).foldl
        (note f₀.nodes) noted) noted (some ret.success) ls := by
  have hm : Maps site view (f.prepared site response ret route)
    (f.map site view response ret route) := maps_map (h.deferred rfl)
  have hlost : lostOf view (f.prepared site response ret route).pending =
      ((f₀.nodes.filter fun n => !view.reaches n).map fun n => (n, true)).filter
        (·.1 ∉ noted.map (·.1)) := by
    rw [← h.nodes_prepared response ret route]
    exact lostOf_pending (h.responded_prepared response ret route)
  rw [foldl_note_filter (noted.map (·.1)) _ fun _ h => h, ← hlost]
  generalize f.map site view response ret route = x at hm ⊢
  cases hm with
  | @ended reply hp hr =>
    have ht := h.prepared_ended (pending_eq_nil_iff.1 hp)
    have hd : (f.prepared site response ret route).done = false := h.unfinished
    rw [hp, finish_eq hd]
    refine ht.mute ?_ ?_
    · simp only [List.filterMap_append, hr.news, List.nil_append]
    · simp only [List.filterMap_append, hr.notices, List.nil_append]
  | @sent last hp hl id =>
    have ht := h.prepared fun hc => hp (pending_eq_nil_iff.2 hc)
    refine (ht.sendRequests (f.prepared site response ret route).pending).mute ?_ ?_
    · simp only [List.filterMap_append, List.filterMap_cons, List.cons_append, hl.news,
        List.append_nil, FanoutAction.news?]
    · simp only [List.filterMap_append, List.filterMap_cons, List.cons_append, hl.notices,
        List.append_nil, FanoutAction.notice?]

/-! ## Whole histories -/

theorem repliedToNear_foldl (g : BackupRequest → BackupRequest) (ns : List NodeId) :
    ∀ f : Fanout, (ns.foldl (fun f n => f.addressing n g) f).repliedToNear = f.repliedToNear := by
  induction ns with
  | nil => exact fun _ => rfl
  | cons n ns ih => exact fun f => ih (f.addressing n g)

/-- A fan-out with its entries has sent nothing, and nobody was told of anything. -/
structure Fresh (b : BackupRequest) (f : Fanout) : Prop extends Gathers b f where
  repliedToNear : f.repliedToNear = false

variable {near : NodeId} {request : UpdateRequest} {id : FutureId}

theorem Fresh.load {b : BackupRequest} (h : Fresh b f) :
    ∀ e : Addition, Fresh b (f.load site e)
  | .entry _ e => ⟨h.addEntry e, (repliedToNear_foldl _ _ f).trans h.repliedToNear⟩
  | .nearEntry _ readers e =>
    ⟨h.addNearEntry readers e, (repliedToNear_foldl _ _ f).trans h.repliedToNear⟩

theorem Fresh.loads {b : BackupRequest} (entries : List Addition) :
    ∀ {f : Fanout}, Fresh b f → Fresh b (entries.foldl (Fanout.load site) f) := by
  induction entries with
  | nil => exact fun h => h
  | cons e es ih => exact fun h => ih (h.load e)

theorem fresh_loaded (entries : List Addition) :
    Fresh (start site near request id).base (loaded site near request id entries) :=
  Fresh.loads entries ⟨gathers_start near request id, rfl⟩

/-- The books are open once the entries are given. -/
theorem Fresh.tally {b : BackupRequest} (h : Fresh b f) : Tally site f f [] [] [] none [] where
  sound := {
    counted := by
      rw [h.responses, eq_comm, List.countP_eq_zero]
      intro e he
      simp [h.responded e.1 e.2 (SortedMap.get?_eq_some_iff.2 he)]
    done := by simp [h.done, h.mapped]
    held := fun _ => h.deferred }
  base := rfl
  nodes := rfl
  deferred _ := h.deferred
  mapped := h.mapped
  success _ hs := nomatch hs
  replied := h.repliedToNear
  responded o := by
    simp only [List.map_nil, List.not_mem_nil, iff_false]
    rintro ⟨r, hr, hresp⟩
    simp [h.responded o r hr] at hresp
  count := h.responses
  listeners := by simp [h.listeners]
  news := by simp
  told := by simp

theorem mappedWith_of_not_maps {cs : List Call} (h : cs.countP Call.maps = 0) :
    mappedWith cs = none := by
  induction cs with
  | nil => rfl
  | cons c cs ih =>
    cases c with
    | map => simp [Call.maps] at h
    | hear => exact ih (by simpa [Call.maps] using h)
    | listen => exact ih (by simpa [Call.maps] using h)

theorem unmapped_cons_of_mapped {c : Call} {cs : List Call} (hc : c.maps = false)
    (h : mappedWith cs ≠ none) : unmapped (c :: cs) = unmapped cs := by
  have h : (mappedWith cs).isSome = true := Option.isSome_iff_ne_none.2 h
  cases c with
  | map => cases hc
  | hear => exact if_pos h
  | listen => exact if_pos h

theorem unmapped_of_mappedWith {cs : List Call} (h : mappedWith cs = none) :
    unmapped cs = cs := by
  cases cs with
  | nil => rfl
  | cons c cs =>
    cases c with
    | map => cases h
    | hear =>
      have h : mappedWith cs = none := h
      exact if_neg (by simp [h])
    | listen =>
      have h : mappedWith cs = none := h
      exact if_neg (by simp [h])

theorem recorded_hear (n : NodeId) (lost : Bool) (cs : List Call) :
    f.recorded (.hear n lost :: cs) = note f.nodes (f.recorded cs) (n, lost) := by
  rw [recorded, mentions, List.foldl_append]
  rfl

theorem recorded_map (cs : List Call) :
    f.recorded (.map view response ret route :: cs) =
      ((f.nodes.filter fun n => !view.reaches n).map fun n => (n, true)).foldl (note f.nodes)
        (f.recorded cs) := by
  rw [recorded, mentions, List.foldl_append]
  rfl

/-- Before the requests are sent nobody looks at what was noted by then. -/
theorem Tally.of_unmapped (h : Tally site f₀ f as noted early none ls)
    (early' : List (NodeId × Bool)) : Tally site f₀ f as noted early' none ls := by
  have hr : f.repliedToNear = false := h.replied
  have ht := h.told
  rw [hr, if_neg Bool.false_ne_true] at ht
  exact { h with told := by rw [hr, if_neg Bool.false_ne_true]; exact ht }

/-- The books of a fan-out agree with its history. -/
def Kept (site : Site) (f₀ : Fanout) (cs : List Call) : Prop :=
  Tally site f₀ (f₀.after site cs) (f₀.asked site cs) (f₀.recorded cs)
    (f₀.recorded (unmapped cs)) (mappedWith cs) (f₀.listening cs)

/-- What was noted as the requests were sent stays what it was. -/
theorem Kept.of_call {c : Call} {cs : List Call} (hc : c.maps = false)
    (hm : mappedWith (c :: cs) = mappedWith cs)
    (h : Tally site f₀ (f₀.after site (c :: cs)) (f₀.asked site (c :: cs)) (f₀.recorded (c :: cs))
      (f₀.recorded (unmapped cs)) (mappedWith cs) (f₀.listening (c :: cs))) :
    Kept site f₀ (c :: cs) := by
  unfold Kept
  rw [hm]
  by_cases hn : mappedWith cs = none
  · rw [hn] at h ⊢
    exact h.of_unmapped _
  · rw [unmapped_cons_of_mapped hc hn]
    exact h

/-- Every call keeps the books, if there is no second attempt to send the requests. -/
theorem Kept.call {c : Call} {cs : List Call} (h : Kept site f₀ cs)
    (hm : c.maps = true → mappedWith cs = none) : Kept site f₀ (c :: cs) := by
  cases c with
  | hear n lost =>
    refine Kept.of_call rfl rfl ?_
    rw [recorded_hear]
    exact h.register n lost
  | listen listener =>
    refine Kept.of_call rfl rfl ?_
    have ht := h.listen listener
    have hl : f₀.listening (.listen listener :: cs) = if (f₀.after site cs).done then
        f₀.listening cs else f₀.listening cs ++ [listener] := by
      rw [listening]
      exact if_congr h.done_iff.symm rfl rfl
    rw [asked, hl]
    exact ht.mute (by simp [Fanout.call]) (by simp [Fanout.call])
  | map view response ret route =>
    have hn := hm rfl
    have h : Tally site f₀ (f₀.after site cs) (f₀.asked site cs) (f₀.recorded cs)
      (f₀.recorded (unmapped cs)) (mappedWith cs) (f₀.listening cs) := h
    rw [hn] at h
    unfold Kept
    rw [recorded_map]
    exact h.map

theorem kept_loaded (entries : List Addition) {cs : List Call} (h : cs.countP Call.maps ≤ 1) :
    Kept site (loaded site near request id entries) cs := by
  induction cs with
  | nil => exact (fresh_loaded entries).tally
  | cons c cs ih =>
    rw [List.countP_cons] at h
    refine (ih (by omega)).call fun hc => mappedWith_of_not_maps ?_
    rw [if_pos hc] at h
    omega

/-- What has become of a fan-out that started as `f₀`, by its history. -/
structure Accounts (site : Site) (f₀ : Fanout) (cs : List Call) : Prop where
  nodes : (f₀.after site cs).nodes = f₀.nodes
  /-- Each receiver is recorded at most once. -/
  nodup : ((f₀.recorded cs).map (·.1)).Nodup
  /-- The receivers on record are those that were mentioned. -/
  responded : ∀ o, (f₀.after site cs).Responded o ↔ o ∈ (f₀.recorded cs).map (·.1)
  /-- The first mention of a receiver is heeded, and no other. -/
  heeded : ∀ n lost, ((f₀.after site cs).register site n lost).2.2 = true ↔
    n ∈ f₀.nodes ∧ n ∉ (f₀.recorded cs).map (·.1)
  count : (f₀.after site cs).responses = (f₀.recorded cs).length
  done : (f₀.after site cs).done = true ↔ f₀.Complete cs
  /-- A listener that comes after the end is turned away. -/
  admits : ∀ listener, ((f₀.after site cs).listen listener).2 = true ↔ ¬ f₀.Complete cs
  /-- At the end each listener is told once, with the flag the requests were sent with. -/
  news : (f₀.asked site cs).filterMap FanoutAction.news? =
    if f₀.Complete cs then (f₀.listening cs).map fun l => (l, (mappedWith cs).getD true) else []
  /-- Each loss that is reported is reported once. -/
  notices : (f₀.asked site cs).filterMap FanoutAction.notice? =
    (f₀.reported cs).map fun n => (f₀.base.nearNode, f₀.lossOf site n)

theorem nodup_note {nodes : List NodeId} (h : (noted.map (·.1)).Nodup) (e : NodeId × Bool) :
    ((note nodes noted e).map (·.1)).Nodup := by
  unfold note
  split
  next hc =>
    rw [List.map_append]
    exact h.append (List.nodup_singleton _) (List.disjoint_singleton.2 hc.2)
  next => exact h

theorem nodup_foldl_note {nodes : List NodeId} (es : List (NodeId × Bool)) :
    ∀ {noted : List (NodeId × Bool)}, (noted.map (·.1)).Nodup →
      ((es.foldl (note nodes) noted).map (·.1)).Nodup := by
  induction es with
  | nil => exact fun h => h
  | cons e es ih => exact fun h => ih (nodup_note h e)

theorem Tally.heeded_iff (h : Tally site f₀ f as noted early flag ls) (n : NodeId) (lost : Bool) :
    (f.register site n lost).2.2 = true ↔ n ∈ f₀.nodes ∧ n ∉ noted.map (·.1) := by
  rw [← h.nodes, ← h.responded, mem_nodes_iff]
  cases hr : f.receivers.get? n with
  | none => simp [register_unmapped hr]
  | some r =>
    cases hresp : r.responded with
    | true =>
      rw [register_recorded hr hresp]
      have : f.Responded n := ⟨r, hr, hresp⟩
      simp [this]
    | false =>
      have : ¬ f.Responded n := not_responded hr hresp
      simp [Fanout.register, hr, hresp, this]

theorem admits_iff (listener : String) : (f.listen listener).2 = true ↔ ¬ f.done = true := by
  cases hd : f.done with
  | true => simp [listen_ended hd]
  | false => simp [listen_pending hd]

theorem Kept.reported_eq {cs : List Call} (h : Kept site f₀ cs) :
    (((if (f₀.after site cs).repliedToNear then f₀.recorded (unmapped cs)
      else f₀.recorded cs).filter (·.2)).map (·.1)) = f₀.reported cs := by
  have hr := h.replied
  unfold reported
  by_cases hs : f₀.base.syncMode = .fullSync
  · rw [if_pos hs, hr]
    simp [hs]
  · rw [if_neg hs, hr]
    by_cases hn : mappedWith cs = none
    · rw [hn, unmapped_of_mappedWith hn]
      simp
    · have hn : (mappedWith cs).isSome = true := Option.isSome_iff_ne_none.2 hn
      simp [hn, hs]

/-- What becomes of a fan-out is what its history says. -/
theorem accounts_loaded (site : Site) (near : NodeId) (request : UpdateRequest) (id : FutureId)
    (entries : List Addition) (cs : List Call) (h : cs.countP Call.maps ≤ 1) :
    Accounts site (loaded site near request id entries) cs := by
  have hk : Kept site (loaded site near request id entries) cs := kept_loaded entries h
  exact {
    nodes := hk.nodes
    nodup := nodup_foldl_note _ List.nodup_nil
    responded := hk.responded
    heeded := hk.heeded_iff
    count := hk.count
    done := hk.done_iff
    admits := fun listener => (admits_iff listener).trans (not_congr hk.done_iff)
    news := hk.news.trans (if_congr hk.done_iff rfl rfl)
    notices := by
      rw [hk.told, ← hk.reported_eq, List.map_map]
      rfl }

/-- What a node sees of three, of which node 3 does not get its messages. -/
def threeNodes : View where
  topology := .start [⟨1⟩, ⟨2⟩, ⟨3⟩]
  affinity := .pinned [⟨1⟩, ⟨2⟩, ⟨3⟩]
  refusal n := if n = ⟨3⟩ then some (.nodeLeft n) else none

/-- Node 1 hands a removal on to nodes 2 and 3. -/
def handingOn (syncMode : SyncMode) : Fanout :=
  loaded ⟨⟨1⟩, 7, "c", {}⟩ ⟨4⟩ { (default : UpdateRequest) with syncMode } 9
    [.entry threeNodes default]

/-- A listener comes, the requests are sent, and node 2 acknowledges. -/
def acknowledged : List Call :=
  [.hear ⟨2⟩ false, .map threeNodes default (.flag true) .nobody, .listen "a", .hear ⟨5⟩ true]

theorem accounts_acknowledged :
    let as := (handingOn .fullSync).asked ⟨⟨1⟩, 7, "c", {}⟩ acknowledged
    as.filterMap FanoutAction.news? = [("a", true)] ∧ as.filterMap FanoutAction.notice? =
      [(⟨4⟩, (handingOn .fullSync).lossOf ⟨⟨1⟩, 7, "c", {}⟩ ⟨3⟩)] := by
  have h : Accounts ⟨⟨1⟩, 7, "c", {}⟩ (handingOn .fullSync) acknowledged :=
    accounts_loaded _ _ _ _ _ _ (by decide)
  exact ⟨h.news.trans (by decide), h.notices.trans (by decide)⟩

/-- A receiver lost before the requests are sent is reported whomever the caller waits for. -/
theorem reports_unmapped :
    ¬ ∀ (site : Site) (near : NodeId) (request : UpdateRequest) (id : FutureId)
      (entries : List Addition) (cs : List Call), cs.countP Call.maps ≤ 1 →
        request.syncMode ≠ .fullSync →
          ((loaded site near request id entries).asked site cs).filterMap
            FanoutAction.notice? = [] := by
  intro h
  have hnone : ((handingOn .primarySync).asked ⟨⟨1⟩, 7, "c", {}⟩
      [.map threeNodes default (.flag true) .nobody, .hear ⟨2⟩ true]).filterMap
        FanoutAction.notice? = [] := h _ _ _ _ _ _ (by decide) (by decide)
  revert hnone
  decide

end Fanout

end AtomicGrid
