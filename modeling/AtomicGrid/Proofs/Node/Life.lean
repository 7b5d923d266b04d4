import AtomicGrid.Proofs.Grid.Runs
import AtomicGrid.Proofs.Node.Parting
import Mathlib.Data.List.Nodup

/-!
# The life of a node

A node is looked at by itself.  Its callers submit updates, messages come from anybody and say
anything, tasks whose wait is over go on in any order, and nodes leave; meanwhile the topology, the
owners of keys, and who can be reached change at will.

Between two events the registry lists what is open and nothing else.  A number is given once.  A
coordinator that is done stays as it is: no move hands it anything, so nothing is sent or written on
its behalf.

## Results

* `Solo.Orderly.act`: what one move preserves.
* `Solo.Orderly.lasts`: what outlasts one move.
* `Solo.lose_perm`: in which order the coordinators hear of a departure after any events.
* `Solo.corresponds_run`: the registry after any events, and what stays for good.
-/

set_option autoImplicit false

namespace AtomicGrid

/-! ## Numbers -/

/-- The number that an action lets messages come in for. -/
def SubmissionAction.enlisted? : SubmissionAction → Option FutureId
  | .enlist id => some id
  | _ => none

/-- The number that an action lets messages come in for. -/
def FanoutAction.enlisted? : FanoutAction → Option FutureId
  | .enlist id => some id
  | _ => none

namespace Submission

variable {c : Submission} {x : Submission × List SubmissionAction}

theorem enlisted_retire (id : Option FutureId) :
    (id.toList.map SubmissionAction.retire).filterMap SubmissionAction.enlisted? = [] := by
  cases id <;> rfl

theorem enlisted_over (h : Over c x) : x.2.filterMap SubmissionAction.enlisted? = [] := by
  cases h with
  | failed hs e hr hf => exact enlisted_retire c.future
  | waits hs hr hf ha v =>
    rw [List.filterMap_append, enlisted_retire]
    rfl

theorem enlisted_follows {a : Attempt} {ret : Option UpdateReturn} {p : Progress}
    (h : Follows c a ret p x) : x.2.filterMap SubmissionAction.enlisted? = [] := by
  cases h with
  | pending => rfl
  | unconfirmed => rfl
  | @finished near hn =>
    have hnear : near.filterMap SubmissionAction.enlisted? = [] := by
      rw [List.filterMap_eq_nil_iff]
      intro y hy
      obtain ⟨key, value, version, ttl, rfl⟩ := hn y hy
      rfl
    rw [List.filterMap_append, hnear, enlisted_retire]
    rfl

/-- Mapping lets messages come in for the number it takes, and for no other. -/
theorem enlisted_mapped {site : Site} {view : View} {id : FutureId}
    (h : Mapped site view c id x) : x.2.filterMap SubmissionAction.enlisted? = [] ∨
      c.launches view.topology = true ∧ x.2.filterMap SubmissionAction.enlisted? = [id] := by
  cases h with
  | done hd => exact .inl rfl
  | ended hd ho => exact .inl (enlisted_over ho)
  | ownerless hl hp ho => exact .inr ⟨hl, congrArg (id :: ·) (enlisted_over ho)⟩
  | refused hl hp hr ho => exact .inr ⟨hl, congrArg (id :: ·) (enlisted_over ho)⟩
  | async hl hp hr hs hn outcome => exact .inr ⟨hl, rfl⟩
  | sent hl hp hr hs => exact .inr ⟨hl, rfl⟩

end Submission

namespace Node

open Submission (Stage)

variable {view : View} {n : Node} {move : Move} {waiting : Handle → Nat}

/-- The numbers that a move lets messages come in for, in order. -/
inductive Enlists (view : View) (n : Node) (move : Move) : List FutureId → Prop
  | submission {h : Handle} {c : Submission} {x : Submission × List SubmissionAction}
      (ht : SubmissionTurn view n move h c x) :
      Enlists view n move (x.2.filterMap SubmissionAction.enlisted?)
  | carried {sender : NodeId} {request : UpdateRequest} (hm : Brings n sender request move)
      (hc : n.CarriesOut view request) :
      Enlists view n move ((n.opened view sender request).2.filterMap FanoutAction.enlisted?)
  | acknowledged {id : FutureId} {f : Fanout} {o : NodeId} {lost : Bool}
      (hk : Acknowledges n move id f o lost) :
      Enlists view n move ((f.register n.site o lost).2.1.filterMap FanoutAction.enlisted?)

/-- A submission lets messages come in for the number it takes as it is mapped. -/
theorem enlisted_submission {h : Handle} {c : Submission}
    {x : Submission × List SubmissionAction} (hc : n.Coherent waiting) (hdue : n.Due waiting move)
    (ht : SubmissionTurn view n move h c x) :
    x.2.filterMap SubmissionAction.enlisted? = [] ∨
      (move.maps && c.launches view.topology) = true ∧
        x.2.filterMap SubmissionAction.enlisted? = [n.nextFuture] := by
  have hf : Fares n.site view n.nextFuture move.maps c x := fares_turn hc hdue ht
  cases hf with
  | same hs => exact .inl rfl
  | dropped hd ho => exact .inl (Submission.enlisted_over ho)
  | follows hd hf ho => exact .inl (Submission.enlisted_follows ho)
  | mapped hm hf ho =>
    rw [hm]
    exact Submission.enlisted_mapped ho

theorem enlisted_eq_nil {as : List FanoutAction} (h : ∀ i, .enlist i ∉ as) :
    as.filterMap FanoutAction.enlisted? = [] := by
  rw [List.filterMap_eq_nil_iff]
  intro a ha
  cases a with
  | enlist id => exact absurd ha (h id)
  | _ => rfl

/-- A fan-out lets messages come in for its own number. -/
theorem enlisted_opened (sender : NodeId) (request : UpdateRequest) :
    (n.opened view sender request).2.filterMap FanoutAction.enlisted? = [] ∨
      (n.opened view sender request).2.filterMap FanoutAction.enlisted? = [n.nextFuture] := by
  have hi : (n.applied view sender request).fanout.id = n.nextFuture :=
    congrArg (·.future) base_applied
  obtain ⟨as, hs, hen, -⟩ : ∃ as, _ := opened_applied.enlisted
  rw [hi] at hs
  rcases hs with hs | ⟨-, hs⟩
  · right
    rw [hs]
    exact congrArg (n.nextFuture :: ·) (enlisted_eq_nil hen)
  · left
    rw [hs]
    exact enlisted_eq_nil hen

theorem enlisted_register {f : Fanout} (hf : f.Sound) (o : NodeId) (lost : Bool) :
    (f.register n.site o lost).2.1.filterMap FanoutAction.enlisted? = [] := by
  apply enlisted_eq_nil
  intro i hi
  cases Fanout.brings_register hf hi

/-- A move lets messages come in for the next number, or for none. -/
theorem Enlists.next {is : List FutureId} (h : Enlists view n move is) (hc : n.Coherent waiting)
    (hdue : n.Due waiting move) :
    is = [] ∨ is = [n.nextFuture] ∧ (n.move view move).1.nextFuture = n.nextFuture + 1 := by
  cases h with
  | submission ht =>
    apply (enlisted_submission hc hdue ht).imp_right
    rintro ⟨hl, he⟩
    refine ⟨he, ?_⟩
    rw [(submission_move ht).nextFuture, if_pos hl]
  | @carried sender request hm hco =>
    apply (enlisted_opened sender request).imp_right
    intro he
    refine ⟨he, ?_⟩
    rw [move_of_brings hm, process_of_carriesOut hco]
    exact (after_carryOut sender request).2.1
  | @acknowledged id f o lost hk =>
    exact .inl (enlisted_register (hc.fanouts id f hk.get?).2.1 o lost)

/-- A number is in the registry after some actions only if it was before or was let in. -/
theorem mem_enlisted {α : Type}
    {on : SortedMap FutureId Registered → α → SortedMap FutureId Registered}
    {enlisted? : α → Option FutureId} {k : FutureId} {who : Registered}
    (hon : ∀ r a, (on r a).get? k = some who → r.get? k = some who ∨ enlisted? a = some k)
    (as : List α) : ∀ {r : SortedMap FutureId Registered},
    (as.foldl on r).get? k = some who → r.get? k = some who ∨ k ∈ as.filterMap enlisted? := by
  induction as with
  | nil =>
    intro r hk
    exact .inl hk
  | cons a as ih =>
    intro r hk
    rw [List.mem_filterMap]
    rcases ih hk with hk | hk
    · apply (hon r a hk).imp_right
      intro he
      exact ⟨a, List.mem_cons_self, he⟩
    · obtain ⟨b, hb, he⟩ := List.mem_filterMap.1 hk
      exact .inr ⟨b, List.mem_cons_of_mem _ hb, he⟩

theorem get?_insert_or {r : SortedMap FutureId Registered} {id k : FutureId}
    {who who' : Registered} (hk : (r.insert id who').get? k = some who) :
    r.get? k = some who ∨ some id = some k := by
  rw [SortedMap.get?_insert_ite] at hk
  split at hk
  next he => exact .inr (congrArg some he.symm)
  next => exact .inl hk

theorem get?_of_erase {r : SortedMap FutureId Registered} {id k : FutureId} {who : Registered}
    (hk : (r.erase id).get? k = some who) : r.get? k = some who := by
  rw [SortedMap.get?_erase_ite] at hk
  split at hk
  next => cases hk
  next => exact hk

theorem mem_enlisted_submission {h : Handle} {as : List SubmissionAction} {k : FutureId}
    {who : Registered} {r : SortedMap FutureId Registered}
    (hk : (as.foldl (SubmissionAction.onRegistry h) r).get? k = some who) :
    r.get? k = some who ∨ k ∈ as.filterMap SubmissionAction.enlisted? := by
  refine mem_enlisted ?_ as hk
  intro r a hk
  cases a with
  | enlist id => exact get?_insert_or hk
  | retire id => exact .inl (get?_of_erase hk)
  | _ => exact .inl hk

theorem mem_enlisted_fanout {as : List FanoutAction} {k : FutureId} {who : Registered}
    {r : SortedMap FutureId Registered}
    (hk : (as.foldl FanoutAction.onRegistry r).get? k = some who) :
    r.get? k = some who ∨ k ∈ as.filterMap FanoutAction.enlisted? := by
  refine mem_enlisted ?_ as hk
  intro r a hk
  cases a with
  | enlist id => exact get?_insert_or hk
  | retire id => exact .inl (get?_of_erase hk)
  | _ => exact .inl hk

/-- A number is in the registry only if messages were let in for it. -/
theorem enlists_of_registry {k : FutureId} {who : Registered}
    (hk : (n.move view move).1.registry.get? k = some who) :
    n.registry.get? k = some who ∨ ∃ is, Enlists view n move is ∧ k ∈ is := by
  have ht : n.Turn view move (n.move view move) := turn_move move
  cases ht with
  | submission ht ha =>
    rw [ha.registry] at hk
    exact (mem_enlisted_submission hk).imp_right fun hk => ⟨_, .submission ht, hk⟩
  | carried hm hco ha =>
    rw [ha.registry] at hk
    exact (mem_enlisted_fanout hk).imp_right fun hk => ⟨_, .carried hm hco, hk⟩
  | acknowledged hk' ha =>
    rw [ha.registry] at hk
    exact (mem_enlisted_fanout hk).imp_right fun hk => ⟨_, .acknowledged hk', hk⟩
  | plain ht ha => exact .inl (ha.registry ▸ hk)

/-! ## What is done stays -/

/-- Nothing is handed to a submission that is done. -/
theorem not_turn_of_isDone {h : Handle} {c c' : Submission}
    {x : Submission × List SubmissionAction} (hc : n.Coherent waiting) (hdue : n.Due waiting move)
    (hroom : n.versions.issued.toNat + 1 < UInt64.size) (hs : n.submissions.get? h = some c)
    (hd : c.isDone = true) : ¬ SubmissionTurn view n move h c' x := by
  intro ht
  have hst := hc.stage h c hs
  have hidle : c.future = none ∧ waiting h = 0 := by
    generalize waiting h = k at hst
    cases hst with
    | done hd' hf => exact ⟨hf, rfl⟩
    | parked hd' => exact absurd (hd.symm.trans hd') (by simp)
    | current hd' => exact absurd (hd.symm.trans hd') (by simp)
  have hreg (id : FutureId) : n.registry.get? id ≠ some (.submission h) := by
    intro hr
    obtain ⟨c'', hs'', hf⟩ := (hc.submission id h).1 hr
    rw [hs, Option.some_inj] at hs''
    subst hs''
    rw [hidle.1] at hf
    cases hf
  cases ht with
  | submit hu hcs =>
    have hle := hc.handles _ c hs
    exact absurd (lt_add_one_of_room hroom) (UInt64.not_lt.2 hle)
  | resume hs' awaited => exact hdue hidle.2
  | answer hi hr hs' => exact hreg _ hr
  | mapping hi hr hs' => exact hreg _ hr
  | notice hi hr hs' => exact hreg _ hr
  | departure hs' gone => exact hreg _ hdue

/-- Nothing is handed to a fan-out that is done. -/
theorem not_acknowledges_of_done {id : FutureId} {f f' : Fanout} {o : NodeId} {lost : Bool}
    (hc : n.Coherent waiting) (hdue : n.Due waiting move) (hf : n.fanouts.get? id = some f)
    (hd : f.done = true) : ¬ Acknowledges n move id f' o lost := by
  intro hk
  have hreg : n.registry.get? id ≠ some .fanout := by
    intro hr
    obtain ⟨f'', hf'', hd''⟩ := (hc.fanout id).1 hr
    rw [hf, Option.some_inj] at hf''
    subst hf''
    rw [hd] at hd''
    cases hd''
  cases hk with
  | answer hi hr hf' => exact hreg hr
  | departure hf' gone => exact hreg hdue

/-- A fan-out is stored once its requests are sent. -/
theorem mapped_move (hm : ∀ id f, n.fanouts.get? id = some f → f.mapped = true)
    (hc : n.Coherent waiting) {id : FutureId} {f : Fanout}
    (hf : (n.move view move).1.fanouts.get? id = some f) : f.mapped = true := by
  have ht : n.Turn view move (n.move view move) := turn_move move
  cases ht with
  | submission ht ha => exact hm id f (ha.fanouts ▸ hf)
  | carried hb hco ha =>
    rw [ha.fanouts, SortedMap.get?_insert_ite] at hf
    split at hf
    next =>
      cases hf
      exact opened_applied.same.mapped
    next => exact hm id f hf
  | @acknowledged id' f' o lost hk ha =>
    have hf' : n.fanouts.get? id' = some f' := hk.get?
    rw [ha.fanouts, SortedMap.get?_insert_ite] at hf
    split at hf
    next =>
      cases hf
      have ht := Fanout.tracks_register n.site (hc.fanouts id' f' hf').2.1 o lost
      exact ht.mapped.trans (hm id' f' hf')
    next => exact hm id f hf
  | plain ht ha => exact hm id f (ha.fanouts ▸ hf)

/-- A submission that is done stays as it is. -/
theorem submissions_move_of_isDone {h : Handle} {c : Submission} (hc : n.Coherent waiting)
    (hdue : n.Due waiting move) (hroom : n.versions.issued.toNat + 1 < UInt64.size)
    (hs : n.submissions.get? h = some c) (hd : c.isDone = true) :
    (n.move view move).1.submissions.get? h = some c := by
  have ht : n.Turn view move (n.move view move) := turn_move move
  cases ht with
  | @submission h' c' x ht ha =>
    have hh : h ≠ h' := by
      rintro rfl
      exact not_turn_of_isDone hc hdue hroom hs hd ht
    rw [ha.submissions, SortedMap.get?_insert_ite, if_neg hh]
    exact hs
  | carried hb hco ha => exact ha.submissions ▸ hs
  | acknowledged hk ha => exact ha.submissions ▸ hs
  | plain ht ha => exact ha.submissions ▸ hs

/-- A fan-out that is done stays as it is. -/
theorem fanouts_move_of_done {id : FutureId} {f : Fanout} (hc : n.Coherent waiting)
    (hdue : n.Due waiting move) (hf : n.fanouts.get? id = some f) (hd : f.done = true) :
    (n.move view move).1.fanouts.get? id = some f := by
  have ht : n.Turn view move (n.move view move) := turn_move move
  cases ht with
  | submission ht ha => exact ha.fanouts ▸ hf
  | @carried sender request hb hco ha =>
    have hid : id ≠ (n.opened view sender request).1.id := by
      rw [id_opened]
      rintro rfl
      exact absurd (hc.fanouts _ f hf).2.2 (UInt64.lt_irrefl _)
    rw [ha.fanouts, SortedMap.get?_insert_ite, if_neg hid]
    exact hf
  | @acknowledged id' f' o lost hk ha =>
    obtain ⟨hi, hs, -⟩ := hc.fanouts id' f' hk.get?
    have hid : id ≠ (f'.register n.site o lost).1.id := by
      rw [Fanout.id_eq (Fanout.tracks_register n.site hs o lost).toSameFanout, hi]
      rintro rfl
      exact not_acknowledges_of_done hc hdue hf hd hk
    rw [ha.fanouts, SortedMap.get?_insert_ite, if_neg hid]
    exact hf
  | plain ht ha => exact ha.fanouts ▸ hf

/-! ## Results -/

theorem result_over {c c' : Submission} {x : Submission × List SubmissionAction}
    (h : Submission.Over c' x) (hr : c'.result = c.result) :
    x.1.result = c.result ∨ ∃ e, x.1.result = (c.result.complete (.error e)).1 := by
  cases h with
  | failed hs e hr' hf => exact .inr ⟨e, hr ▸ hr'⟩
  | waits hs hr' hf ha v => exact .inl (hr'.trans hr)

/-- A turn leaves the result alone, or sets it. -/
theorem result_fares {site : Site} {fresh : FutureId} {maps : Bool} {c : Submission}
    {x : Submission × List SubmissionAction} (h : Fares site view fresh maps c x) :
    x.1.result = c.result ∨ ∃ r, x.1.result = (c.result.complete r).1 := by
  have hover {c' : Submission} {y : Submission × List SubmissionAction}
      (ho : Submission.Over c' y) (hr : c'.result = c.result) :
      y.1.result = c.result ∨ ∃ r, y.1.result = (c.result.complete r).1 := by
    apply (result_over ho hr).imp_right
    rintro ⟨e, he⟩
    exact ⟨.error e, he⟩
  cases h with
  | same hs => exact .inl rfl
  | dropped hd ho => exact hover ho rfl
  | follows hd hf ho =>
    cases ho with
    | pending => exact .inl rfl
    | unconfirmed => exact .inl rfl
    | finished hn => exact .inr ⟨_, rfl⟩
  | mapped hm hf ho =>
    cases ho with
    | done hd => exact .inl rfl
    | ended hd ho => exact hover ho rfl
    | @ownerless hl hp y ho => exact hover (y := y) ho rfl
    | @refused hl primary hp hr y ho => exact hover (y := y) ho rfl
    | async hl hp hr hs hn outcome => exact .inr ⟨_, rfl⟩
    | sent hl hp hr hs => exact .inl rfl

/-- What waits for the caller was handed over. -/
def Latched (n : Node) : Prop :=
  ∀ h c, n.submissions.get? h = some c → c.result.waiting.isSome = true → c.isDone = true

/-- A submission that has a result is not new. -/
theorem SubmissionTurn.before {h : Handle} {c : Submission}
    {x : Submission × List SubmissionAction} (ht : SubmissionTurn view n move h c x)
    (hw : c.result.waiting.isSome = true) : n.submissions.get? h = some c := by
  cases ht with
  | submit hu hc =>
    subst hc
    cases hw
  | resume hs awaited => exact hs
  | answer hi hr hs => exact hs
  | mapping hi hr hs => exact hs
  | notice hi hr hs => exact hs
  | departure hs gone => exact hs

theorem latched_move (hl : n.Latched) (hc : n.Coherent waiting) (hdue : n.Due waiting move) :
    (n.move view move).1.Latched := by
  intro h c hs hw
  have ht : n.Turn view move (n.move view move) := turn_move move
  cases ht with
  | @submission h' c' x ht ha =>
    rw [ha.submissions, SortedMap.get?_insert_ite] at hs
    split at hs
    next =>
      cases hs
      rcases result_fares (fares_turn hc hdue ht) with hr | ⟨r, hr⟩
      · rw [hr] at hw
        rw [Submission.isDone, hr]
        exact hl _ _ (ht.before hw) hw
      · exact Submission.isDone_of_result hr
    next => exact hl h c hs hw
  | carried hb hco ha => exact hl h c (ha.submissions ▸ hs) hw
  | acknowledged hk ha => exact hl h c (ha.submissions ▸ hs) hw
  | plain ht ha => exact hl h c (ha.submissions ▸ hs) hw

end Node

/-! ## A node by itself -/

inductive Occurrence where
  | submit (update : Update)
  | receive (sender : NodeId) (message : Message)
  /-- A waiting task goes on. -/
  | resume (task : Task) (awaited : Except CacheError TopologyVersion)
  /-- A node has left. -/
  | depart (gone : NodeId)
  | watch (key : Key) (reader : NodeId)
  | refuse (key : Key) (cause : Option FailureCause)

/-- A node by itself, with its tasks that wait for the topology. -/
structure Solo where
  node : Node
  tasks : List Task := []
  /-- All moves so far, the last one first. -/
  log : List Moment := []

namespace Solo

/-- The tasks that still wait once a move is made. -/
def left (s : Solo) : Move → List Task
  | .resume task _ => s.tasks.erase task
  | _ => s.tasks

def act (view : View) (s : Solo) (move : Move) : Solo :=
  let t : Moment := ⟨s.node.id, view, s.node, move⟩
  { node := t.after
    tasks := s.left move ++ t.waits.map (·.task)
    log := t :: s.log }

/-- All coordinators that have a number hear that a node has left. -/
def lose (view : View) (s : Solo) (gone : NodeId) : Solo :=
  (s.node.registry.entries.map (.lose gone)).foldl (act view) s

/-- One event, with what the node sees meanwhile. -/
def step (s : Solo) (e : View × Occurrence) : Solo :=
  match e.2 with
  | .submit u => s.act e.1 (.submit u)
  | .receive sender m => s.act e.1 (.receive sender m)
  | .resume task awaited =>
    if task ∈ s.tasks then s.act e.1 (.resume task awaited) else s
  | .depart gone => s.lose e.1 gone
  | .watch key reader => s.act e.1 (.watch key reader)
  | .refuse key cause => s.act e.1 (.refuse key cause)

def run (s : Solo) (es : List (View × Occurrence)) : Solo := es.foldl step s

theorem run_append (s : Solo) (es es' : List (View × Occurrence)) :
    s.run (es ++ es') = (s.run es).run es' :=
  List.foldl_append

/-- A node that has done nothing yet. -/
def start (config : Config) (processors : Processors) : Solo where
  node := .ofConfig config processors

/-- The number of tasks that wait to map a submission. -/
def parked (s : Solo) (h : Handle) : Nat := s.tasks.count (.remap h)

variable {s : Solo} {view : View} {move : Move}

theorem node_lose (s : Solo) (view : View) (gone : NodeId) :
    (s.lose view gone).node = (s.node.departed view gone).1 := by
  have h (ms : List Move) : ∀ s : Solo,
      (ms.foldl (act view) s).node = (Node.each (Node.move view) s.node ms).1 := by
    induction ms with
    | nil =>
      intro s
      rfl
    | cons m ms ih =>
      intro s
      exact ih (s.act view m)
  rw [Node.departed_eq_each]
  exact h _ s

theorem count_left (h : Handle) :
    (s.left move).count (.remap h) = Node.rest s.parked move h := by
  cases move with
  | resume task awaited =>
    cases task with
    | remap h' =>
      show (s.tasks.erase (.remap h')).count (.remap h) = if h = h' then _ else _
      rw [List.count_erase]
      by_cases hh : h = h'
      · subst hh
        simp [parked]
      · have : ((.remap h' : Task) == .remap h) = false := by
          simpa using Ne.symm hh
        simp [parked, hh, this]
    | process sender request =>
      show (s.tasks.erase (.process sender request)).count (.remap h) = s.parked h
      rw [List.count_erase]
      rfl
  | _ => rfl

theorem parked_act (h : Handle) : (s.act view move).parked h =
    Node.rest s.parked move h + Node.remaps (s.node.move view move).2 h := by
  have hnew : (((s.node.move view move).2.filterMap Effect.wait?).map (·.task)).count (.remap h) =
      Node.remaps (s.node.move view move).2 h := by
    unfold Node.remaps List.count
    rw [List.countP_map]
    apply List.countP_congr
    intro w hw
    simp
  rw [← count_left, ← hnew]
  exact List.count_append

/-! ## What every move keeps -/

end Solo

/-- The numbers that a move let messages come in for, in order. -/
def Moment.Enlists (t : Moment) (is : List FutureId) : Prop :=
  Node.Enlists t.view t.before t.move is

namespace Solo

variable {s : Solo} {view : View} {move : Move}

/-- What holds of a node and of its past. -/
structure Orderly (s : Solo) : Prop where
  coherent : s.node.Coherent s.parked
  mapped : ∀ id f, s.node.fanouts.get? id = some f → f.mapped = true
  latched : s.node.Latched
  numbers : ∀ t ∈ s.log, ∀ is, t.Enlists is → is.Nodup ∧ ∀ i ∈ is, i < s.node.nextFuture
  listed : ∀ id who, s.node.registry.get? id = some who →
    ∃ t ∈ s.log, ∃ is, t.Enlists is ∧ id ∈ is
  once : s.log.Pairwise fun t t' => ∀ is is', t.Enlists is → t'.Enlists is' → is.Disjoint is'

/-- No counter is about to overflow. -/
structure Roomy (s : Solo) : Prop where
  futures : s.node.nextFuture.toNat + 1 < UInt64.size
  handles : s.node.versions.issued.toNat + 1 < UInt64.size

theorem nextFuture_lt_act (hr : s.Roomy) {i : FutureId} (hi : i < s.node.nextFuture) :
    i < (s.act view move).node.nextFuture := by
  show i < (s.node.move view move).1.nextFuture
  rcases Node.nextFuture_move view s.node move with hn | hn
  · rw [hn]
    exact hi
  · rw [hn]
    exact UInt64.lt_trans hi (lt_add_one_of_room hr.futures)

theorem Orderly.act (h : s.Orderly) (hr : s.Roomy) (hdue : s.node.Due s.parked move) :
    (s.act view move).Orderly := by
  have hparked : (s.act view move).parked = fun h =>
      Node.rest s.parked move h + Node.remaps (s.node.move view move).2 h := by
    funext h
    exact parked_act h
  have hnext {is : List FutureId} (hi : Node.Enlists view s.node move is) :
      is = [] ∨ is = [s.node.nextFuture] ∧
        (s.node.move view move).1.nextFuture = s.node.nextFuture + 1 := hi.next h.coherent hdue
  constructor
  · rw [hparked]
    exact Node.coherent_move h.coherent hdue hr.futures hr.handles
  · intro id f hf
    exact Node.mapped_move h.mapped h.coherent hf
  · exact Node.latched_move h.latched h.coherent hdue
  · intro t ht is hi
    rcases List.mem_cons.1 ht with rfl | ht
    · rcases hnext hi with rfl | ⟨rfl, hn⟩
      · exact ⟨List.nodup_nil, fun i hi => (nomatch hi)⟩
      · refine ⟨List.nodup_singleton _, ?_⟩
        intro i hi
        rw [List.mem_singleton.1 hi]
        show _ < (s.node.move view move).1.nextFuture
        rw [hn]
        exact lt_add_one_of_room hr.futures
    · obtain ⟨hnd, hlt⟩ := h.numbers t ht is hi
      exact ⟨hnd, fun i hi => nextFuture_lt_act hr (hlt i hi)⟩
  · intro id who hk
    rcases Node.enlists_of_registry hk with hk | ⟨is, hi, hin⟩
    · obtain ⟨t, ht, h⟩ := h.listed id who hk
      exact ⟨t, List.mem_cons_of_mem _ ht, h⟩
    · exact ⟨_, List.mem_cons_self, is, hi, hin⟩
  · refine List.pairwise_cons.2 ⟨?_, h.once⟩
    intro t ht is is' hi hi'
    have hlt := (h.numbers t ht is' hi').2
    rcases hnext hi with rfl | ⟨rfl, -⟩
    · exact List.disjoint_nil_left _
    · rw [List.singleton_disjoint]
      intro hin
      exact absurd (hlt _ hin) (UInt64.lt_irrefl _)

/-! ## What stays for good -/

/-- What is done at `s` is still so at `s'`, and was left alone in between. -/
structure Lasts (s s' : Solo) : Prop where
  submissions : ∀ h c, s.node.submissions.get? h = some c → c.isDone = true →
    s'.node.submissions.get? h = some c
  fanouts : ∀ id f, s.node.fanouts.get? id = some f → f.done = true →
    s'.node.fanouts.get? id = some f
  results : ∀ h r, s.node.result? h = some r → s'.node.result? h = some r
  /-- Of the moves since, none was for a coordinator that was done. -/
  log : ∃ ts, s'.log = ts ++ s.log ∧ ∀ t ∈ ts,
    (∀ h c, s.node.submissions.get? h = some c → c.isDone = true →
      ∀ c' x, ¬ Node.SubmissionTurn t.view t.before t.move h c' x) ∧
    ∀ id f, s.node.fanouts.get? id = some f → f.done = true →
      ∀ f' o lost, ¬ Node.Acknowledges t.before t.move id f' o lost

theorem Lasts.refl (s : Solo) : Lasts s s where
  submissions _ _ hs _ := hs
  fanouts _ _ hf _ := hf
  results _ _ hr := hr
  log := ⟨[], rfl, fun _ ht => (nomatch ht)⟩

theorem Lasts.trans {s s' s'' : Solo} (h : Lasts s s') (h' : Lasts s' s'') : Lasts s s'' where
  submissions k c hs hd := h'.submissions k c (h.submissions k c hs hd) hd
  fanouts id f hf hd := h'.fanouts id f (h.fanouts id f hf hd) hd
  results k r hr := h'.results k r (h.results k r hr)
  log := by
    obtain ⟨ts, hl, ht⟩ := h.log
    obtain ⟨ts', hl', ht'⟩ := h'.log
    refine ⟨ts' ++ ts, by rw [hl', hl, List.append_assoc], ?_⟩
    intro t hmem
    rcases List.mem_append.1 hmem with hmem | hmem
    · obtain ⟨h₁, h₂⟩ := ht' t hmem
      exact ⟨fun k c hs hd => h₁ k c (h.submissions k c hs hd) hd,
        fun id f hf hd => h₂ id f (h.fanouts id f hf hd) hd⟩
    · exact ht t hmem

theorem Orderly.lasts (h : s.Orderly) (hr : s.Roomy) (hdue : s.node.Due s.parked move) :
    Lasts s (s.act view move) := by
  have hsub {k : Handle} {c : Submission} (hs : s.node.submissions.get? k = some c)
      (hd : c.isDone = true) : (s.node.move view move).1.submissions.get? k = some c :=
    Node.submissions_move_of_isDone h.coherent hdue hr.handles hs hd
  constructor
  · intro k c hs hd
    exact hsub hs hd
  · intro id f hf hd
    exact Node.fanouts_move_of_done h.coherent hdue hf hd
  · intro k r hres
    obtain ⟨c, hs, hw⟩ := Option.bind_eq_some_iff.1 hres
    have hd : c.isDone = true := h.latched k c hs (by rw [hw]; rfl)
    exact Option.bind_eq_some_iff.2 ⟨c, hsub hs hd, hw⟩
  · refine ⟨[⟨s.node.id, view, s.node, move⟩], rfl, ?_⟩
    intro t ht
    obtain rfl := List.mem_singleton.1 ht
    constructor
    · intro k c hs hd c' x
      exact Node.not_turn_of_isDone h.coherent hdue hr.handles hs hd
    · intro id f hf hd f' o lost
      exact Node.not_acknowledges_of_done h.coherent hdue hf hd

/-! ## Runs -/

/-- The counters after `k` events at most. -/
structure Bounded (s : Solo) (k : Nat) : Prop where
  futures : s.node.nextFuture.toNat ≤ k + 1
  handles : s.node.versions.issued.toNat ≤ k

theorem Bounded.roomy {k : Nat} (h : s.Bounded k) (hk : k + 2 < UInt64.size) : s.Roomy := by
  have := h.futures
  have := h.handles
  constructor <;> omega

theorem Bounded.mono {k : Nat} (h : s.Bounded k) : s.Bounded (k + 1) := by
  have := h.futures
  have := h.handles
  constructor <;> omega

theorem Bounded.act {k : Nat} (h : s.Bounded k) : (s.act view move).Bounded (k + 1) := by
  have hf := h.futures
  have hh := h.handles
  constructor
  · show (s.node.move view move).1.nextFuture.toNat ≤ _
    rcases Node.nextFuture_move view s.node move with hn | hn
    · rw [hn]
      omega
    · have := Grid.toNat_add_one_le s.node.nextFuture
      rw [hn]
      omega
  · show (s.node.move view move).1.versions.issued.toNat ≤ _
    rcases Node.issued_move view s.node move with hn | hn
    · rw [hn]
      omega
    · have := Grid.toNat_add_one_le s.node.versions.issued
      rw [hn]
      omega

theorem Bounded.act_lose {k : Nat} (h : s.Bounded k) (gone : NodeId)
    (r : FutureId × Registered) : (s.act view (.lose gone r)).Bounded k := by
  obtain ⟨hf, hv⟩ := Node.counters_lose view s.node gone r
  constructor
  · show (s.node.move view (.lose gone r)).1.nextFuture.toNat ≤ _
    exact hf ▸ h.futures
  · show (s.node.move view (.lose gone r)).1.versions.issued.toNat ≤ _
    exact hv ▸ h.handles

/-- The moves of a node that goes on in order. -/
inductive Moves (s : Solo) : Solo → Prop
  | refl : Moves s s
  | act {s' : Solo} {view : View} {move : Move} (h : Moves s s') (ho : s'.Orderly)
      (hr : s'.Roomy) (hdue : s'.node.Due s'.parked move) : Moves s (s'.act view move)

theorem Moves.trans {s s' s'' : Solo} (h : Moves s s') (h' : Moves s' s'') : Moves s s'' := by
  induction h' with
  | refl => exact h
  | act _ ho hr hdue ih => exact ih.act ho hr hdue

/-- A node that has gone on in order. -/
structure Lives (s s' : Solo) (k : Nat) : Prop where
  orderly : s'.Orderly
  bounded : s'.Bounded k
  lasts : Lasts s s'
  moves : Moves s s'

theorem lives_act {k : Nat} (h : s.Orderly) (hb : s.Bounded k) (hk : k + 2 < UInt64.size)
    (hdue : s.node.Due s.parked move) : Lives s (s.act view move) (k + 1) :=
  have hr := hb.roomy hk
  ⟨h.act hr hdue, hb.act, h.lasts hr hdue, Moves.refl.act h hr hdue⟩

/-- Every coordinator that has a number when a node is lost still has it when its turn comes. -/
theorem lives_lose {k : Nat} (hk : k + 2 < UInt64.size) (gone : NodeId)
    (rs : List (FutureId × Registered)) : ∀ {s : Solo}, s.Orderly → s.Bounded k →
      (∀ r ∈ rs, s.node.registry.get? r.1 = some r.2) → (rs.map (·.1)).Nodup →
        Lives s ((rs.map (.lose gone)).foldl (act view) s) k := by
  induction rs with
  | nil =>
    intro s h hb _ _
    exact ⟨h, hb, .refl s, .refl⟩
  | cons r rs ih =>
    intro s h hb hrs hnd
    rw [List.map_cons, List.nodup_cons] at hnd
    have hr : s.node.registry.get? r.1 = some r.2 := hrs r List.mem_cons_self
    have hdue : s.node.Due s.parked (.lose gone r) := hr
    have hroom := hb.roomy hk
    have hrest : ∀ r' ∈ rs, (s.act view (.lose gone r)).node.registry.get? r'.1 = some r'.2 := by
      intro r' hr'
      have hne : r'.1 ≠ r.1 := fun he => hnd.1 (he ▸ List.mem_map_of_mem hr')
      have hkeep : (s.node.move view (.lose gone r)).1.registry.get? r'.1 =
          s.node.registry.get? r'.1 := Node.registry_lose h.coherent hr hne
      exact hkeep.trans (hrs r' (List.mem_cons_of_mem _ hr'))
    have hl := ih (h.act hroom hdue) (hb.act_lose gone r) hrest hnd.2
    exact ⟨hl.orderly, hl.bounded, (h.lasts hroom hdue).trans hl.lasts,
      (Moves.refl.act h hroom hdue).trans hl.moves⟩

theorem lives_step {k : Nat} (h : s.Orderly) (hb : s.Bounded k) (hk : k + 2 < UInt64.size)
    (e : View × Occurrence) : Lives s (s.step e) (k + 1) := by
  obtain ⟨view, occurrence⟩ := e
  cases occurrence with
  | submit u => exact lives_act h hb hk trivial
  | receive sender m => exact lives_act h hb hk trivial
  | resume task awaited =>
    unfold step
    simp only
    split
    next hmem =>
      refine lives_act h hb hk ?_
      cases task with
      | remap h' => exact Nat.ne_of_gt (List.count_pos_iff.2 hmem)
      | process sender request => exact trivial
    next => exact ⟨h, hb.mono, .refl s, .refl⟩
  | depart gone =>
    have hl : Lives s (s.lose view gone) k := lives_lose hk gone s.node.registry.entries h hb
      (fun r hr => SortedMap.get?_eq_some_iff.2 hr) (SortedMap.keys_nodup _)
    exact ⟨hl.orderly, hl.bounded.mono, hl.lasts, hl.moves⟩
  | watch key reader => exact lives_act h hb hk trivial
  | refuse key cause => exact lives_act h hb hk trivial

theorem lives_run (es : List (View × Occurrence)) : ∀ {s : Solo} {k : Nat}, s.Orderly →
    s.Bounded k → k + es.length + 1 < UInt64.size → Lives s (s.run es) (k + es.length) := by
  induction es with
  | nil =>
    intro s k h hb _
    exact ⟨h, hb, .refl s, .refl⟩
  | cons e es ih =>
    intro s k h hb hk
    rw [List.length_cons] at hk
    have hs := lives_step h hb (by omega) e
    have hl := ih hs.orderly hs.bounded (by omega)
    refine ⟨hl.orderly, ?_, hs.lasts.trans hl.lasts, hs.moves.trans hl.moves⟩
    have hlen : k + (e :: es).length = k + 1 + es.length := by
      rw [List.length_cons]
      omega
    rw [hlen]
    exact hl.bounded

theorem orderly_start (config : Config) (processors : Processors) :
    (start config processors).Orderly := by
  constructor
  · exact Node.coherent_ofConfig config processors
  · intro id f hf
    cases hf
  · intro h c hs
    cases hs
  · intro t ht
    cases ht
  · intro id who hk
    cases hk
  · exact List.Pairwise.nil

theorem bounded_start (config : Config) (processors : Processors) :
    (start config processors).Bounded 0 := by
  constructor
  · exact Nat.le_refl 1
  · exact Nat.le_refl 0

/-- What holds of a node that has done nothing and outlasts every move holds after any events. -/
theorem invariant_run {config : Config} {processors : Processors} {P : Solo → Prop}
    (hstart : P (start config processors))
    (hact : ∀ {s : Solo} {view : View} {move : Move}, s.Orderly → s.Roomy →
      s.node.Due s.parked move → P s → P (s.act view move))
    (es : List (View × Occurrence)) (hlen : es.length + 1 < UInt64.size) :
    P ((start config processors).run es) := by
  have hm := (lives_run es (orderly_start config processors) (bounded_start config processors)
    (by omega)).moves
  generalize (start config processors).run es = s at hm
  induction hm with
  | refl => exact hstart
  | act _ ho hr hdue ih => exact hact ho hr hdue ih

theorem orderly_run (config : Config) (processors : Processors) (es : List (View × Occurrence))
    (hlen : es.length + 1 < UInt64.size) : ((start config processors).run es).Orderly :=
  (lives_run es (orderly_start config processors) (bounded_start config processors)
    (by omega)).orderly

/-- After any events, the coordinators of a node may hear of a departure in any order: they have the
same to say, and the node is the same afterwards but for what its near cache holds. -/
theorem lose_perm (config : Config) (processors : Processors) (es : List (View × Occurrence))
    (hlen : es.length + 2 < UInt64.size) (view : View) (gone : NodeId)
    {rs : List (FutureId × Registered)}
    (hrs : rs.Perm ((start config processors).run es).node.registry.entries) :
    let s := (start config processors).run es
    Node.SameBut (s.lose view gone).node (Node.each (Node.tellDeparture view gone) s.node rs).1
        (s.lose view gone).node.registry ∧
      (Node.each (Node.tellDeparture view gone) s.node rs).2.Perm (s.node.departed view gone).2 := by
  intro s
  have hl := lives_run es (orderly_start config processors) (bounded_start config processors)
    (by omega)
  have hr := hl.bounded.roomy (by omega)
  rw [node_lose]
  exact Node.departed_perm hl.orderly.coherent hr.futures hr.handles hrs

/-- The registry lists what is open, and numbers are given once. -/
structure Corresponds (s : Solo) : Prop where
  submission : ∀ id h, s.node.registry.get? id = some (.submission h) ↔
    ∃ c, s.node.submissions.get? h = some c ∧ c.isDone = false ∧ c.future = some id
  fanout : ∀ id, s.node.registry.get? id = some .fanout ↔
    ∃ f, s.node.fanouts.get? id = some f ∧ f.mapped = true ∧ ∃ o ∈ f.nodes, ¬ f.Responded o
  listed : ∀ id who, s.node.registry.get? id = some who →
    ∃ t ∈ s.log, ∃ is, t.Enlists is ∧ id ∈ is
  nodup : ∀ t ∈ s.log, ∀ is, t.Enlists is → is.Nodup
  once : s.log.Pairwise fun t t' => ∀ is is', t.Enlists is → t'.Enlists is' → is.Disjoint is'

theorem Orderly.corresponds (h : s.Orderly) : s.Corresponds := by
  constructor
  · intro id k
    rw [h.coherent.submission]
    constructor
    · rintro ⟨c, hs, hf⟩
      refine ⟨c, hs, ?_, hf⟩
      have hst := h.coherent.stage k c hs
      generalize s.parked k = m at hst
      cases hst with
      | done hd hf' => simp [hf] at hf'
      | parked hd => exact hd
      | current hd => exact hd
    · rintro ⟨c, hs, -, hf⟩
      exact ⟨c, hs, hf⟩
  · intro id
    rw [h.coherent.fanout]
    constructor
    · rintro ⟨f, hf, hd⟩
      have hm : f.mapped = true := h.mapped id f hf
      have hopen : ¬ ∀ o ∈ f.nodes, f.Responded o := by
        intro hall
        have := (h.coherent.fanouts id f hf).2.1.done.2 ⟨hm, Fanout.allResponded_iff.2 hall⟩
        rw [hd] at this
        cases this
      refine ⟨f, hf, hm, ?_⟩
      simpa using hopen
    · rintro ⟨f, hf, hm, o, ho, hresp⟩
      refine ⟨f, hf, ?_⟩
      rw [← Bool.not_eq_true, (h.coherent.fanouts id f hf).2.1.done, Fanout.allResponded_iff]
      exact fun ⟨_, hall⟩ => hresp (hall o ho)
  · exact h.listed
  · exact fun t ht is hi => (h.numbers t ht is hi).1
  · exact h.once

/-- Whatever happens to a node, its registry lists what is open, numbers are given once, and what is
done stays as it is. -/
theorem corresponds_run (config : Config) (processors : Processors) (es es' : List (View × Occurrence))
    (hlen : (es ++ es').length + 1 < UInt64.size) :
    ((start config processors).run es).Corresponds ∧
      Lasts ((start config processors).run es) ((start config processors).run (es ++ es')) := by
  rw [List.length_append] at hlen
  have hb : (start config processors).Bounded 0 := by
    constructor
    · exact Nat.le_refl 1
    · exact Nat.le_refl 0
  have h := lives_run es (orderly_start config processors) hb (by omega)
  have h' := lives_run es' h.orderly h.bounded (by omega)
  refine ⟨h.orderly.corresponds, ?_⟩
  rw [run_append]
  exact h'.lasts

/-- What node 1 sees of a grid where node 2 owns all keys. -/
def ofTwo : View where
  topology := .start [⟨1⟩, ⟨2⟩]
  affinity := .pinned [⟨2⟩]
  refusal _ := none

/-- The answer to the first request of a node. -/
def firstAnswer (success : Bool) : Message :=
  .updateResponse { UpdateResponse.plain ⟨cacheIdOf "default", 0, 1⟩ ⟨2⟩ with ret := some (.flag success) }

/-- Node 1 stores a value, which node 2 confirms. -/
def answered : List (View × Occurrence) :=
  [(ofTwo, .submit (.put [1] [2])), (ofTwo, .receive ⟨2⟩ (firstAnswer true))]

/-- Another answer comes late, and node 2 leaves. -/
def afterwards : List (View × Occurrence) :=
  [(ofTwo, .receive ⟨2⟩ (firstAnswer false)), (ofTwo, .depart ⟨2⟩)]

theorem lasts_answered :
    ((start { nodeId := 1 } Processor.none).run (answered ++ afterwards)).node.result? 1 =
      some (.ok (.success true)) :=
  (corresponds_run { nodeId := 1 } Processor.none answered afterwards (by decide)).2.results 1
    (.ok (.success true)) (by decide +kernel)

end Solo

end AtomicGrid
