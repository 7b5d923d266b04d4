import AtomicGrid.Proofs.Node.Hearing
import AtomicGrid.Proofs.Submission.Course

/-!
# Requests and answers

What becomes of an update can be followed from outside.  A move that maps it may send a request; an
answer comes from the primary, or is made up because the request is refused or the primary has left.
The `Course` of a turn says what the submission makes of these, and of the words its current attempt
hears.

## Results

* `Moment.course_turn`: the turn of a submission, with the request and the answer that are seen.
* `Moment.requests_of_quiet`, `answer?_of_quiet`, `waits_of_quiet`: nothing is seen of a submission
  whose turn it is not.
* `Moment.handle?_of_request`: requests for updates are sent by moves that map a submission.
-/

set_option autoImplicit false

namespace AtomicGrid

/-! ## What is seen -/

/-- The request that an effect shows, whether it was handed on or refused. -/
def Effect.request? : Effect → Option UpdateRequest
  | .sent _ (.updateRequest q) => some q
  | .refused _ (.updateRequest q) => some q
  | _ => none

/-- The answer that is made up because an effect shows a request being refused. -/
def Effect.bounced? (site : Site) (view : View) : Effect → Option Answer
  | .refused primary (.updateRequest q) =>
    (view.refusal primary).map (Submission.bounced site q primary)
  | _ => none

/-- The submission that a move maps. -/
def Move.handle? (n : Node) : Move → Option Handle
  | .submit _ => some (n.versions.issued + 1)
  | .resume (.remap h) _ => some h
  | _ => none

/-- The word that a move has for an attempt.  A negative answer is none. -/
def Move.word? : Move → Option Word
  | .receive _ (.updateResponse r) =>
    if r.hasError || r.needsRemap then none else some (.answer r)
  | .receive _ (.mappingNotice m) => some (.mapping m.mapping)
  | .receive sender (.backupNotice m) => some (.notice sender m)
  | .lose gone _ => some (.departure gone)
  | _ => none

/-- The request of a submission that waits for the answer of this primary. -/
def Node.asked? (n : Node) (h : Handle) (primary : NodeId) : Option UpdateRequest :=
  (n.submissions.get? h).bind fun c => c.attempt.bind fun a =>
    if a.awaitsPrimary primary then some a.request else none

namespace Moment

/-- The requests of a submission that the move sends. -/
def requests (t : Moment) (h : Handle) : List UpdateRequest :=
  if t.move.handle? t.before = some h then t.effects.filterMap Effect.request? else []

/-- The answer that a submission gets by the move: the primary's, one made up for a primary that has
left, or one made up for a primary to which the request cannot be sent. -/
def answer? (t : Moment) (h : Handle) : Option Answer :=
  match t.move with
  | .receive sender (.updateResponse r) =>
    if r.cacheId = t.before.site.cacheId ∧
        t.before.registry.get? r.future = some (.submission h) then
      (t.before.asked? h sender).map fun q => ⟨q, r⟩
    else none
  | .lose gone (_, who) =>
    if who = .submission h then
      (t.before.asked? h gone).map fun q =>
        ⟨q, Submission.unanswered t.before.site q gone (.nodeDeparted gone)⟩
    else none
  | move =>
    if move.handle? t.before = some h then
      (t.effects.filterMap (Effect.bounced? t.before.site t.view)).head?
    else none

/-- The word that the move has for the attempt with this number. -/
def word? (t : Moment) (id : FutureId) : Option Word :=
  if t.move.about? = some id then t.move.word? else none

end Moment

def requestsOf (log : List Moment) (h : Handle) : List UpdateRequest := log.flatMap (·.requests h)

theorem requestsOf_cons (t : Moment) (log : List Moment) (h : Handle) :
    requestsOf (t :: log) h = t.requests h ++ requestsOf log h := rfl

theorem requestsOf_append (log log' : List Moment) (h : Handle) :
    requestsOf (log ++ log') h = requestsOf log h ++ requestsOf log' h :=
  List.flatMap_append

def answersOf (log : List Moment) (h : Handle) : List Answer := log.filterMap (·.answer? h)

theorem answersOf_cons (t : Moment) (log : List Moment) (h : Handle) :
    answersOf (t :: log) h = (t.answer? h).toList ++ answersOf log h := by
  unfold answersOf
  rw [List.filterMap_cons]
  cases t.answer? h <;> rfl

def Message.request? : Message → Option UpdateRequest
  | .updateRequest q => some q
  | _ => none

/-- The requests that effects show are among the messages. -/
theorem requests_eq (es : List Effect) :
    es.filterMap Effect.request? = (es.filterMap Effect.message?).filterMap (·.2.request?) := by
  have he (e : Effect) : e.request? = e.message?.bind (·.2.request?) := by
    cases e with
    | sent receiver m => cases m <;> rfl
    | refused receiver m => cases m <;> rfl
    | _ => rfl
  rw [List.filterMap_filterMap]
  exact congrArg (es.filterMap ·) (funext he)

/-! ## Actions -/

def SubmissionAction.request? : SubmissionAction → Option UpdateRequest
  | .send _ (.updateRequest q) => some q
  | _ => none

/-- The answer that is made up if a request cannot be sent. -/
def SubmissionAction.bounced? (site : Site) (view : View) : SubmissionAction → Option Answer
  | .send primary (.updateRequest q) =>
    (view.refusal primary).map (Submission.bounced site q primary)
  | _ => none

section

variable {view : View} {h : Handle} {near : Bool} {site : Site}

theorem bounced?_transmission (receiver : NodeId) (m : Message) :
    (Node.transmission view receiver m).bounced? site view =
      (SubmissionAction.send receiver m).bounced? site view := by
  unfold Node.transmission
  split
  next hr =>
    have hnone : view.refusal receiver = none := by simpa [View.reaches] using hr
    cases m with
    | updateRequest q =>
      show none = (view.refusal receiver).map _
      rw [hnone]
      rfl
    | _ => rfl
  next => cases m <;> rfl

/-- The requests that actions send can be seen. -/
theorem requests_effects (as : List SubmissionAction) :
    (as.flatMap (SubmissionAction.effects view h near)).filterMap Effect.request? =
      as.filterMap SubmissionAction.request? := by
  have ha (a : SubmissionAction) : a.message?.bind (·.2.request?) = a.request? := by
    cases a with
    | send receiver m => cases m <;> rfl
    | _ => rfl
  rw [requests_eq, Node.messages_effects, List.filterMap_filterMap]
  exact congrArg (as.filterMap ·) (funext ha)

/-- So can those that are refused. -/
theorem bounced_effects (as : List SubmissionAction) :
    (as.flatMap (SubmissionAction.effects view h near)).filterMap (Effect.bounced? site view) =
      as.filterMap (SubmissionAction.bounced? site view) := by
  induction as with
  | nil => rfl
  | cons a as ih =>
    have ha : (a.effects view h near).filterMap (Effect.bounced? site view) =
        (a.bounced? site view).toList := by
      cases a with
      | send receiver m =>
        rw [SubmissionAction.effects, List.filterMap_cons, bounced?_transmission]
        cases (SubmissionAction.send receiver m).bounced? site view <;> rfl
      | writeNear key value version ttl => cases near <;> rfl
      | enlist id => rfl
      | retire id => rfl
      | await v => rfl
    rw [List.flatMap_cons, List.filterMap_append, ha, ih, List.filterMap_cons]
    cases a.bounced? site view <;> rfl

end

def Silent (as : List SubmissionAction) : Prop := ∀ a ∈ as, a.request? = none

namespace Submission

variable {c : Submission} {view : View} {x : Submission × List SubmissionAction}

theorem Silent.requests {as : List SubmissionAction} (h : Silent as) :
    as.filterMap SubmissionAction.request? = [] :=
  List.filterMap_eq_nil_iff.2 h

theorem silent_retire (id : Option FutureId) : Silent (id.toList.map .retire) := by
  intro a ha
  obtain ⟨i, -, rfl⟩ := List.mem_map.1 ha
  rfl

theorem Retried.silent {v : TopologyVersion} (h : Retried c v x) : Silent x.2 := by
  cases h with
  | stuck => exact silent_retire c.future
  | waits =>
    intro a ha
    rcases List.mem_append.1 ha with ha | ha
    · exact silent_retire c.future a ha
    · rw [List.mem_singleton.1 ha]
      rfl

theorem Declined.silent {y : Answer} (h : Declined view c y x) : Silent x.2 := by
  cases h with
  | refused hr hy => exact hy.silent
  | charged hr hf hl hy => exact hy.silent
  | fatal hr hf a => exact silent_retire c.future

theorem Follows.silent {a : Attempt} {ret : Option UpdateReturn} {p : Progress}
    (h : Follows c a ret p x) : Silent x.2 := by
  cases h with
  | pending =>
    intro b hb
    cases hb
  | unconfirmed =>
    intro b hb
    rw [List.mem_singleton.1 hb]
    rfl
  | finished hn =>
    intro b hb
    rcases List.mem_append.1 hb with hb | hb
    · obtain ⟨key, value, version, ttl, rfl⟩ := hn b hb
      rfl
    · exact silent_retire c.future b hb

theorem Follows.no_await {a : Attempt} {ret : Option UpdateReturn} {p : Progress}
    (h : Follows c a ret p x) (v : TopologyVersion) : .await v ∉ x.2 := by
  cases h with
  | pending => simp
  | unconfirmed => simp
  | finished hn =>
    intro hv
    rcases List.mem_append.1 hv with hv | hv
    · obtain ⟨key, value, version, ttl, he⟩ := hn _ hv
      cases he
    · simp at hv

/-- Mapping sends the request it says, and the answer made up at once is for that request. -/
theorem Charted.seen {site : Site} {id : FutureId} {q : Option UpdateRequest} {y : Option Answer}
    (h : Charted site view c id q y x) :
    x.2.filterMap SubmissionAction.request? = q.toList ∧
      (x.2.filterMap (SubmissionAction.bounced? site view)).head? = y := by
  cases h with
  | failed he => exact ⟨rfl, rfl⟩
  | parked ht => exact ⟨rfl, rfl⟩
  | ownerless hl he => exact ⟨rfl, rfl⟩
  | unsent hl hr hy =>
    have hs := hy.silent
    constructor
    · exact congrArg (_ :: ·) (Silent.requests hs)
    · simp only [List.filterMap_cons, SubmissionAction.bounced?, hr, Option.map_some,
        List.head?_cons]
  | async hl hr outcome =>
    refine ⟨rfl, ?_⟩
    simp only [List.filterMap_cons, SubmissionAction.bounced?, hr, Option.map_none,
      List.filterMap_nil, List.head?_nil]
  | sent hl hr =>
    refine ⟨rfl, ?_⟩
    simp only [List.filterMap_cons, SubmissionAction.bounced?, hr, Option.map_none,
      List.filterMap_nil, List.head?_nil]

end Submission

/-! ## Turns -/

namespace Node

open Submission (Declined Charted)

/-- What a submission makes of its turn, with the request it sends and the answer it gets. -/
inductive Course (view : View) (n : Node) (move : Move) (c : Submission) :
    Option UpdateRequest → Option Answer → Submission × List SubmissionAction → Prop
  | unchanged : Course view n move c none none (c, [])
  /-- The current attempt hears a word. -/
  | told {id : FutureId} {a : Attempt} {w : Word} {x : Submission × List SubmissionAction}
      (hd : c.isDone = false) (hf : c.future = some id) (ha : c.attempt = some a)
      (hi : move.about? = some id) (hw : move.word? = some w)
      (hpos : ∀ r, w = .answer r → r.hasError = false) (hx : c.Tells a w x)
      (hnew : ∀ r, w = .answer r → a.responded = false) (he : x = c.tell a w) :
      Course view n move c none (w.answer? a.request) x
  /-- The current attempt gets a negative answer. -/
  | declined {id : FutureId} {a : Attempt} {r : UpdateResponse}
      {x : Submission × List SubmissionAction} (hd : c.isDone = false) (hf : c.future = some id)
      (ha : c.attempt = some a) (hx : Declined view c ⟨a.request, r⟩ x) :
      Course view n move c none (some ⟨a.request, r⟩) x
  /-- The submission hears of an error while it waits. -/
  | failed (hd : c.isDone = false) (hf : c.future = none) {e : CacheError}
      (he : e.failures? = none) : Course view n move c none none (c.ended (.error e), [])
  /-- The submission is mapped, for the first time or because its wait is over. -/
  | charted (hm : move.maps = true) (hd : c.isDone = false) (hf : c.future = none)
      (ha : c.attempt = none)
      (hok : ∀ task awaited, move = .resume task awaited → ∃ v, awaited = .ok v)
      {q : Option UpdateRequest} {y : Option Answer} {x : Submission × List SubmissionAction}
      (hx : Charted n.site view c n.nextFuture q y x) : Course view n move c q y x

variable {n : Node} {view : View} {waiting : Handle → Nat} {move : Move} {h : Handle}
  {c : Submission} {a : Attempt}

theorem asked?_eq (hs : n.submissions.get? h = some c) (ha : c.attempt = some a)
    (primary : NodeId) :
    n.asked? h primary = if a.awaitsPrimary primary then some a.request else none := by
  simp only [asked?, hs, ha, Option.bind_some]

end Node

namespace Moment

open Node (Course SubmissionTurn)

variable {t : Moment} {waiting : Handle → Nat} {h : Handle} {c : Submission}
  {x : Submission × List SubmissionAction}

/-- A submission, its turn and what is seen of it. -/
structure Shows (t : Moment) (h : Handle) (c : Submission)
    (x : Submission × List SubmissionAction) (q : Option UpdateRequest) (y : Option Answer) :
    Prop where
  requests : t.requests h = q.toList
  answer : t.answer? h = y
  course : Course t.view t.before t.move c q y x

theorem requests_of_handle? (hm : t.move.handle? t.before ≠ some h) : t.requests h = [] :=
  if_neg hm

theorem seen_mapped (ht : SubmissionTurn t.view t.before t.move h c x)
    (hm : t.move.maps = true) (hh : t.move.handle? t.before = some h) :
    t.requests h = x.2.filterMap SubmissionAction.request? ∧
      t.answer? h = (x.2.filterMap (SubmissionAction.bounced? t.before.site t.view)).head? := by
  have he : t.effects = x.2.flatMap _ := (Node.submission_move ht).effects
  constructor
  · rw [requests, if_pos hh, he, requests_effects]
  · unfold answer?
    split
    next hmove => rw [hmove] at hm; cases hm
    next hmove => rw [hmove] at hm; cases hm
    next => rw [if_pos hh, he, bounced_effects]

theorem shows_charted (ht : SubmissionTurn t.view t.before t.move h c x)
    (hm : t.move.maps = true) (hh : t.move.handle? t.before = some h) (hd : c.isDone = false)
    (hf : c.future = none) (ha : c.attempt = none)
    (hok : ∀ task awaited, t.move = .resume task awaited → ∃ v, awaited = .ok v)
    (hx : ∃ q y, Submission.Charted t.before.site t.view c t.before.nextFuture q y x) :
    ∃ q y, t.Shows h c x q y := by
  obtain ⟨q, y, hx⟩ := hx
  obtain ⟨hq, hy⟩ := hx.seen
  obtain ⟨hq', hy'⟩ := seen_mapped ht hm hh
  exact ⟨q, y, hq'.trans hq, hy'.trans hy, .charted hm hd hf ha hok hx⟩

theorem shows_answer {sender : NodeId} {r : UpdateResponse}
    (hmove : t.move = .receive sender (.updateResponse r)) (hi : r.cacheId = t.before.site.cacheId)
    (hr : t.before.registry.get? r.future = some (.submission h))
    (hs : t.before.submissions.get? h = some c) (hd : c.isDone = false)
    (hf : c.future = some r.future) {a : Attempt} (ha : c.attempt = some a) :
    ∃ q y, t.Shows h c (c.onResponse t.before.site t.view sender r false) q y := by
  have hq : t.requests h = [] := by
    apply requests_of_handle?
    rw [hmove]
    intro he
    cases he
  have hy : t.answer? h =
      (if a.awaitsPrimary sender then some a.request else none).map fun q => ⟨q, r⟩ := by
    unfold answer?
    simp only [hmove, hi, hr, and_self, if_true, Node.asked?_eq hs ha]
  by_cases hw : c.Awaits a sender r
  · have haw : a.awaitsPrimary sender = true :=
      Submission.awaitsPrimary_iff.2 ⟨hw.primary, hw.responded⟩
    rw [haw, if_pos rfl, Option.map_some] at hy
    by_cases hn : r.hasError = true ∨ r.needsRemap = true
    · exact ⟨none, _, hq, hy,
        .declined hd hf ha (Submission.declined_onResponse hd hw hn false)⟩
    · rw [not_or, Bool.not_eq_true, Bool.not_eq_true] at hn
      have hword : t.move.word? = some (.answer r) := by
        rw [hmove]
        exact if_neg (by simp [hn.1, hn.2])
      refine ⟨none, _, hq, hy, .told (w := .answer r) hd hf ha (by rw [hmove]; rfl) hword ?_
        (Submission.tells_onResponse hd hw hn.1 hn.2 false) (fun _ _ => hw.responded)
        (Submission.onResponse_eq_tell hw hn.1 hn.2)⟩
      intro r' he
      cases he
      exact hn.1
  · have haw : a.awaitsPrimary sender = false := by
      rw [← Bool.not_eq_true]
      intro haw
      obtain ⟨hp, hresp⟩ := Submission.awaitsPrimary_iff.1 haw
      exact hw ⟨ha, hf, hp, hresp⟩
    rw [haw, if_neg Bool.false_ne_true, Option.map_none] at hy
    refine ⟨none, none, hq, hy, ?_⟩
    rw [Submission.onResponse_other]
    · exact .unchanged
    · intro a' hw'
      cases Option.some_inj.1 (ha.symm.trans hw'.attempt)
      exact hw hw'

theorem shows_departure {gone : NodeId} {id : FutureId}
    (hmove : t.move = .lose gone (id, .submission h))
    (hs : t.before.submissions.get? h = some c) (hd : c.isDone = false) (hf : c.future = some id)
    {a : Attempt} (ha : c.attempt = some a) (hn : a.request.future = id ∧ a.request.keys ≠ []) :
    ∃ q y, t.Shows h c (c.onDeparture t.before.site t.view gone) q y := by
  let r := Submission.unanswered t.before.site a.request gone (.nodeDeparted gone)
  have hq : t.requests h = [] := by
    apply requests_of_handle?
    rw [hmove]
    intro he
    cases he
  have hy : t.answer? h = (if a.awaitsPrimary gone then some a.request else none).map fun q =>
      ⟨q, Submission.unanswered t.before.site q gone (.nodeDeparted gone)⟩ := by
    unfold answer?
    simp only [hmove, if_true, Node.asked?_eq hs ha]
  cases haw : a.awaitsPrimary gone with
  | true =>
    obtain ⟨hp, hresp⟩ := Submission.awaitsPrimary_iff.1 haw
    have hx : c.onDeparture t.before.site t.view gone =
        c.onResponse t.before.site t.view gone r true := by
      simp [Submission.onDeparture, ha, haw, r]
    have hw : c.Awaits a gone r := ⟨ha, hn.1 ▸ hf, hp, hresp⟩
    have he : r.hasError = true := UpdateResponse.hasError_addFailedKeys _ hn.2 _
    rw [haw, if_pos rfl, Option.map_some] at hy
    rw [hx]
    exact ⟨none, _, hq, hy,
      .declined hd hf ha (Submission.declined_onResponse hd hw (.inl he) true)⟩
  | false =>
    rw [haw, if_neg Bool.false_ne_true, Option.map_none] at hy
    have hno : ∀ r, Word.departure gone ≠ .answer r := by
      intro r he
      cases he
    exact ⟨none, none, hq, hy, .told (w := .departure gone) hd hf ha (by rw [hmove]; rfl)
      (by rw [hmove]; rfl) (fun r he => absurd he (hno r)) (Submission.tells_onDeparture hd ha haw)
      (fun r he => absurd he (hno r)) (Submission.onDeparture_eq_tell ha haw)⟩

theorem shows_mapping {sender : NodeId} {m : MappingNotice}
    (hmove : t.move = .receive sender (.mappingNotice m)) (hd : c.isDone = false)
    (hf : c.future = some m.future) {a : Attempt} (ha : c.attempt = some a) :
    ∃ q y, t.Shows h c (c.onMapping m) q y := by
  have hseen : t.requests h = [] ∧ t.answer? h = none := by
    simp [requests, answer?, hmove, Move.handle?]
  have hno : ∀ r, Word.mapping m.mapping ≠ .answer r := by
    intro r he
    cases he
  exact ⟨none, none, hseen.1, hseen.2, .told (w := .mapping m.mapping) hd hf ha
    (by rw [hmove]; rfl) (by rw [hmove]; rfl) (fun r he => absurd he (hno r))
    (Submission.tells_onMapping hd ha hf) (fun r he => absurd he (hno r))
    (Submission.onMapping_eq_tell ha hf)⟩

theorem shows_notice {sender : NodeId} {m : BackupNotice}
    (hmove : t.move = .receive sender (.backupNotice m)) (hd : c.isDone = false)
    (hf : c.future = some m.future) {a : Attempt} (ha : c.attempt = some a) :
    ∃ q y, t.Shows h c (c.onNotice sender m) q y := by
  have hseen : t.requests h = [] ∧ t.answer? h = none := by
    simp [requests, answer?, hmove, Move.handle?]
  by_cases hp : a.primary = m.primary
  · have hno : ∀ r, Word.notice sender m ≠ .answer r := by
      intro r he
      cases he
    exact ⟨none, none, hseen.1, hseen.2, .told (w := .notice sender m) hd hf ha
      (by rw [hmove]; rfl) (by rw [hmove]; rfl) (fun r he => absurd he (hno r))
      (Submission.tells_onNotice hd ha hf hp) (fun r he => absurd he (hno r))
      (Submission.onNotice_eq_tell ha hf hp)⟩
  · refine ⟨none, none, hseen.1, hseen.2, ?_⟩
    rw [Submission.onNotice_other]
    · exact .unchanged
    · right
      intro a' ha'
      cases Option.some_inj.1 (ha.symm.trans ha')
      exact hp

/-- The turn of a submission, with the request and the answer that are seen. -/
theorem course_turn (hc : t.before.Coherent waiting) (hn : t.before.Numbered)
    (hdue : t.before.Due waiting t.move)
    (he : ∀ task e, t.move = .resume task (.error e) → e.failures? = none)
    (ht : SubmissionTurn t.view t.before t.move h c x) : ∃ q y, t.Shows h c x q y := by
  have ht' := ht
  generalize hmove : t.move = move at ht hdue he
  cases ht with
  | submit hu hcs =>
    subst hcs
    have hok : ∀ task awaited, t.move = .resume task awaited → ∃ v, awaited = .ok v := by
      intro task awaited heq
      rw [hmove] at heq
      cases heq
    exact shows_charted ht' (by rw [hmove]; rfl) (by rw [hmove]; rfl) rfl rfl rfl hok
      (Submission.charted_mapOn rfl rfl _)
  | resume hs awaited =>
    obtain ⟨hd, hf, ha⟩ := hc.parked hs hdue
    have hm : t.move.maps = true := by rw [hmove]; rfl
    have hh : t.move.handle? t.before = some h := by rw [hmove]; rfl
    cases awaited with
    | ok v =>
      refine shows_charted ht' hm hh hd hf ha ?_ (Submission.charted_mapOn hd hf _)
      rw [hmove]
      rintro task awaited heq
      cases heq
      exact ⟨v, rfl⟩
    | error e =>
      obtain ⟨e', he', hx⟩ : ∃ e', e'.failures? = none ∧
          c.resume t.before.site t.view t.before.nextFuture (.error e) =
            (c.ended (.error e'), []) := Submission.resume_error hd hf _ (he _ e rfl)
      obtain ⟨hq, hy⟩ := seen_mapped ht' hm hh
      rw [hx] at hq hy ⊢
      exact ⟨none, none, hq, hy, .failed hd hf he'⟩
  | answer hi hr hs =>
    obtain ⟨hd, hf, ⟨a, ha⟩, -⟩ := hc.current hr hs
    exact shows_answer hmove hi hr hs hd hf ha
  | mapping hi hr hs =>
    obtain ⟨hd, hf, ⟨a, ha⟩, -⟩ := hc.current hr hs
    exact shows_mapping hmove hd hf ha
  | notice hi hr hs =>
    obtain ⟨hd, hf, ⟨a, ha⟩, -⟩ := hc.current hr hs
    exact shows_notice hmove hd hf ha
  | departure hs gone =>
    obtain ⟨hd, hf, ⟨a, ha⟩, -⟩ := hc.current hdue hs
    exact shows_departure hmove hs hd hf ha (hn h c _ a hs hf ha)

/-! ## Other submissions -/

/-- It is not the turn of the submission. -/
def Quiet (t : Moment) (h : Handle) : Prop :=
  ∀ c x, ¬ SubmissionTurn t.view t.before t.move h c x

theorem submissions_of_quiet (hq : t.Quiet h) :
    t.after.submissions.get? h = t.before.submissions.get? h := by
  have ht : t.before.Turn t.view t.move (t.before.move t.view t.move) := Node.turn_move t.move
  unfold after
  cases ht with
  | @submission h' c x ht ha =>
    have hne : h ≠ h' := by
      rintro rfl
      exact hq c x ht
    rw [ha.submissions, SortedMap.get?_insert_ite, if_neg hne]
  | carried hm hco ha => rw [ha.submissions]
  | acknowledged hk ha => rw [ha.submissions]
  | plain ht ha => rw [ha.submissions]

/-- A move that maps a submission without its turn has no effects. -/
theorem effects_of_quiet (hq : t.Quiet h) (hh : t.move.handle? t.before = some h) :
    t.effects = [] := by
  obtain ⟨node, view, n, move⟩ := t
  cases move with
  | submit u =>
    cases hu : u.fault? with
    | some e => simp [effects, Node.move, Node.submit, hu]
    | none =>
      cases hh
      exact absurd (.submit hu rfl) (hq _ _)
  | resume task awaited =>
    cases task with
    | remap h' =>
      cases hh
      cases hs : n.submissions.get? h with
      | none => simp [effects, Node.move, Node.resume, Node.onMapping, hs]
      | some c => exact absurd (.resume hs awaited) (hq _ _)
    | process sender request => cases hh
  | _ => cases hh

theorem requests_of_quiet (hq : t.Quiet h) : t.requests h = [] := by
  unfold requests
  split
  next hh => rw [effects_of_quiet hq hh, List.filterMap_nil]
  next => rfl

theorem asked?_of_none {n : Node} (hs : n.submissions.get? h = none) (primary : NodeId) :
    n.asked? h primary = none := by
  simp only [Node.asked?, hs, Option.bind_none]

theorem answer?_of_quiet (hdue : t.before.Due waiting t.move) (hq : t.Quiet h) :
    t.answer? h = none := by
  obtain ⟨node, view, n, move⟩ := t
  unfold answer?
  simp only
  split
  next sender r =>
    split
    next hi =>
      cases hs : n.submissions.get? h with
      | none => rw [asked?_of_none hs, Option.map_none]
      | some c => exact absurd (.answer hi.1 hi.2 hs) (hq _ _)
    next => rfl
  next gone id who =>
    split
    next hwho =>
      subst hwho
      cases hs : n.submissions.get? h with
      | none => rw [asked?_of_none hs, Option.map_none]
      | some c => exact absurd (.departure hs gone) (hq _ _)
    next => rfl
  next =>
    split
    next hh => rw [effects_of_quiet hq hh, List.filterMap_nil, List.head?_nil]
    next => rfl

theorem wait_of_waits {w : Wait} (hw : w ∈ t.waits) : .waits w ∈ t.effects := by
  obtain ⟨e, he, hw⟩ := List.mem_filterMap.1 hw
  cases e with
  | waits w' =>
    cases hw
    exact he
  | _ => cases hw

/-- The waits that start in the turn of a submission are those that it asks for. -/
theorem await_of_waits (ht : SubmissionTurn t.view t.before t.move h c x) {w : Wait}
    (hw : w ∈ t.waits) : ∃ v, .await v ∈ x.2 ∧ w = ⟨v, .remap h⟩ := by
  have he : .waits w ∈ (t.before.move t.view t.move).2 := wait_of_waits hw
  rw [(Node.submission_move ht).effects] at he
  obtain ⟨a, hmem, he⟩ := List.mem_flatMap.1 he
  cases a with
  | await v =>
    cases List.mem_singleton.1 he
    exact ⟨v, hmem, rfl⟩
  | send receiver m =>
    have he : Effect.waits w = Node.transmission t.view receiver m := List.mem_singleton.1 he
    unfold Node.transmission at he
    split at he <;> cases he
  | writeNear key value version ttl =>
    rw [SubmissionAction.effects] at he
    split at he
    · cases List.mem_singleton.1 he
    · cases he
  | enlist id => cases he
  | retire id => cases he

/-- A wait to map a submission starts in its turn. -/
theorem waits_of_quiet (hq : t.Quiet h) {w : Wait} (hw : w ∈ t.waits) : w.task ≠ .remap h := by
  intro hh
  have ht : t.before.Turn t.view t.move (t.before.move t.view t.move) := Node.turn_move t.move
  cases ht with
  | @submission h' c x ht ha =>
    obtain ⟨v, -, rfl⟩ := await_of_waits ht hw
    cases hh
    exact hq c x ht
  | @carried sender request hm hco ha =>
    have hnone : ((t.before.opened t.view sender request).2.flatMap
        (FanoutAction.effects t.view)).filterMap Effect.wait? = [] := Node.wait?_fanout _
    rw [← ha.effects] at hnone
    have hw : w ∈ (t.before.move t.view t.move).2.filterMap Effect.wait? := hw
    rw [hnone] at hw
    cases hw
  | @acknowledged id f o lost hk ha =>
    have hnone : ((f.register t.before.site o lost).2.1.flatMap
        (FanoutAction.effects t.view)).filterMap Effect.wait? = [] := Node.wait?_fanout _
    rw [← ha.effects] at hnone
    have hw : w ∈ (t.before.move t.view t.move).2.filterMap Effect.wait? := hw
    rw [hnone] at hw
    cases hw
  | plain ht ha =>
    have hnone := Node.remaps_plain ht h
    rw [Node.remaps, List.countP_eq_zero] at hnone
    exact absurd (decide_eq_true hh) (hnone w hw)

/-! ## No other requests -/

theorem request?_fanout {as : List FanoutAction}
    (hs : ∀ receiver m, .send receiver m ∈ as → ∀ q, m ≠ .updateRequest q) :
    (as.flatMap (FanoutAction.effects t.view)).filterMap Effect.request? = [] := by
  rw [requests_eq, List.filterMap_eq_nil_iff]
  rintro ⟨receiver, m⟩ hx
  rcases Node.message_of_fanout hx with hm | ⟨r, rfl⟩
  · cases m with
    | updateRequest q => exact absurd rfl (hs receiver _ hm q)
    | _ => rfl
  · rfl

theorem request?_plain {move : Move} {es : List Effect}
    (hp : Node.PlainTurn t.view t.before move es) : es.filterMap Effect.request? = [] := by
  rw [requests_eq, List.filterMap_eq_nil_iff]
  rintro ⟨receiver, m⟩ hx
  rcases Node.message_of_plain hp hx with ⟨r, rfl⟩ | ⟨b, rfl⟩
  · rfl
  · rfl

/-- Requests for updates are sent by moves that map a submission. -/
theorem handle?_of_request (hc : t.before.Coherent waiting) (hn : t.before.Numbered)
    (hdue : t.before.Due waiting t.move)
    (he : ∀ task e, t.move = .resume task (.error e) → e.failures? = none)
    (hh : t.move.handle? t.before = none) : t.effects.filterMap Effect.request? = [] := by
  have ht : t.before.Turn t.view t.move (t.before.move t.view t.move) := Node.turn_move t.move
  unfold effects
  cases ht with
  | @submission h c x ht ha =>
    obtain ⟨q, y, -, -, hx⟩ := course_turn hc hn hdue he ht
    rw [ha.effects, requests_effects]
    cases hx with
    | unchanged => rfl
    | told hd hf ha hi hw hpos hx => exact Submission.Silent.requests (Submission.Follows.silent hx)
    | declined hd hf ha hx => exact Submission.Silent.requests hx.silent
    | failed hd hf he => rfl
    | charted hm hd hf ha hok hx =>
      have hm : t.move.maps = true := hm
      generalize t.move = move at hm hh
      cases move with
      | submit u => cases hh
      | resume task awaited =>
        cases task with
        | remap h' => cases hh
        | process sender request => cases hm
      | _ => cases hm
  | carried hm hco ha =>
    rw [ha.effects]
    apply request?_fanout
    rintro receiver m hmem q rfl
    cases Node.opened_applied.asks _ hmem
  | @acknowledged id f o lost hk ha =>
    rw [ha.effects]
    apply request?_fanout
    rintro receiver m hmem q rfl
    cases Fanout.brings_register (hc.fanouts id f hk.get?).2.1 hmem
  | plain ht ha => exact request?_plain ht

end Moment

end AtomicGrid
