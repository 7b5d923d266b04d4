import AtomicGrid.Proofs.Node.Budget
import AtomicGrid.Proofs.Submission.Inquiry

/-!
# When a primary is asked

What a node hears for an attempt, and what it asks about it, can be read off the moves on record.  The
node asks for the attempt that is under way, at most once.  Whether it does is decided by the order of
the news: a backup that is gone before the node knows whom to hear from is not missed when the mapping
comes, and if nobody else is to be heard, the node goes on waiting without a question.

## Results

* `Moment.listens_turn`: what a submission with an attempt under way makes of its turn.
* `Moment.turn_of_checks`: questions are sent in the turn of a submission only.
* `Outpost.Inquiries.act`: what one move preserves.
* `Outpost.inquired_run`: when the primary was asked, after any events.
* `Outpost.unasked_departedFirst`: a run in which it is not.
-/

set_option autoImplicit false

namespace AtomicGrid

/-! ## What is seen -/

/-- Whether the message asks about the attempt with this number. -/
def Message.inquiresAfter (id : FutureId) : Message → Bool
  | .checkRequest m => m.future = id
  | _ => false

/-- The question about an attempt, and to whom. -/
def Attempt.question (a : Attempt) : NodeId × Message :=
  (a.primary, .checkRequest ⟨a.request.toEnvelope, some a.request⟩)

namespace Moment

def messages (t : Moment) : List (NodeId × Message) := t.effects.filterMap Effect.message?

/-- The questions that the move asks about the attempt with this number. -/
def checks (t : Moment) (id : FutureId) : List (NodeId × Message) :=
  t.messages.filter fun x => x.2.inquiresAfter id

/-- What the node hears by the move for the attempt with this number, whose request went to `primary`.
A negative answer is no news; what is meant for another cache or comes from another primary is not
heard. -/
def tidings? (t : Moment) (id : FutureId) (primary : NodeId) : Option News :=
  match t.move with
  | .receive sender (.updateResponse r) =>
    if r.cacheId = t.before.site.cacheId ∧ r.future = id ∧ sender = primary ∧
        r.hasError = false ∧ r.needsRemap = false then
      some (.answer r.mapping)
    else none
  | .receive _ (.mappingNotice m) =>
    if m.cacheId = t.before.site.cacheId ∧ m.future = id then some (.mapping m.mapping) else none
  | .receive sender (.backupNotice m) =>
    if m.cacheId = t.before.site.cacheId ∧ m.future = id ∧ m.primary = primary then
      some (.notice sender m)
    else none
  | .lose gone r => if r.1 = id then some (.departure gone) else none
  | _ => none

end Moment

/-- The questions about an attempt on record, the last one first. -/
def checksOf (log : List Moment) (id : FutureId) : List (NodeId × Message) :=
  log.flatMap (·.checks id)

/-- The news for an attempt on record, the last one first. -/
def tidingsOf (log : List Moment) (id : FutureId) (primary : NodeId) : List News :=
  log.filterMap (·.tidings? id primary)

theorem checksOf_cons (t : Moment) (log : List Moment) (id : FutureId) :
    checksOf (t :: log) id = t.checks id ++ checksOf log id := rfl

theorem tidingsOf_cons_none {t : Moment} {id : FutureId} {primary : NodeId}
    (h : t.tidings? id primary = none) (log : List Moment) :
    tidingsOf (t :: log) id primary = tidingsOf log id primary :=
  List.filterMap_cons_none h

theorem tidingsOf_cons_some {t : Moment} {id : FutureId} {primary : NodeId} {e : News}
    (h : t.tidings? id primary = some e) (log : List Moment) :
    tidingsOf (t :: log) id primary = e :: tidingsOf log id primary :=
  List.filterMap_cons_some h

/-! ## Questions -/

namespace Submission

variable {c : Submission} {site : Site} {view : View} {id : FutureId}
  {x : Submission × List SubmissionAction}

theorem Over.messages (ho : Over c x) : x.2.filterMap SubmissionAction.message? = [] := by
  cases ho with
  | failed => simp [List.filterMap_map, Function.comp_def, SubmissionAction.message?]
  | waits => simp [List.filterMap_map, Function.comp_def, SubmissionAction.message?]

/-- Mapping asks nothing. -/
theorem Mapped.asks_nothing (hx : Mapped site view c id x) {y : NodeId × Message}
    (hy : y ∈ x.2.filterMap SubmissionAction.message?) (i : FutureId) : y.2.inquiresAfter i = false := by
  cases hx with
  | done => cases hy
  | ended hd ho =>
    rw [ho.messages] at hy
    cases hy
  | ownerless hl hp ho =>
    rw [List.filterMap_cons_none rfl, ho.messages] at hy
    cases hy
  | @refused hl primary hp hr x ho =>
    have hmsg : (SubmissionAction.send primary (.updateRequest (c.request site view id))).message? =
        some (primary, .updateRequest (c.request site view id)) := rfl
    rw [List.filterMap_cons_none rfl, List.filterMap_cons_some hmsg, ho.messages] at hy
    cases List.mem_singleton.1 hy
    rfl
  | async hl hp hr hs hn outcome =>
    cases List.mem_singleton.1 hy
    rfl
  | sent hl hp hr hs =>
    cases List.mem_singleton.1 hy
    rfl

theorem Follows.keeps {a : Attempt} {ret : Option UpdateReturn} {p : Progress}
    (hx : Follows c a ret p x) : x.1.syncMode = c.syncMode ∧ x.1.attempt = some a := by
  cases hx with
  | pending => exact ⟨rfl, rfl⟩
  | unconfirmed => exact ⟨rfl, rfl⟩
  | finished hn => exact ⟨rfl, rfl⟩

/-- A question is sent when the progress says so, and no other message. -/
theorem Follows.messages {a : Attempt} {ret : Option UpdateReturn} {p : Progress}
    (hx : Follows c a ret p x) : x.2.filterMap SubmissionAction.message? =
      if p = .unconfirmed then [a.question] else [] := by
  cases hx with
  | pending => rfl
  | unconfirmed => rfl
  | finished hn =>
    rw [if_neg (by simp), List.filterMap_eq_nil_iff]
    intro b hb
    rcases List.mem_append.1 hb with hb | hb
    · obtain ⟨key, value, version, ttl, rfl⟩ := hn b hb
      rfl
    · obtain ⟨i, -, rfl⟩ := List.mem_map.1 hb
      rfl

end Submission

/-! ## Turns -/

namespace Moment

open Node (SubmissionTurn)
open Submission (Over Follows)

variable {t : Moment} {waiting : Handle → Nat} {h : Handle} {c : Submission} {id : FutureId}
  {a : Attempt} {x : Submission × List SubmissionAction}

/-- What a submission whose attempt `a` is under way makes of its turn. -/
inductive Listens (t : Moment) (c : Submission) (id : FutureId) (a : Attempt)
    (x : Submission × List SubmissionAction) : Prop
  | ended (ho : Over c x)
  | ignored (hn : t.tidings? id a.primary = none) (hx : x = (c, []))
  | heard {e : News} {ret : Option UpdateReturn} (he : t.tidings? id a.primary = some e)
      (hx : Follows c (a.hear e).1 ret (a.hear e).2 x)

/-- What the attempt makes of an answer.  A second one changes nothing. -/
theorem listens_answer {sender : NodeId} {r : UpdateResponse}
    (hmove : t.move = .receive sender (.updateResponse r)) (hi : r.cacheId = t.before.site.cacheId)
    (hd : c.isDone = false) (hf : c.future = some r.future) (ha : c.attempt = some a) :
    t.Listens c r.future a (c.onResponse t.before.site t.view sender r false) := by
  by_cases hw : c.Awaits a sender r
  · by_cases hneg : r.hasError = true ∨ r.needsRemap = true
    · exact .ended (Submission.onResponse_over hd hw hneg false)
    · rw [not_or, Bool.not_eq_true, Bool.not_eq_true] at hneg
      have he : t.tidings? r.future a.primary = some (.answer r.mapping) := by
        simp [tidings?, hmove, hi, hw.primary, hneg]
      exact .heard he (Submission.onResponse_of hd hw hneg.1 hneg.2 false)
  · have hx : c.onResponse t.before.site t.view sender r false = (c, []) := by
      refine Submission.onResponse_other (fun a' hw' => hw ?_) false
      cases Option.some_inj.1 (hw'.attempt.symm.trans ha)
      exact hw'
    rw [hx]
    cases he : t.tidings? r.future a.primary with
    | none => exact .ignored he rfl
    | some e =>
      -- the primary has answered before
      obtain ⟨hp, rfl⟩ : sender = a.primary ∧ e = .answer r.mapping := by
        simp only [tidings?, hmove] at he
        split at he
        next hcond =>
          cases he
          exact ⟨hcond.2.2.1, rfl⟩
        next => cases he
      have hresp : a.responded = true := by
        rw [← Bool.not_eq_false]
        intro hresp
        exact hw ⟨ha, hf, hp.symm, hresp⟩
      have hfol : Follows c a c.ret .pending ({ c with attempt := some a }, []) := .pending
      have hhear : Follows c (a.hear (.answer r.mapping)).1 c.ret (a.hear (.answer r.mapping)).2
          ({ c with attempt := some a }, []) := by
        simpa [Attempt.hear, hresp] using hfol
      rw [← ha] at hhear
      exact .heard he hhear

theorem listens_departure {gone : NodeId} {who : Registered} (hmove : t.move = .lose gone (id, who))
    (hd : c.isDone = false) (hf : c.future = some id) (ha : c.attempt = some a)
    (hn : a.request.future = id ∧ a.request.keys ≠ []) :
    t.Listens c id a (c.onDeparture t.before.site t.view gone) := by
  have he : t.tidings? id a.primary = some (.departure gone) := by
    simp [tidings?, hmove]
  cases haw : a.awaitsPrimary gone with
  | false => exact .heard he (Submission.onDeparture_of hd ha haw)
  | true =>
    have hx : c.Heeds a (.lose gone (id, who)) (c.onDeparture t.before.site t.view gone) :=
      Submission.heeds_departure hd hf ha hn.1 hn.2 gone who
    cases hx with
    | ended ho => exact .ended ho
    | ignored _ hc => exact absurd (hc ⟨by simp, by simp⟩).2 (by simp [Move.news?])
    | heard _ _ _ hlost =>
      obtain ⟨rfl, hresp⟩ := Submission.awaitsPrimary_iff.1 haw
      have hresp' := hlost _ rfl
      rw [hresp] at hresp'
      cases hresp'

theorem listens_turn (hc : t.before.Coherent waiting) (hn : t.before.Numbered)
    (hdue : t.before.Due waiting t.move) (ht : SubmissionTurn t.view t.before t.move h c x)
    (hf : c.future = some id) (ha : c.attempt = some a) : t.Listens c id a x := by
  rcases Node.treats_turn hc hn hdue ht with ⟨-, hf', -, -⟩ | ⟨hs, hd, hf', ha', hi, -⟩
  · rw [hf] at hf'
    cases hf'
  cases hf.symm.trans hf'
  cases ha.symm.trans ha'
  obtain ⟨node, view, n, move⟩ := t
  cases ht with
  | submit hu hcs => cases hi
  | resume hs awaited => cases hi
  | answer hcache hr hs =>
    cases hi
    exact listens_answer rfl hcache hd hf ha
  | @mapping h c sender m hcache hr hs =>
    cases hi
    refine .heard ?_ (Submission.onMapping_of hd ha hf)
    exact if_pos ⟨hcache, rfl⟩
  | @notice h c sender m hcache hr hs =>
    cases hi
    by_cases hp : a.primary = m.primary
    · refine .heard ?_ (Submission.onNotice_of hd ha hf hp)
      exact if_pos ⟨hcache, rfl, hp.symm⟩
    · refine .ignored ?_ (Submission.onNotice_other (.inr ?_))
      · exact if_neg fun hcond => hp hcond.2.2.symm
      · intro a' ha'
        cases ha.symm.trans ha'
        exact hp
  | departure hs gone =>
    cases hi
    exact listens_departure rfl hd hf ha (hn h c _ a hs hf ha)

/-- Whatever is heard for an attempt is about its number, and for this cache. -/
theorem about_of_tidings? {primary : NodeId} {e : News} (he : t.tidings? id primary = some e) :
    t.move.about? = some id ∧
      ∀ s m, t.move = .receive s m → m.envelope.cacheId = t.before.site.cacheId := by
  unfold tidings? at he
  split at he
  next sender r hmove =>
    split at he
    next hcond =>
      rw [hmove]
      refine ⟨congrArg some hcond.2.1, ?_⟩
      rintro s m ⟨⟩
      exact hcond.1
    next => cases he
  next sender m hmove =>
    split at he
    next hcond =>
      rw [hmove]
      refine ⟨congrArg some hcond.2, ?_⟩
      rintro s m ⟨⟩
      exact hcond.1
    next => cases he
  next sender m hmove =>
    split at he
    next hcond =>
      rw [hmove]
      refine ⟨congrArg some hcond.2.1, ?_⟩
      rintro s m ⟨⟩
      exact hcond.1
    next => cases he
  next gone r hmove =>
    split at he
    next hcond =>
      rw [hmove]
      refine ⟨congrArg some hcond, ?_⟩
      rintro s m ⟨⟩
    next => cases he
  next => cases he

/-- Nothing is heard for an attempt whose turn it is not. -/
theorem tidings?_of_quiet (hc : t.before.Coherent waiting) (hdue : t.before.Due waiting t.move)
    (hq : t.Quiet h) (hs : t.before.submissions.get? h = some c) (hf : c.future = some id)
    (primary : NodeId) : t.tidings? id primary = none := by
  cases he : t.tidings? id primary with
  | none => rfl
  | some e =>
    obtain ⟨hi, hcache⟩ := about_of_tidings? he
    have hr : t.before.registry.get? id = some (.submission h) :=
      (hc.submission id h).2 ⟨c, hs, hf⟩
    obtain ⟨c', x, ht⟩ : ∃ c x, SubmissionTurn t.view t.before t.move h c x :=
      Node.turn_about hc hi hr hcache hdue
    exact absurd ht (hq c' x)

theorem messages_turn (ht : SubmissionTurn t.view t.before t.move h c x) :
    t.messages = x.2.filterMap SubmissionAction.message? := by
  have he : t.effects = x.2.flatMap _ := (Node.submission_move ht).effects
  rw [messages, he, Node.messages_effects]

theorem checks_turn (ht : SubmissionTurn t.view t.before t.move h c x) (id : FutureId) :
    t.checks id = (x.2.filterMap SubmissionAction.message?).filter fun y => y.2.inquiresAfter id := by
  rw [checks, messages_turn ht]

/-- Nothing is asked for an attempt that starts. -/
theorem checks_mapped (ht : SubmissionTurn t.view t.before t.move h c x)
    (hx : Submission.Mapped t.before.site t.view c t.before.nextFuture x) (i : FutureId) :
    t.checks i = [] := by
  rw [checks_turn ht, List.filter_eq_nil_iff]
  intro y hy
  simp [hx.asks_nothing hy i]

theorem checks_follows (ht : SubmissionTurn t.view t.before t.move h c x)
    {ret : Option UpdateReturn} {p : Progress} (hx : Follows c a ret p x) (i : FutureId) :
    t.checks i = if p = .unconfirmed ∧ a.request.future = i then [a.question] else [] := by
  rw [checks_turn ht, hx.messages]
  by_cases hp : p = .unconfirmed
  · by_cases hi : a.request.future = i
    · simp [hp, hi, Attempt.question, Message.inquiresAfter]
    · simp [hp, hi, Attempt.question, Message.inquiresAfter]
  · simp [hp]

theorem checks_over (ht : SubmissionTurn t.view t.before t.move h c x) (ho : Over c x)
    (i : FutureId) : t.checks i = [] := by
  rw [checks_turn ht, ho.messages, List.filter_nil]

/-- Questions are sent in the turn of a submission only, about the attempt that is under way. -/
theorem turn_of_checks (hc : t.before.Coherent waiting) (hn : t.before.Numbered)
    (hdue : t.before.Due waiting t.move) (hk : t.checks id ≠ []) :
    ∃ h c x, SubmissionTurn t.view t.before t.move h c x ∧
      t.before.submissions.get? h = some c ∧ c.future = some id := by
  obtain ⟨y, hy⟩ := List.exists_mem_of_ne_nil _ hk
  obtain ⟨hmem, hasks⟩ := List.mem_filter.1 hy
  have hturn : t.before.Turn t.view t.move (t.before.move t.view t.move) := Node.turn_move t.move
  have hmem : y ∈ (t.before.move t.view t.move).2.filterMap Effect.message? := hmem
  obtain ⟨receiver, m⟩ := y
  cases hturn with
  | @submission h c x ht ha =>
    refine ⟨h, c, x, ht, ?_⟩
    cases Node.treats_turn hc hn hdue ht with
    | mapped hm hf ha' hx => exact absurd (checks_mapped ht hx id) hk
    | @heard i a hs hd hf ha' hi hx =>
      refine ⟨hs, ?_⟩
      cases listens_turn hc hn hdue ht hf ha' with
      | ended ho => exact absurd (checks_over ht ho id) hk
      | ignored hnone hx =>
        subst hx
        exact absurd (checks_turn ht id) hk
      | @heard e ret he hfol =>
        have hreq : (a.hear e).1.request = a.request := (a.addressed_hear e).1
        rw [checks_follows ht hfol id] at hk
        rw [hf, ← (hn h c i a hs hf ha').1, ← hreq]
        exact congrArg some (Decidable.not_not.1 fun hne => hk (if_neg fun hp => hne hp.2))
  | carried hm hco ha =>
    rw [ha.effects] at hmem
    rcases Node.message_of_fanout hmem with hs | ⟨r, rfl⟩
    · have hask := Node.opened_applied.asks _ hs
      generalize hact : FanoutAction.send receiver m = act at hask
      cases hask with
      | request | loss | mapping =>
        cases hact
        cases hasks
      | enlist | retire | reply | notify => cases hact
    · cases hasks
  | @acknowledged i f o lost hack ha =>
    rw [ha.effects] at hmem
    rcases Node.message_of_fanout hmem with hs | ⟨r, rfl⟩
    · have hb := Fanout.brings_register (hc.fanouts i f hack.get?).2.1 hs
      generalize hact : FanoutAction.send receiver m = act at hb
      cases hb with
      | loss =>
        cases hact
        cases hasks
      | retire | reply | notify => cases hact
    · cases hasks
  | plain hp ha =>
    rcases Node.message_of_plain hp hmem with ⟨r, rfl⟩ | ⟨b, rfl⟩
    · cases hasks
    · cases hasks

theorem checks_of_quiet (hc : t.before.Coherent waiting) (hn : t.before.Numbered)
    (hdue : t.before.Due waiting t.move) (hq : t.Quiet h)
    (hs : t.before.submissions.get? h = some c) (hf : c.future = some id) : t.checks id = [] := by
  by_contra hk
  obtain ⟨h', c', x, ht, hs', hf'⟩ := turn_of_checks hc hn hdue hk
  have hr := (hc.submission id h).2 ⟨c, hs, hf⟩
  have hr' := (hc.submission id h').2 ⟨c', hs', hf'⟩
  cases hr.symm.trans hr'
  exact hq c' x ht

end Moment

namespace Attempt

theorem question_hear (a : Attempt) (e : News) : (a.hear e).1.question = a.question := by
  obtain ⟨hr, hp⟩ := a.addressed_hear e
  rw [question, question, hr, hp]

theorem question_heard (a : Attempt) : ∀ es : List News, (a.heard es).question = a.question
  | [] => rfl
  | e :: es => ((a.heard es).question_hear e).trans (a.question_heard es)

end Attempt

/-! ## Runs -/

/-- How the attempt of a submission that is under way came about: its request was sent at `t`, and
since then it has heard all the news on record for it, and has asked what they make it ask. -/
structure Inquiry (site : Site) (log : List Moment) (c : Submission) (id : FutureId) (t : Moment)
    (since before : List Moment) (a : Attempt) : Prop where
  log_eq : log = since ++ t :: before
  shown : Node.transmission t.view a.primary (.updateRequest a.request) ∈ t.effects
  number : a.request.future = id
  fresh : a.Fresh
  inquires : a.Inquires ↔ site.settings.nearRelay = .backups ∧ c.syncMode = .fullSync
  attempt : c.attempt = some (a.heard (tidingsOf since id a.primary))
  asked : checksOf log id =
    if (a.heard (tidingsOf since id a.primary)).checkSent then [a.question] else []

namespace Inquiry

open Submission (Follows)

variable {site : Site} {log since before : List Moment} {c c' : Submission} {id : FutureId}
  {t t' : Moment} {a : Attempt} {h : Handle} {x : Submission × List SubmissionAction}

theorem later (hi : Inquiry site log c id t since before a)
    (hn : t'.tidings? id a.primary = none) (hk : t'.checks id = []) :
    Inquiry site (t' :: log) c id t (t' :: since) before a where
  log_eq := congrArg (t' :: ·) hi.log_eq
  shown := hi.shown
  number := hi.number
  fresh := hi.fresh
  inquires := hi.inquires
  attempt := by
    rw [tidingsOf_cons_none hn]
    exact hi.attempt
  asked := by
    rw [tidingsOf_cons_none hn, checksOf_cons, hk]
    exact hi.asked

theorem hears (hi : Inquiry site log c id t since before a)
    (ht : Node.SubmissionTurn t'.view t'.before t'.move h c x) {e : News}
    (hn : t'.tidings? id a.primary = some e) {ret : Option UpdateReturn}
    (hx : Follows c ((a.heard (tidingsOf since id a.primary)).hear e).1 ret
      ((a.heard (tidingsOf since id a.primary)).hear e).2 x) :
    Inquiry site (t' :: log) x.1 id t (t' :: since) before a := by
  have hasked : checksOf (t' :: log) id =
      if (a.heard (e :: tidingsOf since id a.primary)).checkSent then [a.question] else [] := by
    have hreq : ((a.heard (tidingsOf since id a.primary)).hear e).1.request.future = id := by
      rw [(Attempt.addressed_hear _ e).1, (Attempt.knows_heard hi.fresh _).request, hi.number]
    have hquestion : ((a.heard (tidingsOf since id a.primary)).hear e).1.question = a.question :=
      a.question_heard (e :: _)
    rw [checksOf_cons, Moment.checks_follows ht hx id, hi.asked, hquestion, Attempt.heard]
    -- the question is new when the progress calls for one, so there is never a second
    rcases Attempt.unconfirmed_or (a.heard (tidingsOf since id a.primary)) e with
      ⟨hp, hnot, hsent⟩ | ⟨hp, hsame⟩
    · rw [if_pos ⟨hp, hreq⟩, hnot, hsent]
      rfl
    · rw [if_neg fun hboth => hp hboth.1, hsame]
      rfl
  obtain ⟨hsync, hattempt⟩ := hx.keeps
  change x.1.attempt = some (a.heard (e :: tidingsOf since id a.primary)) at hattempt
  rw [← tidingsOf_cons_some hn] at hasked hattempt
  exact ⟨congrArg (t' :: ·) hi.log_eq, hi.shown, hi.number, hi.fresh, hsync ▸ hi.inquires,
    hattempt, hasked⟩

end Inquiry

namespace Outpost

variable {o o₀ o' : Outpost} {view : View} {move : Move} {h : Handle} {c : Submission}
  {id : FutureId} {x : Submission × List SubmissionAction}

structure Inquiries (o : Outpost) : Prop where
  known : ∀ h c id, o.node.submissions.get? h = some c → c.future = some id →
    ∃ t since before a, Inquiry o.node.site o.log c id t since before a
  /-- Nothing was asked about a number that is not used yet. -/
  unused : ∀ id, o.node.nextFuture ≤ id → checksOf o.log id = []

theorem inquiries_start (config : Config) (processors : Processors) (members : List NodeId) :
    (start config processors members).Inquiries where
  known := by
    intro h c id hs
    cases hs
  unused := fun _ _ => rfl

/-- The attempt that a mapping starts has asked nothing. -/
theorem Inquiries.launched (hi : o.Inquiries)
    (ht : Node.SubmissionTurn view o.node move h c x) (hfuture : c.future = none)
    (hx : Submission.Mapped o.node.site view c o.node.nextFuture x)
    (hf : x.1.future = some id) :
    ∃ t since before a,
      Inquiry o.node.site (o.moment view move :: o.log) x.1 id t since before a := by
  have hk := Moment.checks_mapped (t := o.moment view move) ht hx
  have heffects : (o.moment view move).effects = x.2.flatMap _ := (Node.submission_move ht).effects
  cases hx with
  | done hd =>
    rw [hfuture] at hf
    cases hf
  | ended hd ho | ownerless hl hp ho | refused hl hp hr ho =>
    rw [Submission.future_over ho] at hf
    cases hf
  | async => cases hf
  | @sent hl primary hp hr hs =>
    cases hf
    have hfresh : (c.opening o.node.site view o.node.nextFuture primary).Fresh :=
      Submission.opening_fresh _ _
    refine ⟨o.moment view move, [], o.log, c.opening o.node.site view o.node.nextFuture primary,
      rfl, ?_, rfl, hfresh, ?_, rfl, ?_⟩
    · rw [heffects]
      refine List.mem_flatMap.2 ⟨_, List.mem_cons_of_mem _ List.mem_cons_self, ?_⟩
      exact List.mem_singleton_self _
    · simp only [Attempt.Inquires, Submission.opening, Submission.request, Bool.and_eq_true,
        decide_eq_true_eq]
      tauto
    · rw [checksOf_cons, hk, hi.unused _ (UInt64.le_refl _)]
      exact (if_neg (by simp [tidingsOf, Attempt.heard, hfresh.checkSent])).symm

theorem Inquiries.turned (hi : o.Inquiries) (hs : o.Steady) (hdue : o.node.Due o.solo.parked move)
    (ht : Node.SubmissionTurn view o.node move h c x) (hf : x.1.future = some id) :
    ∃ t since before a,
      Inquiry o.node.site (o.moment view move :: o.log) x.1 id t since before a := by
  have hn := hs.attends.numbered
  cases Node.treats_turn hs.coherent hn hdue ht with
  | mapped hm hf' ha hx => exact hi.launched ht hf' hx hf
  | @heard id' b hs' hd hf' ha hi' hx =>
    obtain ⟨t, since, before, a, hin⟩ := hi.known h c id' hs' hf'
    obtain rfl : b = a.heard (tidingsOf since id' a.primary) :=
      Option.some_inj.1 (ha.symm.trans hin.attempt)
    have hprimary := (Attempt.knows_heard hin.fresh (tidingsOf since id' a.primary)).primary
    have ht : Node.SubmissionTurn (o.moment view move).view (o.moment view move).before
      (o.moment view move).move h c x := ht
    cases Moment.listens_turn hs.coherent hn hdue ht hf' ha with
    | ended ho =>
      rw [Submission.future_over ho] at hf
      cases hf
    | ignored hnone hx =>
      subst hx
      cases hf'.symm.trans hf
      rw [hprimary] at hnone
      have hk : (o.moment view move).checks id = [] := Moment.checks_turn ht id
      exact ⟨t, _, before, a, hin.later hnone hk⟩
    | heard he hfol =>
      rw [hprimary] at he
      have hid : id' = id := by
        rcases hfol.future with hsame | ⟨hnone, -⟩
        · exact Option.some_inj.1 (hf'.symm.trans (hsame.symm.trans hf))
        · rw [hnone] at hf
          cases hf
      subst hid
      exact ⟨t, _, before, a, hin.hears ht he hfol⟩

theorem Inquiries.act (hi : o.Inquiries) (hs : o.Steady) (hr : o.Roomy)
    (hdue : o.node.Due o.solo.parked move) : (o.act view move).Inquiries := by
  have hn := hs.attends.numbered
  constructor
  · intro h c id hc hf
    rw [site_act]
    by_cases hq : (o.moment view move).Quiet h
    · have hold : o.node.submissions.get? h = some c :=
        (Moment.submissions_of_quiet hq).symm.trans hc
      obtain ⟨t, since, before, a, hin⟩ := hi.known h c id hold hf
      have hnone : (o.moment view move).tidings? id a.primary = none :=
        Moment.tidings?_of_quiet hs.coherent hdue hq hold hf a.primary
      have hk : (o.moment view move).checks id = [] :=
        Moment.checks_of_quiet hs.coherent hn hdue hq hold hf
      exact ⟨t, _, before, a, hin.later hnone hk⟩
    · simp only [Moment.Quiet, not_forall, not_not] at hq
      obtain ⟨c₀, x, ht⟩ := hq
      have ht : Node.SubmissionTurn view o.node move h c₀ x := ht
      have hsub : (o.act view move).node.submissions.get? h = some x.1 := by
        show (o.node.move view move).1.submissions.get? h = _
        rw [(Node.submission_move ht).submissions, SortedMap.get?_insert_self]
      obtain rfl : x.1 = c := Option.some_inj.1 (hsub.symm.trans hc)
      exact hi.turned hs hdue ht hf
  · intro id hle
    -- questions are about numbers in use, and those are below the next one
    have hfree : o.node.nextFuture ≤ id := by
      rw [← UInt64.not_lt] at hle ⊢
      intro hlt
      apply hle
      have hlt' : id < (o.solo.act view move).node.nextFuture := Solo.nextFuture_lt_act hr.solo hlt
      rwa [← solo_act] at hlt'
    have hnone : (o.moment view move).checks id = [] := by
      by_contra hk
      obtain ⟨h, c, x, -, hc, hf⟩ := Moment.turn_of_checks hs.coherent hn hdue hk
      exact absurd (hs.coherent.futures h c id hc hf) (UInt64.not_lt.2 hfree)
    show checksOf (o.moment view move :: o.log) id = []
    rw [checksOf_cons, hnone, hi.unused id hfree]
    rfl

theorem Reached.inquiries (h : Reached o₀ o) (h₀ : o₀.Inquiries) : o.Inquiries := by
  induction h with
  | start => exact h₀
  | next h hs hr hn ih =>
    cases hn with
    | acts hv hdue hover => exact ih.act hs hr hdue
    | shifts ht => exact ⟨ih.known, ih.unused⟩

/-- What an attempt under way has asked.  Its request was sent at `t`; what decides are the news that
it has heard since. -/
structure Inquired (o : Outpost) (relay : NearRelay) (c : Submission) (id : FutureId) (t : Moment)
    (since before : List Moment) (a : Attempt) : Prop where
  log_eq : o.log = since ++ t :: before
  shown : Node.transmission t.view a.primary (.updateRequest a.request) ∈ t.effects
  number : a.request.future = id
  fresh : a.Fresh
  attempt : c.attempt = some (a.heard (tidingsOf since id a.primary))
  /-- One question, if the backups pass the result on and a loss left nobody to be heard. -/
  once : relay = .backups → c.syncMode = .fullSync →
    Attempt.Bereft (tidingsOf since id a.primary) → checksOf o.log id = [a.question]
  /-- So there is one if somebody was still missing once it was known whom to hear from, and all were
  lost in the end. -/
  timely : relay = .backups → c.syncMode = .fullSync → ∀ later earlier nodes,
    tidingsOf since id a.primary = later ++ earlier → Attempt.known earlier = some nodes →
    (∃ n ∈ nodes, ¬ Attempt.Accounted earlier n) →
    (∀ x m, .notice x m ∈ later → m.failedNode.isSome = true) →
    ¬ Attempt.TellsResult (later ++ earlier) →
    (∀ n ∈ nodes, Attempt.Accounted (later ++ earlier) n) → checksOf o.log id = [a.question]
  /-- No question otherwise. -/
  never : ¬ (relay = .backups ∧ c.syncMode = .fullSync ∧
    Attempt.Bereft (tidingsOf since id a.primary)) → checksOf o.log id = []

theorem inquired_of_inquiry {t : Moment} {since before : List Moment} {a : Attempt}
    (hi : Inquiry o.node.site o.log c id t since before a) :
    o.Inquired o.node.site.settings.nearRelay c id t since before a := by
  have hiff := Attempt.checkSent_iff hi.fresh (tidingsOf since id a.primary)
  rw [hi.inquires, and_assoc] at hiff
  have honce (hrelay : o.node.site.settings.nearRelay = .backups) (hsync : c.syncMode = .fullSync)
      (hbereft : Attempt.Bereft (tidingsOf since id a.primary)) :
      checksOf o.log id = [a.question] := by
    rw [hi.asked, if_pos (hiff.2 ⟨hrelay, hsync, hbereft⟩)]
  refine ⟨hi.log_eq, hi.shown, hi.number, hi.fresh, hi.attempt, honce, ?_, ?_⟩
  · intro hrelay hsync later earlier nodes hnews hknown hleft hlosses huntold hall
    apply honce hrelay hsync
    rw [hnews]
    exact .of_known hknown hleft hlosses huntold hall
  · intro hnot
    rw [hi.asked, if_neg fun hsent => hnot (hiff.1 hsent)]

/-- After any events, an attempt that is under way has asked its primary once if there was a loss that
left nobody to be heard, and has asked nothing otherwise. -/
theorem inquired_run (config : Config) (processors : Processors) (members : List NodeId)
    (es : List Happening) (hlen : es.length + 1 < UInt64.size)
    (h : Handle) (c : Submission) (id : FutureId)
    (hc : ((start config processors members).run es).node.submissions.get? h = some c)
    (hf : c.future = some id) : ∃ t since before a,
      ((start config processors members).run es).Inquired config.atomic.nearRelay c id t since
        before a := by
  obtain ⟨hr, -⟩ := reached_run config processors members es hlen
  have hi := hr.inquiries (inquiries_start config processors members)
  have hsite : ((start config processors members).run es).node.site = .ofConfig config := hr.site
  obtain ⟨t, since, before, a, hin⟩ := hi.known h c id hc hf
  have hinq := inquired_of_inquiry hin
  rw [hsite] at hinq
  exact ⟨t, since, before, a, hinq⟩

/-- Node 1 where backups pass results on, with two other nodes that own all keys. -/
def relaying : Outpost :=
  start { nodeId := 1, atomic := { nearRelay := .backups } } Processor.none [⟨1⟩, ⟨2⟩, ⟨3⟩]

def ofOthers : Occurrence → Happening := .node (.pinned [⟨2⟩, ⟨3⟩]) fun _ => none

/-- Node 2 tells that node 3 is to be heard from. -/
def fromThird : Message := .mappingNotice ⟨⟨cacheIdOf "default", 0, 1⟩, [⟨3⟩]⟩

/-- Node 1 stores a value, and learns whom to hear from before that node leaves. -/
def departedLast : List Happening :=
  [ofOthers (.submit (.put [1] [2])), ofOthers (.receive ⟨2⟩ fromThird), ofOthers (.depart ⟨3⟩)]

theorem inquired_departedLast :
    (checksOf (relaying.run departedLast).log 1).length = 1 ∧
    ∃ c t since before a, (relaying.run departedLast).Inquired .backups c 1 t since before a := by
  refine ⟨by decide +kernel, ?_⟩
  have hsome : (((relaying.run departedLast).node.submissions.get? 1).bind (·.future)) = some 1 := by
    decide +kernel
  obtain ⟨c, hc, hf⟩ := Option.bind_eq_some_iff.1 hsome
  exact ⟨c, inquired_run { nodeId := 1, atomic := { nearRelay := .backups } } Processor.none
    [⟨1⟩, ⟨2⟩, ⟨3⟩] departedLast (by decide) 1 c 1 hc hf⟩

/-- The other order: the node has left already when node 1 learns that it is to be heard from. -/
def departedFirst : List Happening :=
  [ofOthers (.submit (.put [1] [2])), ofOthers (.depart ⟨3⟩), ofOthers (.receive ⟨2⟩ fromThird)]

/-- Node 1 waits for the only backup of its update after that has left, and asks nobody. -/
theorem unasked_departedFirst :
    let o := relaying.run departedFirst
    (∃ c a, o.node.submissions.get? 1 = some c ∧ c.future = some 1 ∧ c.syncMode = .fullSync ∧
      c.attempt = some a ∧ a.primary = ⟨2⟩ ∧ a.relayed = true ∧ a.responded = false) ∧
    Attempt.known (tidingsOf o.log 1 ⟨2⟩) = some [⟨3⟩] ∧
    Attempt.Alone (tidingsOf o.log 1 ⟨2⟩) ∧ checksOf o.log 1 = [] := by
  have hnews : tidingsOf (relaying.run departedFirst).log 1 ⟨2⟩ =
      [.mapping [⟨3⟩], .departure ⟨3⟩] := by
    rfl
  have hstate : ((relaying.run departedFirst).node.submissions.get? 1).bind (fun c =>
      c.attempt.map fun a => (c.future, c.syncMode, a.primary, a.relayed, a.responded)) =
        some (some 1, .fullSync, ⟨2⟩, true, false) := by
    decide +kernel
  intro o
  refine ⟨?_, ?_, ?_, by decide +kernel⟩
  · obtain ⟨c, hc, hstate⟩ := Option.bind_eq_some_iff.1 hstate
    obtain ⟨a, ha, hstate⟩ := Option.map_eq_some_iff.1 hstate
    simp only [Prod.mk.injEq] at hstate
    exact ⟨c, a, hc, hstate.1, hstate.2.1, ha, hstate.2.2⟩
  · rw [hnews]
    rfl
  · rw [hnews]
    refine ⟨by simp [Attempt.TellsResult, News.hasResult], [⟨3⟩], rfl, ?_⟩
    simp [Attempt.Accounted]

end Outpost

end AtomicGrid
