import AtomicGrid.Proofs.Grid.Departures
import AtomicGrid.Proofs.Node.Hearing

/-!
# How attempts come about

Every current attempt was launched by a move on its node, and what it knows is what moves since then
have told it.

## Results

* `Grid.Reached.attended`: the launch and the news of every current attempt, now and at every move.
-/

set_option autoImplicit false

namespace AtomicGrid

namespace Moment

def request (t : Moment) (c : Submission) : UpdateRequest :=
  c.request t.before.site t.view t.number

/-- The attempt that starts now. -/
def opening (t : Moment) (c : Submission) (primary : NodeId) : Attempt :=
  c.opening t.before.site t.view t.number primary

theorem opening_fresh (t : Moment) (c : Submission) (primary : NodeId) :
    (t.opening c primary).Fresh := Submission.opening_fresh _ _

structure Launches (t : Moment) (h : Handle) (c : Submission) (primary : NodeId) : Prop where
  turn : ∃ x, Node.SubmissionTurn t.view t.before t.move h c x
  maps : t.move.maps = true
  launches : c.launches t.view.topology = true
  mapped : t.view.primary c.update.key t.view.topology.version = some primary
  reaches : t.view.reaches primary = true
  allots : t.Allots
  sent : Node.transmission t.view primary (.updateRequest (t.request c)) ∈ t.effects

/-- The move tells the attempt with the number `id` some news. -/
structure Tells (t : Moment) (id : FutureId) (e : News) : Prop where
  about : t.move.about? = some id
  news : t.move.news? = some e

variable {t : Moment}

/-- A move launches one attempt at most. -/
theorem Launches.unique {h h' : Handle} {c c' : Submission} {p p' : NodeId}
    (hl : t.Launches h c p) (hl' : t.Launches h' c' p') : h = h' ∧ c = c' ∧ p = p' := by
  obtain ⟨x, ht⟩ := hl.turn
  obtain ⟨x', ht'⟩ := hl'.turn
  have hm := hl.maps
  have hhc : h = h' ∧ c = c' := by
    generalize t.move = move at ht ht' hm
    cases ht with
    | submit hu hc =>
      cases ht' with
      | submit hu' hc' => exact ⟨rfl, hc.trans hc'.symm⟩
    | resume hs awaited =>
      cases ht' with
      | resume hs' awaited' => exact ⟨rfl, Option.some_inj.1 (hs.symm.trans hs')⟩
    | _ => cases hm
  refine ⟨hhc.1, hhc.2, Option.some_inj.1 (hl.mapped.symm.trans ?_)⟩
  rw [hhc.2]
  exact hl'.mapped

theorem launches_of_turn {h : Handle} {c : Submission} {x : Submission × List SubmissionAction}
    {primary : NodeId} (ht : Node.SubmissionTurn t.view t.before t.move h c x)
    (hm : t.move.maps = true) (hl : c.launches t.view.topology = true)
    (hp : t.view.primary c.update.key t.view.topology.version = some primary)
    (hr : t.view.refusal primary = none)
    (hs : .send primary (.updateRequest (t.request c)) ∈ x.2) : t.Launches h c primary where
  turn := ⟨x, ht⟩
  maps := hm
  launches := hl
  mapped := hp
  reaches := by rw [View.reaches, hr]; rfl
  allots := by
    show (t.before.move t.view t.move).1.nextFuture = _
    rw [(Node.submission_move ht).nextFuture, hm, hl]
    rfl
  sent := by
    show _ ∈ (t.before.move t.view t.move).2
    rw [(Node.submission_move ht).effects]
    exact List.mem_flatMap.2 ⟨_, hs, List.mem_singleton_self _⟩

theorem request_keys (t : Moment) (c : Submission) : (t.request c).keys = [c.update.key] :=
  Update.keys_payload _

end Moment

namespace Grid

open Submission (SameUpdate)

/-- How the current attempt `a` at a submission came about: it was launched at `t`, for the
submission as it was then, and has heard the news `es`, the last of them first. -/
structure Underway (L : List Moment) (n : NodeId) (h : Handle) (c : Submission) (id : FutureId)
    (a : Attempt) (t : Moment) (c₀ : Submission) (es : List News) : Prop where
  mem : t ∈ L
  node : t.node = n
  number : t.number = id
  launches : t.Launches h c₀ a.primary
  same : SameUpdate c₀ c
  home : c.syncMode = .fullAsync → a.primary = t.before.site.node
  attempt : a = (t.opening c₀ a.primary).heard es
  going : (t.opening c₀ a.primary).Going es
  told : ∀ e ∈ es, ∃ t' ∈ L, t'.node = n ∧ t'.Tells id e
  /-- An attempt that had to has asked its primary. -/
  asked : a.checkSent = true → ∃ t' ∈ L, t'.node = n ∧ Node.transmission t'.view a.primary
    (.checkRequest ⟨a.request.toEnvelope, some a.request⟩) ∈ t'.effects

/-- All current attempts of a node have come about by the moves on record. -/
def Attends (L : List Moment) (n : NodeId) (x : Node) : Prop :=
  ∀ h c id a, x.submissions.get? h = some c → c.future = some id → c.attempt = some a →
    ∃ t c₀ es, Underway L n h c id a t c₀ es

/-- All current attempts, of all times, have come about by the moves on record. -/
structure Attended (g : Grid) : Prop where
  now : ∀ n, Attends g.log n (g.nodes n)
  before : ∀ t ∈ g.log, Attends g.log t.node t.before

variable {config : Config} {affinity : Affinity} {processors : Processors} {ids : List NodeId}
  {g g₀ : Grid} {n : NodeId} {move : Move} {L : List Moment} {h : Handle} {c : Submission}
  {id : FutureId} {a : Attempt} {t t₀ : Moment} {c₀ : Submission} {es : List News}

theorem Underway.mono {L' : List Moment} (hu : Underway L n h c id a t c₀ es) (hL : L ⊆ L') :
    Underway L' n h c id a t c₀ es :=
  { hu with
    mem := hL hu.mem
    told := fun e he =>
      let ⟨t, ht, htell⟩ := hu.told e he
      ⟨t, hL ht, htell⟩
    asked := fun hc =>
      let ⟨t, ht, hs⟩ := hu.asked hc
      ⟨t, hL ht, hs⟩ }

theorem Attends.mono {L' : List Moment} {x : Node} (hx : Attends L n x) (hL : L ⊆ L') :
    Attends L' n x :=
  fun h c id a hs hf ha =>
    let ⟨t, c₀, es, hu⟩ := hx h c id a hs hf ha
    ⟨t, c₀, es, hu.mono hL⟩

theorem Underway.knows (hu : Underway L n h c id a t c₀ es) :
    (t.opening c₀ a.primary).Knows es a := by
  have := Attempt.knows_heard (t.opening_fresh c₀ a.primary) es
  rwa [← hu.attempt] at this

theorem Underway.request (hu : Underway L n h c id a t c₀ es) : a.request = t.request c₀ :=
  hu.knows.request

theorem Attends.numbered {x : Node} (hx : Attends L n x) : x.Numbered := by
  intro h c id a hs hf ha
  obtain ⟨t, c₀, es, hu⟩ := hx h c id a hs hf ha
  rw [hu.request, Moment.request_keys]
  exact ⟨hu.number, by simp⟩

theorem Underway.knows_hear (hu : Underway L n h c id a t c₀ es) (e : News) :
    (t.opening c₀ a.primary).Knows (e :: es) (a.hear e).1 := by
  have := Attempt.knows_heard (t.opening_fresh c₀ a.primary) (e :: es)
  unfold Attempt.heard at this
  rwa [← hu.attempt] at this

theorem Underway.hear_primary (hu : Underway L n h c id a t c₀ es) (e : News) :
    (a.hear e).1.primary = a.primary := (hu.knows_hear e).primary

theorem Underway.hear_request (hu : Underway L n h c id a t c₀ es) (e : News) :
    (a.hear e).1.request = a.request := (hu.knows_hear e).request.trans hu.request.symm

theorem Underway.hear (hu : Underway L n h c id a t c₀ es) {t' : Moment} (hn : t'.node = n)
    {e : News} (he : t'.Tells id e) {c' : Submission} (hs : SameUpdate c c')
    (hp : (a.hear e).2 ≠ .finished)
    (hc : (a.hear e).2 = .unconfirmed → Node.transmission t'.view a.primary
      (.checkRequest ⟨a.request.toEnvelope, some a.request⟩) ∈ t'.effects) :
    Underway (t' :: L) n h c' id (a.hear e).1 t c₀ (e :: es) := by
  have hprim := hu.hear_primary e
  have hreq := hu.hear_request e
  have hu' := hu.mono (List.subset_cons_self t' L)
  exact {
    mem := hu'.mem
    node := hu.node
    number := hu.number
    launches := hprim ▸ hu.launches
    same := hu.same.trans hs
    home := fun h => hprim ▸ hu.home (hs.syncMode ▸ h)
    attempt := by
      rw [hprim]
      unfold Attempt.heard
      rw [← hu.attempt]
    going := by
      rw [hprim]
      unfold Attempt.Going
      rw [← hu.attempt]
      exact ⟨hu.going, hp⟩
    told := fun e' he' => by
      rcases List.mem_cons.1 he' with rfl | he'
      · exact ⟨t', List.mem_cons_self, hn, he⟩
      · exact hu'.told e' he'
    asked := fun hsent => by
      rw [hprim, hreq]
      rcases Attempt.checkSent_hear hsent with hold | hnew
      · exact hu'.asked hold
      · exact ⟨t', List.mem_cons_self, hn, hc hnew⟩ }

/-- What the move `t` makes of the current attempt `a`. -/
inductive Goes (t : Moment) (id : FutureId) (a : Attempt) : Attempt → Prop
  | unaware (hi : (∀ s m, t.move = .receive s m → m.envelope.cacheId = t.before.site.cacheId) →
      t.move.about? ≠ some id) : Goes t id a a
  | ignored (hi : t.move.about? = some id)
      (hc : t.move.Concerns a → a.responded = true ∧ t.move.news? = none) : Goes t id a a
  | heard {e : News} (he : t.Tells id e) (hp : (a.hear e).2 ≠ .finished)
      (hc : (a.hear e).2 = .unconfirmed → Node.transmission t.view (a.hear e).1.primary
        (.checkRequest ⟨(a.hear e).1.request.toEnvelope, some (a.hear e).1.request⟩) ∈ t.effects)
      (answered : ∀ sender r, t.move = .receive sender (.updateResponse r) →
        (a.hear e).1.responded = true)
      (lost : ∀ r, t.move = .lose a.primary r → a.responded = true) : Goes t id a (a.hear e).1

/-- Where the current attempt of a submission `c'` comes from: the move has launched it, or it went
on. -/
inductive Continues (t : Moment) (h : Handle) (c' : Submission) (id : FutureId) (a' : Attempt) :
    Prop
  | launched {c : Submission} {primary : NodeId} (hl : t.Launches h c primary)
      (hi : id = t.number) (hs : SameUpdate c c')
      (hh : c'.syncMode = .fullAsync → primary = t.before.site.node)
      (ha : a' = t.opening c primary) (hn : t.move.about? = none)
  | went {c : Submission} {a : Attempt} (hs : t.before.submissions.get? h = some c)
      (hf : c.future = some id) (ha : c.attempt = some a) (hsame : SameUpdate c c')
      (hg : Goes t id a a')

theorem about_of_maps {move : Move} (hm : move.maps = true) : move.about? = none := by
  cases move with
  | submit u => rfl
  | resume task awaited => rfl
  | _ => cases hm

theorem continues_heard {c' : Submission} {a' : Attempt} {id' : FutureId}
    {x : Submission × List SubmissionAction}
    (ht : Node.SubmissionTurn t.view t.before t.move h c x)
    (hs : t.before.submissions.get? h = some c) (hf : c.future = some id) (ha : c.attempt = some a)
    (hi : t.move.about? = some id) (hx : c.Heeds a t.move x) (hc' : x.1 = c')
    (hf' : c'.future = some id') (ha' : c'.attempt = some a') : Continues t h c' id' a' := by
  subst hc'
  cases hx with
  | ended ho => rw [Submission.future_over ho] at hf'; cases hf'
  | ignored hx hc =>
    subst hx
    cases (hf.symm.trans hf' : some id = some id')
    cases (ha.symm.trans ha' : some a = some a')
    exact .went hs hf ha (.refl c) (.ignored hi hc)
  | @heard e ret he hfol hans hlost =>
    have hafter := Node.submission_move ht
    generalize hp : (a.hear e).2 = p at hfol
    cases hfol with
    | pending =>
      cases (hf.symm.trans hf' : some id = some id')
      cases ha'
      exact .went hs hf ha ⟨rfl, rfl, rfl⟩ (.heard ⟨hi, he⟩ (by simp [hp]) (by simp [hp])
        (fun s r hm => (hans s r hm).1) hlost)
    | unconfirmed =>
      cases (hf.symm.trans hf' : some id = some id')
      cases ha'
      refine .went hs hf ha ⟨rfl, rfl, rfl⟩ (.heard ⟨hi, he⟩ (by simp [hp]) (fun _ => ?_)
        (fun s r hm => (hans s r hm).1) hlost)
      show _ ∈ (t.before.move t.view t.move).2
      rw [hafter.effects]
      exact List.mem_flatMap.2 ⟨_, List.mem_singleton_self _, List.mem_singleton_self _⟩
    | finished hn => cases hf'

theorem continues_moment {waiting : Handle → Nat} (hc : t.before.Coherent waiting)
    (hn : t.before.Numbered) (hdue : t.before.Due waiting t.move) {h' : Handle} {c' : Submission}
    {id' : FutureId} {a' : Attempt} (hs' : t.after.submissions.get? h' = some c')
    (hf' : c'.future = some id') (ha' : c'.attempt = some a') : Continues t h' c' id' a' := by
  -- a submission that the move is not about stays as it is
  have hskip (hs : t.before.submissions.get? h' = some c')
      (hi : (∀ s m, t.move = .receive s m → m.envelope.cacheId = t.before.site.cacheId) →
        t.move.about? ≠ some id') : Continues t h' c' id' a' :=
    .went hs hf' ha' (.refl c') (.unaware hi)
  have hd : t.before.Dealt t.view t.move := Node.dealt_move hc hn hdue
  cases hd with
  | unnoticed hs hi =>
    rw [Moment.after, hs] at hs'
    exact hskip hs' fun hcache hab =>
      hi hcache id' h' hab ((hc.submission id' h').2 ⟨c', hs', hf'⟩)
  | @noticed h c x ht htreat =>
    rw [Moment.after, (Node.submission_move ht).submissions, SortedMap.get?_insert_ite] at hs'
    split at hs'
    next he =>
      subst he
      rw [Option.some_inj] at hs'
      cases htreat with
      | heard hs hd hf ha hi hheed =>
        exact continues_heard ht hs hf ha hi hheed hs' hf' ha'
      | mapped hm hf ha hmap =>
        subst hs'
        cases hmap with
        | done => rw [hf] at hf'; cases hf'
        | ended _ ho => rw [Submission.future_over ho] at hf'; cases hf'
        | ownerless _ _ ho => rw [Submission.future_over ho] at hf'; cases hf'
        | refused _ _ _ ho => rw [Submission.future_over ho] at hf'; cases hf'
        | async => cases hf'
        | @sent hl primary hp hr hs =>
          cases hf'
          cases ha'
          exact .launched (Moment.launches_of_turn ht hm hl hp hr
            (by simp [Moment.request, Moment.number])) rfl ⟨rfl, rfl, rfl⟩ hs rfl (about_of_maps hm)
    next hne =>
      refine hskip hs' fun _ hab => ?_
      cases htreat with
      | mapped hm hf ha hmap =>
        rw [about_of_maps hm] at hab
        cases hab
      | heard hs hd hf ha hi hheed =>
        -- the news are for the number of the other submission
        cases Option.some_inj.1 (hi.symm.trans hab)
        have hr := (hc.submission id' h).2 ⟨c, hs, hf⟩
        rw [(hc.submission id' h').2 ⟨c', hs', hf'⟩, Option.some_inj,
          Registered.submission.injEq] at hr
        exact hne hr

theorem underway_launched {c' : Submission} {primary : NodeId} (hl : t.Launches h c primary)
    (hs : SameUpdate c c') (hh : c'.syncMode = .fullAsync → primary = t.before.site.node)
    (L : List Moment) :
    Underway (t :: L) t.node h c' t.number (t.opening c primary) t c [] where
  mem := List.mem_cons_self
  node := rfl
  number := rfl
  launches := hl
  same := hs
  home := hh
  attempt := rfl
  going := trivial
  told e he := by cases he
  asked hc := by cases hc

theorem Underway.update (hu : Underway L n h c id a t₀ c₀ es) {c' : Submission}
    (hs : SameUpdate c c') : Underway L n h c' id a t₀ c₀ es :=
  { hu with
    same := hu.same.trans hs
    home := fun h => hu.home (hs.syncMode ▸ h) }

theorem Underway.hear_news (hu : Underway L t.node h c id a t₀ c₀ es) {e : News}
    (he : t.Tells id e) (hp : (a.hear e).2 ≠ .finished)
    (hc : (a.hear e).2 = .unconfirmed → Node.transmission t.view (a.hear e).1.primary
      (.checkRequest ⟨(a.hear e).1.request.toEnvelope, some (a.hear e).1.request⟩) ∈ t.effects)
    {c' : Submission} (hs : SameUpdate c c') :
    Underway (t :: L) t.node h c' id (a.hear e).1 t₀ c₀ (e :: es) := by
  rw [hu.hear_primary, hu.hear_request] at hc
  exact hu.hear rfl he hs hp hc

theorem attends_moment {waiting : Handle → Nat} (hx : Attends L t.node t.before)
    (hc : t.before.Coherent waiting) (hdue : t.before.Due waiting t.move) :
    Attends (t :: L) t.node t.after := by
  intro h' c' id' a' hs' hf' ha'
  cases continues_moment hc hx.numbered hdue hs' hf' ha' with
  | launched hl hi hs hh ha hn =>
    subst hi ha
    exact ⟨t, _, [], underway_launched hl hs hh L⟩
  | went hs hf ha hsame hg =>
    obtain ⟨t₀, c₀, es, hu⟩ := hx h' _ id' _ hs hf ha
    have hold := (hu.update hsame).mono (List.subset_cons_self t L)
    cases hg with
    | unaware => exact ⟨t₀, c₀, es, hold⟩
    | ignored => exact ⟨t₀, c₀, es, hold⟩
    | heard he hp hc => exact ⟨t₀, c₀, _, hu.hear_news he hp hc hsame⟩

theorem Attended.act (hatt : g.Attended) (hcoh : ∀ n, (g.nodes n).Coherent (g.parked n))
    (ho : Occasion g n move g₀) : (g₀.act n move).Attended := by
  have hs := ho.same
  have hlog : (g₀.act n move).log = g.moment n move :: g.log := hs.log_act
  refine ⟨fun m => ?_, fun t ht => ?_⟩
  · rw [hlog, hs.nodes_act]
    split
    next he =>
      subst he
      exact attends_moment (t := g.moment m move) (hatt.now m) (hcoh m) ho.due
    next => exact (hatt.now m).mono (List.subset_cons_self _ _)
  · rw [hlog] at ht ⊢
    rcases List.mem_cons.1 ht with rfl | ht
    · exact (hatt.now n).mono (List.subset_cons_self _ _)
    · exact (hatt.before t ht).mono (List.subset_cons_self _ _)

theorem Reached.attended (h : Reached (start ids config affinity processors) g) : g.Attended := by
  induction h with
  | init => exact ⟨fun _ _ _ _ _ hs => (nomatch hs), fun _ ht => (nomatch ht)⟩
  | next h _ hn ih =>
    cases hn with
    | act ho => exact ih.act h.coherent ho
    | depart hn => exact ⟨ih.now, ih.before⟩
    | told hi ht => exact ⟨ih.now, ih.before⟩
    | exchange members => exact ⟨ih.now, ih.before⟩
    | settle => exact ⟨ih.now, ih.before⟩

end Grid

end AtomicGrid
