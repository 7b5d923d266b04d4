import AtomicGrid.Proofs.Grid.Sources

/-!
# What is received is noted

A current attempt has heard all the news for it that its node was told of, and a fan-out has
recorded all receivers that have acknowledged, or were lost.

## Results

* `Grid.Reached.about_lt`: no news come before their number is given.
* `Grid.Reached.noted`: what coordinators have noted.
-/

set_option autoImplicit false

namespace AtomicGrid

/-- The move tells the fan-out with the number `id` that a receiver has acknowledged, or is lost. -/
inductive Move.Informs (id : FutureId) (o : NodeId) : Move → Prop
  | acknowledged {r : UpdateResponse} (hr : r.future = id) :
      Informs id o (.receive o (.updateResponse r))
  | lost (who : Registered) : Informs id o (.lose o (id, who))

theorem Move.about_of_informs {move : Move} {id : FutureId} {o : NodeId} (h : move.Informs id o) :
    move.about? = some id := by
  cases h with
  | acknowledged hr => exact congrArg some hr
  | lost who => rfl

namespace Node

variable {n : Node} {waiting : Handle → Nat} {view : View} {move : Move}

/-- The fan-out `f`, with the number `id`, becomes `f'` as it notes whom the move tells it of. -/
structure Learns (move : Move) (id : FutureId) (f f' : Fanout) : Prop where
  receivers : ∀ o, (∃ r, f'.receivers.get? o = some r) → ∃ r, f.receivers.get? o = some r
  keeps : ∀ o, f.Responded o → f'.Responded o
  informed : ∀ o, move.Informs id o → (∃ r, f.receivers.get? o = some r) → f'.Responded o

/-- A fan-out that is told of a receiver records it. -/
theorem learns_informed (hc : n.Coherent waiting) (hdue : n.Due waiting move)
    (hcache : ∀ s m, move = .receive s m → m.envelope.cacheId = n.site.cacheId) {id : FutureId}
    {f f' : Fanout} {o : NodeId} (hreg : n.registry.get? id = some .fanout)
    (hf : n.fanouts.get? id = some f) (hinf : move.Informs id o)
    (hf' : (n.move view move).1.fanouts.get? id = some f') : Learns move id f f' := by
  obtain ⟨hid, hs, -⟩ := hc.fanouts id f hf
  have hk : ∃ lost, Acknowledges n move id f o lost := by
    cases hinf with
    | acknowledged hr =>
      subst hr
      exact ⟨false, .answer (hcache _ _ rfl) hreg hf⟩
    | lost who =>
      cases Option.some_inj.1 (hreg.symm.trans hdue)
      exact ⟨true, .departure hf o⟩
  obtain ⟨lost, hk⟩ := hk
  have htr := Fanout.tracks_register n.site hs o lost
  have hget : (n.move view move).1.fanouts.get? id = some (f.register n.site o lost).1 := by
    rw [(acknowledged_move hk).1.fanouts, Fanout.id_eq htr.toSameFanout, hid,
      SortedMap.get?_insert_self]
  cases Option.some_inj.1 (hf'.symm.trans hget)
  refine ⟨fun o' => (Fanout.receiver_iff htr.toSameFanout o').1,
    fun o' ho' => (htr.responded o').2 (.inl ho'), fun o' hinf' hrec => ?_⟩
  have ho : o' = o := by
    cases hinf' with
    | acknowledged hr => cases hinf with | acknowledged => rfl
    | lost who => cases hinf with | lost => rfl
  subst ho
  exact (htr.responded o').2 (.inr ⟨rfl, hrec⟩)

/-- A fan-out that is told of nobody, or has no number any more, has nothing to record. -/
theorem learns_refl (hc : n.Coherent waiting) {id : FutureId} {f : Fanout}
    (hf : n.fanouts.get? id = some f)
    (h : ¬ (n.registry.get? id = some .fanout ∧ ∃ o, move.Informs id o)) :
    Learns move id f f := by
  refine ⟨fun o h => h, fun o h => h, fun o hinf ⟨r, hr⟩ => ⟨r, hr, ?_⟩⟩
  -- a fan-out without a number is done
  cases hd : f.done with
  | false => exact absurd ⟨(hc.fanout id).2 ⟨f, hf, hd⟩, o, hinf⟩ h
  | true => exact ((hc.fanouts id f hf).2.1.done.1 hd).2 o r hr

/-- A fan-out after a move: it is new, or it has recorded whom the move tells of. -/
theorem fanout_move (hc : n.Coherent waiting) (hdue : n.Due waiting move)
    (hcache : ∀ s m, move = .receive s m → m.envelope.cacheId = n.site.cacheId) {id : FutureId}
    {f' : Fanout} (hf' : (n.move view move).1.fanouts.get? id = some f') :
    (id = n.nextFuture ∧ move.about? = none) ∨
      ∃ f, n.fanouts.get? id = some f ∧ Learns move id f f' := by
  by_cases hinf : n.registry.get? id = some .fanout ∧ ∃ o, move.Informs id o
  · obtain ⟨hreg, o, hinf⟩ := hinf
    obtain ⟨f, hf, -⟩ := (hc.fanout id).1 hreg
    exact .inr ⟨f, hf, learns_informed hc hdue hcache hreg hf hinf hf'⟩
  · have hsame (hf : n.fanouts.get? id = some f') :
        ∃ f, n.fanouts.get? id = some f ∧ Learns move id f f' :=
      ⟨f', hf, learns_refl hc hf hinf⟩
    have ht : n.Turn view move (n.move view move) := turn_move move
    cases ht with
    | submission ht ha => exact .inr (hsame (ha.fanouts ▸ hf'))
    | plain ht ha => exact .inr (hsame (ha.fanouts ▸ hf'))
    | carried hm hco ha hn hs =>
      rw [ha.fanouts, SortedMap.get?_insert_ite] at hf'
      split at hf'
      next he =>
        refine .inl ⟨he.trans id_opened, ?_⟩
        cases hm with
        | received hc => rfl
        | resumed v => rfl
      next => exact .inr (hsame hf')
    | @acknowledged id' f o lost hk ha hn hs =>
      obtain ⟨hid, hsound, -⟩ := hc.fanouts id' f hk.get?
      have htr := Fanout.tracks_register n.site hsound o lost
      rw [ha.fanouts, SortedMap.get?_insert_ite] at hf'
      split at hf'
      next he =>
        have he : id = id' := he.trans ((Fanout.id_eq htr.toSameFanout).trans hid)
        subst he
        refine absurd ?_ hinf
        cases hk with
        | answer hi hr hf => exact ⟨hr, _, .acknowledged rfl⟩
        | departure hf gone => exact ⟨hdue, _, .lost _⟩
      next => exact .inr (hsame hf')

end Node

namespace Grid

variable {config : Config} {affinity : Affinity} {processors : Processors} {ids : List NodeId}
  {g g₀ : Grid} {n : NodeId} {move : Move} {L : List Moment} {id : FutureId}

/-- A message is about a number that was given before. -/
theorem Reached.about_lt_received (h : Reached (start ids config affinity processors) g)
    {t : Moment} (ht : t ∈ g.log) {s : NodeId} {m : Message} (hm : t.move = .receive s m)
    {id : FutureId} (hid : t.move.about? = some id) : id < (g.nodes t.node).nextFuture := by
  have hsent := h.sent_of_move ht hm
  rw [hm] at hid
  cases m with
  | updateResponse r =>
    cases hid
    rcases h.responds hsent with hl | ⟨t₁, ht₁, hn₁, hi₁, near, q, hc, -⟩
    · exact h.lt_of_launched hl
    · rw [← hn₁, ← hi₁]
      exact h.counted.allots t₁ ht₁ hc.after.2
  | mappingNotice m =>
    cases hid
    obtain ⟨t₁, q, hc, -⟩ := h.mapping_source hsent
    exact h.lt_of_launched (h.launched_of_carried hc)
  | backupNotice m =>
    cases hid
    obtain ⟨t₁, q, o, hc, -⟩ := h.notice_source hsent
    exact h.lt_of_launched (h.launched_of_carried hc)
  | _ => cases hid

/-- No news come before their number is given. -/
theorem Reached.about_lt (h : Reached (start ids config affinity processors) g) :
    ∀ t ∈ g.log, ∀ id, t.move.about? = some id → id < (g.nodes t.node).nextFuture := by
  induction h with
  | init => exact fun t ht => (nomatch ht)
  | @next g g' h hr hn ih =>
    have h' := h.next hr hn
    cases hn with
    | @act n move g₀ ho =>
      intro t ht id hid
      have hs := ho.same
      have ht' := ht
      rw [hs.log_act] at ht
      rcases List.mem_cons.1 ht with rfl | ht
      · cases hmove : (g.moment n move).move with
        | receive s m => exact h'.about_lt_received ht' hmove hid
        | lose gone r =>
          rw [hmove] at hid
          cases hid
          have hmove : move = .lose gone r := hmove
          subst hmove
          exact nextFuture_act hr hs n ((h.coherent n).lt_of_registered ho.due)
        | _ =>
          rw [hmove] at hid
          cases hid
      · exact nextFuture_act hr hs _ (ih t ht id hid)
    | depart hn => exact ih
    | told hi ht => exact ih
    | exchange members => exact ih
    | settle => exact ih

/-- The attempt `a`, with the news `es`, has heard all that its node was told of. -/
structure Abreast (L : List Moment) (n : NodeId) (id : FutureId) (a : Attempt) (es : List News) :
    Prop where
  news : ∀ t ∈ L, t.node = n → ∀ e, t.Tells id e → e ∈ es
  answered : ∀ t ∈ L, t.node = n → ∀ s r, t.move = .receive s (.updateResponse r) →
    r.future = id → a.responded = true
  lost : ∀ t ∈ L, t.node = n → ∀ who, t.move = .lose a.primary (id, who) → a.responded = true

/-- What coordinators have noted. -/
structure Noted (g : Grid) : Prop where
  attempts : ∀ n h c id a, (g.nodes n).submissions.get? h = some c → c.future = some id →
    c.attempt = some a → ∃ t c₀ es, Underway g.log n h c id a t c₀ es ∧ Abreast g.log n id a es
  fanouts : ∀ n id f, (g.nodes n).fanouts.get? id = some f → ∀ t ∈ g.log, t.node = n →
    ∀ o, t.move.Informs id o → (∃ r, f.receivers.get? o = some r) → f.Responded o

theorem Abreast.skip {a : Attempt} {es : List News} (h : Abreast L n id a es) {t : Moment}
    (ht : t.node = n → t.move.about? ≠ some id) : Abreast (t :: L) n id a es where
  news t' ht' hn e he := by
    rcases List.mem_cons.1 ht' with rfl | ht'
    · exact absurd he.about (ht hn)
    · exact h.news t' ht' hn e he
  answered t' ht' hn s r hm hr := by
    rcases List.mem_cons.1 ht' with rfl | ht'
    · exact absurd (by rw [hm]; exact congrArg some hr) (ht hn)
    · exact h.answered t' ht' hn s r hm hr
  lost t' ht' hn who hm := by
    rcases List.mem_cons.1 ht' with rfl | ht'
    · exact absurd (by rw [hm]; rfl) (ht hn)
    · exact h.lost t' ht' hn who hm

theorem abreast_fresh (hlt : ∀ t ∈ L, t.node = n → t.move.about? ≠ some id) (a : Attempt) :
    Abreast L n id a [] where
  news t ht hn e he := absurd he.about (hlt t ht hn)
  answered t ht hn s r hm hr := absurd (by rw [hm]; exact congrArg some hr) (hlt t ht hn)
  lost t ht hn who hm := absurd (by rw [hm]; rfl) (hlt t ht hn)

theorem Underway.goes {h : Handle} {c c' : Submission} {a a' : Attempt} {t t₀ : Moment}
    {c₀ : Submission} {es : List News} (hu : Underway L t.node h c id a t₀ c₀ es)
    (hab : Abreast L t.node id a es) (hconc : t.move.about? = some id → t.move.Concerns a)
    (hcache : ∀ s m, t.move = .receive s m → m.envelope.cacheId = t.before.site.cacheId)
    (hs : Submission.SameUpdate c c') (hg : Goes t id a a') :
    ∃ es, Underway (t :: L) t.node h c' id a' t₀ c₀ es ∧ Abreast (t :: L) t.node id a' es := by
  have hold := (hu.update hs).mono (List.subset_cons_self t L)
  cases hg with
  | unaware hi => exact ⟨es, hold, hab.skip fun _ => hi hcache⟩
  | ignored hi hc =>
    obtain ⟨hresp, hnone⟩ := hc (hconc hi)
    refine ⟨es, hold, fun t' ht' hn e he => ?_, fun _ _ _ _ _ _ _ => hresp, fun _ _ _ _ _ => hresp⟩
    rcases List.mem_cons.1 ht' with rfl | hmem
    · rw [he.news] at hnone
      cases hnone
    · exact hab.news t' hmem hn e he
  | @heard e he hp hc hans hlost =>
    refine ⟨e :: es, hu.hear_news he hp hc hs, fun t' ht' hn e' he' => ?_,
      fun t' ht' hn s r hm hr => ?_, fun t' ht' hn who hm => ?_⟩
    · rcases List.mem_cons.1 ht' with rfl | hmem
      · rw [Option.some_inj.1 (he'.news.symm.trans he.news)]
        exact List.mem_cons_self
      · exact List.mem_cons_of_mem _ (hab.news t' hmem hn e' he')
    · rcases List.mem_cons.1 ht' with rfl | hmem
      · exact hans s r hm
      · rw [Attempt.responded_hear, hab.answered t' hmem hn s r hm hr, Bool.true_or]
    · rw [hu.hear_primary] at hm
      suffices hr : a.responded = true by rw [Attempt.responded_hear, hr, Bool.true_or]
      rcases List.mem_cons.1 ht' with rfl | hmem
      · exact hlost _ hm
      · exact hab.lost t' hmem hn who hm

theorem Noted.act {g' : Grid} (hg' : g' = g₀.act n move) (hnote : g.Noted)
    (h : Reached (start ids config affinity processors) g)
    (h' : Reached (start ids config affinity processors) g') (ho : Occasion g n move g₀) :
    g'.Noted := by
  have hs := ho.same
  let t := g.moment n move
  have hlog : g'.log = t :: g.log := by rw [hg', hs.log_act]
  have ht : t ∈ g'.log := hlog ▸ List.mem_cons_self
  have hcache : ∀ s m, t.move = .receive s m → m.envelope.cacheId = t.before.site.cacheId :=
    fun s m hm => h'.cacheId_received ht hm
  have hnode (m : NodeId) : g'.nodes m = if m = n then t.after else g.nodes m := by
    rw [hg', hs.nodes_act]
  have hsub : g.log ⊆ g'.log := by
    rw [hlog]
    exact List.subset_cons_self t g.log
  constructor
  · intro m hd c' id a' hs' hf' ha'
    rw [hnode] at hs'
    split at hs'
    next he =>
      subst he
      have hatt : Attends g.log t.node t.before := h.attended.now m
      cases continues_moment (h.coherent m) hatt.numbered ho.due hs' hf' ha' with
      | @launched c primary hl hi hsame hh ha hn =>
        subst hi ha
        rw [hlog]
        refine ⟨t, c, [], underway_launched hl hsame hh g.log,
          abreast_fresh (fun t' ht' hn' hab => ?_) _⟩
        rcases List.mem_cons.1 ht' with rfl | hold
        · rw [hn] at hab
          cases hab
        · have := h.about_lt t' hold _ hab
          rw [hn'] at this
          exact UInt64.lt_irrefl _ this
      | @went c a hsb hf ha hsame hg =>
        obtain ⟨t₀, c₀, es, hu, hab⟩ := hnote.attempts m hd c id a hsb hf ha
        have hconc : t.move.about? = some id → t.move.Concerns a :=
          h'.concerns (t := t) ht (hu.mono hsub)
        rw [hlog]
        exact ⟨t₀, c₀, Underway.goes hu hab hconc hcache hsame hg⟩
    next hne =>
      obtain ⟨t₀, c₀, es, hu, hab⟩ := hnote.attempts m hd c' id a' hs' hf' ha'
      rw [hlog]
      exact ⟨t₀, c₀, es, hu.mono (List.subset_cons_self t g.log),
        hab.skip fun hn => absurd hn.symm hne⟩
  · intro m id f hf t' ht' hn o hinf hrec
    have hlt : t' ∈ g.log → id ≠ (g.nodes m).nextFuture := by
      rintro hold rfl
      have := h.about_lt t' hold _ (Move.about_of_informs hinf)
      rw [hn] at this
      exact UInt64.lt_irrefl _ this
    rw [hnode] at hf
    split at hf
    next he =>
      subst he
      rcases Node.fanout_move (h.coherent m) ho.due hcache hf with
        ⟨hid, hnone⟩ | ⟨f₀, hf₀, hlearns⟩
      · rw [hlog] at ht'
        rcases List.mem_cons.1 ht' with rfl | hold
        · have hab : move.about? = some id := Move.about_of_informs hinf
          rw [hnone] at hab
          cases hab
        · exact absurd hid (hlt hold)
      · rw [hlog] at ht'
        rcases List.mem_cons.1 ht' with rfl | hold
        · exact hlearns.informed o hinf (hlearns.receivers o hrec)
        · exact hlearns.keeps o
            (hnote.fanouts m id f₀ hf₀ t' hold hn o hinf (hlearns.receivers o hrec))
    next hne =>
      rw [hlog] at ht'
      rcases List.mem_cons.1 ht' with rfl | hold
      · exact absurd hn.symm hne
      · exact hnote.fanouts m id f hf t' hold hn o hinf hrec

theorem Reached.noted (h : Reached (start ids config affinity processors) g) : g.Noted := by
  induction h with
  | init => exact ⟨fun _ _ _ _ _ hs => (nomatch hs), fun _ _ _ hf => (nomatch hf)⟩
  | next h hr hn ih =>
    have h' := h.next hr hn
    cases hn with
    | act ho => exact ih.act rfl h h' ho
    | depart hn => exact ⟨ih.attempts, ih.fanouts⟩
    | told hi ht => exact ⟨ih.attempts, ih.fanouts⟩
    | exchange members => exact ⟨ih.attempts, ih.fanouts⟩
    | settle => exact ⟨ih.attempts, ih.fanouts⟩

end Grid

end AtomicGrid
