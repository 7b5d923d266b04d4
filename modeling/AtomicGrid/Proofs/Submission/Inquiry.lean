import AtomicGrid.Proofs.Submission.Finish

/-!
# When an attempt asks its primary

An attempt whose backups pass the result on may lose all of them before one has told it.  Then it
asks its primary about the update.  It looks at where it stands when it hears of a loss: whether the
primary is asked is decided by the loss that leaves nobody to wait for, and a loss of which it hears
before it knows whom to wait for decides nothing.

## Results

* `Attempt.awaiting_heard`: whom an attempt waits for, as long as no result is told.
* `Attempt.checkSent_iff`: which news make an attempt ask its primary.
* `Attempt.Bereft.of_known`: all do that lose the last backup after the mapping was known.
-/

set_option autoImplicit false

namespace AtomicGrid

/-- The nodes that the news name as those to be heard. -/
def News.names? : News → Option (List NodeId)
  | .answer nodes? => nodes?
  | .mapping nodes => some nodes
  | .notice _ m => some m.mapping
  | .departure _ => none

namespace Attempt

/-- The nodes to be heard, as the first news that name any have it. -/
def known : List News → Option (List NodeId)
  | [] => none
  | e :: es => (known es).or e.names?

/-- The news `e` lose a backup.  A departure is a loss if the node is one to be heard, and was not
accounted for yet. -/
def Losing (es : List News) : News → Prop
  | .notice _ m => m.failedNode.isSome = true
  | .departure n => (∃ nodes, known es = some nodes ∧ n ∈ nodes) ∧ ¬ Accounted es n
  | _ => False

/-- The news leave nobody to be heard, and none of them tells the result. -/
structure Alone (es : List News) : Prop where
  untold : ¬ TellsResult es
  accounted : ∃ nodes, known es = some nodes ∧ ∀ o ∈ nodes, Accounted es o

/-- There was a loss that left nobody to be heard. -/
def Bereft (es : List News) : Prop :=
  ∃ e earlier, e :: earlier <:+ es ∧ Losing earlier e ∧ Alone (e :: earlier)

/-- An attempt asks its primary when its backups, which all have to be heard, would pass the result
on. -/
def Inquires (a : Attempt) : Prop := a.relayed = true ∧ a.request.syncMode = .fullSync

/-- Whom the attempt `b` waits for after the news `es`: once the nodes to be heard are known, for
those of them that are not accounted for. -/
def Awaiting (es : List News) (b : Attempt) : Prop :=
  match known es with
  | none => b.awaited = none ∧ ∀ o, b.received.contains o = true ↔ Accounted es o
  | some nodes => ∃ w, b.awaited = some w ∧
      ∀ o, w.contains o = true ↔ o ∈ nodes ∧ ¬ Accounted es o

variable {a b : Attempt} {es : List News} {e : News} {nodes : List NodeId}

/-! ## Whom an attempt waits for -/

theorem accounted_mapping {o : NodeId} : Accounted (.mapping nodes :: es) o ↔ Accounted es o := by
  simp [Accounted]

theorem accounted_notice {x o : NodeId} {m : BackupNotice} :
    Accounted (.notice x m :: es) o ↔ o = m.about x ∨ Accounted es o := by
  constructor
  · rintro (⟨x', m', hm, ho⟩ | hm)
    · rcases List.mem_cons.1 hm with he | hm
      · cases he
        exact .inl ho.symm
      · exact .inr (.inl ⟨x', m', hm, ho⟩)
    · exact .inr (.inr (by simpa using hm))
  · rintro (rfl | ho)
    · exact .inl ⟨x, m, List.mem_cons_self, rfl⟩
    · exact ho.cons _

theorem accounted_departure {n o : NodeId} :
    Accounted (.departure n :: es) o ↔ o = n ∨ Accounted es o := by
  constructor
  · rintro (⟨x, m, hm, ho⟩ | hm)
    · exact .inr (.inl ⟨x, m, by simpa using hm, ho⟩)
    · rcases List.mem_cons.1 hm with he | hm
      · cases he
        exact .inl rfl
      · exact .inr (.inr hm)
  · rintro (rfl | ho)
    · exact .inr List.mem_cons_self
    · exact ho.cons _

theorem tellsResult_cons : TellsResult (e :: es) ↔ e.hasResult = true ∨ TellsResult es :=
  List.exists_mem_cons_iff _ _ _

theorem awaiting_fresh (h : b.Fresh) : Awaiting [] b := by
  refine ⟨h.awaited, fun o => ?_⟩
  rw [h.received]
  simp [Accounted, SortedMap.contains]

/-- After it was told whom to hear, an attempt waits for the nodes that it was told first. -/
theorem Awaiting.learn (h : Awaiting es b) (nodes : List NodeId) : ∃ w,
    (b.learn nodes).awaited = some w ∧
      ∀ o, w.contains o = true ↔ o ∈ (known es).getD nodes ∧ ¬ Accounted es o := by
  unfold Awaiting at h
  rw [awaited_learn_eq]
  cases hk : known es with
  | none =>
    rw [hk] at h
    obtain ⟨hw, hr⟩ := h
    refine ⟨_, by rw [hw, Option.getD_none], fun o => ?_⟩
    rw [SortedSet.contains_ofList, List.mem_filter, Option.getD_none, ← hr o]
    simp
  | some ns =>
    rw [hk] at h
    obtain ⟨w, hw, hc⟩ := h
    exact ⟨w, by rw [hw, Option.getD_some], hc⟩

/-- Whom an attempt waits for after news that do not tell the result. -/
theorem Awaiting.hear (h : Awaiting es b) (he : e.hasResult = false) :
    Awaiting (e :: es) (b.hear e).1 := by
  cases e with
  | answer mapping => cases he
  | mapping ns =>
    obtain ⟨w, hw, hc⟩ := h.learn ns
    have hk : known (.mapping ns :: es) = some ((known es).getD ns) := by
      cases hes : known es <;> simp [known, hes, News.names?]
    unfold Awaiting
    rw [hk]
    refine ⟨w, ?_, fun o => ?_⟩
    · simpa [Attempt.hear, onMapping] using hw
    · rw [accounted_mapping]
      exact hc o
  | notice x m =>
    obtain ⟨w, hw, hc⟩ := h.learn m.mapping
    have hk : known (.notice x m :: es) = some ((known es).getD m.mapping) := by
      cases hes : known es <;> simp [known, hes, News.names?]
    have hr : m.result?.isSome = false := he
    unfold Awaiting
    rw [hk]
    refine ⟨w.erase (m.about x), ?_, fun o => ?_⟩
    · simp [Attempt.hear, onNotice, hr, crossOff, hw, BackupNotice.about]
    · rw [accounted_notice, SortedSet.contains_erase, hc o]
      tauto
  | departure n =>
    have hk : known (.departure n :: es) = known es := by
      simp [known, News.names?]
    unfold Awaiting at h ⊢
    rw [hk]
    cases hes : known es with
    | none =>
      rw [hes] at h
      obtain ⟨hw, hr⟩ := h
      refine ⟨by simp [Attempt.hear, onDeparture, hw], fun o => ?_⟩
      rw [accounted_departure, ← hr o]
      simp [Attempt.hear, onDeparture, hw, SortedSet.contains_add]
    | some ns =>
      rw [hes] at h
      obtain ⟨w, hw, hc⟩ := h
      by_cases hn : w.contains n = true
      · refine ⟨w.erase n, ?_, fun o => ?_⟩
        · simp [Attempt.hear, onDeparture, hw, hn]
        · rw [accounted_departure, SortedSet.contains_erase, hc o]
          tauto
      · refine ⟨w, ?_, fun o => ?_⟩
        · simp [Attempt.hear, onDeparture, hw, hn]
        · -- who leaves is not awaited, so nothing changes
          rw [hc n] at hn
          rw [accounted_departure, hc o]
          constructor
          · rintro ⟨ho, hacc⟩
            refine ⟨ho, ?_⟩
            rintro (rfl | hacc')
            · exact hn ⟨ho, hacc⟩
            · exact hacc hacc'
          · rintro ⟨ho, hacc⟩
            exact ⟨ho, fun h' => hacc (.inr h')⟩

/-- Whom an attempt waits for, as long as no result is told. -/
theorem awaiting_heard (h : a.Fresh) : ∀ {es : List News}, ¬ TellsResult es →
    Awaiting es (a.heard es)
  | [], _ => awaiting_fresh h
  | e :: es, hes => by
    rw [tellsResult_cons, not_or, Bool.not_eq_true] at hes
    exact (awaiting_heard h hes.2).hear hes.1

/-- An attempt that nobody is left to tell has nobody to wait for, and conversely. -/
theorem Awaiting.deserted_iff (h : Awaiting es b) :
    b.Deserted ↔ ∃ nodes, known es = some nodes ∧ ∀ o ∈ nodes, Accounted es o := by
  unfold Awaiting at h
  cases hes : known es with
  | none =>
    rw [hes] at h
    simp [Deserted, h.1]
  | some ns =>
    rw [hes] at h
    obtain ⟨w, hw, hc⟩ := h
    have hempty : (∀ o, w.contains o = false) ↔ ∀ o ∈ ns, Accounted es o := by
      constructor
      · intro hw o ho
        by_contra hacc
        have hin := (hc o).2 ⟨ho, hacc⟩
        rw [hw o] at hin
        cases hin
      · intro hall o
        rw [← Bool.not_eq_true, hc o]
        rintro ⟨ho, hacc⟩
        exact hacc (hall o ho)
    simp [Deserted, hw, hempty]

/-! ## When the primary is asked -/

/-- Whether an attempt asks the primary when it looks at where it stands. -/
theorem checkSent_progress_iff (b : Attempt) (afterLoss : Bool) :
    (b.progress afterLoss).1.checkSent = true ↔ b.checkSent = true ∨
      b.Deserted ∧ b.hasResult = false ∧ afterLoss = true ∧ b.Inquires := by
  unfold progress Deserted Inquires
  cases hw : b.awaited with
  | none => simp
  | some w =>
    have he : (∀ o, w.contains o = false) ↔ w.isEmpty = true := SortedSet.isEmpty_iff.symm
    simp only [Option.some_inj, exists_eq_left', he]
    cases w.isEmpty with
    | false => simp
    | true =>
      cases hr : b.hasResult with
      | true => simp
      | false =>
        by_cases hc : (afterLoss && b.relayed && !b.checkSent && b.request.syncMode = .fullSync) = true
        · simp only [if_true, Bool.false_eq_true, if_false, hc]
          simp only [Bool.and_eq_true, decide_eq_true_eq] at hc
          simp [hc]
        · simp only [if_true, Bool.false_eq_true, if_false, hc]
          simp only [Bool.and_eq_true, decide_eq_true_eq, Bool.not_eq_true'] at hc
          cases hsent : b.checkSent with
          | true => simp
          | false =>
            simp only [Bool.false_eq_true, false_or, true_and, false_iff]
            rintro ⟨hloss, hrel, hs⟩
            exact hc ⟨⟨⟨hloss, hrel⟩, hsent⟩, hs⟩

/-- Once the result is known the primary is not asked any more. -/
theorem checkSent_hear_of_hasResult (hr : (b.hear e).1.hasResult = true) :
    (b.hear e).1.checkSent = b.checkSent := by
  have hx := b.hears e
  generalize b.hear e = x at hx hr
  cases hx with
  | nothing hi => exact hi.checkSent
  | alone => rfl
  | @weighed e b' hi =>
    rw [progress_hasResult] at hr
    have hiff := checkSent_progress_iff b' e.loses
    rw [hr] at hiff
    rw [Bool.eq_iff_iff, hiff, hi.checkSent]
    simp

/-- What is heard changes neither the request nor its primary. -/
theorem addressed_hear (b : Attempt) (e : News) :
    (b.hear e).1.request = b.request ∧ (b.hear e).1.primary = b.primary := by
  cases e with
  | answer mapping =>
    simp only [hear]
    split
    next => exact ⟨rfl, rfl⟩
    next =>
      cases mapping with
      | none => exact ⟨rfl, rfl⟩
      | some nodes =>
        have hs := learn_sameButAwaited { b with responded := true, hasResult := true } nodes
        exact ⟨(progress_request _ _).trans hs.request, (progress_primary _ _).trans hs.primary⟩
  | mapping nodes =>
    have hs := learn_sameButAwaited b nodes
    exact ⟨(progress_request _ _).trans hs.request, (progress_primary _ _).trans hs.primary⟩
  | notice x m =>
    simp only [hear, onNotice, progress_request, progress_primary, crossOff]
    split
    next =>
      have hs := learn_sameButAwaited { b with hasResult := true } m.mapping
      exact ⟨hs.request, hs.primary⟩
    next =>
      have hs := learn_sameButAwaited b m.mapping
      exact ⟨hs.request, hs.primary⟩
  | departure n =>
    simp only [hear, onDeparture]
    split
    next =>
      split
      next => exact ⟨progress_request _ _, progress_primary _ _⟩
      next => exact ⟨rfl, rfl⟩
    next => exact ⟨rfl, rfl⟩

/-- Either the attempt asks its primary, which it has not done before, or nothing has been asked. -/
theorem unconfirmed_or (b : Attempt) (e : News) :
    (b.hear e).2 = .unconfirmed ∧ b.checkSent = false ∧ (b.hear e).1.checkSent = true ∨
      (b.hear e).2 ≠ .unconfirmed ∧ (b.hear e).1.checkSent = b.checkSent := by
  have hx := b.hears e
  generalize b.hear e = x at hx
  cases hx with
  | nothing hi => exact .inr ⟨by simp, hi.checkSent⟩
  | alone => exact .inr ⟨by simp, rfl⟩
  | @weighed e b' hi =>
    rw [← hi.checkSent]
    unfold progress
    split
    next w hw =>
      split
      next =>
        split
        next => exact .inr ⟨by simp, rfl⟩
        next =>
          split
          next hc =>
            simp only [Bool.and_eq_true, Bool.not_eq_true'] at hc
            exact .inl ⟨rfl, hc.1.2, rfl⟩
          next => exact .inr ⟨by simp, rfl⟩
      next => exact .inr ⟨by simp, rfl⟩
    next => exact .inr ⟨by simp, rfl⟩

/-- An attempt that looks at where it stands, as it has become by news without a result. -/
theorem checkSent_weighed (h : a.Fresh) {afterLoss : Bool} (hun : ¬ TellsResult (e :: es))
    (hb : ((a.heard es).hear e).1 = (b.progress afterLoss).1)
    (hc : b.checkSent = (a.heard es).checkSent) :
    ((a.heard es).hear e).1.checkSent = true ↔
      (a.heard es).checkSent = true ∨ a.Inquires ∧ afterLoss = true ∧ Alone (e :: es) := by
  have hk := knows_heard h (e :: es)
  have haw := awaiting_heard h hun
  unfold heard at hk haw
  have hres : b.hasResult = false := by
    rw [← progress_hasResult b afterLoss, ← hb, ← Bool.not_eq_true, hk.hasResult_iff]
    exact hun
  have hdes : b.Deserted ↔ ∃ nodes, known (e :: es) = some nodes ∧
      ∀ o ∈ nodes, Accounted (e :: es) o := by
    rw [← haw.deserted_iff, hb, Deserted, Deserted, progress_awaited]
  have hinq : b.Inquires ↔ a.Inquires := by
    unfold Inquires
    rw [← hk.relayed, ← hk.request, hb, progress_relayed, progress_request]
  rw [hb, checkSent_progress_iff, hc, hdes, hinq]
  constructor
  · rintro (hc | ⟨hacc, -, hloss, hinq⟩)
    · exact .inl hc
    · exact .inr ⟨hinq, hloss, hun, hacc⟩
  · rintro (hc | ⟨hinq, hloss, halone⟩)
    · exact .inl hc
    · exact .inr ⟨halone.accounted, hres, hloss, hinq⟩

/-- An attempt asks its primary when it hears of a loss that leaves nobody to wait for, and no
result was told. -/
theorem checkSent_hear_iff (h : a.Fresh) (es : List News) (e : News) :
    ((a.heard es).hear e).1.checkSent = true ↔
      (a.heard es).checkSent = true ∨ a.Inquires ∧ Losing es e ∧ Alone (e :: es) := by
  by_cases htold : TellsResult (e :: es)
  · have hr : ((a.heard es).hear e).1.hasResult = true :=
      (knows_heard h (e :: es)).hasResult_iff.2 htold
    rw [checkSent_hear_of_hasResult hr]
    constructor
    · exact .inl
    · rintro (hc | ⟨-, -, halone⟩)
      · exact hc
      · exact absurd htold halone.untold
  have hun := htold
  rw [tellsResult_cons, not_or, Bool.not_eq_true] at hun
  have haw := awaiting_heard h hun.2
  cases e with
  | answer mapping => cases hun.1
  | mapping nodes =>
    have hb := checkSent_weighed h (b := (a.heard es).learn nodes) htold rfl
      (learn_sameButAwaited _ _).checkSent
    simpa [Losing] using hb
  | notice x m =>
    have hr : m.result?.isSome = false := hun.1
    refine checkSent_weighed h (b := ((a.heard es).learn m.mapping).crossOff (m.about x))
      htold ?_ (learn_sameButAwaited _ _).checkSent
    simp [hear, onNotice, hr, BackupNotice.about]
  | departure n =>
    unfold Awaiting at haw
    cases hes : known es with
    | none =>
      -- a loss before the mapping is known is only noted
      rw [hes] at haw
      simp [hear, onDeparture, haw.1, Losing, hes]
    | some ns =>
      rw [hes] at haw
      obtain ⟨w, hw, hc⟩ := haw
      have hloss : Losing es (.departure n) ↔ w.contains n = true := by
        rw [hc n]
        simp [Losing, hes]
      rw [hloss]
      by_cases hn : w.contains n = true
      · have hb : ((a.heard es).hear (.departure n)).1 =
            (progress { a.heard es with awaited := some (w.erase n) } true).1 := by
          simp [hear, onDeparture, hw, hn]
        have hsent := checkSent_weighed h htold hb rfl
        simpa [hn] using hsent
      · simp [hear, onDeparture, hw, hn]

/-- An attempt whose backups pass the result on has asked its primary if and only if there was a loss
that left nobody to wait for.  Other attempts do not ask. -/
theorem checkSent_iff (h : a.Fresh) (es : List News) :
    (a.heard es).checkSent = true ↔ a.Inquires ∧ Bereft es := by
  induction es with
  | nil =>
    have hnone : ¬ Bereft [] := by
      rintro ⟨e, earlier, hsuf, -⟩
      cases List.suffix_nil.1 hsuf
    simp [heard, h.checkSent, hnone]
  | cons e es ih =>
    rw [heard, checkSent_hear_iff h, ih]
    constructor
    · rintro (⟨hinq, e', earlier, hsuf, hloss⟩ | ⟨hinq, hnow⟩)
      · exact ⟨hinq, e', earlier, hsuf.trans (List.suffix_cons e es), hloss⟩
      · exact ⟨hinq, e, es, List.suffix_refl _, hnow⟩
    · rintro ⟨hinq, e', earlier, hsuf, hloss⟩
      rcases List.suffix_cons_iff.1 hsuf with heq | hsuf
      · cases heq
        exact .inr ⟨hinq, hloss⟩
      · exact .inl ⟨hinq, e', earlier, hsuf, hloss⟩

/-- The nodes to be heard stay the ones that were named first. -/
theorem known_append (later : List News) {earlier : List News} (hk : known earlier = some nodes) :
    known (later ++ earlier) = some nodes := by
  induction later with
  | nil => exact hk
  | cons e later ih =>
    rw [List.cons_append, known, ih, Option.some_or]

/-- All orders of the news make the attempt ask in which the mapping is known while somebody is still
missing, and all others then are lost. -/
theorem Bereft.of_known {later earlier : List News} (hk : known earlier = some nodes)
    (hleft : ∃ o ∈ nodes, ¬ Accounted earlier o)
    (hn : ∀ x m, .notice x m ∈ later → m.failedNode.isSome = true)
    (hun : ¬ TellsResult (later ++ earlier))
    (hall : ∀ o ∈ nodes, Accounted (later ++ earlier) o) : Bereft (later ++ earlier) := by
  induction later with
  | nil =>
    obtain ⟨o, ho, hmissing⟩ := hleft
    exact absurd (hall o ho) hmissing
  | cons e later ih =>
    have hun' : ¬ TellsResult (later ++ earlier) := fun h => hun (tellsResult_cons.2 (.inr h))
    have hknown : known (later ++ earlier) = some nodes := known_append later hk
    by_cases hbefore : ∀ o ∈ nodes, Accounted (later ++ earlier) o
    · obtain ⟨e', es, hsuf, hloss⟩ := ih (fun x m hm => hn x m (List.mem_cons_of_mem e hm)) hun' hbefore
      exact ⟨e', es, hsuf.trans (List.suffix_cons e _), hloss⟩
    · push Not at hbefore
      obtain ⟨o, ho, hmissing⟩ := hbefore
      have hnow := hall o ho
      refine ⟨e, later ++ earlier, List.suffix_refl _, ?_, hun, nodes, ?_, hall⟩
      · cases e with
        | answer nodes? => exact absurd (tellsResult_cons.2 (.inl rfl)) hun
        | mapping ns => exact absurd (accounted_mapping.1 hnow) hmissing
        | notice x m => exact hn x m List.mem_cons_self
        | departure n =>
          rcases accounted_departure.1 hnow with rfl | hnow
          · exact ⟨⟨nodes, hknown, ho⟩, hmissing⟩
          · exact absurd hnow hmissing
      · exact known_append (e :: later) hk

end Attempt

end AtomicGrid
