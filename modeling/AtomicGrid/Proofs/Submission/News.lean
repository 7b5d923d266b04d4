import AtomicGrid.Proofs.SortedMap
import AtomicGrid.Submission.Attempt

/-!
# What an attempt makes of its news

While an attempt is under way it hears of its primary's answer, of the mapping, of backups and of
departures, in any order.  What it knows is a function of the news so far, and says no more and no
less than they do.

## Results

* `Attempt.hears`: what comes of a piece of news.
* `Attempt.responded_hear`, `Attempt.hasResult_hear`: which news make the answer, or the result,
  known.
* `Attempt.knows_heard`: whom the attempt still waits for, and when the answer and the result are
  known.
* `Attempt.finished_hear`: what is known when all is heard.
* `Attempt.checkSent_heard`: an attempt whose backups are all lost asks the primary.
* `Attempt.loses_of_checkSent`: an attempt that has asked the primary was told of a loss.
-/

set_option autoImplicit false

namespace AtomicGrid

/-- What an attempt can hear. -/
inductive News where
  /-- The primary has carried the update out. -/
  | answer (mapping : Option (List NodeId))
  | mapping (nodes : List NodeId)
  | notice (sender : NodeId) (m : BackupNotice)
  | departure (n : NodeId)

def News.answers : News → Bool
  | .answer _ => true
  | _ => false

def News.hasResult : News → Bool
  | .answer _ => true
  | .notice _ m => m.result?.isSome
  | _ => false

def News.loses : News → Bool
  | .notice _ m => m.failedNode.isSome
  | .departure _ => true
  | _ => false

/-- Whom a notice tells of. -/
def BackupNotice.about (m : BackupNotice) (sender : NodeId) : NodeId := m.failedNode.getD sender

namespace Attempt

/-- The attempt after one more piece of news.  A second answer changes nothing. -/
def hear (a : Attempt) : News → Attempt × Progress
  | .answer mapping =>
    if a.responded then (a, .pending) else { a with responded := true }.onAnswer mapping
  | .mapping nodes => a.onMapping nodes
  | .notice sender m => a.onNotice sender m
  | .departure n => a.onDeparture n

/-- The attempt after some news, the last of them first. -/
def heard (a : Attempt) : List News → Attempt
  | [] => a
  | e :: es => ((a.heard es).hear e).1

/-- None of the news has finished the attempt. -/
def Going (a : Attempt) : List News → Prop
  | [] => True
  | e :: es => a.Going es ∧ ((a.heard es).hear e).2 ≠ .finished

/-- Nothing was heard yet. -/
structure Fresh (a : Attempt) : Prop where
  responded : a.responded = false
  hasResult : a.hasResult = false
  awaited : a.awaited = none
  received : a.received = ∅
  checkSent : a.checkSent = false

/-- The news tell that a node has answered, or is lost. -/
def Accounted (es : List News) (o : NodeId) : Prop :=
  (∃ x m, .notice x m ∈ es ∧ m.about x = o) ∨ .departure o ∈ es

/-- The news name the nodes to be heard. -/
def Names (es : List News) (nodes : List NodeId) : Prop :=
  .answer (some nodes) ∈ es ∨ .mapping nodes ∈ es ∨
    ∃ x m, .notice x m ∈ es ∧ m.mapping = nodes

/-- The attempt does not wait for the node, and will not. -/
def CrossedOff (a : Attempt) (o : NodeId) : Prop :=
  match a.awaited with
  | some awaited => awaited.contains o = false
  | none => a.received.contains o = true

variable {a : Attempt} {es : List News}

theorem Accounted.cons {o : NodeId} (h : Accounted es o) (e : News) : Accounted (e :: es) o := by
  rcases h with ⟨x, m, hm, ho⟩ | h
  · exact .inl ⟨x, m, List.mem_cons_of_mem _ hm, ho⟩
  · exact .inr (List.mem_cons_of_mem _ h)

theorem Names.cons {nodes : List NodeId} (h : Names es nodes) (e : News) :
    Names (e :: es) nodes := by
  rcases h with h | h | ⟨x, m, hm, hn⟩
  · exact .inl (List.mem_cons_of_mem _ h)
  · exact .inr (.inl (List.mem_cons_of_mem _ h))
  · exact .inr (.inr ⟨x, m, List.mem_cons_of_mem _ hm, hn⟩)

/-! ## What one piece of news changes -/

theorem progress_fst (a : Attempt) (afterLoss : Bool) :
    (a.progress afterLoss).1 = a ∨ (a.progress afterLoss).1 = { a with checkSent := true } := by
  unfold progress
  split
  · split
    · split
      · exact .inl rfl
      · split
        · exact .inr rfl
        · exact .inl rfl
    · exact .inl rfl
  · exact .inl rfl

@[simp] theorem progress_false (a : Attempt) : (a.progress false).1 = a := by
  unfold progress
  split
  · split
    · split <;> simp
    · rfl
  · rfl

section

variable (a : Attempt) (afterLoss : Bool)

@[simp] theorem progress_request : (a.progress afterLoss).1.request = a.request := by
  rcases progress_fst a afterLoss with h | h <;> rw [h]

@[simp] theorem progress_primary : (a.progress afterLoss).1.primary = a.primary := by
  rcases progress_fst a afterLoss with h | h <;> rw [h]

@[simp] theorem progress_relayed : (a.progress afterLoss).1.relayed = a.relayed := by
  rcases progress_fst a afterLoss with h | h <;> rw [h]

@[simp] theorem progress_responded : (a.progress afterLoss).1.responded = a.responded := by
  rcases progress_fst a afterLoss with h | h <;> rw [h]

@[simp] theorem progress_hasResult : (a.progress afterLoss).1.hasResult = a.hasResult := by
  rcases progress_fst a afterLoss with h | h <;> rw [h]

@[simp] theorem progress_awaited : (a.progress afterLoss).1.awaited = a.awaited := by
  rcases progress_fst a afterLoss with h | h <;> rw [h]

@[simp] theorem progress_received : (a.progress afterLoss).1.received = a.received := by
  rcases progress_fst a afterLoss with h | h <;> rw [h]

end

/-- Whom the attempt waits for after it was told whom to hear. -/
theorem awaited_learn_eq (a : Attempt) (nodes : List NodeId) :
    (a.learn nodes).awaited =
      some (a.awaited.getD (SortedSet.ofList (nodes.filter (!a.received.contains ·)))) := by
  unfold learn
  split
  next h => simp [h]
  next h => simp [h]

/-- What learning the mapping leaves alone. -/
structure SameButAwaited (a b : Attempt) : Prop where
  request : b.request = a.request
  primary : b.primary = a.primary
  relayed : b.relayed = a.relayed
  responded : b.responded = a.responded
  hasResult : b.hasResult = a.hasResult
  received : b.received = a.received
  checkSent : b.checkSent = a.checkSent

theorem learn_sameButAwaited (a : Attempt) (nodes : List NodeId) :
    SameButAwaited a (a.learn nodes) := by
  unfold learn
  split <;> exact ⟨rfl, rfl, rfl, rfl, rfl, rfl, rfl⟩

/-- What the news `e` make of what the attempt `b` knows. -/
structure Informed (b : Attempt) (e : News) (b' : Attempt) : Prop where
  responded : b'.responded = (b.responded || e.answers)
  hasResult : b'.hasResult = true → b.hasResult = true ∨ e.hasResult = true
  checkSent : b'.checkSent = b.checkSent

/-- What comes of a piece of news: nothing, the end as the primary names nobody, or a look at where
the attempt stands. -/
inductive Hears (b : Attempt) : News → Attempt × Progress → Prop
  | nothing {e : News} {b' : Attempt} (hi : b.Informed e b') (hr : b'.hasResult = b.hasResult)
      (hw : b'.awaited = b.awaited) : Hears b e (b', .pending)
  | alone : Hears b (.answer none) ({ b with responded := true, hasResult := true }, .finished)
  | weighed {e : News} {b' : Attempt} (hi : b.Informed e b') : Hears b e (b'.progress e.loses)

/-- The one place that looks into what the attempt makes of each kind of news. -/
theorem hears (b : Attempt) (e : News) : b.Hears e (b.hear e) := by
  cases e with
  | answer mapping =>
    simp only [hear]
    split
    next hr => exact .nothing ⟨by simp [hr], .inl, rfl⟩ rfl rfl
    next =>
      cases mapping with
      | none => exact .alone
      | some nodes =>
        have hs := learn_sameButAwaited { b with responded := true, hasResult := true } nodes
        exact .weighed (e := .answer (some nodes))
          ⟨by simp [hs.responded, News.answers], fun _ => .inr rfl, hs.checkSent⟩
  | mapping nodes =>
    have hs := learn_sameButAwaited b nodes
    exact .weighed (e := .mapping nodes) ⟨by simp [hs.responded, News.answers],
      fun h => .inl (hs.hasResult ▸ h), hs.checkSent⟩
  | notice sender m =>
    have hs := learn_sameButAwaited
      (if m.result?.isSome then { b with hasResult := true } else b) m.mapping
    refine .weighed (e := .notice sender m) ⟨?_, fun h => ?_, ?_⟩
    · simp only [crossOff, hs.responded, News.answers, Bool.or_false]
      split <;> rfl
    · simp only [crossOff, hs.hasResult] at h
      split at h
      next hm => exact .inr hm
      next => exact .inl h
    · simp only [crossOff, hs.checkSent]
      split <;> rfl
  | departure n =>
    simp only [hear, onDeparture]
    split
    · split
      · exact .weighed (e := .departure n) ⟨by simp [News.answers], .inl, rfl⟩
      · exact .nothing ⟨by simp [News.answers], .inl, rfl⟩ rfl rfl
    · exact .nothing ⟨by simp [News.answers], .inl, rfl⟩ rfl rfl

/-- The primary has answered once it is heard. -/
theorem responded_hear (b : Attempt) (e : News) :
    (b.hear e).1.responded = (b.responded || e.answers) := by
  have hx := b.hears e
  generalize b.hear e = x at hx
  cases hx with
  | nothing hi => exact hi.responded
  | alone => simp [News.answers]
  | weighed hi => exact (progress_responded _ _).trans hi.responded

/-- The result becomes known by news that tell it. -/
theorem hasResult_hear {b : Attempt} {e : News} (h : (b.hear e).1.hasResult = true) :
    b.hasResult = true ∨ e.hasResult = true := by
  have hx := b.hears e
  generalize b.hear e = x at hx h
  cases hx with
  | nothing hi => exact hi.hasResult h
  | alone => exact .inr rfl
  | weighed hi => exact hi.hasResult (progress_hasResult _ _ ▸ h)

/-- What the attempt `a` has become by the news `es`. -/
structure Knows (a : Attempt) (es : List News) (b : Attempt) : Prop where
  request : b.request = a.request
  primary : b.primary = a.primary
  relayed : b.relayed = a.relayed
  responded : b.responded = true ↔ ∃ nodes, .answer nodes ∈ es
  hasResult : b.hasResult = true ↔ (∃ nodes, .answer nodes ∈ es) ∨
    ∃ x m, .notice x m ∈ es ∧ m.result?.isSome = true
  received : ∀ o, b.received.contains o = true → Accounted es o
  /-- Whoever was named is awaited, or accounted for. -/
  awaited : ∀ w, b.awaited = some w → ∃ nodes, Names es nodes ∧
    (∀ o ∈ nodes, w.contains o = true ∨ Accounted es o) ∧ ∀ o, w.contains o = true → o ∈ nodes
  named : (∃ nodes, .mapping nodes ∈ es) ∨ (∃ x m, .notice x m ∈ es) → b.awaited.isSome = true
  crossedOff : ∀ o, Accounted es o → b.CrossedOff o

theorem knows_fresh (h : a.Fresh) : a.Knows [] a where
  request := rfl
  primary := rfl
  relayed := rfl
  responded := by simp [h.responded]
  hasResult := by simp [h.hasResult]
  received o ho := by
    rw [h.received] at ho
    cases ho
  awaited w hw := by simp [h.awaited] at hw
  named hn := by simp at hn
  crossedOff o ho := by simp [Accounted] at ho

/-- Whom an attempt awaits was named, whatever else it hears. -/
theorem Knows.awaited_cons {b : Attempt} (h : a.Knows es b) (e : News) (w : NodeSet)
    (hw : b.awaited = some w) : ∃ nodes, Names (e :: es) nodes ∧
      (∀ o ∈ nodes, w.contains o = true ∨ Accounted (e :: es) o) ∧
      ∀ o, w.contains o = true → o ∈ nodes := by
  obtain ⟨nodes, hn, h₁, h₂⟩ := h.awaited w hw
  exact ⟨nodes, hn.cons e, fun o ho => (h₁ o ho).imp_right fun ha => ha.cons e, h₂⟩

theorem Knows.learn {b : Attempt} (h : a.Knows es b) {e : News} {nodes : List NodeId}
    (hn : Names (e :: es) nodes) (w : NodeSet) (hw : (b.learn nodes).awaited = some w) :
    ∃ nodes, Names (e :: es) nodes ∧
      (∀ o ∈ nodes, w.contains o = true ∨ Accounted (e :: es) o) ∧
      ∀ o, w.contains o = true → o ∈ nodes := by
  rw [awaited_learn_eq, Option.some_inj] at hw
  cases hb : b.awaited with
  | some w' =>
    obtain rfl : w' = w := by simpa [hb] using hw
    exact h.awaited_cons e w' hb
  | none =>
    refine ⟨nodes, hn, fun o ho => ?_, fun o ho => ?_⟩
    · by_cases hr : b.received.contains o = true
      · exact .inr ((h.received o hr).cons e)
      · refine .inl ?_
        rw [← hw, hb, Option.getD_none, SortedSet.contains_ofList]
        simpa [ho] using hr
    · rw [← hw, hb, Option.getD_none, SortedSet.contains_ofList] at ho
      exact (List.mem_filter.1 ho).1

theorem crossedOff_iff {b : Attempt} {w : NodeSet} (h : b.awaited = some w) {o : NodeId} :
    b.CrossedOff o ↔ w.contains o = false := by
  simp only [CrossedOff, h]

theorem CrossedOff.learn {b : Attempt} {o : NodeId} (h : b.CrossedOff o) (nodes : List NodeId) :
    (b.learn nodes).CrossedOff o := by
  rw [crossedOff_iff (awaited_learn_eq b nodes)]
  cases hb : b.awaited with
  | some w =>
    rw [crossedOff_iff hb] at h
    simpa using h
  | none =>
    simp only [CrossedOff, hb] at h
    rw [Option.getD_none, ← Bool.not_eq_true, SortedSet.contains_ofList]
    simp [h]

theorem Knows.hear_answer {b : Attempt} (h : a.Knows es b) (mapping : Option (List NodeId)) :
    a.Knows (.answer mapping :: es) (b.hear (.answer mapping)).1 := by
  have hacc {o : NodeId} (ho : Accounted (.answer mapping :: es) o) : Accounted es o := by
    simpa [Accounted] using ho
  by_cases hr : b.responded = true
  · have he : (b.hear (.answer mapping)).1 = b := by simp [hear, hr]
    rw [he]
    exact {
      request := h.request
      primary := h.primary
      relayed := h.relayed
      responded := by simp [hr]
      hasResult := by simp [h.hasResult.2 (.inl (h.responded.1 hr))]
      received := fun o ho => (h.received o ho).cons _
      awaited := h.awaited_cons _
      named := fun hn => h.named (by simpa using hn)
      crossedOff := fun o ho => h.crossedOff o (hacc ho) }
  · cases mapping with
    | none =>
      have he : (b.hear (.answer none)).1 = { b with responded := true, hasResult := true } := by
        simp [hear, hr, onAnswer]
      rw [he]
      exact {
        request := h.request
        primary := h.primary
        relayed := h.relayed
        responded := by simp
        hasResult := by simp
        received := fun o ho => (h.received o ho).cons _
        awaited := h.awaited_cons _
        named := fun hn => h.named (by simpa using hn)
        crossedOff := fun o ho => h.crossedOff o (hacc ho) }
    | some nodes =>
      let b' : Attempt := { b with responded := true, hasResult := true }
      have he : (b.hear (.answer (some nodes))).1 = ((b'.learn nodes).progress false).1 := by
        simp [hear, hr, onAnswer, b']
      have hs := learn_sameButAwaited b' nodes
      rw [he]
      exact {
        request := by simpa [hs.request] using h.request
        primary := by simpa [hs.primary] using h.primary
        relayed := by simpa [hs.relayed] using h.relayed
        responded := by simp [hs.responded, b']
        hasResult := by simp [hs.hasResult, b']
        received := fun o ho => by
          rw [progress_received, hs.received] at ho
          exact (h.received o ho).cons _
        awaited := fun w hw => by
          rw [progress_awaited] at hw
          exact h.learn (.inl List.mem_cons_self) w (by simpa [awaited_learn_eq, b'] using hw)
        named := fun _ => by simp [awaited_learn_eq]
        crossedOff := fun o ho => by
          have hc : b'.CrossedOff o := h.crossedOff o (hacc ho)
          simpa [CrossedOff] using hc.learn nodes }

theorem Knows.hear_mapping {b : Attempt} (h : a.Knows es b) (nodes : List NodeId) :
    a.Knows (.mapping nodes :: es) (b.hear (.mapping nodes)).1 := by
  have hs := learn_sameButAwaited b nodes
  have hacc {o : NodeId} (ho : Accounted (.mapping nodes :: es) o) : Accounted es o := by
    simpa [Accounted] using ho
  exact {
    request := by simpa [hear, onMapping, hs.request] using h.request
    primary := by simpa [hear, onMapping, hs.primary] using h.primary
    relayed := by simpa [hear, onMapping, hs.relayed] using h.relayed
    responded := by simpa [hear, onMapping, hs.responded] using h.responded
    hasResult := by simpa [hear, onMapping, hs.hasResult] using h.hasResult
    received := fun o ho => by
      simp only [hear, onMapping, progress_received, hs.received] at ho
      exact (h.received o ho).cons _
    awaited := fun w hw => by
      simp only [hear, onMapping, progress_awaited] at hw
      exact h.learn (.inr (.inl List.mem_cons_self)) w hw
    named := fun _ => by simp [hear, onMapping, awaited_learn_eq]
    crossedOff := fun o ho => by
      simpa [hear, onMapping, CrossedOff] using (h.crossedOff o (hacc ho)).learn nodes }

theorem crossedOff_crossOff (b : Attempt) (n o : NodeId) :
    (b.crossOff n).CrossedOff o ↔ o = n ∨ b.CrossedOff o := by
  cases hb : b.awaited with
  | some w =>
    simp only [CrossedOff, crossOff, hb, Option.map_some]
    rw [← Bool.not_eq_true, SortedSet.contains_erase, ← Bool.not_eq_true]
    by_cases ho : o = n <;> simp [ho]
  | none =>
    simp only [CrossedOff, crossOff, hb, Option.map_none]
    exact SortedSet.contains_add

/-- After a notice a result is known if one was known before, or if the notice brings one. -/
theorem Knows.hasResult_notice {b : Attempt} (h : a.Knows es b) (sender : NodeId)
    (m : BackupNotice) : b.hasResult = true ∨ m.result?.isSome = true ↔
      (∃ nodes, .answer nodes ∈ .notice sender m :: es) ∨
        ∃ x m', .notice x m' ∈ .notice sender m :: es ∧ m'.result?.isSome = true := by
  rw [h.hasResult]
  constructor
  · rintro ((⟨nodes, hn⟩ | ⟨x, m', hm, hr⟩) | hm)
    · exact .inl ⟨nodes, List.mem_cons_of_mem _ hn⟩
    · exact .inr ⟨x, m', List.mem_cons_of_mem _ hm, hr⟩
    · exact .inr ⟨sender, m, List.mem_cons_self, hm⟩
  · rintro (⟨nodes, hn⟩ | ⟨x, m', hm, hr⟩)
    · exact .inl (.inl ⟨nodes, by simpa using hn⟩)
    · rcases List.mem_cons.1 hm with hm | hm
      · cases hm
        exact .inr hr
      · exact .inl (.inr ⟨x, m', hm, hr⟩)

theorem Knows.hear_notice {b : Attempt} (h : a.Knows es b) (sender : NodeId) (m : BackupNotice) :
    a.Knows (.notice sender m :: es) (b.hear (.notice sender m)).1 := by
  let b₁ : Attempt := if m.result?.isSome then { b with hasResult := true } else b
  let b₂ := b₁.learn m.mapping
  have he : (b.hear (.notice sender m)).1 =
      ((b₂.crossOff (m.about sender)).progress m.failedNode.isSome).1 := rfl
  have hs := learn_sameButAwaited b₁ m.mapping
  have h₁ : b₁.hasResult = (b.hasResult || m.result?.isSome) ∧
      b₁ = { b with hasResult := b₁.hasResult } := by
    by_cases hm : m.result?.isSome = true <;> simp [b₁, hm]
  obtain ⟨hr, hb₁⟩ := h₁
  have hlearn : b₂.awaited = (b.learn m.mapping).awaited := by
    simp only [b₂, awaited_learn_eq]
    rw [hb₁]
  have hcross {o : NodeId} (ho : b.CrossedOff o) : b₂.CrossedOff o := by
    have : b₁.CrossedOff o := by
      rw [hb₁]
      exact ho
    exact this.learn m.mapping
  rw [he]
  exact {
    request := by
      rw [progress_request, ← h.request]
      show b₂.request = _
      rw [hs.request, hb₁]
    primary := by
      rw [progress_primary, ← h.primary]
      show b₂.primary = _
      rw [hs.primary, hb₁]
    relayed := by
      rw [progress_relayed, ← h.relayed]
      show b₂.relayed = _
      rw [hs.relayed, hb₁]
    responded := by
      rw [progress_responded]
      show b₂.responded = true ↔ _
      rw [hs.responded, hb₁]
      simpa using h.responded
    hasResult := by
      rw [progress_hasResult]
      show b₂.hasResult = true ↔ _
      rw [hs.hasResult, hr, Bool.or_eq_true]
      exact h.hasResult_notice sender m
    received := fun o ho => by
      rw [progress_received] at ho
      rcases SortedSet.contains_add.1 ho with rfl | ho
      · exact .inl ⟨sender, m, List.mem_cons_self, rfl⟩
      · have ho : b₂.received.contains o = true := ho
        rw [hs.received, hb₁] at ho
        exact (h.received o ho).cons _
    awaited := fun w hw => by
      rw [progress_awaited] at hw
      obtain ⟨w', hw', rfl⟩ := Option.map_eq_some_iff.1 hw
      obtain ⟨nodes, hn, h₂, h₃⟩ :=
        h.learn (.inr (.inr ⟨sender, m, List.mem_cons_self, rfl⟩)) w' (hlearn ▸ hw')
      refine ⟨nodes, hn, fun o ho => ?_, fun o ho => h₃ o (SortedSet.contains_erase.1 ho).2⟩
      by_cases heq : o = m.about sender
      · exact .inr (.inl ⟨sender, m, List.mem_cons_self, heq.symm⟩)
      · exact (h₂ o ho).imp_left fun hc => SortedSet.contains_erase.2 ⟨heq, hc⟩
    named := fun _ => by
      rw [progress_awaited]
      show (b₂.awaited.map _).isSome = true
      rw [hlearn, awaited_learn_eq]
      rfl
    crossedOff := fun o ho => by
      have : (b₂.crossOff (m.about sender)).CrossedOff o := by
        rw [crossedOff_crossOff]
        rcases ho with ⟨x, m', hm, rfl⟩ | ho
        · rcases List.mem_cons.1 hm with hm | hm
          · cases hm
            exact .inl rfl
          · exact .inr (hcross (h.crossedOff _ (.inl ⟨x, m', hm, rfl⟩)))
        · exact .inr (hcross (h.crossedOff _ (.inr (by simpa using ho))))
      simpa [CrossedOff] using this }

theorem Knows.hear_departure {b : Attempt} (h : a.Knows es b) (n : NodeId) :
    a.Knows (.departure n :: es) (b.hear (.departure n)).1 := by
  have hgone : Accounted (.departure n :: es) n := .inr List.mem_cons_self
  have hacc {o : NodeId} (ho : Accounted (.departure n :: es) o) : o = n ∨ Accounted es o := by
    rcases ho with ⟨x, m, hm, ho⟩ | ho
    · exact .inr (.inl ⟨x, m, by simpa using hm, ho⟩)
    · exact (List.mem_cons.1 ho).imp (fun he => by cases he; rfl) .inr
  cases hb : b.awaited with
  | some w =>
    by_cases hw : w.contains n = true
    · have he : (b.hear (.departure n)).1 =
          ({ b with awaited := some (w.erase n) }.progress true).1 := by
        simp [hear, onDeparture, hb, hw]
      rw [he]
      exact {
        request := by simpa using h.request
        primary := by simpa using h.primary
        relayed := by simpa using h.relayed
        responded := by simpa using h.responded
        hasResult := by simpa using h.hasResult
        received := fun o ho => (h.received o (by simpa using ho)).cons _
        awaited := fun w' hw' => by
          rw [progress_awaited, Option.some_inj] at hw'
          subst hw'
          obtain ⟨nodes, hn, h₁, h₂⟩ := h.awaited_cons (.departure n) w hb
          refine ⟨nodes, hn, fun o ho => ?_, fun o ho => h₂ o (SortedSet.contains_erase.1 ho).2⟩
          by_cases heq : o = n
          · exact .inr (heq ▸ hgone)
          · exact (h₁ o ho).imp_left fun hc => SortedSet.contains_erase.2 ⟨heq, hc⟩
        named := fun _ => by rw [progress_awaited]; rfl
        crossedOff := fun o ho => by
          have hw' : (({ b with awaited := some (w.erase n) } : Attempt).progress true).1.awaited =
              some (w.erase n) := progress_awaited _ _
          rw [crossedOff_iff hw', ← Bool.not_eq_true, SortedSet.contains_erase]
          rcases hacc ho with rfl | ho
          · simp
          · have := (crossedOff_iff hb).1 (h.crossedOff o ho)
            simp [this] }
    · have he : (b.hear (.departure n)).1 = b := by simp [hear, onDeparture, hb, hw]
      rw [he]
      exact {
        request := h.request
        primary := h.primary
        relayed := h.relayed
        responded := by simpa using h.responded
        hasResult := by simpa using h.hasResult
        received := fun o ho => (h.received o ho).cons _
        awaited := h.awaited_cons _
        named := fun _ => by rw [hb]; rfl
        crossedOff := fun o ho => by
          rcases hacc ho with rfl | ho
          · exact (crossedOff_iff hb).2 (by simpa using hw)
          · exact h.crossedOff o ho }
  | none =>
    have he : (b.hear (.departure n)).1 = { b with received := b.received.add n } := by
      simp [hear, onDeparture, hb]
    rw [he]
    exact {
      request := h.request
      primary := h.primary
      relayed := h.relayed
      responded := by simpa using h.responded
      hasResult := by simpa using h.hasResult
      received := fun o ho => by
        rcases SortedSet.contains_add.1 ho with rfl | ho
        · exact hgone
        · exact (h.received o ho).cons _
      awaited := h.awaited_cons _
      named := fun hn => by
        have := h.named (by simpa using hn)
        simpa using this
      crossedOff := fun o ho => by
        simp only [CrossedOff, hb]
        refine SortedSet.contains_add.2 ((hacc ho).imp_right fun ha => ?_)
        simpa [CrossedOff, hb] using h.crossedOff o ha }

/-- An attempt knows what it has heard, and no more. -/
theorem knows_heard (h : a.Fresh) : ∀ es : List News, a.Knows es (a.heard es)
  | [] => knows_fresh h
  | .answer mapping :: es => (knows_heard h es).hear_answer mapping
  | .mapping nodes :: es => (knows_heard h es).hear_mapping nodes
  | .notice sender m :: es => (knows_heard h es).hear_notice sender m
  | .departure n :: es => (knows_heard h es).hear_departure n

/-! ## When all is heard -/

/-- What is known when the progress says so. -/
theorem progress_finished {b : Attempt} {afterLoss : Bool}
    (h : (b.progress afterLoss).2 = .finished) :
    b.hasResult = true ∧ ∃ w, b.awaited = some w ∧ ∀ o, w.contains o = false := by
  unfold progress at h
  split at h
  next w hw =>
    split at h
    next he =>
      split at h
      next hr => exact ⟨hr, w, hw, SortedSet.isEmpty_iff.1 he⟩
      next => split at h <;> cases h
    next => cases h
  next => cases h

/-- Nobody is awaited any more. -/
def Deserted (b : Attempt) : Prop := ∃ w, b.awaited = some w ∧ ∀ o, w.contains o = false

/-- When nobody is awaited any more, all that were named are accounted for. -/
theorem Knows.accounted {b : Attempt} (h : a.Knows es b) (hd : b.Deserted) :
    ∃ nodes, Names es nodes ∧ ∀ o ∈ nodes, Accounted es o := by
  obtain ⟨w, hw, he⟩ := hd
  obtain ⟨nodes, hn, hin, -⟩ := h.awaited w hw
  refine ⟨nodes, hn, ?_⟩
  intro o ho
  rcases hin o ho with hc | hacc
  · rw [he o] at hc
    cases hc
  · exact hacc

/-- Nothing is left to be heard, and the result is known. -/
def Complete (b : Attempt) : Prop := b.hasResult = true ∧ b.Deserted

theorem progress_complete (b : Attempt) (afterLoss : Bool) :
    (b.progress afterLoss).2 = .finished ↔ (b.progress afterLoss).1.Complete := by
  constructor
  · intro h
    simpa [Complete, Deserted] using progress_finished h
  · intro h
    obtain ⟨hr, w, hw, he⟩ : b.Complete := by simpa [Complete, Deserted] using h
    have he : w.isEmpty = true := SortedSet.isEmpty_iff.2 he
    simp [progress, hw, he, hr]

/-- News finish an attempt by completing it, or by an answer that names nobody. -/
theorem finished_hear {b : Attempt} {e : News} (h : (b.hear e).2 = .finished) :
    e = .answer none ∨ (b.hear e).1.Complete := by
  have hx := b.hears e
  generalize b.hear e = x at hx h
  cases hx with
  | nothing => cases h
  | alone => exact .inl rfl
  | weighed hi => exact .inr ((progress_complete _ _).1 h)

/-- What does not finish an attempt does not complete it. -/
theorem not_complete_hear {b : Attempt} {e : News} (hb : ¬ b.Complete)
    (h : (b.hear e).2 ≠ .finished) : ¬ (b.hear e).1.Complete := by
  have hx := b.hears e
  generalize b.hear e = x at hx h
  cases hx with
  | nothing hi hr hw =>
    intro ⟨hr', hd⟩
    exact hb ⟨hr ▸ hr', by rwa [Deserted, ← hw]⟩
  | alone => exact absurd rfl h
  | weighed hi => exact fun hc => h ((progress_complete _ _).2 hc)

theorem Fresh.not_complete (h : a.Fresh) : ¬ a.Complete := by
  rintro ⟨hr, -⟩
  rw [h.hasResult] at hr
  cases hr

theorem Going.not_complete (h : a.Fresh) :
    ∀ {es : List News}, a.Going es → ¬ (a.heard es).Complete
  | [], _ => h.not_complete
  | _ :: _, ⟨hg, hn⟩ => not_complete_hear (Going.not_complete h hg) hn

theorem awaited_hear {b : Attempt} (h : b.awaited.isSome = true) (e : News) :
    (b.hear e).1.awaited.isSome = true := by
  obtain ⟨w, hw⟩ := Option.isSome_iff_exists.1 h
  cases e with
  | answer mapping =>
    simp only [hear]
    split
    next => exact h
    next => cases mapping <;> simp [onAnswer, awaited_learn_eq, hw]
  | mapping nodes => simp [hear, onMapping, awaited_learn_eq]
  | notice sender m => simp [hear, onNotice, crossOff, awaited_learn_eq]
  | departure n =>
    simp only [hear, onDeparture, hw]
    split <;> simp [hw]

/-- After the primary's answer an attempt that goes on knows whom it waits for. -/
theorem Going.awaited (h : a.Fresh) :
    ∀ {es : List News}, a.Going es → (a.heard es).responded = true →
      (a.heard es).awaited.isSome = true
  | [], _, hr => by
    have hr : a.responded = true := hr
    rw [h.responded] at hr
    cases hr
  | e :: es, ⟨hg, hn⟩, hr => by
    by_cases hb : (a.heard es).responded = true
    · exact awaited_hear (hg.awaited h hb) e
    · obtain ⟨nodes, he⟩ := (knows_heard h (e :: es)).responded.1 hr
      rcases List.mem_cons.1 he with rfl | he
      · cases nodes with
        | none => simp [hear, hb, onAnswer] at hn
        | some nodes => simp [heard, hear, hb, onAnswer, awaited_learn_eq]
      · exact absurd ((knows_heard h es).responded.2 ⟨nodes, he⟩) hb

/-- An attempt that goes on after the primary's answer was told whom to hear. -/
theorem Going.answer_some (h : a.Fresh) :
    ∀ {es : List News}, a.Going es → (a.heard es).responded = true →
      ∃ nodes, .answer (some nodes) ∈ es
  | [], _, hr => by
    rw [heard, h.responded] at hr
    cases hr
  | e :: es, hg, hr => by
    cases hold : (a.heard es).responded with
    | true =>
      obtain ⟨nodes, hn⟩ := Going.answer_some h hg.1 hold
      exact ⟨nodes, List.mem_cons_of_mem _ hn⟩
    | false =>
      have hk := (knows_heard h (e :: es)).responded.1 hr
      obtain ⟨mapping, hm⟩ := hk
      rcases List.mem_cons.1 hm with rfl | hm
      · cases mapping with
        | some nodes => exact ⟨nodes, List.mem_cons_self⟩
        | none =>
          refine absurd ?_ hg.2
          simp [hear, hold, onAnswer]
      · rw [(knows_heard h es).responded.2 ⟨mapping, hm⟩] at hold
        cases hold

theorem progress_checkSent {b : Attempt} {w : NodeSet} (hw : b.awaited = some w)
    (he : ∀ o, w.contains o = false) (hr : b.hasResult = false) (hrel : b.relayed = true)
    (hs : b.request.syncMode = .fullSync) : (b.progress true).1.checkSent = true := by
  have he : w.isEmpty = true := SortedSet.isEmpty_iff.2 he
  simp only [progress, hw, he, hr, hrel, hs]
  cases hc : b.checkSent <;> simp [hc]

/-- Once a loss was reported and nobody is left to be heard, the primary has been asked, unless the
result is known.  Backups that report no loss report the result. -/
theorem checkSent_heard (h : a.Fresh) (hrel : a.relayed = true)
    (hs : a.request.syncMode = .fullSync) :
    ∀ {es : List News}, (∀ x m, .notice x m ∈ es → m.failedNode = none → m.result?.isSome = true) →
      (∃ x m, .notice x m ∈ es ∧ m.failedNode.isSome = true) →
      ∀ {w : NodeSet}, (a.heard es).awaited = some w → (∀ o, w.contains o = false) →
        (a.heard es).hasResult = false → (a.heard es).checkSent = true
  | [], _, ⟨_, _, hm, _⟩, _, _, _, _ => by cases hm
  | e :: es, hall, ⟨x, m, hm, hlost⟩, w, hw, he, hr => by
    have k := knows_heard h es
    have hall' x m (hm : .notice x m ∈ es) := hall x m (List.mem_cons_of_mem _ hm)
    have hno (nodes) : .answer nodes ∉ e :: es := fun hn => by
      have := (knows_heard h (e :: es)).hasResult.2 (.inl ⟨nodes, hn⟩)
      rw [hr] at this
      cases this
    cases e with
    | answer nodes => exact absurd List.mem_cons_self (hno nodes)
    | mapping nodes =>
      have hm : .notice x m ∈ es := by simpa using hm
      obtain ⟨w', hw'⟩ := Option.isSome_iff_exists.1 (k.named (.inr ⟨x, m, hm⟩))
      have hsame : a.heard (.mapping nodes :: es) = a.heard es := by
        simp only [heard, hear, onMapping, awaited_learn hw', progress_false]
      rw [hsame] at hw hr ⊢
      exact checkSent_heard h hrel hs hall' ⟨x, m, hm, hlost⟩ hw he hr
    | notice sender m' =>
      cases hf : m'.failedNode with
      | none =>
        have := (knows_heard h (.notice sender m' :: es)).hasResult.2
          (.inr ⟨sender, m', List.mem_cons_self, hall _ _ List.mem_cons_self hf⟩)
        rw [hr] at this
        cases this
      | some lost =>
        have k' := knows_heard h (.notice sender m' :: es)
        simp only [heard, hear, onNotice, hf, Option.isSome_some] at hw hr k' ⊢
        rw [progress_awaited] at hw
        rw [progress_hasResult] at hr
        refine progress_checkSent hw he hr ?_ ?_
        · rw [← progress_relayed _ true, k'.relayed, hrel]
        · rw [← progress_request _ true, k'.request, hs]
    | departure n =>
      have hm : .notice x m ∈ es := by simpa using hm
      obtain ⟨w', hw'⟩ := Option.isSome_iff_exists.1 (k.named (.inr ⟨x, m, hm⟩))
      by_cases hc : w'.contains n = true
      · simp only [heard, hear, onDeparture, hw', hc, if_true, progress_awaited,
          progress_hasResult] at hw hr ⊢
        exact progress_checkSent hw he hr (k.relayed.trans hrel) ((congrArg _ k.request).trans hs)
      · have hsame : a.heard (.departure n :: es) = a.heard es := by
          simp only [heard, hear, onDeparture, hw', hc, if_false, Bool.false_eq_true]
        rw [hsame] at hw hr ⊢
        exact checkSent_heard h hrel hs hall' ⟨x, m, hm, hlost⟩ hw he hr

theorem checkSent_progress {b : Attempt} {afterLoss : Bool}
    (h : (b.progress afterLoss).1.checkSent = true) :
    b.checkSent = true ∨ (b.progress afterLoss).2 = .unconfirmed := by
  unfold progress at h ⊢
  split at h
  next w hw =>
    split at h
    next he =>
      split at h
      next => exact .inl h
      next hr =>
        split at h
        next hc => exact .inr (by simp only [he, hr, hc, if_true, if_false, Bool.false_eq_true])
        next => exact .inl h
    next => exact .inl h
  next => exact .inl h

/-- The primary is asked when the progress says so. -/
theorem checkSent_hear {b : Attempt} {e : News} (h : (b.hear e).1.checkSent = true) :
    b.checkSent = true ∨ (b.hear e).2 = .unconfirmed := by
  have hx := b.hears e
  generalize b.hear e = x at hx h
  cases hx with
  | nothing hi => exact .inl (hi.checkSent ▸ h)
  | alone => exact .inl h
  | weighed hi => exact (checkSent_progress h).imp_left fun hc => hi.checkSent ▸ hc

/-- When the primary is asked, nobody is left to be heard, and a node was lost. -/
theorem unconfirmed_progress {b : Attempt} {afterLoss : Bool}
    (h : (b.progress afterLoss).2 = .unconfirmed) :
    (b.progress afterLoss).1.Deserted ∧ (b.progress afterLoss).1.checkSent = true ∧
      afterLoss = true := by
  rw [Deserted, progress_awaited]
  unfold progress at h ⊢
  split at h
  next w hw =>
    split at h
    next he =>
      split at h
      next => cases h
      next hr =>
        split at h
        next hc =>
          refine ⟨⟨w, hw, SortedSet.isEmpty_iff.1 he⟩, ?_⟩
          simp only [Bool.and_eq_true] at hc
          simp [he, hr, hc]
        next => cases h
    next => cases h
  next => cases h

/-- The primary is asked after a loss only, when nobody is left to be heard. -/
theorem unconfirmed_hear {b : Attempt} {e : News} (h : (b.hear e).2 = .unconfirmed) :
    (b.hear e).1.Deserted ∧ (b.hear e).1.checkSent = true ∧ e.loses = true := by
  have hx := b.hears e
  generalize b.hear e = x at hx h
  cases hx with
  | nothing => cases h
  | alone => cases h
  | weighed hi => exact unconfirmed_progress h

/-- An attempt that has asked the primary was told of a loss. -/
theorem loses_of_checkSent (h : a.Fresh) :
    ∀ {es : List News}, (a.heard es).checkSent = true → ∃ e ∈ es, e.loses = true
  | [], hc => by
    have hc : a.checkSent = true := hc
    rw [h.checkSent] at hc
    cases hc
  | e :: es, hc =>
    match checkSent_hear hc with
    | .inl hb =>
      have ⟨e', he, hl⟩ := loses_of_checkSent h hb
      ⟨e', List.mem_cons_of_mem _ he, hl⟩
    | .inr hu => ⟨e, List.mem_cons_self, (unconfirmed_hear hu).2.2⟩

end Attempt

end AtomicGrid
