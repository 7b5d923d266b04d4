import AtomicGrid.Proofs.Fanout.Tally

/-!
# When the primary answers

A fan-out is given the primary's answer as its requests are sent.  It then gives the answer away at
once, or holds it back until its end, or drops it: what it has given away and what it holds back
make up what it owes, and that never changes.

| Caller waits for | Backups relay | Answer |
|---|---|---|
| all | no | at the end |
| all | yes | at once if there are no receivers, a value to return, or a caller on this node, else never |
| the primary, or nobody | either | at once |

## Results

* `Fanout.Owes.hear`, `Fanout.owes_map`: sending the requests makes the debt, and nothing after that
  changes it.
* `Fanout.replies_loaded`: when a fan-out has answered, and what its requests said by then, is what
  its history says.
-/

set_option autoImplicit false

namespace AtomicGrid

def FanoutAction.reply? : FanoutAction → Option (ReplyRoute × UpdateResponse)
  | .reply route response => some (route, response)
  | _ => none

def FanoutAction.request? : FanoutAction → Option (NodeId × BackupRequest)
  | .send receiver (.backupRequest b) => some (receiver, b)
  | _ => none

namespace Fanout

/-! ## What is asked for -/

/-- What the requests are sent with. -/
structure Sending where
  view : View
  response : UpdateResponse
  ret : UpdateReturn
  route : ReplyRoute

def sending : List Call → Option Sending
  | [] => none
  | .map view response ret route :: _ => some ⟨view, response, ret, route⟩
  | _ :: cs => sending cs

def replies (site : Site) (f : Fanout) (cs : List Call) : List (ReplyRoute × UpdateResponse) :=
  (f.asked site cs).filterMap FanoutAction.reply?

/-- The requests handed over, in order. -/
def handed (site : Site) (f : Fanout) (cs : List Call) : List (NodeId × BackupRequest) :=
  (f.asked site cs).filterMap FanoutAction.request?

/-- No request comes after an answer. -/
def RequestsFirst (as : List FanoutAction) : Prop :=
  as.Pairwise fun a b => a.reply?.isSome → b.request? = none

/-- The primary's answer, unless it is left to the backups. -/
def due (site : Site) (f : Fanout) (m : Sending) : List (ReplyRoute × UpdateResponse) :=
  if f.nodes.isEmpty || f.repliesAtOnce site m.ret || !f.relays site then
    [(m.route, f.answer site m.response)]
  else []

variable {site : Site} {view : View} {f f₀ : Fanout} {m : Sending} {as bs : List FanoutAction}

theorem requestsFirst_of_no_request (h : as.filterMap FanoutAction.request? = []) :
    RequestsFirst as :=
  List.pairwise_of_forall_mem_list fun _ _ _ hb _ => List.filterMap_eq_nil_iff.1 h _ hb

theorem RequestsFirst.append (ha : RequestsFirst as) (hb : bs.filterMap FanoutAction.request? = []) :
    RequestsFirst (as ++ bs) :=
  List.pairwise_append.2 ⟨ha, requestsFirst_of_no_request hb, fun _ _ b h _ =>
    List.filterMap_eq_nil_iff.1 hb b h⟩

theorem RequestsFirst.of_no_reply (ha : as.filterMap FanoutAction.reply? = [])
    (hb : RequestsFirst bs) : RequestsFirst (as ++ bs) := by
  have hn (a : FanoutAction) (h : a ∈ as) : a.reply?.isSome = false := by
    rw [List.filterMap_eq_nil_iff.1 ha a h]
    rfl
  refine List.pairwise_append.2 ⟨?_, hb, fun a h b _ hr => ?_⟩
  · exact List.pairwise_of_forall_mem_list fun a h _ _ hr => by simp [hn a h] at hr
  · simp [hn a h] at hr

/-! ## Recording receivers -/

theorem reply?_losses (n : NodeId) (lost : Bool) :
    (f.losses site n lost).filterMap FanoutAction.reply? = [] := by
  unfold losses
  split <;> rfl

theorem request?_losses (n : NodeId) (lost : Bool) :
    (f.losses site n lost).filterMap FanoutAction.request? = [] := by
  unfold losses
  split <;> rfl

theorem reply?_endings : f.endings.filterMap FanoutAction.reply? = f.deferred.toList := by
  have hl : (f.listeners.map (FanoutAction.notify · f.success)).filterMap FanoutAction.reply? = [] :=
    List.filterMap_eq_nil_iff.2 fun a h => by
      obtain ⟨l, -, rfl⟩ := List.mem_map.1 h
      rfl
  unfold endings
  rw [List.cons_append, List.filterMap_cons, List.filterMap_append, hl, List.append_nil]
  cases f.deferred <;> rfl

theorem request?_endings : f.endings.filterMap FanoutAction.request? = [] := by
  rw [List.filterMap_eq_nil_iff]
  intro act hact
  simp only [endings, List.mem_cons, List.mem_append, List.mem_map] at hact
  rcases hact with (rfl | ⟨d, -, rfl⟩) | ⟨l, -, rfl⟩ <;> rfl

variable (site) in
/-- Recording a receiver gives away what was held back, or goes on holding it. -/
theorem reply?_register (hs : f.Sound) (n : NodeId) (lost : Bool) :
    (f.register site n lost).2.1.filterMap FanoutAction.reply? ++
      (f.register site n lost).1.deferred.toList = f.deferred.toList := by
  have h := recorded_register site hs n lost
  generalize (f.register site n lost).1 = f' at h ⊢
  generalize (f.register site n lost).2.1 = acts at h ⊢
  cases h with
  | ignored => rfl
  | counted =>
    rw [reply?_losses]
    rfl
  | finished =>
    rw [List.filterMap_append, reply?_losses, reply?_endings]
    exact List.append_nil _

variable (site) in
theorem request?_register (hs : f.Sound) (n : NodeId) (lost : Bool) :
    (f.register site n lost).2.1.filterMap FanoutAction.request? = [] := by
  have h := recorded_register site hs n lost
  generalize (f.register site n lost).1 = f' at h
  generalize (f.register site n lost).2.1 = acts at h ⊢
  cases h with
  | ignored => rfl
  | counted => exact request?_losses n lost
  | finished => rw [List.filterMap_append, request?_losses, request?_endings, List.append_nil]

/-- Only the end of a fan-out gives an answer away. -/
theorem done_of_reply (hs : f.Sound) {n : NodeId} {lost : Bool} {act : FanoutAction}
    (h : act ∈ (f.register site n lost).2.1) (hr : act.reply?.isSome = true) :
    (f.register site n lost).1.done = true := by
  cases brings_register hs h with
  | reply hd => exact hd
  | retire hd => exact hd
  | notify hd => exact hd
  | loss => cases hr

/-! ## Sending the requests -/

variable (site) (view) in
theorem reply?_sendRequests (rs : List (NodeId × BackupRequest)) : ∀ {f : Fanout}, f.Sound →
    (f.sendRequests site view rs).2.filterMap FanoutAction.reply? ++
      (f.sendRequests site view rs).1.deferred.toList = f.deferred.toList := by
  induction rs with
  | nil => exact fun _ => rfl
  | cons e rs ih =>
    intro f hs
    obtain ⟨n, b⟩ := e
    cases hv : view.reaches n with
    | true =>
      rw [sendRequests_reached hv]
      exact ih hs
    | false =>
      rw [sendRequests_lost hv, List.filterMap_cons_none rfl, List.filterMap_append,
        List.append_assoc, ih (tracks_register site hs n true).sound]
      exact reply?_register site hs n true

variable (site) (view) in
theorem request?_sendRequests (rs : List (NodeId × BackupRequest)) : ∀ {f : Fanout}, f.Sound →
    (f.sendRequests site view rs).2.filterMap FanoutAction.request? = rs := by
  induction rs with
  | nil => exact fun _ => rfl
  | cons e rs ih =>
    intro f hs
    obtain ⟨n, b⟩ := e
    cases hv : view.reaches n with
    | true =>
      rw [sendRequests_reached hv]
      exact congrArg ((n, b) :: ·) (ih hs)
    | false =>
      rw [sendRequests_lost hv, List.filterMap_cons, List.filterMap_append,
        request?_register site hs, ih (tracks_register site hs n true).sound]
      rfl

/-- The receivers of requests still to be sent are not on record. -/
def Awaits (f : Fanout) (rs : List (NodeId × BackupRequest)) : Prop :=
  (rs.map (·.1)).Nodup ∧ ∀ e ∈ rs, e.1 ∈ f.nodes ∧ ¬ f.Responded e.1

theorem awaits_pending (f : Fanout) : f.Awaits f.pending := by
  refine ⟨?_, fun e he => ?_⟩
  · have hk := SortedMap.keys_nodup f.receivers
    rw [pending, List.map_map]
    exact hk.sublist (List.filter_sublist.map _)
  · obtain ⟨e', he', rfl⟩ := List.mem_map.1 he
    obtain ⟨he', hr⟩ := List.mem_filter.1 he'
    have hg := SortedMap.get?_eq_some_iff.2 he'
    exact ⟨mem_nodes_iff.2 ⟨_, hg⟩, not_responded hg (by simpa using hr)⟩

/-- One request after the other can be sent without the fan-out ending before the last. -/
theorem Awaits.register (site : Site) {n : NodeId} {b : BackupRequest} {rs : List (NodeId × BackupRequest)}
    (h : f.Awaits ((n, b) :: rs)) (hs : f.Sound) : (f.register site n true).1.Awaits rs := by
  have ht := tracks_register site hs n true
  have hnd := List.nodup_cons.1 h.1
  refine ⟨hnd.2, fun e he => ?_⟩
  obtain ⟨hn, hr⟩ := h.2 e (List.mem_cons_of_mem _ he)
  rw [ht.nodes, ht.responded]
  refine ⟨hn, ?_⟩
  rintro (hc | ⟨hc, -⟩)
  · exact hr hc
  · exact hnd.1 (List.mem_map.2 ⟨e, he, hc⟩)

theorem Awaits.eq_nil {rs : List (NodeId × BackupRequest)} (h : f.Awaits rs) (hs : f.Sound)
    (hd : f.done = true) : rs = [] := by
  refine List.eq_nil_iff_forall_not_mem.2 fun e he => ?_
  obtain ⟨hn, hr⟩ := h.2 e he
  exact hr (allResponded_iff.1 (hs.done.1 hd).2 _ hn)

variable (site) (view) in
/-- The answer held back does not go out before the last request. -/
theorem requestsFirst_sendRequests (rs : List (NodeId × BackupRequest)) : ∀ {f : Fanout},
    f.Sound → f.Awaits rs → RequestsFirst (f.sendRequests site view rs).2 := by
  induction rs with
  | nil => exact fun _ _ => List.Pairwise.nil
  | cons e rs ih =>
    intro f hs ha
    obtain ⟨n, b⟩ := e
    have hsend : [FanoutAction.send n (.backupRequest b)].filterMap FanoutAction.reply? = [] := rfl
    cases hv : view.reaches n with
    | true =>
      have ha : f.Awaits rs :=
        ⟨(List.nodup_cons.1 ha.1).2, fun e he => ha.2 e (List.mem_cons_of_mem _ he)⟩
      rw [sendRequests_reached hv]
      exact RequestsFirst.of_no_reply hsend (ih hs ha)
    | false =>
      have ht := tracks_register site hs n true
      have ha := ha.register site hs
      rw [sendRequests_lost hv]
      refine RequestsFirst.of_no_reply hsend (List.pairwise_append.2
        ⟨requestsFirst_of_no_request (request?_register site hs n true), ih ht.sound ha,
          fun a hact b hb hr => ?_⟩)
      -- an answer here is the end, and then there was no further request
      obtain rfl := ha.eq_nil ht.sound (done_of_reply hs hact hr)
      cases hb

/-! ## The debt -/

theorem nodes_isEmpty : f.nodes.isEmpty = f.receivers.isEmpty := by
  simp [nodes, SortedMap.keys, SortedMap.isEmpty]

/-- What a fan-out owes hangs on its base and its receivers alone. -/
theorem due_congr (hb : f.base = f₀.base) (hn : f.nodes = f₀.nodes) (m : Sending) :
    f.due site m = f₀.due site m := by
  simp only [due, answer, repliesAtOnce, relays, ← nodes_isEmpty, hb, hn]

theorem holds_congr (hb : f.base = f₀.base) (hn : f.nodes = f₀.nodes) (ret : UpdateReturn) :
    f.holds site ret = f₀.holds site ret := by
  simp only [holds, repliesAtOnce, relays, ← nodes_isEmpty, hb, hn]

/-- What sending the requests makes of a fan-out and its debt. -/
structure Debt (site : Site) (f : Fanout) (m : Sending) (x : Fanout × List FanoutAction) : Prop where
  /-- What is given away and what is held back make up what is owed. -/
  balance : x.2.filterMap FanoutAction.reply? ++ x.1.deferred.toList = f.due site m
  held : x.1.deferred =
    if !x.1.done && f.holds site m.ret then some (m.route, m.response) else none
  requests : x.2.filterMap FanoutAction.request? =
    (f.prepared site m.response m.ret m.route).pending
  ordered : RequestsFirst x.2

theorem reply?_promptly (h : f.receivers.isEmpty = false) :
    (f.promptly site m.response m.ret m.route).filterMap FanoutAction.reply? ++
      (f.prepared site m.response m.ret m.route).deferred.toList = f.due site m := by
  have hh : (f.prepared site m.response m.ret m.route).deferred =
    if f.holds site m.ret then some (m.route, m.response) else none := rfl
  rw [hh]
  cases hat : f.repliesAtOnce site m.ret <;> cases hrel : f.relays site <;>
    simp [promptly, due, holds, answer, nodes_isEmpty, h, hat, hrel, FanoutAction.reply?]

theorem request?_promptly :
    (f.promptly site m.response m.ret m.route).filterMap FanoutAction.request? = [] := by
  unfold promptly
  split <;> rfl

theorem reply?_mappings : (f.mappings site m.ret).filterMap FanoutAction.reply? = [] := by
  unfold mappings
  split <;> rfl

theorem request?_mappings : (f.mappings site m.ret).filterMap FanoutAction.request? = [] := by
  unfold mappings
  split <;> rfl

theorem debt_ended {reply : List FanoutAction}
    (hd : (f.prepared site m.response m.ret m.route).done = false)
    (hp : (f.prepared site m.response m.ret m.route).pending = [])
    (hr : reply.filterMap FanoutAction.reply? ++
      (f.prepared site m.response m.ret m.route).deferred.toList = f.due site m)
    (hq : reply.filterMap FanoutAction.request? = []) :
    Debt site f m ((f.prepared site m.response m.ret m.route).finish.1,
      reply ++ (f.prepared site m.response m.ret m.route).finish.2) := by
  have hno : (reply ++ (f.prepared site m.response m.ret m.route).endings).filterMap
      FanoutAction.request? = [] := by
    rw [List.filterMap_append, hq, request?_endings, List.append_nil]
  rw [finish_eq hd]
  exact {
    balance := by
      rw [List.filterMap_append, reply?_endings]
      exact (List.append_nil _).trans hr
    held := rfl
    requests := hno.trans hp.symm
    ordered := requestsFirst_of_no_request hno }

/-- What goes out along with the requests `as`. -/
def enclosing (site : Site) (f : Fanout) (m : Sending) (as : List FanoutAction) :
    List FanoutAction :=
  .enlist f.id :: as ++ f.mappings site m.ret ++ f.promptly site m.response m.ret m.route

theorem reply?_enclosing (as : List FanoutAction) :
    (f.enclosing site m as).filterMap FanoutAction.reply? = as.filterMap FanoutAction.reply? ++
      (f.promptly site m.response m.ret m.route).filterMap FanoutAction.reply? := by
  rw [enclosing, List.filterMap_append, List.filterMap_append, reply?_mappings, List.append_nil]
  rfl

theorem request?_enclosing (as : List FanoutAction) :
    (f.enclosing site m as).filterMap FanoutAction.request? =
      as.filterMap FanoutAction.request? := by
  rw [enclosing, List.filterMap_append, List.filterMap_append, request?_mappings,
    request?_promptly, List.append_nil, List.append_nil]
  rfl

theorem RequestsFirst.enclosing (h : RequestsFirst as) : RequestsFirst (f.enclosing site m as) := by
  have henlist : [FanoutAction.enlist f.id].filterMap FanoutAction.reply? = [] := rfl
  exact ((RequestsFirst.of_no_reply henlist h).append request?_mappings).append request?_promptly

theorem debt_sent (hne : f.receivers.isEmpty = false) {g : Fanout}
    (hg : f.prepared site m.response m.ret m.route = g) (hs : g.Sound) :
    Debt site f m ((g.sendRequests site view g.pending).1,
      f.enclosing site m (g.sendRequests site view g.pending).2) := by
  have hp : (f.promptly site m.response m.ret m.route).filterMap FanoutAction.reply? ++
      g.deferred.toList = f.due site m := hg ▸ reply?_promptly hne
  have hdef : g.deferred = if f.holds site m.ret then some (m.route, m.response) else none := by
    rw [← hg]
    rfl
  have hsent := reply?_sendRequests site view g.pending hs
  have hreq := request?_sendRequests site view g.pending hs
  have hord := requestsFirst_sendRequests site view g.pending hs (awaits_pending g)
  have htold : (g.sendRequests site view g.pending).1.deferred =
      if (g.sendRequests site view g.pending).1.done then none else g.deferred := by
    rw [sendRequests_fst]
    exact (tracks_told site hs _).deferred
  generalize g.sendRequests site view g.pending = x at hsent hreq hord htold ⊢
  exact {
    balance := by
      rw [reply?_enclosing, ← hp]
      -- an answer that goes out with the requests is not held back as well
      cases hat : f.repliesAtOnce site m.ret with
      | true =>
        have hn : g.deferred = none := by simp [hdef, holds, hat]
        rw [hn] at hsent ⊢
        obtain ⟨h₁, h₂⟩ := List.append_eq_nil_iff.1 hsent
        rw [h₁, List.nil_append]
        exact congrArg _ h₂
      | false =>
        have hn : f.promptly site m.response m.ret m.route = [] := by simp [promptly, hat]
        rw [hn, List.filterMap_nil, List.append_nil]
        exact hsent
    held := by
      show x.1.deferred = _
      rw [htold, hdef]
      cases x.1.done <;> rfl
    requests := by
      rw [request?_enclosing, hreq, hg]
    ordered := hord.enclosing }

variable {noted early : List (NodeId × Bool)} {ls : List String}

theorem debt_map (h : Tally site f₀ f as noted early none ls) :
    Debt site f m (f.map site m.view m.response m.ret m.route) := by
  have hd : (f.prepared site m.response m.ret m.route).done = false := h.unfinished
  cases hne : f.receivers.isEmpty with
  | true =>
    have hp : (f.prepared site m.response m.ret m.route).pending = [] := by
      refine pending_of_isEmpty ?_
      rw [receivers_prepared_of_isEmpty hne]
      exact hne
    have hreply : [FanoutAction.reply m.route m.response].filterMap FanoutAction.reply? ++
        (f.prepared site m.response m.ret m.route).deferred.toList = f.due site m := by
      have hh : (f.prepared site m.response m.ret m.route).deferred = none := by
        show (if f.holds site m.ret then _ else none) = _
        simp [holds, hne]
      simp [hh, due, answer, nodes_isEmpty, hne, FanoutAction.reply?]
    rw [map_of_isEmpty (h.deferred rfl) hne]
    exact debt_ended hd hp hreply rfl
  | false =>
    rw [map_of_receivers (h.deferred rfl) hne]
    simp only
    split
    next hp => exact debt_ended hd (List.isEmpty_iff.1 hp) (reply?_promptly hne) request?_promptly
    next hp =>
      have hs : (f.prepared site m.response m.ret m.route).Sound :=
        (h.prepared fun hc => hp (List.isEmpty_iff.2 (pending_eq_nil_iff.2 hc))).sound
      rw [id_sendRequests hs]
      exact debt_sent hne rfl hs

/-! ## Whole histories -/

theorem mappedWith_eq : ∀ cs : List Call, mappedWith cs = (sending cs).map (·.ret.success)
  | [] => rfl
  | .map _ _ _ _ :: _ => rfl
  | .hear _ _ :: cs => mappedWith_eq cs
  | .listen _ :: cs => mappedWith_eq cs

theorem replies_cons (c : Call) (cs : List Call) : f.replies site (c :: cs) =
    f.replies site cs ++ ((f.after site cs).call site c).2.1.filterMap FanoutAction.reply? :=
  List.filterMap_append

theorem handed_cons (c : Call) (cs : List Call) : f.handed site (c :: cs) =
    f.handed site cs ++ ((f.after site cs).call site c).2.1.filterMap FanoutAction.request? :=
  List.filterMap_append

theorem handed_hear {cs : List Call} (hk : Kept site f₀ cs) (n : NodeId) (lost : Bool) :
    f₀.handed site (.hear n lost :: cs) = f₀.handed site cs := by
  rw [handed_cons]
  exact (congrArg _ (request?_register site hk.sound n lost)).trans (List.append_nil _)

theorem handed_listen (listener : String) (cs : List Call) :
    f₀.handed site (.listen listener :: cs) = f₀.handed site cs :=
  (handed_cons _ cs).trans (List.append_nil _)

/-- A fan-out that started as `f₀` and has sent its requests pays what it owes. -/
structure Owes (site : Site) (f₀ : Fanout) (cs : List Call) (m : Sending) : Prop where
  balance : f₀.replies site cs ++ (f₀.after site cs).deferred.toList = f₀.due site m
  held : (f₀.after site cs).deferred =
    if !(f₀.after site cs).done && f₀.holds site m.ret then some (m.route, m.response) else none
  /-- Each receiver that was not on record as the requests were sent got one. -/
  handed : (f₀.handed site cs).map (·.1) =
    f₀.nodes.filter fun o => o ∉ (f₀.recorded (unmapped cs)).map (·.1)
  relayed : f₀.relays site = true → ∀ e ∈ f₀.handed site cs,
    ∃ b, e.2 = relayed f₀.nodes (f₀.carried site m.ret) b
  ordered : RequestsFirst (f₀.asked site cs)

/-- Before its requests are sent, a fan-out gives and hands over nothing. -/
structure Silent (site : Site) (f₀ : Fanout) (cs : List Call) : Prop where
  replies : f₀.replies site cs = []
  handed : f₀.handed site cs = []

theorem Silent.hear {cs : List Call} (h : Silent site f₀ cs) (hk : Kept site f₀ cs)
    (hn : sending cs = none) (n : NodeId) (lost : Bool) : Silent site f₀ (.hear n lost :: cs) := by
  have hd : (f₀.after site cs).deferred = none := hk.deferred (by rw [mappedWith_eq, hn]; rfl)
  have hr := reply?_register site hk.sound n lost
  rw [hd] at hr
  exact {
    replies := by
      rw [replies_cons, h.replies]
      exact (List.append_eq_nil_iff.1 hr).1
    handed := (handed_hear hk n lost).trans h.handed }

theorem Silent.listen {cs : List Call} (h : Silent site f₀ cs) (listener : String) :
    Silent site f₀ (.listen listener :: cs) where
  replies := by
    rw [replies_cons, h.replies]
    rfl
  handed := (handed_listen listener cs).trans h.handed

theorem unmapped_cons {c : Call} {cs : List Call} (hc : c.maps = false)
    (h : sending cs = some m) : unmapped (c :: cs) = unmapped cs :=
  unmapped_cons_of_mapped hc (by simp [mappedWith_eq, h])

/-- Whoever is heard, what is owed stays the same. -/
theorem Owes.hear {cs : List Call} (h : Owes site f₀ cs m) (hk : Kept site f₀ cs)
    (hm : sending cs = some m) (n : NodeId) (lost : Bool) :
    Owes site f₀ (.hear n lost :: cs) m where
  balance := by
    rw [replies_cons, List.append_assoc]
    exact (congrArg _ (reply?_register site hk.sound n lost)).trans h.balance
  held := by
    have ht := tracks_register site hk.sound n lost
    show ((f₀.after site cs).register site n lost).1.deferred =
      if !((f₀.after site cs).register site n lost).1.done && _ then _ else _
    rw [ht.deferred, h.held]
    cases hd' : ((f₀.after site cs).register site n lost).1.done with
    | true => rfl
    | false =>
      have hd : (f₀.after site cs).done = false :=
        Bool.eq_false_iff.2 fun hd => by simp [ht.done hd] at hd'
      rw [hd]
      rfl
  handed := by
    rw [handed_hear hk, unmapped_cons rfl hm]
    exact h.handed
  relayed := by
    rw [handed_hear hk]
    exact h.relayed
  ordered := h.ordered.append (request?_register site hk.sound n lost)

theorem Owes.listen {cs : List Call} (h : Owes site f₀ cs m) (hm : sending cs = some m)
    (listener : String) : Owes site f₀ (.listen listener :: cs) m := by
  have hsame : ((f₀.after site cs).listen listener).1.deferred = (f₀.after site cs).deferred ∧
      ((f₀.after site cs).listen listener).1.done = (f₀.after site cs).done := by
    unfold Fanout.listen
    split <;> exact ⟨rfl, rfl⟩
  exact {
    balance := by
      rw [replies_cons]
      show f₀.replies site cs ++ [] ++ ((f₀.after site cs).listen listener).1.deferred.toList = _
      rw [List.append_nil, hsame.1]
      exact h.balance
    held := by
      show ((f₀.after site cs).listen listener).1.deferred =
        if !((f₀.after site cs).listen listener).1.done && _ then _ else _
      rw [hsame.1, hsame.2]
      exact h.held
    handed := by
      rw [handed_listen, unmapped_cons rfl hm]
      exact h.handed
    relayed := by
      rw [handed_listen]
      exact h.relayed
    ordered := h.ordered.append rfl }

/-- Each receiver that is not on record gets one request. -/
theorem nodes_pending (h : Tally site f₀ f as noted early none ls) :
    (f.prepared site m.response m.ret m.route).pending.map (·.1) =
      f₀.nodes.filter fun o => o ∉ noted.map (·.1) := by
  rw [pending_eq (h.responded_prepared m.response m.ret m.route),
    ← h.nodes_prepared m.response m.ret m.route, nodes, SortedMap.keys, List.filter_map,
    List.map_map]
  rfl

/-- Where the backups tell the caller's node themselves, each request names them all, and says how
the update went if the primary does not answer. -/
theorem relayed_of_pending (h : Tally site f₀ f as noted early none ls)
    (hr : f₀.relays site = true) {e : NodeId × BackupRequest}
    (he : e ∈ (f.prepared site m.response m.ret m.route).pending) :
    ∃ b, e.2 = relayed f₀.nodes (f₀.carried site m.ret) b := by
  obtain ⟨e', he', rfl⟩ := List.mem_map.1 he
  have hg := SortedMap.get?_eq_some_iff.2 (List.mem_filter.1 he').1
  have hrel : f.relays site = true := by
    rw [← hr, relays, h.base, relays]
  have hcar : f.carried site m.ret = f₀.carried site m.ret := by
    rw [carried, carried, repliesAtOnce, repliesAtOnce, h.base]
  rw [receivers_prepared, hrel, h.nodes, hcar, Option.map_eq_some_iff] at hg
  obtain ⟨r, -, hr'⟩ := hg
  exact ⟨r.request, by rw [← hr']; rfl⟩

theorem owes_map {cs : List Call} (h : Silent site f₀ cs) (hk : Kept site f₀ cs)
    (hn : sending cs = none) (m : Sending) :
    Owes site f₀ (.map m.view m.response m.ret m.route :: cs) m := by
  have hk : Tally site f₀ (f₀.after site cs) (f₀.asked site cs) (f₀.recorded cs)
      (f₀.recorded (unmapped cs)) none (f₀.listening cs) := by
    have hnone : mappedWith cs = none := by rw [mappedWith_eq, hn]; rfl
    rw [← hnone]
    exact hk
  have hdebt := debt_map (m := m) hk
  have hreq : f₀.handed site (.map m.view m.response m.ret m.route :: cs) =
      ((f₀.after site cs).prepared site m.response m.ret m.route).pending := by
    rw [handed_cons, h.handed]
    exact hdebt.requests
  exact {
    balance := by
      rw [replies_cons, h.replies, ← due_congr hk.base hk.nodes]
      exact hdebt.balance
    held := by
      rw [← holds_congr hk.base hk.nodes]
      exact hdebt.held
    handed := by
      rw [hreq]
      exact nodes_pending hk
    relayed := by
      rw [hreq]
      exact fun hr e he => relayed_of_pending hk hr he
    ordered := RequestsFirst.of_no_reply h.replies hdebt.ordered }

theorem sending_of_not_maps {cs : List Call} (h : cs.countP Call.maps = 0) : sending cs = none := by
  have := mappedWith_of_not_maps h
  rw [mappedWith_eq, Option.map_eq_none_iff] at this
  exact this

/-- Where a fan-out that started as `f₀` stands. -/
inductive Standing (site : Site) (f₀ : Fanout) (cs : List Call) : Prop
  | silent (hn : sending cs = none) (h : Silent site f₀ cs)
  | owes {m : Sending} (hm : sending cs = some m) (h : Owes site f₀ cs m)

theorem Standing.call {c : Call} {cs : List Call} (h : Standing site f₀ cs) (hk : Kept site f₀ cs)
    (hc : c.maps = true → sending cs = none) : Standing site f₀ (c :: cs) := by
  cases c with
  | map view response ret route =>
    cases h with
    | silent hn h => exact .owes rfl (owes_map h hk hn ⟨view, response, ret, route⟩)
    | owes hm => exact absurd (hc rfl) (by simp [hm])
  | hear n lost =>
    cases h with
    | silent hn h => exact .silent hn (h.hear hk hn n lost)
    | owes hm h => exact .owes hm (h.hear hk hm n lost)
  | listen listener =>
    cases h with
    | silent hn h => exact .silent hn (h.listen listener)
    | owes hm h => exact .owes hm (h.listen hm listener)

variable {near : NodeId} {request : UpdateRequest} {id : FutureId}

theorem standing_loaded (entries : List Addition) {cs : List Call}
    (h : cs.countP Call.maps ≤ 1) : Standing site (loaded site near request id entries) cs := by
  induction cs with
  | nil => exact .silent rfl ⟨rfl, rfl⟩
  | cons c cs ih =>
    rw [List.countP_cons] at h
    have hle : cs.countP Call.maps ≤ 1 := by omega
    refine (ih hle).call (kept_loaded entries hle) fun hc => sending_of_not_maps ?_
    rw [if_pos hc] at h
    omega

/-! ## When the primary answers -/

/-- When a fan-out that started as `f₀` has given the primary's answer, by its history. -/
structure Replies (site : Site) (f₀ : Fanout) (cs : List Call) : Prop where
  /-- The answer goes out at most once. -/
  once : (f₀.replies site cs).length ≤ 1
  /-- Nothing goes out before the requests are sent. -/
  unsent : sending cs = none → f₀.replies site cs = [] ∧ f₀.handed site cs = []
  /-- Each receiver that was not on record by then got one request. -/
  handed : ∀ m, sending cs = some m → (f₀.handed site cs).map (·.1) =
    f₀.nodes.filter fun o => o ∉ (f₀.recorded (unmapped cs)).map (·.1)
  /-- No request comes after the answer. -/
  ordered : RequestsFirst (f₀.asked site cs)
  /-- A caller that waits for all is answered by the primary at the end. -/
  atEnd : f₀.base.syncMode = .fullSync → site.settings.nearRelay = .primary →
    ∀ m, sending cs = some m →
      f₀.replies site cs = if f₀.Complete cs then [(m.route, m.response)] else []
  /-- A caller that does not wait for all is answered as the requests are sent. -/
  atOnce : f₀.base.syncMode ≠ .fullSync → ∀ m, sending cs = some m →
    f₀.replies site cs = [(m.route, m.response)]
  /-- The primary answers although the backups could: it names them. -/
  alone : f₀.base.syncMode = .fullSync → site.settings.nearRelay = .backups →
    ∀ m, sending cs = some m →
      (f₀.nodes = [] ∨ m.ret.hasValue = true ∨ f₀.base.nearNode = site.node) →
        f₀.replies site cs = [(m.route,
          if f₀.nodes = [] then m.response else { m.response with mapping := some f₀.nodes })]
  /-- The primary leaves the answer to the backups, and tells them all they need for it. -/
  left : f₀.base.syncMode = .fullSync → site.settings.nearRelay = .backups →
    ∀ m, sending cs = some m →
      f₀.nodes ≠ [] → m.ret.hasValue = false → f₀.base.nearNode ≠ site.node →
        f₀.replies site cs = [] ∧ ∀ e ∈ f₀.handed site cs, e.2.flags.nearReply = true ∧
          e.2.mapping = some f₀.nodes ∧ e.2.result? = some m.ret.success

/-- Once the requests are sent, what is owed was paid, but for what waits for the end. -/
theorem Owes.replies_eq {cs : List Call} (h : Owes site f₀ cs m) :
    f₀.replies site cs =
      if f₀.holds site m.ret && !(f₀.after site cs).done then [] else f₀.due site m := by
  have hb := h.balance
  rw [h.held] at hb
  cases hh : f₀.holds site m.ret <;> cases hd : (f₀.after site cs).done
  all_goals simp only [hh, hd, Bool.not_true, Bool.not_false, Bool.and_true, Bool.and_false,
    Bool.false_eq_true, if_true, if_false, Option.toList_none, Option.toList_some,
    List.append_nil] at hb ⊢
  · exact hb
  · exact hb
  · have hdue : f₀.due site m = [(m.route, m.response)] := by
      simp only [holds, Bool.and_eq_true, Bool.not_eq_true'] at hh
      simp [due, answer, hh.1.2]
    rw [hdue] at hb
    exact List.append_left_eq_self.1 (hb.trans (List.nil_append _).symm)
  · exact hb

section

variable {cs : List Call}

/-- A caller that waits for all: the answer is held back, unless there are no receivers. -/
theorem Owes.atEnd (h : Owes site f₀ cs m) (hk : Kept site f₀ cs)
    (hm : sending cs = some m) (hs : f₀.base.syncMode = .fullSync)
    (hr : site.settings.nearRelay = .primary) :
    f₀.replies site cs = if f₀.Complete cs then [(m.route, m.response)] else [] := by
  have hrel : f₀.relays site = false := by simp [relays, hr]
  have hat : f₀.repliesAtOnce site m.ret = false := by simp [repliesAtOnce, hs, hr]
  have hdue : f₀.due site m = [(m.route, m.response)] := by simp [due, answer, hrel]
  have hdone := hk.done_iff
  rw [h.replies_eq, hdue]
  by_cases hc : f₀.Complete cs
  · rw [if_pos hc, hdone.2 hc, Bool.not_true, Bool.and_false, if_neg Bool.false_ne_true]
  · -- an incomplete fan-out has receivers
    have hne : f₀.receivers.isEmpty = false := by
      rw [← nodes_isEmpty, Bool.eq_false_iff]
      refine fun hn => hc ⟨by rw [mappedWith_eq, hm]; rfl, fun n h => ?_⟩
      simp [List.isEmpty_iff.1 hn] at h
    have hd : (f₀.after site cs).done = false := Bool.eq_false_iff.2 fun hd => hc (hdone.1 hd)
    rw [if_neg hc, hd, holds, hat, hrel, hne]
    rfl

/-- What is owed and not held back was paid with the requests. -/
theorem Owes.paid (h : Owes site f₀ cs m) (hh : f₀.holds site m.ret = false) :
    f₀.replies site cs = f₀.due site m := by
  rw [h.replies_eq, hh, Bool.false_and, if_neg Bool.false_ne_true]

theorem Owes.atOnce (h : Owes site f₀ cs m) (hs : f₀.base.syncMode ≠ .fullSync) :
    f₀.replies site cs = [(m.route, m.response)] := by
  have hat : f₀.repliesAtOnce site m.ret = true := by
    unfold repliesAtOnce
    split
    next he => exact absurd he hs
    next => rfl
  rw [h.paid (by simp [holds, hat])]
  simp [due, answer, hat, relays, hs]

/-- Where the backups could answer, the primary does so at once or not at all. -/
theorem Owes.relayed_eq (h : Owes site f₀ cs m) (hs : f₀.base.syncMode = .fullSync)
    (hr : site.settings.nearRelay = .backups) :
    f₀.replies site cs = if f₀.nodes = [] ∨ m.ret.hasValue = true ∨ f₀.base.nearNode = site.node
      then [(m.route,
        if f₀.nodes = [] then m.response else { m.response with mapping := some f₀.nodes })]
      else [] := by
  have hrel : f₀.relays site = true := by simp [relays, hs, hr]
  have hat : f₀.repliesAtOnce site m.ret =
      (m.ret.hasValue || decide (f₀.base.nearNode = site.node)) := by
    simp [repliesAtOnce, hs, hr]
  rw [h.paid (by simp [holds, hrel])]
  by_cases hn : f₀.nodes = []
  · simp [due, answer, hrel, ← nodes_isEmpty, hn]
  · simp [due, answer, hrel, hat, ← nodes_isEmpty, hn]

/-- What the requests tell the backups if the answer is left to them. -/
theorem Owes.left (h : Owes site f₀ cs m) (hs : f₀.base.syncMode = .fullSync)
    (hr : site.settings.nearRelay = .backups) (hv : m.ret.hasValue = false)
    (hn : f₀.base.nearNode ≠ site.node) {e : NodeId × BackupRequest}
    (he : e ∈ f₀.handed site cs) : e.2.flags.nearReply = true ∧
      e.2.mapping = some f₀.nodes ∧ e.2.result? = some m.ret.success := by
  have hcar : f₀.carried site m.ret = some m.ret.success := by
    simp [carried, repliesAtOnce, hs, hv, hn]
  obtain ⟨b, hb⟩ := h.relayed (by simp [relays, hs, hr]) e he
  rw [hb, hcar]
  exact ⟨rfl, rfl, rfl⟩

end

theorem due_length_le (f : Fanout) (m : Sending) : (f.due site m).length ≤ 1 := by
  unfold due
  split <;> simp

/-- When a fan-out has answered, and what its requests said by then, is what its history says. -/
theorem replies_loaded (site : Site) (near : NodeId) (request : UpdateRequest) (id : FutureId)
    (entries : List Addition) (cs : List Call) (h : cs.countP Call.maps ≤ 1) :
    Replies site (loaded site near request id entries) cs := by
  have hk : Kept site (loaded site near request id entries) cs := kept_loaded entries h
  have hst : Standing site (loaded site near request id entries) cs := standing_loaded entries h
  cases hst with
  | silent hn hs =>
    have hnone (m : Sending) : sending cs ≠ some m := by simp [hn]
    exact {
      once := by simp [hs.replies]
      unsent := fun _ => ⟨hs.replies, hs.handed⟩
      handed := fun m hm => absurd hm (hnone m)
      ordered := requestsFirst_of_no_request hs.handed
      atEnd := fun _ _ m hm => absurd hm (hnone m)
      atOnce := fun _ m hm => absurd hm (hnone m)
      alone := fun _ _ m hm => absurd hm (hnone m)
      left := fun _ _ m hm => absurd hm (hnone m) }
  | @owes m₀ hm₀ ho =>
    have hsame (m : Sending) (hm : sending cs = some m) : m = m₀ :=
      Option.some_inj.1 (hm.symm.trans hm₀)
    exact {
      once := by
        rw [ho.replies_eq]
        split
        · exact Nat.zero_le _
        · exact due_length_le _ m₀
      unsent := fun hn => absurd hn (by simp [hm₀])
      handed := fun _ _ => ho.handed
      ordered := ho.ordered
      atEnd := fun hs hr m hm => by
        obtain rfl := hsame m hm
        exact ho.atEnd hk hm hs hr
      atOnce := fun hs m hm => by
        obtain rfl := hsame m hm
        exact ho.atOnce hs
      alone := fun hs hr m hm ha => by
        obtain rfl := hsame m hm
        rw [ho.relayed_eq hs hr, if_pos ha]
      left := fun hs hr m hm hn hv hne => by
        obtain rfl := hsame m hm
        refine ⟨?_, fun e he => ho.left hs hr hv hne he⟩
        rw [ho.relayed_eq hs hr, if_neg]
        simp [hn, hv, hne] }

/-- Two receivers, one of them out of reach: the answer comes when the other one acknowledges. -/
theorem replies_acknowledged :
    ((handingOn .fullSync).replies ⟨⟨1⟩, 7, "c", {}⟩ acknowledged).length = 1 ∧
      ((handingOn .fullSync).handed ⟨⟨1⟩, 7, "c", {}⟩ acknowledged).map (·.1) = [⟨2⟩, ⟨3⟩] := by
  have h : Replies ⟨⟨1⟩, 7, "c", {}⟩ (handingOn .fullSync) acknowledged :=
    replies_loaded _ _ _ _ _ _ (by decide)
  have hr := h.atEnd (by decide) (by decide) ⟨threeNodes, default, .flag true, .nobody⟩ rfl
  have hh := h.handed ⟨threeNodes, default, .flag true, .nobody⟩ rfl
  exact ⟨by rw [hr]; decide, hh.trans (by decide)⟩

end Fanout

end AtomicGrid
