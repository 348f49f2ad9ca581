import DocWire.Proofs.Queue.Head
import DocWire.Proofs.Queue.Ledger

/-!
# What becomes of subscriptions

A subscriber is given every notice that is routed from its subscription on, until a close or until
it gives the subscription up, and is told of that end.  A closed queue takes subscriptions too, and
such a one lasts until the queue is closed once more.

* `heard`, `endings`                      what a subscriber is given, and how often it is told of
                                          the end;
* `WorkQueue.Listed`                      every subscriber is listed once, under a number given out;
* `WorkQueue.heard_call`, `WorkQueue.mem_subscribers_call`, `WorkQueue.endings_call`   one call;
* `WorkQueue.run_of_subscribed`, `WorkQueue.run_of_subscribing`   any calls;
* `WorkQueue.NoticesFollow`               subscriptions live from their start to the first close;
* `WorkQueue.noticesFollow_iff`           when they do, and what they do in every case.
-/

namespace DocWire

/-! ## What a subscriber is given -/

def Delivery.gives? (subscriber : Nat) : Delivery → Option ServerNotice
  | .notice s n => if s = subscriber then some n else none
  | _ => none

/-- Whether a delivery tells a subscriber that no more notices follow. -/
def Delivery.ends (subscriber : Nat) : Delivery → Bool
  | .ended s => s == subscriber
  | _ => false

/-- The notices that a subscriber is given, in order. -/
def heard (subscriber : Nat) (deliveries : List Delivery) : List ServerNotice :=
  deliveries.filterMap (Delivery.gives? subscriber)

/-- How often a subscriber is told that no more notices follow. -/
def endings (subscriber : Nat) (deliveries : List Delivery) : Nat :=
  deliveries.countP (Delivery.ends subscriber)

def Delivery.isToCaller : Delivery → Bool
  | .event _ _ | .settled _ _ => true
  | .notice _ _ | .ended _ => false

section
variable (subscriber : Nat)

theorem heard_append (a b : List Delivery) :
    heard subscriber (a ++ b) = heard subscriber a ++ heard subscriber b := List.filterMap_append

theorem endings_append (a b : List Delivery) :
    endings subscriber (a ++ b) = endings subscriber a + endings subscriber b := List.countP_append

/-- What callers of operations are told is not for subscribers. -/
theorem unheard_of_isToCaller {deliveries : List Delivery}
    (h : ∀ d ∈ deliveries, d.isToCaller = true) :
    heard subscriber deliveries = [] ∧ endings subscriber deliveries = 0 := by
  refine ⟨List.filterMap_eq_nil_iff.mpr fun d hd => ?_, List.countP_eq_zero.mpr fun d hd => ?_⟩
  · have hcaller := h d hd
    cases d with
    | event | settled => rfl
    | notice | ended => cases hcaller
  · have hcaller := h d hd
    cases d with
    | event | settled => exact Bool.false_ne_true
    | notice | ended => cases hcaller

theorem endings_notices (subscribers : List Nat) (n : ServerNotice) :
    endings subscriber (subscribers.map (.notice · n)) = 0 := by
  unfold endings
  rw [List.countP_map]
  exact List.countP_eq_zero.mpr fun _ _ => Bool.false_ne_true

theorem heard_ended (subscribers : List Nat) : heard subscriber (subscribers.map .ended) = [] := by
  unfold heard
  rw [List.filterMap_map]
  exact List.filterMap_eq_nil_iff.mpr fun _ _ => rfl

variable {subscribers : List Nat} (hnodup : subscribers.Nodup)
include hnodup

/-- Who is listed once is given a notice once. -/
theorem heard_notices (n : ServerNotice) :
    heard subscriber (subscribers.map (.notice · n)) = if subscriber ∈ subscribers then [n] else [] := by
  have hgives : heard subscriber (subscribers.map (.notice · n))
      = (subscribers.filter (· == subscriber)).map fun _ => n := by
    unfold heard
    rw [List.filterMap_map, ← List.filterMap_eq_map, List.filterMap_filter]
    refine List.filterMap_congr fun s _ => ?_
    by_cases hs : s = subscriber <;> simp [Delivery.gives?, hs]
  rw [hgives, List.filter_beq, hnodup.count]
  split <;> rfl

theorem endings_ended :
    endings subscriber (subscribers.map .ended) = if subscriber ∈ subscribers then 1 else 0 := by
  unfold endings
  rw [List.countP_map, ← hnodup.count]
  rfl

end

/-! ## Calls -/

namespace QueueCall

def notice? : QueueCall → Option ServerNotice
  | .route frame =>
    match Reply.decode frame with
    | .ok (.notice n) => some n
    | _ => none
  | _ => none

def closes : QueueCall → Bool
  | .close _ => true
  | _ => false

/-- Whether a call ends a subscription: it closes the queue, or gives the subscription up. -/
def endsFor (subscriber : Nat) : QueueCall → Bool
  | .close _ => true
  | .unsubscribe s => s == subscriber
  | _ => false

theorem endsFor_of_closes {c : QueueCall} (h : c.closes = true) (subscriber : Nat) :
    c.endsFor subscriber = true := by
  cases c with
  | close reason => rfl
  | _ => cases h

end QueueCall

/-- The notices that calls route, in order. -/
def noticesOf (calls : List QueueCall) : List ServerNotice := calls.filterMap QueueCall.notice?

namespace WorkQueue

section
variable (q : WorkQueue)

/-- A frame goes to the subscribers if it is a notice, and to callers of operations if not. -/
theorem route_cases (frame : Frame) :
    (∃ n, (QueueCall.route frame).notice? = some n ∧
        (q.route frame).deliveries = q.subscribers.map (.notice · n)) ∨
      ((QueueCall.route frame).notice? = none ∧
        ∀ d ∈ (q.route frame).deliveries, d.isToCaller = true) := by
  have hunasked (reply : Reply) : (q.routeUnasked reply).deliveries = [] := by
    unfold routeUnasked
    split <;> rfl
  rcases decode_cases frame with ⟨e, hd⟩ | ⟨n, hd⟩ | ⟨reply, hd, hr⟩
  · refine Or.inr ⟨by simp only [QueueCall.notice?, hd], ?_⟩
    rw [route_of_error hd]
    exact fun d hd => absurd hd List.not_mem_nil
  · refine Or.inl ⟨n, by simp only [QueueCall.notice?, hd], ?_⟩
    rw [route_of_notice hd]
    rfl
  · refine Or.inr ⟨?_, ?_⟩
    · simp only [QueueCall.notice?, hd]
      cases reply with
      | notice n => exact absurd rfl (hr n)
      | _ => rfl
    · cases hq : q.entries with
      | nil =>
        have hroute : q.route frame = q.routeUnasked reply := by
          unfold route routeReply
          rw [hd]
          cases reply with
          | notice n => exact absurd rfl (hr n)
          | _ => rw [hq]
        rw [hroute, hunasked]
        exact fun d hd => absurd hd List.not_mem_nil
      | cons head rest =>
        rw [route_of_reply hq hd hr]
        unfold routeTo
        cases head.operation.handle reply with
        | pending operation events =>
          intro d hd
          obtain ⟨e, -, rfl⟩ := List.mem_map.mp hd
          rfl
        | reply operation request => exact fun d hd => absurd hd List.not_mem_nil
        | settled settlement | failed e =>
          intro d hd
          rw [List.mem_singleton.mp hd]
          rfl

/-- A frame changes nothing about who subscribes. -/
theorem subscribers_route (frame : Frame) :
    (q.route frame).queue.subscribers = q.subscribers ∧
      (q.route frame).queue.nextSubscriber = q.nextSubscriber := by
  unfold route
  split
  · exact ⟨rfl, rfl⟩
  · unfold routeReply
    split
    · exact ⟨rfl, rfl⟩
    · split
      · unfold routeUnasked
        split <;> exact ⟨rfl, rfl⟩
      · unfold routeTo
        split <;> exact ⟨rfl, rfl⟩

theorem subscribers_enqueue (operation : Operation) :
    (q.call (.enqueue operation)).1.subscribers = q.subscribers ∧
      (q.call (.enqueue operation)).1.nextSubscriber = q.nextSubscriber ∧
      (q.call (.enqueue operation)).2 = [] := by
  unfold call enqueue
  cases q.closed <;> exact ⟨rfl, rfl, rfl⟩

end

/-- Every subscriber is listed once, under a number that was given out. -/
structure Listed (q : WorkQueue) : Prop where
  nodup : q.subscribers.Nodup
  given : ∀ s ∈ q.subscribers, s < q.nextSubscriber

section
variable {q : WorkQueue} (subscriber : Nat)

/-- A subscriber stays until a call ends its subscription; the next one comes by subscribing. -/
theorem mem_subscribers_call (c : QueueCall) :
    subscriber ∈ (q.call c).1.subscribers ↔
      (subscriber ∈ q.subscribers ∧ c.endsFor subscriber = false) ∨
        (c = .subscribe ∧ subscriber = q.nextSubscriber) := by
  cases c with
  | enqueue operation =>
    rw [(q.subscribers_enqueue operation).1]
    simp [QueueCall.endsFor]
  | subscribe =>
    show subscriber ∈ q.subscribers ++ [q.nextSubscriber] ↔ _
    simp [QueueCall.endsFor]
  | unsubscribe other =>
    show subscriber ∈ q.subscribers.filter (· ≠ other) ↔ _
    simp [QueueCall.endsFor, @eq_comm _ other]
  | route frame =>
    show subscriber ∈ (q.route frame).queue.subscribers ↔ _
    rw [(q.subscribers_route frame).1]
    simp [QueueCall.endsFor]
  | close reason =>
    show subscriber ∈ [] ↔ _
    simp [QueueCall.endsFor]

/-- Numbers of subscribers are given out one by one. -/
theorem nextSubscriber_call (c : QueueCall) :
    (c = .subscribe ∧ (q.call c).1.nextSubscriber = q.nextSubscriber + 1) ∨
      (c ≠ .subscribe ∧ (q.call c).1.nextSubscriber = q.nextSubscriber) := by
  cases c with
  | enqueue operation => exact Or.inr ⟨nofun, (q.subscribers_enqueue operation).2.1⟩
  | subscribe => exact Or.inl ⟨rfl, rfl⟩
  | unsubscribe | close => exact Or.inr ⟨nofun, rfl⟩
  | route frame => exact Or.inr ⟨nofun, (q.subscribers_route frame).2⟩

theorem listed_new : ({} : WorkQueue).Listed :=
  ⟨List.nodup_nil, fun _ hs => absurd hs List.not_mem_nil⟩

theorem Listed.call (h : q.Listed) (c : QueueCall) : (q.call c).1.Listed := by
  constructor
  · cases c with
    | enqueue operation =>
      rw [(q.subscribers_enqueue operation).1]
      exact h.nodup
    | subscribe =>
      show (q.subscribers ++ [q.nextSubscriber]).Nodup
      rw [← List.concat_eq_append]
      exact List.Nodup.concat (fun hmem => Nat.lt_irrefl _ (h.given _ hmem)) h.nodup
    | unsubscribe other => exact h.nodup.filter _
    | route frame =>
      show (q.route frame).queue.subscribers.Nodup
      rw [(q.subscribers_route frame).1]
      exact h.nodup
    | close reason => exact List.nodup_nil
  · intro s hs
    rcases (mem_subscribers_call s c).mp hs with ⟨hmem, -⟩ | ⟨rfl, rfl⟩
    · have hlt := h.given s hmem
      rcases nextSubscriber_call (q := q) c with ⟨-, hnext⟩ | ⟨-, hnext⟩ <;> omega
    · exact Nat.lt_succ_self _

theorem Listed.run (h : q.Listed) (calls : List QueueCall) : (q.run calls).1.Listed := by
  induction calls generalizing q with
  | nil => exact h
  | cons c rest ih => exact ih (h.call c)

/-- A call gives a subscriber the notice that it routes. -/
theorem heard_call (h : q.Listed) (c : QueueCall) :
    heard subscriber (q.call c).2
      = if subscriber ∈ q.subscribers then c.notice?.toList else [] := by
  cases c with
  | enqueue operation =>
    rw [(q.subscribers_enqueue operation).2.2]
    exact (ite_self _).symm
  | subscribe => exact (ite_self _).symm
  | unsubscribe other =>
    show heard subscriber (if other ∈ q.subscribers then [.ended other] else []) = _
    rw [show (QueueCall.unsubscribe other).notice?.toList = [] from rfl, ite_self]
    split <;> rfl
  | route frame =>
    show heard subscriber (q.route frame).deliveries = _
    rcases q.route_cases frame with ⟨n, hn, hroute⟩ | ⟨hn, hroute⟩
    · rw [hn, hroute]
      exact heard_notices subscriber h.nodup n
    · rw [hn, (unheard_of_isToCaller subscriber hroute).1]
      exact (ite_self _).symm
  | close reason =>
    have hfailed : ∀ d ∈ q.entries.map fun entry =>
        Delivery.settled entry.id (entry.operation.fail reason), d.isToCaller = true := by
      intro d hd
      obtain ⟨entry, -, rfl⟩ := List.mem_map.mp hd
      rfl
    show heard subscriber (_ ++ q.subscribers.map .ended) = _
    rw [heard_append, heard_ended, (unheard_of_isToCaller subscriber hfailed).1]
    exact (ite_self _).symm

/-- A subscriber is told of the end by the call that ends its subscription. -/
theorem endings_call (h : q.Listed) (c : QueueCall) :
    endings subscriber (q.call c).2
      = if subscriber ∈ q.subscribers ∧ c.endsFor subscriber = true then 1 else 0 := by
  cases c with
  | enqueue operation =>
    rw [(q.subscribers_enqueue operation).2.2]
    simp [QueueCall.endsFor, endings]
  | subscribe => simp [call, QueueCall.endsFor, endings]
  | unsubscribe other =>
    show endings subscriber (if other ∈ q.subscribers then [.ended other] else []) = _
    by_cases hother : other = subscriber
    · subst hother
      by_cases hmem : other ∈ q.subscribers <;>
        simp [hmem, QueueCall.endsFor, endings, Delivery.ends]
    · by_cases hmem : other ∈ q.subscribers <;>
        simp [hmem, hother, QueueCall.endsFor, endings, Delivery.ends]
  | route frame =>
    rw [if_neg fun hends => Bool.false_ne_true hends.2]
    show endings subscriber (q.route frame).deliveries = 0
    rcases q.route_cases frame with ⟨n, -, hroute⟩ | ⟨-, hroute⟩
    · rw [hroute]
      exact endings_notices subscriber q.subscribers n
    · exact (unheard_of_isToCaller subscriber hroute).2
  | close reason =>
    have hfailed : ∀ d ∈ q.entries.map fun entry =>
        Delivery.settled entry.id (entry.operation.fail reason), d.isToCaller = true := by
      intro d hd
      obtain ⟨entry, -, rfl⟩ := List.mem_map.mp hd
      rfl
    show endings subscriber (_ ++ q.subscribers.map .ended) = _
    rw [endings_append, endings_ended subscriber h.nodup,
      (unheard_of_isToCaller subscriber hfailed).2, Nat.zero_add]
    simp [QueueCall.endsFor]

/-! ## Runs -/

/-- Who does not subscribe, and will not be given a number any more, hears nothing. -/
theorem run_of_past (h : q.Listed) (hpast : subscriber < q.nextSubscriber)
    (hnot : subscriber ∉ q.subscribers) (calls : List QueueCall) :
    heard subscriber (q.run calls).2 = [] ∧ endings subscriber (q.run calls).2 = 0 ∧
      subscriber ∉ (q.run calls).1.subscribers := by
  induction calls generalizing q with
  | nil => exact ⟨rfl, rfl, hnot⟩
  | cons c rest ih =>
    have hpast' : subscriber < (q.call c).1.nextSubscriber := by
      rcases nextSubscriber_call (q := q) c with ⟨-, hnext⟩ | ⟨-, hnext⟩ <;> omega
    have hnot' : subscriber ∉ (q.call c).1.subscribers := by
      intro hmem
      rcases (mem_subscribers_call subscriber c).mp hmem with ⟨hmem, -⟩ | ⟨-, rfl⟩
      · exact hnot hmem
      · exact Nat.lt_irrefl _ hpast
    obtain ⟨hheard, hendings, hlast⟩ := ih (h.call c) hpast' hnot'
    rw [run_cons, heard_append, endings_append, heard_call subscriber h, endings_call subscriber h,
      if_neg hnot, if_neg fun hends => hnot hends.1]
    exact ⟨hheard, (Nat.zero_add _).trans hendings, hlast⟩

/-- **A subscriber is given every notice until its subscription ends, and is told of that once.** -/
theorem run_of_subscribed (h : q.Listed) (hmem : subscriber ∈ q.subscribers)
    (calls : List QueueCall) :
    heard subscriber (q.run calls).2
        = noticesOf (calls.takeWhile fun c => !c.endsFor subscriber) ∧
      endings subscriber (q.run calls).2
        = (if calls.any (QueueCall.endsFor subscriber) then 1 else 0) ∧
      (subscriber ∈ (q.run calls).1.subscribers ↔
        calls.any (QueueCall.endsFor subscriber) = false) := by
  induction calls generalizing q with
  | nil => exact ⟨rfl, rfl, iff_of_true hmem rfl⟩
  | cons c rest ih =>
    rw [run_cons, heard_append, endings_append, heard_call subscriber h, endings_call subscriber h,
      if_pos hmem]
    cases hends : c.endsFor subscriber with
    | false =>
      obtain ⟨hheard, hendings, hlast⟩ :=
        ih (h.call c) ((mem_subscribers_call subscriber c).mpr (Or.inl ⟨hmem, hends⟩))
      refine ⟨?_, ?_, ?_⟩
      · rw [hheard, List.takeWhile_cons_of_pos (by rw [hends]; rfl)]
        unfold noticesOf
        rw [List.filterMap_cons]
        cases c.notice? <;> rfl
      · rw [hendings, List.any_cons, hends]
        simp
      · rw [hlast, List.any_cons, hends, Bool.false_or]
    | true =>
      have hsilent : c.notice? = none := by
        cases c with
        | route frame => cases hends
        | _ => rfl
      have hpast : subscriber < (q.call c).1.nextSubscriber := by
        have hlt := h.given subscriber hmem
        rcases nextSubscriber_call (q := q) c with ⟨-, hnext⟩ | ⟨-, hnext⟩ <;> omega
      have hnot : subscriber ∉ (q.call c).1.subscribers := by
        intro hmem'
        rcases (mem_subscribers_call subscriber c).mp hmem' with ⟨-, hends'⟩ | ⟨rfl, -⟩
        · rw [hends] at hends'
          cases hends'
        · cases hends
      obtain ⟨hheard, hendings, hlast⟩ := run_of_past subscriber (h.call c) hpast hnot rest
      refine ⟨?_, ?_, ?_⟩
      · rw [hheard, hsilent, List.takeWhile_cons_of_neg (by simp [hends])]
        rfl
      · rw [hendings, List.any_cons, hends]
        simp [hmem]
      · simp [hlast, hends]

theorem nextSubscriber_le_run (calls : List QueueCall) :
    q.nextSubscriber ≤ (q.run calls).1.nextSubscriber := by
  induction calls generalizing q with
  | nil => exact Nat.le_refl _
  | cons c rest ih =>
    refine Nat.le_trans ?_ (ih (q := (q.call c).1))
    rcases nextSubscriber_call (q := q) c with ⟨-, hnext⟩ | ⟨-, hnext⟩ <;> omega

/-- Nothing is given under a number that has not been given out. -/
theorem run_of_future (h : q.Listed) (calls : List QueueCall)
    (hfuture : (q.run calls).1.nextSubscriber ≤ subscriber) :
    heard subscriber (q.run calls).2 = [] ∧ endings subscriber (q.run calls).2 = 0 := by
  induction calls generalizing q with
  | nil => exact ⟨rfl, rfl⟩
  | cons c rest ih =>
    have hnot : subscriber ∉ q.subscribers := fun hmem =>
      Nat.lt_irrefl _ (Nat.lt_of_lt_of_le (h.given _ hmem)
        (Nat.le_trans (nextSubscriber_le_run (c :: rest)) hfuture))
    obtain ⟨hheard, hendings⟩ := ih (h.call c) hfuture
    rw [run_cons, heard_append, endings_append, heard_call subscriber h, endings_call subscriber h,
      if_neg hnot, if_neg fun hends => hnot hends.1]
    exact ⟨hheard, (Nat.zero_add _).trans hendings⟩

/-- Who subscribes in the course of calls is given what comes behind that. -/
theorem run_of_subscribing (h : q.Listed) (before after : List QueueCall) :
    let subscriber := (q.run before).1.subscribe.1
    heard subscriber (q.run (before ++ .subscribe :: after)).2
        = noticesOf (after.takeWhile fun c => !c.endsFor subscriber) ∧
      endings subscriber (q.run (before ++ .subscribe :: after)).2
        = (if after.any (QueueCall.endsFor subscriber) then 1 else 0) ∧
      (subscriber ∈ (q.run (before ++ .subscribe :: after)).1.subscribers ↔
        after.any (QueueCall.endsFor subscriber) = false) := by
  intro subscriber
  have hlisted : ((q.run before).1.call .subscribe).1.Listed := (h.run before).call .subscribe
  have hmem : subscriber ∈ ((q.run before).1.call .subscribe).1.subscribers :=
    (mem_subscribers_call subscriber .subscribe).mpr (Or.inr ⟨rfl, rfl⟩)
  obtain ⟨hbefore, hbefore'⟩ := run_of_future subscriber h before (Nat.le_refl _)
  obtain ⟨hheard, hendings, hlast⟩ := run_of_subscribed subscriber hlisted hmem after
  rw [run_append, run_cons, heard_append, heard_append, endings_append, endings_append, hbefore,
    hbefore', hheard, hendings]
  exact ⟨rfl, (Nat.zero_add _).trans (Nat.zero_add _), hlast⟩

/-- Every subscriber has subscribed at some time. -/
theorem exists_subscribing (calls : List QueueCall)
    (h : subscriber ∈ (q.run calls).1.subscribers) :
    subscriber ∈ q.subscribers ∨ ∃ before after, calls = before ++ .subscribe :: after ∧
      subscriber = (q.run before).1.subscribe.1 := by
  induction calls generalizing q with
  | nil => exact Or.inl h
  | cons c rest ih =>
    rcases ih h with hmem | ⟨before, after, rfl, hnumber⟩
    · rcases (mem_subscribers_call subscriber c).mp hmem with ⟨hmem, -⟩ | ⟨rfl, hnumber⟩
      · exact Or.inl hmem
      · exact Or.inr ⟨[], rest, rfl, hnumber⟩
    · exact Or.inr ⟨c :: before, after, rfl, hnumber⟩

/-- A queue is closed once a call has closed it. -/
theorem isClosed_run (calls : List QueueCall) :
    (q.run calls).1.isClosed = (q.isClosed || calls.any QueueCall.closes) := by
  induction calls generalizing q with
  | nil => exact (Bool.or_false _).symm
  | cons c rest ih =>
    have hcall : (q.call c).1.isClosed = (q.isClosed || c.closes) := by
      cases c with
      | enqueue operation =>
        unfold call enqueue
        cases hclosed : q.closed <;> simp [isClosed, hclosed, QueueCall.closes]
      | subscribe | unsubscribe => exact (Bool.or_false _).symm
      | route frame =>
        show (q.route frame).queue.closed.isSome = _
        rw [closed_route]
        exact (Bool.or_false _).symm
      | close reason => exact (Bool.or_true _).symm
    rw [run_cons, ih, hcall, List.any_cons, Bool.or_assoc]

end

/-! ## From a subscription to the first close -/

/-- the number of who subscribes after calls on a fresh queue -/
def numberAfter (before : List QueueCall) : Nat := (({} : WorkQueue).run before).1.subscribe.1

/-- Subscriptions live from their start to the first close: a subscriber is given exactly the
notices that are routed in that time, each once and in order, or until it gives the subscription
up; and a closed queue keeps no subscriber, so that all of them have been told of the end. -/
structure NoticesFollow (calls : List QueueCall) : Prop where
  heard : ∀ before after, calls = before ++ .subscribe :: after →
    DocWire.heard (numberAfter before) (({} : WorkQueue).run calls).2
      = if before.any QueueCall.closes then []
        else noticesOf (after.takeWhile fun c => !c.endsFor (numberAfter before))
  released : (({} : WorkQueue).run calls).1.isClosed = true →
    (({} : WorkQueue).run calls).1.subscribers = []
  ended : (({} : WorkQueue).run calls).1.isClosed = true →
    ∀ before after, calls = before ++ .subscribe :: after →
      endings (numberAfter before) (({} : WorkQueue).run calls).2 = 1

/-- **Subscriptions live from their start to the next close**, whatever is queued and whoever else
subscribes.  So they live to the first close exactly if each that is taken after a close is ended
once more, and no notice comes before that. -/
theorem noticesFollow_iff (calls : List QueueCall) :
    (∀ before after, calls = before ++ .subscribe :: after →
      heard (numberAfter before) (({} : WorkQueue).run calls).2
          = noticesOf (after.takeWhile fun c => !c.endsFor (numberAfter before)) ∧
        endings (numberAfter before) (({} : WorkQueue).run calls).2
          = if after.any (QueueCall.endsFor (numberAfter before)) then 1 else 0) ∧
    (NoticesFollow calls ↔
      ∀ before after, calls = before ++ .subscribe :: after → before.any QueueCall.closes = true →
        after.any (QueueCall.endsFor (numberAfter before)) = true ∧
          noticesOf (after.takeWhile fun c => !c.endsFor (numberAfter before)) = []) := by
  have hdescribed : ∀ before after, calls = before ++ .subscribe :: after →
      heard (numberAfter before) (({} : WorkQueue).run calls).2
          = noticesOf (after.takeWhile fun c => !c.endsFor (numberAfter before)) ∧
        endings (numberAfter before) (({} : WorkQueue).run calls).2
          = (if after.any (QueueCall.endsFor (numberAfter before)) then 1 else 0) ∧
        (numberAfter before ∈ (({} : WorkQueue).run calls).1.subscribers ↔
          after.any (QueueCall.endsFor (numberAfter before)) = false) := by
    rintro before after rfl
    exact run_of_subscribing listed_new before after
  have hclosed : (({} : WorkQueue).run calls).1.isClosed = calls.any QueueCall.closes :=
    isClosed_run calls
  refine ⟨fun before after hcalls => ?_, fun hfollow before after hcalls hlate => ?_, fun hlate => ?_⟩
  · obtain ⟨hheard, hendings, -⟩ := hdescribed before after hcalls
    exact ⟨hheard, hendings⟩
  · obtain ⟨hheard, -, hlast⟩ := hdescribed before after hcalls
    constructor
    · have hnone := hfollow.released (by rw [hclosed, hcalls, List.any_append, hlate]; rfl)
      rw [hnone] at hlast
      exact eq_true_of_ne_false fun hany => List.not_mem_nil (hlast.mpr hany)
    · rw [← hheard, hfollow.heard before after hcalls, if_pos hlate]
  · -- a subscription of a closed queue has ended: by assumption, or by the close itself
    have hends : (({} : WorkQueue).run calls).1.isClosed = true →
        ∀ before after, calls = before ++ .subscribe :: after →
          after.any (QueueCall.endsFor (numberAfter before)) = true := by
      intro hcl before after hcalls
      cases hbefore : before.any QueueCall.closes with
      | true => exact (hlate before after hcalls hbefore).1
      | false =>
        rw [hclosed, hcalls, List.any_append, hbefore, Bool.false_or, List.any_cons] at hcl
        obtain ⟨c, hc, hcloses⟩ := List.any_eq_true.mp hcl
        exact List.any_eq_true.mpr ⟨c, hc, QueueCall.endsFor_of_closes hcloses _⟩
    refine ⟨fun before after hcalls => ?_, fun hcl => ?_, fun hcl before after hcalls => ?_⟩
    · obtain ⟨hheard, -, -⟩ := hdescribed before after hcalls
      refine hheard.trans ?_
      split
      · rename_i hbefore
        exact (hlate before after hcalls hbefore).2
      · rfl
    · refine List.eq_nil_iff_forall_not_mem.mpr fun s hs => ?_
      rcases exists_subscribing s calls hs with hmem | ⟨before, after, hcalls, rfl⟩
      · exact List.not_mem_nil hmem
      · have hany := (hdescribed before after hcalls).2.2.mp hs
        rw [hends hcl before after hcalls] at hany
        cases hany
    · rw [(hdescribed before after hcalls).2.1, if_pos (hends hcl before after hcalls)]

theorem noticesFollow_closed_again :
    NoticesFollow [.subscribe, .route ⟨11, [8, 9]⟩, .close .closed, .subscribe, .close .closed] := by
  refine (noticesFollow_iff _).2.mpr fun before after hcalls hlate => ?_
  rcases before with _ | ⟨c₁, _ | ⟨c₂, _ | ⟨c₃, _ | ⟨c₄, _ | ⟨c₅, before⟩⟩⟩⟩⟩
  · cases hlate
  · cases hcalls
  · cases hcalls
  · cases hcalls
    exact ⟨rfl, rfl⟩
  · cases hcalls
  · simp at hcalls

/-- A subscription that is taken after a close lasts: its subscriber is told of no end, and is
given the notices that come. -/
theorem not_noticesFollow_late :
    ¬ NoticesFollow [.close .closed, .subscribe, .route ⟨11, [8, 9]⟩] ∧
      (({} : WorkQueue).run [.close .closed, .subscribe]).1.isClosed = true ∧
      (({} : WorkQueue).run [.close .closed, .subscribe]).1.subscribers = [0] ∧
      heard 0 (({} : WorkQueue).run [.close .closed, .subscribe, .route ⟨11, [8, 9]⟩]).2
        = [⟨false, .other 9⟩] ∧
      endings 0 (({} : WorkQueue).run [.close .closed, .subscribe, .route ⟨11, [8, 9]⟩]).2 = 0 :=
  ⟨fun h => absurd (h.released rfl) (List.cons_ne_nil 0 []), rfl, rfl, rfl, rfl⟩

end WorkQueue

end DocWire
