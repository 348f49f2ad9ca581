import DocWire.Proofs.Session.Interleaving

/-!
# The order of requests on a stream

Any number of calls submit to one session, in any interleaving with each other, with the reader
and with the ends that they make of the session.  The requests stand on the stream one behind the
other, in the order in which their operations were put into the queue.

* `requestBytes`, `bytesOf`, `requestsOf`   what was written, and what was to be written;
* `Orderly`, `Together`, `Sent`             what every move preserves of it;
* `Wired`                                   what holds after every run;
* `queueOrder_is_wireOrder`                 what follows for the requests.
-/

namespace DocWire

/-! ## Bytes and who has written them -/

def Party.isCall : Party → Bool
  | call _ => true
  | reader => false

def requestBytes (stream : List (Party × UInt8)) : List (Party × UInt8) :=
  stream.filter (·.1.isCall)

def bytesOf (p : Party) (stream : List (Party × UInt8)) : List (Party × UInt8) :=
  stream.filter (·.1 = p)

def requestsOf (plan : Nat → Errand) (calls : List Nat) : List (Party × UInt8) :=
  calls.flatMap fun i => tagged (.call i) (plan i).request.encode

theorem tagged_append (p : Party) (a b : List UInt8) :
    tagged p (a ++ b) = tagged p a ++ tagged p b := List.map_append

theorem requestBytes_append (a b : List (Party × UInt8)) :
    requestBytes (a ++ b) = requestBytes a ++ requestBytes b := List.filter_append a b

theorem bytesOf_append (p : Party) (a b : List (Party × UInt8)) :
    bytesOf p (a ++ b) = bytesOf p a ++ bytesOf p b := List.filter_append a b

theorem requestBytes_call (i : Nat) (bytes : List UInt8) :
    requestBytes (tagged (.call i) bytes) = tagged (.call i) bytes := by
  refine List.filter_eq_self.mpr fun b hb => ?_
  obtain ⟨byte, -, rfl⟩ := List.mem_map.mp hb
  rfl

theorem requestBytes_reader (bytes : List UInt8) : requestBytes (tagged .reader bytes) = [] := by
  refine List.filter_eq_nil_iff.mpr fun b hb => ?_
  obtain ⟨byte, -, rfl⟩ := List.mem_map.mp hb
  exact Bool.false_ne_true

theorem bytesOf_self (p : Party) (bytes : List UInt8) :
    bytesOf p (tagged p bytes) = tagged p bytes := by
  refine List.filter_eq_self.mpr fun b hb => ?_
  obtain ⟨byte, -, rfl⟩ := List.mem_map.mp hb
  exact decide_eq_true rfl

theorem bytesOf_of_ne {p q : Party} (h : q ≠ p) (bytes : List UInt8) :
    bytesOf p (tagged q bytes) = [] := by
  refine List.filter_eq_nil_iff.mpr fun b hb => ?_
  obtain ⟨byte, -, rfl⟩ := List.mem_map.mp hb
  exact fun heq => h (of_decide_eq_true heq)

theorem requestsOf_append (plan : Nat → Errand) (calls : List Nat) (i : Nat) :
    requestsOf plan (calls ++ [i])
      = requestsOf plan calls ++ tagged (.call i) (plan i).request.encode := by
  unfold requestsOf
  rw [List.flatMap_append, List.flatMap_singleton]

/-- A call of which no request is on the stream has written nothing. -/
theorem bytesOf_of_not_mem {plan : Nat → Errand} {calls : List Nat}
    {stream : List (Party × UInt8)} (h : requestBytes stream <+: requestsOf plan calls) {i : Nat}
    (hi : i ∉ calls) : bytesOf (.call i) stream = [] := by
  refine List.filter_eq_nil_iff.mpr fun b hb heq => ?_
  have hparty : b.1 = .call i := of_decide_eq_true heq
  have hrequest : b ∈ requestBytes stream :=
    List.mem_filter.mpr ⟨hb, by rw [hparty]; rfl⟩
  obtain ⟨j, hj, hbj⟩ := List.mem_flatMap.mp (h.subset hrequest)
  obtain ⟨byte, -, rfl⟩ := List.mem_map.mp hbj
  obtain rfl : j = i := Party.call.inj hparty
  exact hi hj

namespace SharedSession

/-! ## What every move preserves -/

/-- the bytes that the party with the stream has yet to write -/
def unwritten (s : SharedSession) : List (Party × UInt8) :=
  match s.writer with
  | some p => tagged p (s.turns p).rest
  | none => []

/-- The requests were written in the order in which the operations were put into the queue, and
all of them unless the stream has failed. -/
structure Orderly (plan : Nat → Errand) (s : SharedSession) : Prop where
  order : requestBytes s.stream <+: requestsOf plan s.entered
  complete : s.broken = false →
    requestBytes s.stream ++ requestBytes s.unwritten = requestsOf plan s.entered

/-- The bytes of a call stand together, and those of a call that writes stand last. -/
structure Together (s : SharedSession) : Prop where
  whole : ∀ i, bytesOf (.call i) s.stream <:+: s.stream
  last : ∀ i rest next, s.turns (.call i) = .writing rest next →
    bytesOf (.call i) s.stream <:+ s.stream

/-- The request of a call that gives the number of its operation is on the stream, but for what
the call has yet to write. -/
def Sent (plan : Nat → Errand) (s : SharedSession) : Prop :=
  ∀ i, (s.turns (.call i)).succeeds = true →
    bytesOf (.call i) s.stream ++ tagged (.call i) (s.turns (.call i)).rest
      = tagged (.call i) (plan i).request.encode

section
variable {plan : Nat → Errand} {s t : SharedSession} {p : Party} {turn : Turn}

/-! ### The order of the requests -/

theorem unwritten_of_writer (h : s.writer = some p) : s.unwritten = tagged p (s.turns p).rest := by
  unfold unwritten
  rw [h]

theorem unwritten_of_none (h : s.writer = none) : s.unwritten = [] := by
  unfold unwritten
  rw [h]

theorem unwritten_become_writer (h : s.writer = some p) :
    (s.become p turn).unwritten = tagged p turn.rest := by
  rw [unwritten_of_writer (s := s.become p turn) h, become_self]

/-- A move that leaves a party with the same bytes to write leaves them as they are. -/
theorem unwritten_become (h : turn.rest = (s.turns p).rest) :
    (s.become p turn).unwritten = s.unwritten := by
  cases hwriter : s.writer with
  | none =>
    rw [unwritten_of_none hwriter, unwritten_of_none (s := s.become p turn) hwriter]
  | some q =>
    rw [unwritten_of_writer hwriter, unwritten_of_writer (s := s.become p turn) hwriter]
    by_cases hqp : q = p
    · subst hqp
      rw [become_self, h]
    · rw [become_of_ne s hqp]

theorem Orderly.step (h : s.Orderly plan) (hexclusive : s.Exclusive) (hs : s.Steps plan t) :
    t.Orderly plan := by
  have hwriter {p : Party} {turn : Turn} (hturn : s.turns p = turn) (hp : turn.holds = true) :
      s.writer = some p := hexclusive p (hturn ▸ hp)
  cases hs with
  | idle => exact h
  | @task p task next session given hturn hnext hsession =>
    refine ⟨h.order, fun hbroken => ?_⟩
    rw [unwritten_become (by rw [hturn]; rfl)]
    exact h.complete hbroken
  | @take i hnone hturn =>
    refine ⟨h.order, fun hbroken => ?_⟩
    have hcomplete := h.complete hbroken
    rw [unwritten_of_none hnone] at hcomplete
    rw [unwritten_become_writer rfl]
    exact hcomplete
  | @reply bytes frames hnone =>
    refine ⟨h.order, fun hbroken => ?_⟩
    have hcomplete := h.complete hbroken
    rw [unwritten_of_none hnone] at hcomplete
    rw [unwritten_become_writer rfl, requestBytes_reader]
    exact hcomplete
  | refused hturn =>
    refine ⟨h.order, fun hbroken => ?_⟩
    rw [unwritten_become (by rw [hturn]; rfl)]
    exact h.complete hbroken
  | @entered i id queue hturn henqueue =>
    have hi := hwriter hturn rfl
    constructor
    · show requestBytes s.stream <+: requestsOf plan (s.entered ++ [i])
      rw [requestsOf_append]
      exact h.order.trans (List.prefix_append _ _)
    · intro hbroken
      have hcomplete := h.complete hbroken
      rw [unwritten_of_writer hi, hturn] at hcomplete
      change requestBytes s.stream ++ [] = requestsOf plan s.entered at hcomplete
      rw [List.append_nil] at hcomplete
      rw [unwritten_become_writer (by exact hi)]
      show requestBytes s.stream ++ requestBytes (tagged (.call i) (plan i).request.encode)
        = requestsOf plan (s.entered ++ [i])
      rw [requestBytes_call, requestsOf_append, hcomplete]
  | @write p rest next count hturn hbroken =>
    have hp := hwriter hturn rfl
    have hcomplete := h.complete hbroken
    rw [unwritten_of_writer hp, hturn] at hcomplete
    change requestBytes s.stream ++ requestBytes (tagged p rest) = _ at hcomplete
    have hwritten : requestBytes (s.stream ++ tagged p (rest.take count))
        ++ requestBytes (tagged p (rest.drop count)) = requestsOf plan s.entered := by
      rw [requestBytes_append, List.append_assoc, ← requestBytes_append, ← tagged_append,
        List.take_append_drop, hcomplete]
    refine ⟨?_, fun _ => ?_⟩
    · exact ⟨_, hwritten⟩
    · rw [unwritten_become_writer (by exact hp)]
      exact hwritten
  | fail hturn => exact ⟨h.order, fun hbroken => by cases hbroken⟩
  | @release p turn next hturn hleaves =>
    refine ⟨h.order, fun hbroken => ?_⟩
    have hcomplete := h.complete hbroken
    have hp := hwriter hturn (by rcases hleaves with rfl | rfl <;> rfl)
    rw [unwritten_of_writer hp, hturn, show turn.rest = [] by rcases hleaves with rfl | rfl <;> rfl]
      at hcomplete
    rw [unwritten_of_none rfl]
    exact hcomplete

/-! ### Whole requests -/

theorem together_become (hwhole : ∀ i, bytesOf (.call i) s.stream <:+: s.stream)
    (hlast : ∀ i rest next, s.turns (.call i) = .writing rest next →
      bytesOf (.call i) s.stream <:+ s.stream)
    (hturn : ∀ i rest next, .call i = p → turn = .writing rest next →
      bytesOf (.call i) s.stream <:+ s.stream) : (s.become p turn).Together := by
  refine ⟨hwhole, fun i rest next hi => ?_⟩
  by_cases hip : .call i = p
  · rw [hip, become_self] at hi
    exact hturn i rest next hip hi
  · rw [become_of_ne s hip] at hi
    exact hlast i rest next hi

theorem Together.step (h : s.Together) (hexclusive : s.Exclusive) (hfresh : s.Fresh)
    (horderly : s.Orderly plan) (hs : s.Steps plan t) : t.Together := by
  cases hs with
  | idle => exact h
  | task | take | refused | fail | release =>
    exact together_become h.whole h.last fun _ _ _ _ hturn => by cases hturn
  | reply => exact together_become h.whole h.last fun _ _ _ hreader => by cases hreader
  | @entered i id queue hturn henqueue =>
    have hearly : i ∉ s.entered := hfresh.early i (by rw [hturn]; rfl)
    have hnothing : bytesOf (.call i) s.stream = [] := bytesOf_of_not_mem horderly.order hearly
    refine together_become h.whole h.last fun j _ _ hji _ => ?_
    rw [hji, hnothing]
    exact List.nil_suffix
  | @write p rest next count hturn hbroken =>
    have hmine (i : Nat) (hi : .call i = p) :
        bytesOf (.call i) (s.stream ++ tagged p (rest.take count))
          <:+ s.stream ++ tagged p (rest.take count) := by
      subst hi
      obtain ⟨before, hbefore⟩ := h.last i rest next hturn
      refine ⟨before, ?_⟩
      rw [bytesOf_append, bytesOf_self, ← List.append_assoc, hbefore]
    have hother (i : Nat) (hi : .call i ≠ p) :
        bytesOf (.call i) (s.stream ++ tagged p (rest.take count))
          = bytesOf (.call i) s.stream := by
      rw [bytesOf_append, bytesOf_of_ne (Ne.symm hi), List.append_nil]
    refine together_become (fun i => ?_) (fun i rest' next' hi => ?_) fun i _ _ hi _ => hmine i hi
    · by_cases hi : .call i = p
      · exact (hmine i hi).isInfix
      · show bytesOf (.call i) (s.stream ++ _) <:+: _
        rw [hother i hi]
        exact (h.whole i).trans (List.prefix_append _ _).isInfix
    · have hcall : s.writer = some (.call i) :=
        hexclusive _ (by rw [show s.turns _ = _ from hi]; rfl)
      have hwriter : s.writer = some p := hexclusive p (by rw [hturn]; rfl)
      exact hmine i (Option.some.inj (hcall.symm.trans hwriter))

theorem sent_become
    (h : ∀ i, .call i ≠ p → (s.turns (.call i)).succeeds = true →
      bytesOf (.call i) s.stream ++ tagged (.call i) (s.turns (.call i)).rest
        = tagged (.call i) (plan i).request.encode)
    (hturn : ∀ i, .call i = p → turn.succeeds = true →
      bytesOf (.call i) s.stream ++ tagged (.call i) turn.rest
        = tagged (.call i) (plan i).request.encode) : (s.become p turn).Sent plan := by
  intro i hi
  by_cases hip : .call i = p
  · rw [hip, become_self] at hi ⊢
    rw [← hip]
    exact hturn i hip hi
  · rw [become_of_ne s hip] at hi ⊢
    exact h i hip hi

theorem Sent.step (h : s.Sent plan) (hfresh : s.Fresh) (horderly : s.Orderly plan)
    (hs : s.Steps plan t) : t.Sent plan := by
  cases hs with
  | idle => exact h
  | task hturn hnext hsession =>
    refine sent_become (fun i _ => h i) fun i _ hsucceeds => ?_
    exact absurd hsucceeds (Bool.eq_false_iff.mp hnext.not_succeeds)
  | take | refused | fail =>
    exact sent_become (fun i _ => h i) fun i _ hsucceeds => by cases hsucceeds
  | reply => exact sent_become (fun i _ => h i) fun i hreader => by cases hreader
  | @entered i id queue hturn henqueue =>
    have hearly : i ∉ s.entered := hfresh.early i (by rw [hturn]; rfl)
    refine sent_become (fun i _ => h i) fun j hji _ => ?_
    obtain rfl := Party.call.inj hji
    show bytesOf (.call j) s.stream ++ _ = _
    rw [bytesOf_of_not_mem horderly.order hearly]
    rfl
  | @write p rest next count hturn hbroken =>
    refine sent_become (fun i hi hsucceeds => ?_) fun i hi hsucceeds => ?_
    · show bytesOf (.call i) (s.stream ++ tagged p (rest.take count)) ++ _ = _
      rw [bytesOf_append, bytesOf_of_ne (Ne.symm hi), List.append_nil]
      exact h i hsucceeds
    · subst hi
      have hsent := h i (by rw [hturn]; exact hsucceeds)
      rw [hturn] at hsent
      show bytesOf (.call i) (s.stream ++ tagged (.call i) (rest.take count))
        ++ tagged (.call i) (rest.drop count) = _
      rw [bytesOf_append, bytesOf_self, List.append_assoc, ← tagged_append,
        List.take_append_drop]
      exact hsent
  | @release p turn next hturn hleaves =>
    refine sent_become (fun i _ => h i) fun i hi hsucceeds => ?_
    subst hi
    have hsent := h i (by rw [hturn]; rcases hleaves with rfl | rfl <;> exact hsucceeds)
    rw [hturn, show turn.rest = [] by rcases hleaves with rfl | rfl <;> rfl] at hsent
    exact hsent

end

/-! ## Every run -/

/-- What holds of a session in common use, whatever has happened. -/
structure Wired (plan : Nat → Errand) (session : Session) (s : SharedSession) : Prop where
  exclusive : s.Exclusive
  fresh : s.Fresh
  orderly : s.Orderly plan
  together : s.Together
  sent : s.Sent plan
  numbers : s.session.queue.nextId = session.queue.nextId + s.entered.length

section
variable {plan : Nat → Errand} {session : Session} {s t : SharedSession} {i : Nat}

theorem wired_unused (plan : Nat → Errand) (session : Session) :
    (unused session).Wired plan session := by
  refine ⟨fun p hp => ?_, ⟨fun _ _ => List.not_mem_nil, List.nodup_nil⟩,
    ⟨List.prefix_rfl, fun _ => rfl⟩, ⟨fun _ => List.infix_rfl, fun _ _ _ h => ?_⟩,
    fun _ h => ?_, rfl⟩
  · cases p <;> cases hp
  · cases h
  · cases h

theorem nextId_step (hs : s.Steps plan t) :
    t.session.queue.nextId + s.entered.length = s.session.queue.nextId + t.entered.length := by
  cases hs with
  | task hturn hnext hsession => exact congrArg (· + s.entered.length) hsession.nextId
  | @entered i id queue hturn henqueue =>
    have hqueue : queue.nextId = s.session.queue.nextId + 1 := by
      unfold WorkQueue.enqueue at henqueue
      split at henqueue
      · cases henqueue
      · cases henqueue
        rfl
    show queue.nextId + s.entered.length = s.session.queue.nextId + (s.entered ++ [i]).length
    rw [hqueue, List.length_append, List.length_singleton]
    omega
  | _ => rfl

theorem Wired.step (h : s.Wired plan session) (m : Move) : (s.step plan m).Wired plan session := by
  have hs := step_steps plan s m
  refine ⟨h.exclusive.step hs, h.fresh.step hs, h.orderly.step h.exclusive hs,
    h.together.step h.exclusive h.fresh h.orderly hs, h.sent.step h.fresh h.orderly hs, ?_⟩
  have hnext := nextId_step hs
  have hnumbers := h.numbers
  omega

theorem Wired.run (h : s.Wired plan session) (moves : List Move) :
    (s.run plan moves).Wired plan session := by
  induction moves generalizing s with
  | nil => exact h
  | cons m rest ih => exact ih (h.step m)

/-- The requests on the stream, by the operations that were put into the queue. -/
structure InWireOrder (plan : Nat → Errand) (session : Session) (s : SharedSession) : Prop where
  /-- they come in the order of the operations -/
  order : requestBytes s.stream <+: requestsOf plan s.entered
  /-- none is missing unless the stream has failed, but for what is being written -/
  complete : s.broken = false →
    requestBytes s.stream ++ requestBytes s.unwritten = requestsOf plan s.entered
  /-- each stands in one piece -/
  whole : ∀ i, bytesOf (.call i) s.stream <:+: s.stream
  /-- each has its operation -/
  queued : ∀ i, i ∉ s.entered → bytesOf (.call i) s.stream = []
  /-- it is whole if the call has given the number of its operation -/
  sent : ∀ i id, s.turns (.call i) = .free (.finished (.ok id)) →
    bytesOf (.call i) s.stream = tagged (.call i) (plan i).request.encode
  once : s.entered.Nodup
  numbers : s.session.queue.nextId = session.queue.nextId + s.entered.length

/-- What comes of a session that ends, whatever follows. -/
structure EndsForGood (plan : Nat → Errand) (s : SharedSession) : Prop where
  /-- a call that begins after the first step is refused: it has no operation and writes nothing -/
  late : ∀ p e i, s.turns p = .free (.mark e) → s.turns (.call i) = .free .ready → ∀ more,
    ((s.step plan (.mark p)).run plan more).Late i ∧
      bytesOf (.call i) ((s.step plan (.mark p)).run plan more).stream = []
  /-- after the second step nothing is put into the queue, and nothing waits in it -/
  barred : ∀ p e, s.turns p = .free (.close e) → ∀ more,
    ((s.step plan (.close p)).run plan more).entered = s.entered ∧
      ((s.step plan (.close p)).run plan more).session.queue.entries = []

theorem Wired.sent_of_finished (h : s.Wired plan session) {id : Nat}
    (hi : s.turns (.call i) = .free (.finished (.ok id))) :
    bytesOf (.call i) s.stream = tagged (.call i) (plan i).request.encode := by
  have hsent := h.sent i (by rw [hi]; rfl)
  rw [hi] at hsent
  exact (List.append_nil _).symm.trans hsent

theorem Wired.queued (h : s.Wired plan session) (hi : i ∉ s.entered) :
    bytesOf (.call i) s.stream = [] := bytesOf_of_not_mem h.orderly.order hi

/-- **The order of the queue is the order of the stream**, whatever the calls, the reader and the
ends of the session do in whatever order. -/
theorem queueOrder_is_wireOrder (plan : Nat → Errand) (session : Session) (moves : List Move) :
    ((unused session).run plan moves).InWireOrder plan session ∧
      ((unused session).run plan moves).EndsForGood plan := by
  have hwired := (wired_unused plan session).run moves
  generalize (unused session).run plan moves = s at hwired
  constructor
  · exact ⟨hwired.orderly.order, hwired.orderly.complete, hwired.together.whole,
      fun i hi => hwired.queued hi, fun i id hi => hwired.sent_of_finished hi, hwired.fresh.once,
      hwired.numbers⟩
  · constructor
    · intro p e i hp hi more
      have hlate : ((s.step plan (.mark p)).run plan more).Late i :=
        (late_mark hwired.fresh hp hi).run more
      exact ⟨hlate, ((hwired.step (.mark p)).run more).queued hlate.absent⟩
    · intro p e hp more
      have hbarred : ((s.step plan (.close p)).run plan more).Barred s.entered :=
        (barred_close hp).run more
      obtain ⟨reason, hshut⟩ := hbarred.shut
      exact ⟨hbarred.entered, hshut.entries⟩

/-- Two calls, of which the one that was the first to look takes the stream last. -/
example : ((unused ⟨{ limit := 16 }, {}, true, .mysql41, false, []⟩).run
      (fun _ => ⟨.single, .connectionClose⟩)
      [.check 0, .check 1, .take 1, .take 0, .enter 1, .write (.call 1) 3, .enter 0, .take 0,
        .write (.call 1) 2, .release (.call 1), .take 0, .enter 0, .write (.call 0) 4]).stream
    = tagged (.call 1) [1, 0, 0, 0, 3] ++ tagged (.call 0) [1, 0, 0, 0] := by
  decide

end

end SharedSession

end DocWire
