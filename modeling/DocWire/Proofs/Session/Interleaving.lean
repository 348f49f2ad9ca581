import DocWire.Session.Shared
import DocWire.Proofs.Queue.Ledger

/-!
# Moves of a shared session

What one move of a shared session can do is said once, in `SharedSession.Steps`.  What holds in
every interleaving is preserved by each of its cases.

* `Turn.holds`, `Turn.isEarly`, `Task.Follows`   how parties come on;
* `SharedSession.Steps`, `step_steps`            what one move can do;
* `Exclusive`, `Fresh`                           one party has the stream, and a call enters once;
* `Late`, `Barred`                               a session that ends, in two steps.
-/

namespace DocWire

/-! ## Turns -/

namespace Turn

def holds : Turn → Bool
  | free _ => false
  | entering | writing _ _ | leaving _ => true

def rest : Turn → List UInt8
  | writing rest _ => rest
  | free _ | entering | leaving _ => []

end Turn

/-- Whether a call with the task has yet to take the stream. -/
def Task.isEarly : Task → Bool
  | ready | submit => true
  | route _ | reply _ _ | mark _ | close _ | finished _ => false

/-- Whether a call has yet to put its operation into the queue. -/
def Turn.isEarly : Turn → Bool
  | free task | writing _ task | leaving task => task.isEarly
  | entering => true

/-- Whether a call with the task has given the number of its operation. -/
def Task.succeeds : Task → Bool
  | finished (.ok _) => true
  | _ => false

/-- Whether a call gives, or is about to give, the number of its operation. -/
def Turn.succeeds : Turn → Bool
  | free task | writing _ task | leaving task => task.succeeds
  | entering => false

/-- The tasks of the reader between two frames. -/
def Task.isReaders : Task → Bool
  | route _ | reply _ _ | mark _ => true
  | ready | submit | close _ | finished _ => false

/-- How a party goes on that does not hold the stream, by whether the session is open. -/
inductive Task.Follows (isOpen : Bool) : Task → Task → Prop
  | check : Follows isOpen ready (if isOpen then submit else finished (.error .closed))
  | route {frames next} (h : next.isReaders = true) : Follows isOpen (route frames) next
  | mark {e} : Follows isOpen (mark e) (close e)
  | close {e} : Follows isOpen (close e) (finished (.error e))

theorem Task.Follows.isEarly {isOpen : Bool} {task next : Task} (h : task.Follows isOpen next)
    (hnext : next.isEarly = true) : task.isEarly = true := by
  cases h with
  | check => rfl
  | route hreaders =>
    cases next with
    | ready | submit => cases hreaders
    | _ => cases hnext
  | mark => cases hnext
  | close => cases hnext

theorem Task.Follows.not_succeeds {isOpen : Bool} {task next : Task}
    (h : task.Follows isOpen next) : next.succeeds = false := by
  cases h with
  | check => cases isOpen <;> rfl
  | route hreaders =>
    cases next with
    | route | reply | mark => rfl
    | _ => cases hreaders
  | mark => rfl
  | close => rfl

/-- A session on which no operation was put into the queue, and that stays closed if it is. -/
structure Session.Continues (s t : Session) : Prop where
  nextId : t.queue.nextId = s.queue.nextId
  closed : s.isOpen = false → t.isOpen = false
  shut : ∀ reason, s.queue.Shut reason → t.queue.Shut reason

/-! ## Moves -/

namespace SharedSession

/-- **What one move can do.** -/
inductive Steps (plan : Nat → Errand) (s : SharedSession) : SharedSession → Prop
  | idle : Steps plan s s
  | task {p task next session given} (hturn : s.turns p = .free task)
      (hnext : task.Follows s.session.isOpen next) (hsession : s.session.Continues session) :
      Steps plan s ({ s with session, given }.become p (.free next))
  | take {i} (hwriter : s.writer = none) (hturn : s.turns (.call i) = .free .submit) :
      Steps plan s ({ s with writer := some (.call i) }.become (.call i) .entering)
  | reply {bytes frames} (hwriter : s.writer = none) :
      Steps plan s
        ({ s with writer := some .reader }.become .reader (.writing bytes (.route frames)))
  | refused {i e} (hturn : s.turns (.call i) = .entering) :
      Steps plan s (s.become (.call i) (.leaving (.finished (.error e))))
  | entered {i id queue} (hturn : s.turns (.call i) = .entering)
      (henqueue : s.session.queue.enqueue (plan i).operation = .ok (id, queue)) :
      Steps plan s
        ({ s with session := { s.session with queue }, entered := s.entered ++ [i] }.become
          (.call i) (.writing (plan i).request.encode (.finished (.ok id))))
  | write {p rest next count} (hturn : s.turns p = .writing rest next)
      (hbroken : s.broken = false) :
      Steps plan s ({ s with stream := s.stream ++ tagged p (rest.take count) }.become p
        (.writing (rest.drop count) next))
  | fail {p rest next e} (hturn : s.turns p = .writing rest next) :
      Steps plan s ({ s with broken := true }.become p (.leaving (.mark e)))
  | release {p turn next} (hturn : s.turns p = turn)
      (hleaves : turn = .writing [] next ∨ turn = .leaving next) :
      Steps plan s ({ s with writer := none }.become p (.free next))

theorem continues_refl (session : Session) : session.Continues session :=
  ⟨rfl, id, fun _ h => h⟩

theorem continues_route (session : Session) (frame : Frame) :
    session.Continues { session with queue := (session.queue.route frame).queue } :=
  ⟨WorkQueue.nextId_route _ _, id, fun _ h => h.call (.route frame)⟩

theorem continues_close (session : Session) (reason : ConnectionError) :
    session.Continues { session with queue := (session.queue.close reason).1 } :=
  ⟨rfl, id, fun _ h => h.call (.close reason)⟩

theorem isReaders_afterRoute (result : Except ConnectionError (List Request)) (rest : List Frame) :
    (afterRoute result rest).isReaders = true := by
  unfold afterRoute
  split <;> rfl

section
variable {plan : Nat → Errand} {s : SharedSession}

theorem steps_session {p : Party} {task next : Task} {session : Session}
    (hturn : s.turns p = .free task) (hnext : task.Follows s.session.isOpen next)
    (hsession : s.session.Continues session) :
    s.Steps plan ({ s with session }.become p (.free next)) :=
  .task hturn hnext hsession

theorem steps_read (hturn : s.turns .reader = .free (.route [])) (arrival : Arrival) :
    s.Steps plan (s.read arrival) := by
  cases arrival with
  | stopped f => exact steps_session hturn (.route (by rfl)) (continues_refl s.session)
  | bytes chunk =>
    have hsame (assembler : Assembler) : s.session.Continues { s.session with assembler } :=
      ⟨rfl, id, fun _ h => h⟩
    simp only [read]
    split
    · exact steps_session hturn (.route rfl) (hsame _)
    · exact steps_session hturn (.route rfl) (hsame _)

theorem steps_enter {i : Nat} (hturn : s.turns (.call i) = .entering) :
    s.Steps plan (s.enter i (plan i)) := by
  unfold enter
  cases henqueue : s.session.queue.enqueue (plan i).operation with
  | error e => exact .refused hturn
  | ok entry => exact .entered hturn henqueue

end

theorem step_steps (plan : Nat → Errand) (s : SharedSession) (m : Move) :
    s.Steps plan (s.step plan m) := by
  cases m with
  | check i =>
    simp only [step]
    split
    next hturn => exact steps_session hturn .check (continues_refl s.session)
    next => exact .idle
  | take i =>
    simp only [step]
    split
    next hwriter hturn => exact .take hwriter hturn
    next => exact .idle
  | reply =>
    simp only [step]
    split
    next hwriter hturn => exact .reply hwriter
    next => exact .idle
  | enter i =>
    simp only [step]
    split
    next hturn => exact steps_enter hturn
    next => exact .idle
  | write p count =>
    simp only [step]
    split
    next hturn hbroken => exact .write hturn hbroken
    next => exact .idle
  | fail p f =>
    simp only [step]
    split
    next hturn => exact .fail hturn
    next => exact .idle
  | release p =>
    simp only [step]
    split
    next hturn => exact .release hturn (Or.inl rfl)
    next hturn => exact .release hturn (Or.inr rfl)
    next => exact .idle
  | read arrival =>
    simp only [step]
    split
    next hturn => exact steps_read hturn arrival
    next => exact .idle
  | route =>
    simp only [step]
    split
    next frame rest hturn =>
      exact .task hturn (.route (isReaders_afterRoute _ _)) (continues_route s.session frame)
    next => exact .idle
  | mark p =>
    simp only [step]
    split
    next hturn => exact steps_session hturn .mark ⟨rfl, fun _ => rfl, fun _ h => h⟩
    next => exact .idle
  | close p =>
    simp only [step]
    split
    next e hturn => exact .task hturn .close (continues_close s.session e)
    next => exact .idle

/-! ## One at a time -/

/-- No two parties have the stream at the same time. -/
def Exclusive (s : SharedSession) : Prop := ∀ p, (s.turns p).holds = true → s.writer = some p

/-- A call that has yet to put its operation into the queue has not, and none does so twice. -/
structure Fresh (s : SharedSession) : Prop where
  early : ∀ i, (s.turns (.call i)).isEarly = true → i ∉ s.entered
  once : s.entered.Nodup

section
variable {plan : Nat → Errand} {s t : SharedSession} {p : Party} {turn : Turn}

theorem exclusive_become (h : ∀ q, q ≠ p → (s.turns q).holds = true → s.writer = some q)
    (hturn : turn.holds = true → s.writer = some p) : (s.become p turn).Exclusive := by
  intro q hq
  by_cases hqp : q = p
  · subst hqp
    rw [become_self] at hq
    exact hturn hq
  · rw [become_of_ne s hqp] at hq
    exact h q hqp hq

theorem Exclusive.step (h : s.Exclusive) (hs : s.Steps plan t) : t.Exclusive := by
  have hnobody (hwriter : s.writer = none) (q : Party) : (s.turns q).holds ≠ true := by
    intro hq
    rw [h q hq] at hwriter
    cases hwriter
  have hholds {p : Party} {turn : Turn} (hturn : s.turns p = turn) (hp : turn.holds = true) :
      s.writer = some p := h p (hturn ▸ hp)
  cases hs with
  | idle => exact h
  | task hturn hnext hsession => exact exclusive_become (fun q _ => h q) nofun
  | take hwriter hturn =>
    exact exclusive_become (fun q _ hq => absurd hq (hnobody hwriter q)) fun _ => rfl
  | reply hwriter =>
    exact exclusive_become (fun q _ hq => absurd hq (hnobody hwriter q)) fun _ => rfl
  | refused hturn => exact exclusive_become (fun q _ => h q) fun _ => hholds hturn rfl
  | entered hturn henqueue => exact exclusive_become (fun q _ => h q) fun _ => hholds hturn rfl
  | write hturn hbroken => exact exclusive_become (fun q _ => h q) fun _ => hholds hturn rfl
  | fail hturn => exact exclusive_become (fun q _ => h q) fun _ => hholds hturn rfl
  | @release p turn next hturn hleaves =>
    refine exclusive_become (fun q hne hq => ?_) nofun
    have hp : s.writer = some p := hholds hturn (by rcases hleaves with rfl | rfl <;> rfl)
    rw [h q hq] at hp
    exact absurd (Option.some.inj hp) hne

theorem fresh_become (hearly : ∀ i, (s.turns (.call i)).isEarly = true → i ∉ s.entered)
    (honce : s.entered.Nodup) (hturn : turn.isEarly = true → (s.turns p).isEarly = true) :
    (s.become p turn).Fresh := by
  refine ⟨fun i hi => ?_, honce⟩
  by_cases hip : .call i = p
  · rw [hip, become_self] at hi
    exact hearly i (hip ▸ hturn hi)
  · rw [become_of_ne s hip] at hi
    exact hearly i hi

theorem Fresh.step (h : s.Fresh) (hs : s.Steps plan t) : t.Fresh := by
  cases hs with
  | idle => exact h
  | task hturn hnext hsession =>
    refine fresh_become h.early h.once fun hearly => ?_
    rw [hturn]
    exact hnext.isEarly hearly
  | take hwriter hturn =>
    refine fresh_become h.early h.once fun _ => ?_
    rw [hturn]
    rfl
  | reply hwriter => exact fresh_become h.early h.once nofun
  | refused hturn => exact fresh_become h.early h.once nofun
  | @entered i id queue hturn henqueue =>
    have hi : i ∉ s.entered := h.early i (by rw [hturn]; rfl)
    constructor
    · intro j hj
      by_cases hji : j = i
      · subst hji
        rw [become_self] at hj
        cases hj
      · rw [become_of_ne _ fun heq => hji (Party.call.inj heq)] at hj
        refine fun hmem => (List.mem_append.mp hmem).elim (h.early j hj) fun hlast => ?_
        exact hji (List.mem_singleton.mp hlast)
    · refine List.nodup_append.mpr ⟨h.once, List.nodup_singleton i, ?_⟩
      intro a ha b hb hab
      rw [List.mem_singleton.mp hb] at hab
      exact hi (hab ▸ ha)
  | write hturn hbroken =>
    refine fresh_become h.early h.once fun hearly => ?_
    rw [hturn]
    exact hearly
  | fail hturn => exact fresh_become h.early h.once nofun
  | release hturn hleaves =>
    refine fresh_become h.early h.once fun hearly => ?_
    rw [hturn]
    rcases hleaves with rfl | rfl <;> exact hearly

end

/-! ## Ends -/

section
variable {plan : Nat → Errand} {s t : SharedSession} {i : Nat}

/-- A call that has not begun when the session was marked as ended, or has been refused since. -/
structure Late (i : Nat) (s : SharedSession) : Prop where
  marked : s.session.isOpen = false
  turn : s.turns (.call i) = .free .ready ∨ s.turns (.call i) = .free (.finished (.error .closed))
  absent : i ∉ s.entered

theorem late_become {p : Party} {turn : Turn} (hmarked : s.session.isOpen = false)
    (hcall : s.turns (.call i) = .free .ready ∨
      s.turns (.call i) = .free (.finished (.error .closed)))
    (habsent : i ∉ s.entered) (hp : .call i ≠ p) : (s.become p turn).Late i := by
  refine ⟨hmarked, ?_, habsent⟩
  rw [become_of_ne s hp]
  exact hcall

/-- A party with a turn that no late call has is another one. -/
theorem Late.ne (h : s.Late i) {p : Party} {turn : Turn} (hturn : s.turns p = turn)
    (hready : turn ≠ .free .ready) (hfinished : turn ≠ .free (.finished (.error .closed))) :
    .call i ≠ p := by
  rintro rfl
  rcases h.turn with hcall | hcall
  · exact hready (hturn.symm.trans hcall)
  · exact hfinished (hturn.symm.trans hcall)

theorem Late.step (h : s.Late i) (hs : s.Steps plan t) : t.Late i := by
  cases hs with
  | idle => exact h
  | @task p task next session given hturn hnext hsession =>
    have hmarked := hsession.closed h.marked
    rw [h.marked] at hnext
    by_cases hp : .call i = p
    · subst hp
      refine ⟨hmarked, Or.inr ?_, h.absent⟩
      rw [become_self]
      rcases h.turn with hcall | hcall <;> obtain rfl := Turn.free.inj (hturn.symm.trans hcall)
      · cases hnext
        rfl
      · cases hnext
    · exact late_become hmarked h.turn h.absent hp
  | take hwriter hturn => exact late_become h.marked h.turn h.absent (h.ne hturn nofun nofun)
  | reply hwriter => exact late_become h.marked h.turn h.absent nofun
  | refused hturn => exact late_become h.marked h.turn h.absent (h.ne hturn nofun nofun)
  | @entered j id queue hturn henqueue =>
    have hne := h.ne hturn nofun nofun
    refine late_become h.marked h.turn (fun hmem => ?_) hne
    refine (List.mem_append.mp hmem).elim h.absent fun hlast => ?_
    exact hne (congrArg Party.call (List.mem_singleton.mp hlast))
  | write hturn hbroken => exact late_become h.marked h.turn h.absent (h.ne hturn nofun nofun)
  | fail hturn => exact late_become h.marked h.turn h.absent (h.ne hturn nofun nofun)
  | release hturn hleaves =>
    refine late_become h.marked h.turn h.absent (h.ne hturn ?_ ?_) <;>
      rcases hleaves with rfl | rfl <;> exact nofun

theorem Late.run (h : s.Late i) (moves : List Move) : (s.run plan moves).Late i := by
  induction moves generalizing s with
  | nil => exact h
  | cons m rest ih => exact ih (h.step (step_steps plan s m))

/-- A session of which the queue was closed after the given calls. -/
structure Barred (entered : List Nat) (s : SharedSession) : Prop where
  shut : ∃ reason, s.session.queue.Shut reason
  entered : s.entered = entered

theorem Barred.step {entered : List Nat} (h : s.Barred entered) (hs : s.Steps plan t) :
    t.Barred entered := by
  obtain ⟨reason, hshut⟩ := h.shut
  cases hs with
  | task hturn hnext hsession => exact ⟨⟨reason, hsession.shut reason hshut⟩, h.entered⟩
  | entered hturn henqueue =>
    rw [hshut.enqueue] at henqueue
    cases henqueue
  | _ => exact ⟨⟨reason, hshut⟩, h.entered⟩

theorem Barred.run {entered : List Nat} (h : s.Barred entered) (moves : List Move) :
    (s.run plan moves).Barred entered := by
  induction moves generalizing s with
  | nil => exact h
  | cons m rest ih => exact ih (h.step (step_steps plan s m))

theorem late_mark (h : s.Fresh) {p : Party} {e : ConnectionError}
    (hp : s.turns p = .free (.mark e)) (hi : s.turns (.call i) = .free .ready) :
    (s.step plan (.mark p)).Late i := by
  have hne : .call i ≠ p := by
    rintro rfl
    cases hp.symm.trans hi
  have habsent : i ∉ s.entered := h.early i (by rw [hi]; rfl)
  simp only [step, hp]
  exact late_become rfl (Or.inl hi) habsent hne

theorem barred_close {p : Party} {e : ConnectionError} (hp : s.turns p = .free (.close e)) :
    (s.step plan (.close p)).Barred s.entered := by
  simp only [step, hp]
  exact ⟨⟨_, WorkQueue.entries_close _ _, WorkQueue.closed_close _ _⟩, rfl⟩

end

end SharedSession

end DocWire
