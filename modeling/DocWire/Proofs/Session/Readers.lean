import DocWire.Proofs.Frame.Draining
import DocWire.Proofs.Queue.Head
import DocWire.Proofs.Session.Phases
import DocWire.Proofs.Session.Routing

/-!
# The two readers of a handshake

The first message of a handshake is read by the answer to a request, the others by the session that
has begun to authenticate.

* `Assembler.answer_of_notice`, `Assembler.answer_of_reply`   the answer to a request;
* `WorkQueue.route_authentication`   a frame for an authentication that waits alone;
* `Session.routeFrames_idle`         frames where nothing waits;
* `Session.Reaches`, `Session.routeFrames_hears`   frames while an authentication waits.
-/

namespace DocWire

/-! ## The answer to a request -/

namespace Assembler

/-- A bound that the buffer does not exceed is no bound. -/
theorem answerWithin_eq {bound bound' : Nat} {a : Assembler} (h : a.pending ≤ bound)
    (h' : a.pending ≤ bound') : a.answerWithin bound = a.answerWithin bound' := by
  induction bound generalizing bound' a with
  | zero =>
    have hwait : a.next = .ok none := next_of_pending_lt (by omega)
    cases bound' with
    | zero => rfl
    | succ bound' => simp only [answerWithin, hwait]
  | succ bound ih =>
    cases bound' with
    | zero =>
      have hwait : a.next = .ok none := next_of_pending_lt (by omega)
      simp only [answerWithin, hwait]
    | succ bound' =>
      cases hn : a.next with
      | error e => simp only [answerWithin, hn]
      | ok cut =>
        cases cut with
        | none => simp only [answerWithin, hn]
        | some cut =>
          obtain ⟨frame, a'⟩ := cut
          have hless := pending_of_cut hn
          have hrest : a'.answerWithin bound = a'.answerWithin bound' :=
            ih (by omega) (by omega)
          simp only [answerWithin, hn, hrest]

theorem answer_eq (a : Assembler) : a.answer = a.answerWithin (a.pending + 1) :=
  answerWithin_eq (Nat.le_refl _) (Nat.le_succ _)

section
variable {a a' : Assembler} {frame : Frame}

theorem answer_of_error {e : ConnectionError} (h : a.next = .error e) :
    a.answer = (.error e, a) := by
  rw [answer_eq]
  simp only [answerWithin, h]

theorem answer_of_wait (h : a.next = .ok none) : a.answer = (.ok none, a) := by
  rw [answer_eq]
  simp only [answerWithin, h]

theorem answer_of_notice (h : a.next = .ok (some (frame, a'))) {n : ServerNotice}
    (hd : Reply.decode frame = .ok (.notice n)) : a.answer = a'.answer := by
  have hless := pending_of_cut h
  have hrest : a'.answerWithin a.pending = a'.answer :=
    answerWithin_eq (by omega) (Nat.le_refl _)
  rw [answer_eq]
  simp only [answerWithin, h, hd, hrest]

theorem answer_of_undecodable (h : a.next = .ok (some (frame, a'))) {e : ConnectionError}
    (hd : Reply.decode frame = .error e) : a.answer = (.error e, a') := by
  rw [answer_eq]
  simp only [answerWithin, h, hd]

theorem answer_of_serverError (h : a.next = .ok (some (frame, a'))) {e : ServerError}
    (hd : Reply.decode frame = .ok (.error e)) : a.answer = (.error (.server e), a') := by
  rw [answer_eq]
  simp only [answerWithin, h, hd]

theorem answer_of_reply (h : a.next = .ok (some (frame, a'))) {reply : Reply}
    (hd : Reply.decode frame = .ok reply) (hr : ∀ n, reply ≠ .notice n) :
    (∃ e, reply = .error e ∧ a.answer = (.error (.server e), a')) ∨
      a.answer = (.ok (some reply), a') := by
  rw [answer_eq]
  simp only [answerWithin, h, hd]
  cases reply with
  | notice n => exact absurd rfl (hr n)
  | error e => exact Or.inl ⟨e, rfl, rfl⟩
  | _ => exact Or.inr rfl

end

end Assembler

/-! ## What callers are told -/

theorem settlement?_append (operation : Nat) (a b : List Effect) :
    settlement? operation (a ++ b) = (settlement? operation a).or (settlement? operation b) :=
  List.findSome?_append

theorem settlement?_write (operation : Nat) (request : Request) (rest : List Effect) :
    settlement? operation (.write request :: rest) = settlement? operation rest := rfl

theorem settlement?_settled (operation : Nat) (s : Settlement) (rest : List Effect) :
    settlement? operation (.deliver (.settled operation s) :: rest) = some s := by
  unfold settlement?
  rw [List.findSome?_cons]
  simp only [if_pos]

theorem settlement?_notices (operation : Nat) (subscribers : List Nat) (n : ServerNotice) :
    settlement? operation ((subscribers.map (Delivery.notice · n)).map .deliver) = none := by
  induction subscribers with
  | nil => rfl
  | cons s rest ih => exact ih

/-! ## The frames that a session routes -/

namespace WorkQueue

section
variable {q : WorkQueue} {frame : Frame}

theorem route_authentication {id : Nat} {x : Authentication}
    (h : q.entries = [⟨id, .authentication x⟩]) {reply : Reply}
    (hd : Reply.decode frame = .ok reply) (hr : ∀ n, reply ≠ .notice n) :
    q.route frame = match x.handle reply with
      | (.ok (.send request), x) =>
        ⟨.ok [request], { q with entries := [⟨id, .authentication x⟩] }, []⟩
      | (.ok .done, x) =>
        ⟨.ok [], { q with entries := [] }, [.settled id (.mechanism (.ok x.mechanism))]⟩
      | (.error e, _) =>
        ⟨if e.isFatal then .error e else .ok [], { q with entries := [] },
          [.settled id (.mechanism (.error e))]⟩ := by
  rw [route_of_reply h hd hr]
  unfold routeTo
  rw [handle_authentication]
  generalize x.handle reply = handled
  match handled with
  | (.ok (.send request), x) => rfl
  | (.ok .done, x) => rfl
  | (.error e, x) => rfl

theorem result_route_empty (h : q.entries = []) {requests : List Request}
    (hresult : (q.route frame).result = .ok requests) : requests = [] := by
  unfold route at hresult
  split at hresult
  · cases hresult
  · unfold routeReply at hresult
    split at hresult
    · exact (Except.ok.inj hresult).symm
    · rw [h] at hresult
      dsimp only at hresult
      unfold routeUnasked at hresult
      split at hresult
      · dsimp only at hresult
        split at hresult
        · cases hresult
        · exact (Except.ok.inj hresult).symm
      · exact (Except.ok.inj hresult).symm

end

end WorkQueue

namespace Session

theorem mechanism_routeFrames (s : Session) (frames : List Frame) :
    (s.routeFrames frames).1.mechanism = s.mechanism := by
  induction frames generalizing s with
  | nil => rfl
  | cons frame rest ih =>
    cases hresult : (s.queue.route frame).result with
    | ok requests =>
      rw [routeFrames_of_ok hresult]
      exact ih (s.routed frame)
    | error e =>
      rw [routeFrames_of_error hresult]
      rfl

/-- Where nothing waits, nothing is written, and nothing waits then. -/
theorem routeFrames_idle {s : Session} (h : s.queue.entries = []) (frames : List Frame) :
    written (s.routeFrames frames).2 = [] ∧ (s.routeFrames frames).1.queue.entries = [] := by
  induction frames generalizing s with
  | nil => exact ⟨rfl, h⟩
  | cons frame rest ih =>
    have hnext : (s.routed frame).queue.entries = [] := (WorkQueue.route_empty h frame).1
    cases hresult : (s.queue.route frame).result with
    | ok requests =>
      obtain rfl := WorkQueue.result_route_empty h hresult
      obtain ⟨hwritten, hentries⟩ := ih hnext
      rw [routeFrames_of_ok hresult, written_append, written_append, written_deliver, hwritten]
      exact ⟨rfl, hentries⟩
    | error e =>
      rw [routeFrames_of_error hresult, written_append, written_deliver, written_shutdown]
      exact ⟨rfl, rfl⟩

theorem receive_idle {s : Session} (h : s.queue.entries = []) (arrival : Arrival) :
    written (s.receive arrival).2 = [] ∧ (s.receive arrival).1.queue.entries = [] ∧
      (s.receive arrival).1.mechanism = s.mechanism := by
  cases hopen : s.isOpen with
  | false =>
    rw [receive_of_not_open hopen]
    exact ⟨rfl, h, rfl⟩
  | true =>
    cases arrival with
    | stopped f =>
      have hreceive : s.receive (.stopped f) = s.shutdown (.ofStreamFailure f) := by
        unfold receive
        rw [if_pos hopen]
      rw [hreceive]
      exact ⟨written_shutdown s _, rfl, rfl⟩
    | bytes piece =>
      cases hdrain : (s.assembler.feed piece).drain with
      | mk result a =>
        cases result with
        | error e =>
          rw [receive_of_broken hopen hdrain]
          exact ⟨written_shutdown s e, rfl, rfl⟩
        | ok frames =>
          obtain ⟨hwritten, hentries⟩ := routeFrames_idle h frames
          rw [receive_of_drained hopen hdrain]
          exact ⟨hwritten, hentries, mechanism_routeFrames s frames⟩

/-- A session whose authentication, the operation of a number, has come to a phase by effects. -/
inductive Reaches (operation : Nat) : Phase → Session → List Effect → Prop
  | authenticating {s x effects} (hopen : s.isOpen = true)
      (hentries : s.queue.entries = [⟨operation, .authentication x⟩])
      (hmechanism : s.mechanism = x.mechanism) (hnone : settlement? operation effects = none) :
      Reaches operation (.authenticating x) s effects
  | accepted {s m effects} (hentries : s.queue.entries = []) (hmechanism : s.mechanism = m)
      (hsome : settlement? operation effects = some (.mechanism (.ok m))) :
      Reaches operation (.accepted m) s effects
  | refused {s e effects} (hsome : settlement? operation effects = some (.mechanism (.error e))) :
      Reaches operation .refused s effects

theorem Reaches.append {operation : Nat} {phase : Phase} {s : Session}
    {before effects : List Effect} (hbefore : settlement? operation before = none)
    (h : Reaches operation phase s effects) :
    Reaches operation phase s (before ++ effects) := by
  have happend : settlement? operation (before ++ effects) = settlement? operation effects := by
    rw [settlement?_append, hbefore, Option.none_or]
  cases h with
  | authenticating hopen hentries hmechanism hnone =>
    exact .authenticating hopen hentries hmechanism (happend.trans hnone)
  | accepted hentries hmechanism hsome =>
    exact .accepted hentries hmechanism (happend.trans hsome)
  | refused hsome => exact .refused (happend.trans hsome)

/-- The bytes that wait do not matter to how far a session has come. -/
theorem Reaches.assembler {operation : Nat} {phase : Phase} {s : Session} {effects : List Effect}
    (h : Reaches operation phase s effects) (a : Assembler) :
    Reaches operation phase { s with assembler := a } effects := by
  cases h with
  | authenticating hopen hentries hmechanism hnone =>
    exact .authenticating hopen hentries hmechanism hnone
  | accepted hentries hmechanism hsome => exact .accepted hentries hmechanism hsome
  | refused hsome => exact .refused hsome

section
variable {s : Session} {operation : Nat} {x : Authentication} {frame : Frame}

theorem routeFrames_of_notice (h : s.queue.entries = [⟨operation, .authentication x⟩])
    {n : ServerNotice} (hn : Reply.decode frame = .ok (.notice n)) (rest : List Frame) :
    (s.routed frame).queue.entries = [⟨operation, .authentication x⟩] ∧
      ∃ before, written before = [] ∧ settlement? operation before = none ∧
        s.routeFrames (frame :: rest) = (((s.routed frame).routeFrames rest).1,
          before ++ ((s.routed frame).routeFrames rest).2) := by
  have hroute := WorkQueue.route_of_notice (q := s.queue) hn
  have hresult : (s.queue.route frame).result = .ok [] := by
    rw [hroute]
    rfl
  have hnone : settlement? operation ((s.queue.route frame).deliveries.map .deliver) = none := by
    rw [hroute]
    exact settlement?_notices operation s.queue.subscribers n
  refine ⟨?_, (s.queue.route frame).deliveries.map .deliver, written_deliver _, hnone, ?_⟩
  · show (s.queue.route frame).queue.entries = _
    rw [WorkQueue.entries_route h, WorkQueue.take_of_notice hn]
    cases n.isLocal <;> rfl
  · rw [routeFrames_of_ok hresult, List.map_nil, List.append_nil]

theorem routeFrames_of_send (h : s.queue.entries = [⟨operation, .authentication x⟩])
    {reply : Reply} (hd : Reply.decode frame = .ok reply) (hr : ∀ n, reply ≠ .notice n)
    {request : Request} {next : Authentication}
    (hsend : x.handle reply = (.ok (.send request), next)) (rest : List Frame) :
    (s.routed frame).queue.entries = [⟨operation, .authentication next⟩] ∧
      s.routeFrames (frame :: rest) = (((s.routed frame).routeFrames rest).1,
        .write request :: ((s.routed frame).routeFrames rest).2) := by
  have hroute := WorkQueue.route_authentication h hd hr
  rw [hsend] at hroute
  have hresult : (s.queue.route frame).result = .ok [request] := by rw [hroute]
  refine ⟨?_, ?_⟩
  · show (s.queue.route frame).queue.entries = _
    rw [hroute]
  · rw [routeFrames_of_ok hresult, hroute]
    rfl

/-- The assent settles an authentication with its mechanism. -/
theorem reaches_of_done (h : s.queue.entries = [⟨operation, .authentication x⟩])
    (hmechanism : s.mechanism = x.mechanism) {reply : Reply}
    (hd : Reply.decode frame = .ok reply) (hr : ∀ n, reply ≠ .notice n) {next : Authentication}
    (hdone : x.handle reply = (.ok .done, next)) (rest : List Frame) :
    Reaches operation (.accepted next.mechanism) (s.routeFrames (frame :: rest)).1
        (s.routeFrames (frame :: rest)).2 ∧
      written (s.routeFrames (frame :: rest)).2 = [] := by
  have hroute := WorkQueue.route_authentication h hd hr
  have hkeeps := x.handle_mechanism reply
  rw [hdone] at hroute hkeeps
  have hresult : (s.queue.route frame).result = .ok [] := by rw [hroute]
  have hnext : (s.routed frame).queue.entries = [] := by
    show (s.queue.route frame).queue.entries = _
    rw [hroute]
  have hm : ((s.routed frame).routeFrames rest).1.mechanism = next.mechanism :=
    (mechanism_routeFrames _ rest).trans (hmechanism.trans hkeeps.symm)
  obtain ⟨hwritten, hidle⟩ := routeFrames_idle hnext rest
  rw [routeFrames_of_ok hresult, hroute]
  exact ⟨.accepted hidle hm (settlement?_settled operation _ _), hwritten⟩

/-- An error settles it, whether it ends the session or not. -/
theorem reaches_of_error (h : s.queue.entries = [⟨operation, .authentication x⟩])
    {reply : Reply} (hd : Reply.decode frame = .ok reply) (hr : ∀ n, reply ≠ .notice n)
    {e : ConnectionError} {next : Authentication} (herror : x.handle reply = (.error e, next))
    (rest : List Frame) :
    Reaches operation .refused (s.routeFrames (frame :: rest)).1
        (s.routeFrames (frame :: rest)).2 ∧
      written (s.routeFrames (frame :: rest)).2 = [] := by
  have hroute := WorkQueue.route_authentication h hd hr
  rw [herror] at hroute
  have hdeliveries : (s.queue.route frame).deliveries
      = [.settled operation (.mechanism (.error e))] := by rw [hroute]
  cases hfatal : e.isFatal with
  | true =>
    have hresult : (s.queue.route frame).result = .error e := by
      rw [hroute]
      exact if_pos hfatal
    rw [routeFrames_of_error hresult, hdeliveries]
    exact ⟨.refused (settlement?_settled operation _ _), written_shutdown _ e⟩
  | false =>
    have hresult : (s.queue.route frame).result = .ok [] := by
      rw [hroute]
      exact if_neg (Bool.eq_false_iff.mp hfatal)
    have hnext : (s.routed frame).queue.entries = [] := by
      show (s.queue.route frame).queue.entries = _
      rw [hroute]
    rw [routeFrames_of_ok hresult, hdeliveries]
    exact ⟨.refused (settlement?_settled operation _ _), (routeFrames_idle hnext rest).1⟩

end

/-- **Frames that are routed** while an authentication waits bring it on by their messages. -/
theorem routeFrames_hears (params : ConnectionParams) {s : Session} {operation : Nat}
    {x : Authentication} (hopen : s.isOpen = true)
    (hentries : s.queue.entries = [⟨operation, .authentication x⟩])
    (hmechanism : s.mechanism = x.mechanism) {frames : List Frame}
    (hd : ∀ f ∈ frames, ∃ reply, Reply.decode f = .ok reply) :
    Reaches operation ((Phase.authenticating x).hears params (messages frames)).1
        (s.routeFrames frames).1 (s.routeFrames frames).2 ∧
      written (s.routeFrames frames).2
        = ((Phase.authenticating x).hears params (messages frames)).2 := by
  -- once the authentication is over, nothing waits, and the other frames do nothing
  induction frames generalizing s x with
  | nil => exact ⟨.authenticating hopen hentries hmechanism rfl, rfl⟩
  | cons frame rest ih =>
    have hrest : ∀ f ∈ rest, ∃ reply, Reply.decode f = .ok reply :=
      fun f hf => hd f (List.mem_cons_of_mem _ hf)
    rcases WorkQueue.decode_cases frame with ⟨e, he⟩ | ⟨n, hn⟩ | ⟨reply, hreply, hr⟩
    · obtain ⟨reply, hreply⟩ := hd frame List.mem_cons_self
      rw [he] at hreply
      cases hreply
    · obtain ⟨hnext, before, hsilent, hnone, hroute⟩ := routeFrames_of_notice hentries hn rest
      obtain ⟨hreaches, hwritten⟩ := ih (s := s.routed frame) hopen hnext hmechanism hrest
      rw [messages_of_notice hn, hroute, written_append, hsilent, hwritten]
      exact ⟨hreaches.append hnone, rfl⟩
    · have hkeeps := x.handle_mechanism reply
      rw [messages_of_reply hreply hr, Phase.hears_cons, Phase.hear_authenticating]
      cases hhandle : x.handle reply with
      | mk answer next =>
        rw [hhandle] at hkeeps
        match answer with
        | .ok (.send request) =>
          obtain ⟨hnext, hroute⟩ := routeFrames_of_send hentries hreply hr hhandle rest
          obtain ⟨hreaches, hwritten⟩ := ih (s := s.routed frame) (x := next) hopen hnext
            (hmechanism.trans hkeeps.symm) hrest
          rw [hroute, written_write, hwritten]
          exact ⟨hreaches.append (settlement?_write operation request []), rfl⟩
        | .ok .done =>
          rw [Phase.hears_accepted]
          exact reaches_of_done hentries hmechanism hreply hr hhandle rest
        | .error e =>
          rw [Phase.hears_refused]
          exact reaches_of_error hentries hreply hr hhandle rest

end Session

end DocWire
