import DocWire.Proofs.Session.Routing
import DocWire.Proofs.Session.Run
import DocWire.Proofs.Session.WireOrder

/-!
# A shared session that nobody disturbs

A call that is not disturbed does to a shared session what it does to a session of its own, and so
does the reader with what arrives.  The session that is used by one party at a time is a run of
the session that is used by many.

* `SharedSession.does`             what a step of a session does to a shared one;
* `submit_undisturbed`             a call from its beginning to its end;
* `receive_undisturbed`            the reader, with an arrival and all its frames.
-/

namespace DocWire

open ConnectionError (StreamFailure)

/-- What callers and subscribers are given. -/
def delivered (effects : List Effect) : List Delivery :=
  effects.filterMap fun
    | .deliver delivery => some delivery
    | _ => none

theorem delivered_append (a b : List Effect) :
    delivered (a ++ b) = delivered a ++ delivered b := List.filterMap_append

theorem delivered_deliver (deliveries : List Delivery) :
    delivered (deliveries.map .deliver) = deliveries := by
  induction deliveries with
  | nil => rfl
  | cons d rest ih => exact congrArg (d :: ·) ih

theorem delivered_write (requests : List Request) : delivered (requests.map .write) = [] := by
  induction requests with
  | nil => rfl
  | cons r rest ih => exact ih

theorem written_writes (requests : List Request) : written (requests.map .write) = requests := by
  induction requests with
  | nil => rfl
  | cons r rest ih => exact congrArg (r :: ·) ih

namespace SharedSession

theorem become_become (s : SharedSession) (p : Party) (a b : Turn) :
    (s.become p a).become p b = s.become p b := by
  refine congrArg (fun turns => { s with turns }) (funext fun q => ?_)
  by_cases hq : q = p
  · rw [if_pos hq, if_pos hq]
  · rw [if_neg hq, if_neg hq]
    exact become_of_ne s hq a

/-- A party does to a shared session what was done to a session of its own. -/
def does (s : SharedSession) (p : Party) (r : Session × List Effect) : SharedSession :=
  { s with session := r.1,
           stream := s.stream ++ tagged p ((written r.2).flatMap Request.encode),
           given := s.given ++ delivered r.2 }

theorem does_write (s : SharedSession) (p : Party) (session : Session) (request : Request) :
    s.does p (session, [.write request])
      = { s with session, stream := s.stream ++ tagged p request.encode } := by
  have hbytes : (written [.write request]).flatMap Request.encode = request.encode :=
    List.append_nil _
  have hgiven : s.given ++ delivered [.write request] = s.given := List.append_nil _
  unfold does
  rw [hbytes, hgiven]

section
variable {plan : Nat → Errand} {s : SharedSession}

/-! ## Single moves -/

theorem writer_eq_self (h : s.writer = none) : { s with writer := none } = s := by
  rw [← h]

theorem step_check {i : Nat} (hturn : s.turns (.call i) = .free .ready) :
    s.step plan (.check i)
      = s.become (.call i)
        (.free (if s.session.isOpen then .submit else .finished (.error .closed))) := by
  simp only [step, hturn]

theorem step_take {i : Nat} (hwriter : s.writer = none)
    (hturn : s.turns (.call i) = .free .submit) :
    s.step plan (.take i) = { s with writer := some (.call i) }.become (.call i) .entering := by
  simp only [step, hwriter, hturn]

theorem step_enter_error {i : Nat} {e : ConnectionError} (hturn : s.turns (.call i) = .entering)
    (h : s.session.queue.enqueue (plan i).operation = .error e) :
    s.step plan (.enter i) = s.become (.call i) (.leaving (.finished (.error e))) := by
  simp only [step, hturn, enter, h]

theorem step_enter_ok {i id : Nat} {queue : WorkQueue} (hturn : s.turns (.call i) = .entering)
    (h : s.session.queue.enqueue (plan i).operation = .ok (id, queue)) :
    s.step plan (.enter i)
      = { s with session := { s.session with queue }, entered := s.entered ++ [i] }.become
          (.call i) (.writing (plan i).request.encode (.finished (.ok id))) := by
  simp only [step, hturn, enter, h]

/-- A stream that has not failed takes all bytes at once. -/
theorem step_write {p : Party} {bytes : List UInt8} {next : Task} (hbroken : s.broken = false)
    (hturn : s.turns p = .writing bytes next) :
    s.step plan (.write p bytes.length)
      = { s with stream := s.stream ++ tagged p bytes }.become p (.writing [] next) := by
  simp only [step, hbroken, hturn, List.take_length, List.drop_length]

theorem step_write_leaving {p : Party} {next : Task} {count : Nat}
    (hturn : s.turns p = .leaving next) : s.step plan (.write p count) = s := by
  simp only [step, hturn]

theorem step_release {p : Party} {turn : Turn} {next : Task} (hturn : s.turns p = turn)
    (hleaves : turn = .writing [] next ∨ turn = .leaving next) :
    s.step plan (.release p) = { s with writer := none }.become p (.free next) := by
  rcases hleaves with rfl | rfl <;> simp only [step, hturn]

/-! ## Calls -/

/-- A call that is finished does nothing more. -/
theorem run_of_finished {i : Nat} {result : Except ConnectionError Nat} {n : Nat}
    (hturn : s.turns (.call i) = .free (.finished result)) :
    s.run plan [.take i, .enter i, .write (.call i) n, .release (.call i)] = s := by
  have htake : s.step plan (.take i) = s := by
    simp only [step, hturn]
    cases s.writer <;> rfl
  have henter : s.step plan (.enter i) = s := by simp only [step, hturn]
  have hwrite : s.step plan (.write (.call i) n) = s := by simp only [step, hturn]
  have hrelease : s.step plan (.release (.call i)) = s := by simp only [step, hturn]
  rw [run_cons, htake, run_cons, henter, run_cons, hwrite, run_cons, hrelease, run_nil]

/-- **A call that is not disturbed** submits to the shared session as to a session of its own. -/
theorem submit_undisturbed {i : Nat} (hready : s.turns (.call i) = .free .ready)
    (hwriter : s.writer = none) (hbroken : s.broken = false) :
    s.run plan [.check i, .take i, .enter i,
        .write (.call i) (plan i).request.encode.length, .release (.call i)]
      = match s.session.submit (plan i).operation (plan i).request with
        | .error e => s.become (.call i) (.free (.finished (.error e)))
        | .ok (id, session, effects) =>
          ({ s with entered := s.entered ++ [i] }.does (.call i) (session, effects)).become
            (.call i) (.free (.finished (.ok id))) := by
  rw [run_cons, step_check hready]
  unfold Session.submit
  by_cases hopen : s.session.isOpen = true
  · rw [if_pos hopen, if_pos hopen, run_cons, step_take (by exact hwriter) (become_self _ _ _)]
    change run plan (({ s with writer := some (.call i) }.become _ _).become _ _) _ = _
    rw [become_become, run_cons]
    cases henqueue : s.session.queue.enqueue (plan i).operation with
    | error e =>
      rw [step_enter_error (become_self _ _ _) (by exact henqueue), become_become, run_cons,
        step_write_leaving (become_self _ _ _), run_cons,
        step_release (become_self _ _ _) (Or.inr rfl), run_nil]
      change ({ s with writer := none }.become _ _).become _ _ = _
      rw [become_become, writer_eq_self hwriter]
      rfl
    | ok entry =>
      rw [step_enter_ok (become_self _ _ _) (by exact henqueue)]
      change run plan (({ s with session := { s.session with queue := entry.2 },
                                 writer := some (.call i),
                                 entered := s.entered ++ [i] }.become _ _).become _ _) _ = _
      rw [become_become, run_cons, step_write (by exact hbroken) (become_self _ _ _), run_cons,
        step_release (become_self _ _ _) (Or.inl rfl), run_nil]
      change (({ s with session := { s.session with queue := entry.2 },
                        writer := none,
                        stream := s.stream ++ tagged (.call i) (plan i).request.encode,
                        entered := s.entered ++ [i] }.become _ _).become _ _).become _ _ = _
      rw [become_become, become_become, ← hwriter]
      show _ = (does { s with entered := s.entered ++ [i] } (.call i)
        (_, [.write (plan i).request])).become _ _
      rw [does_write]
  · rw [if_neg hopen, if_neg hopen]
    exact run_of_finished (become_self _ _ _)

/-! ## The reader -/

theorem does_does (s : SharedSession) (p : Party) (a b : Session) (x y : List Effect) :
    (s.does p (a, x)).does p (b, y) = s.does p (b, x ++ y) := by
  unfold does
  simp only [written_append, delivered_append, List.flatMap_append, tagged_append,
    List.append_assoc]

theorem become_does_become (s : SharedSession) (p : Party) (a b : Turn)
    (r : Session × List Effect) :
    ((s.become p a).does p r).become p b = (s.does p r).become p b :=
  become_become (s.does p r) p a b

theorem does_nil (s : SharedSession) (p : Party) : s.does p (s.session, []) = s := by
  unfold does
  show { s with stream := s.stream ++ [], given := s.given ++ [] } = s
  rw [List.append_nil, List.append_nil]

theorem does_deliveries (s : SharedSession) (p : Party) (session : Session)
    (deliveries : List Delivery) :
    s.does p (session, deliveries.map .deliver)
      = { s with session, given := s.given ++ deliveries } := by
  unfold does
  rw [written_deliver, delivered_deliver]
  show { s with session, stream := s.stream ++ [], given := _ } = _
  rw [List.append_nil]

theorem does_replies (s : SharedSession) (p : Party) (session : Session)
    (deliveries : List Delivery) (requests : List Request) :
    s.does p (session, deliveries.map .deliver ++ requests.map .write)
      = { s with session,
                 stream := s.stream ++ tagged p (requests.flatMap Request.encode),
                 given := s.given ++ deliveries } := by
  unfold does
  rw [written_append, written_deliver, written_writes, delivered_append, delivered_deliver,
    delivered_write, List.nil_append, List.append_nil]

theorem become_eq_self {p : Party} {turn : Turn} (h : s.turns p = turn) : s.become p turn = s := by
  refine congrArg (fun turns => { s with turns }) (funext fun q => ?_)
  by_cases hq : q = p
  · rw [if_pos hq, hq, h]
  · rw [if_neg hq]

variable (plan) in
theorem step_route {frame : Frame} {rest : List Frame}
    {result : Except ConnectionError (List Request)}
    (hturn : s.turns .reader = .free (.route (frame :: rest)))
    (hresult : (s.session.queue.route frame).result = result) :
    s.step plan .route
      = { s with session := s.session.routed frame,
                 given := s.given ++ (s.session.queue.route frame).deliveries }.become .reader
          (.free (afterRoute result rest)) := by
  simp only [step, hturn, ← hresult]
  rfl

theorem step_reply {replies : List Request} {frames : List Frame} (hwriter : s.writer = none)
    (hturn : s.turns .reader = .free (.reply replies frames)) :
    s.step plan .reply = { s with writer := some .reader }.become .reader
      (.writing (replies.flatMap Request.encode) (.route frames)) := by
  simp only [step, hwriter, hturn]

variable (plan) in
/-- The reader that is not disturbed routes a frame and writes the replies. -/
theorem routed_undisturbed {frame : Frame} {rest : List Frame} {requests : List Request}
    (hturn : s.turns .reader = .free (.route (frame :: rest))) (hwriter : s.writer = none)
    (hbroken : s.broken = false) (hresult : (s.session.queue.route frame).result = .ok requests) :
    ∃ moves, s.run plan moves = (s.does .reader (s.session.routed frame,
      (s.session.queue.route frame).deliveries.map .deliver ++ requests.map .write)).become
        .reader (.free (.route rest)) := by
  rw [does_replies]
  cases requests with
  | nil =>
    refine ⟨[.route], ?_⟩
    rw [run_cons, step_route plan hturn hresult, run_nil]
    show _ = SharedSession.become { s with session := s.session.routed frame,
                                           stream := s.stream ++ [],
                                           given := _ } _ _
    rw [List.append_nil]
    rfl
  | cons request more =>
    refine ⟨[.route, .reply, .write .reader ((request :: more).flatMap Request.encode).length,
      .release .reader], ?_⟩
    have hreply : afterRoute (.ok (request :: more)) rest = .reply (request :: more) rest := rfl
    rw [run_cons, step_route plan hturn hresult, hreply, run_cons,
      step_reply (by exact hwriter) (become_self _ _ _), run_cons,
      step_write (by exact hbroken) (become_self _ _ _), run_cons,
      step_release (become_self _ _ _) (Or.inl rfl), run_nil]
    change ((({ s with session := s.session.routed frame,
                       writer := none,
                       stream := s.stream
                         ++ tagged .reader ((request :: more).flatMap Request.encode),
                       given := s.given
                         ++ (s.session.queue.route frame).deliveries }.become _ _).become
                           _ _).become _ _).become _ _ = _
    rw [become_become, become_become, become_become, ← hwriter]

/-- How the reader ends: it reads on as long as the session is open. -/
inductive Reads (session : Session) : Task → Prop
  | on (h : session.isOpen = true) : Reads session (.route [])
  | noMore {e} (h : session.isOpen = false) : Reads session (.finished (.error e))

/-- A session that the reader ends. -/
theorem shutdown_undisturbed {e : ConnectionError} (hturn : s.turns .reader = .free (.mark e)) :
    s.run plan [.mark .reader, .close .reader]
      = (s.does .reader (s.session.shutdown e)).become .reader (.free (.finished (.error e))) := by
  have hmark : s.step plan (.mark .reader)
      = { s with session := { s.session with isOpen := false } }.become .reader
          (.free (.close e)) := by
    simp only [step, hturn]
  have hdoes : s.does .reader (s.session.shutdown e)
      = { s with session := (s.session.shutdown e).1,
                 given := s.given ++ (s.session.queue.close e).2 } := does_deliveries _ _ _ _
  rw [run_cons, hmark, run_cons, run_nil, hdoes]
  simp only [step, become_self]
  change ({ s with session := (s.session.shutdown e).1,
                   given := s.given ++ (s.session.queue.close e).2 }.become _ _).become _ _ = _
  rw [become_become]

variable (plan) in
theorem routeFrames_undisturbed {frames : List Frame}
    (hturn : s.turns .reader = .free (.route frames)) (hwriter : s.writer = none)
    (hbroken : s.broken = false) (hopen : s.session.isOpen = true) :
    ∃ moves next, Reads (s.session.routeFrames frames).1 next ∧
      s.run plan moves
        = (s.does .reader (s.session.routeFrames frames)).become .reader (.free next) := by
  induction frames generalizing s with
  | nil =>
    refine ⟨[], .route [], .on hopen, ?_⟩
    rw [Session.routeFrames_nil, does_nil, become_eq_self hturn, run_nil]
  | cons frame rest ih =>
    cases hresult : (s.session.queue.route frame).result with
    | error e =>
      rw [Session.routeFrames_of_error hresult]
      refine ⟨[.route, .mark .reader, .close .reader], .finished (.error e), .noMore rfl, ?_⟩
      have hroute := step_route plan hturn hresult
      rw [← does_deliveries s .reader] at hroute
      have hend : afterRoute (.error e) rest = .mark e := rfl
      rw [run_cons, hroute, hend, shutdown_undisturbed (become_self _ _ _)]
      change (((s.does .reader _).does .reader
        ((s.session.routed frame).shutdown e)).become _ _).become _ _ = _
      rw [become_become]
      exact congrArg (become · .reader _) (does_does s .reader _ _ _ _)
    | ok requests =>
      rw [Session.routeFrames_of_ok hresult]
      obtain ⟨first, hfirst⟩ := routed_undisturbed plan hturn hwriter hbroken hresult
      obtain ⟨more, next, hreads, hmore⟩ := ih (s := s.run plan first)
        (by rw [hfirst, become_self]) (by rw [hfirst]; exact hwriter)
        (by rw [hfirst]; exact hbroken) (by rw [hfirst]; exact hopen)
      rw [hfirst] at hmore hreads
      refine ⟨first ++ more, next, hreads, ?_⟩
      rw [run_append, hfirst, hmore]
      change (((s.does .reader _).does .reader
        ((s.session.routed frame).routeFrames rest)).become _ _).become _ _ = _
      rw [become_become]
      exact congrArg (become · .reader _) (does_does s .reader _ _ _ _)

/-- **The reader that is not disturbed** does with what arrives what a session of its own does. -/
theorem receive_undisturbed (arrival : Arrival) (hturn : s.turns .reader = .free (.route []))
    (hwriter : s.writer = none) (hbroken : s.broken = false) (hopen : s.session.isOpen = true) :
    ∃ moves next, Reads (s.session.receive arrival).1 next ∧
      s.run plan moves
        = (s.does .reader (s.session.receive arrival)).become .reader (.free next) := by
  have hread : s.step plan (.read arrival) = s.read arrival := by simp only [step, hturn]
  cases arrival with
  | stopped f =>
    have hreceive : s.session.receive (.stopped f) = s.session.shutdown (.ofStreamFailure f) :=
      if_pos hopen
    refine ⟨[.read (.stopped f), .mark .reader, .close .reader],
      .finished (.error (.ofStreamFailure f)), ?_, ?_⟩
    · rw [hreceive]
      exact .noMore rfl
    · rw [hreceive, run_cons, hread]
      unfold read
      rw [shutdown_undisturbed (become_self _ _ _)]
      exact become_does_become _ _ _ _ _
  | bytes chunk =>
    unfold read at hread
    dsimp only at hread
    cases hdrain : (s.session.assembler.feed chunk).drain with
    | mk drained assembler =>
      rw [hdrain] at hread
      cases drained with
      | ok frames =>
        have hreceive : s.session.receive (.bytes chunk)
            = { s.session with assembler }.routeFrames frames :=
          (Session.receive_of_drained hopen hdrain).trans
            (Session.routeFrames_assembler _ _ _).symm
        dsimp only at hread
        obtain ⟨moves, next, hreads, hmoves⟩ :=
          routeFrames_undisturbed plan (s := s.step plan (.read (.bytes chunk)))
            (by rw [hread, become_self]) (by rw [hread]; exact hwriter)
            (by rw [hread]; exact hbroken) (by rw [hread]; exact hopen)
        rw [hread] at hmoves hreads
        refine ⟨.read (.bytes chunk) :: moves, next, ?_, ?_⟩
        · rw [hreceive]
          exact hreads
        · rw [hreceive, run_cons, hread, hmoves]
          exact become_does_become _ _ _ _ _
      | error e =>
        have hreceive : s.session.receive (.bytes chunk)
            = { s.session with assembler }.shutdown e := Session.receive_of_broken hopen hdrain
        dsimp only at hread
        refine ⟨[.read (.bytes chunk), .mark .reader, .close .reader], .finished (.error e), ?_, ?_⟩
        · rw [hreceive]
          exact .noMore rfl
        · rw [hreceive, run_cons, hread, shutdown_undisturbed (become_self _ _ _)]
          exact become_does_become _ _ _ _ _

end

end SharedSession

end DocWire
