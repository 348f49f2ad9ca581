import DocWire.Session.Connection

/-!
# Runs of a connection

A connection makes its first step and then takes in what the stream brings, one arrival after the
other.

* `Connection.run`, `Connection.after`   the run, with everything that is done in it;
* `written`                              what is written to the stream;
* `Session.begun`, `beginAuthentication_eq`   where the authentication begins.
-/

namespace DocWire

open ConnectionError (StreamFailure)

def Effect.request? : Effect → Option Request
  | .write request => some request
  | _ => none

/-- everything that is written to the stream, in order -/
def written (effects : List Effect) : List Request := effects.filterMap Effect.request?

theorem written_write (request : Request) (rest : List Effect) :
    written (.write request :: rest) = request :: written rest := rfl
theorem written_append (a b : List Effect) : written (a ++ b) = written a ++ written b :=
  List.filterMap_append

theorem written_deliver (deliveries : List Delivery) : written (deliveries.map .deliver) = [] := by
  induction deliveries with
  | nil => rfl
  | cons d rest ih => exact ih

theorem written_shutdown (s : Session) (reason : ConnectionError) :
    written (s.shutdown reason).2 = [] := written_deliver _

theorem handle_authentication (a : Authentication) (reply : Reply) :
    (Operation.authentication a).handle reply = match a.handle reply with
      | (.ok (.send request), a) => .reply (.authentication a) request
      | (.ok .done, a) => .settled (.mechanism (.ok a.mechanism))
      | (.error e, _) => .failed e := rfl

def Authentication.begun (m : Mechanism) (c : Credentials) : Authentication :=
  { mechanism := m, credentials := c, state := .awaitingContinue }

/-- The session of a stream on which the authentication has just begun. -/
def Session.begun (params : ConnectionParams) (m : Mechanism) (a : Assembler) (secure : Bool)
    (capabilities : List (String × AnyValue)) : Session :=
  { assembler := a, mechanism := m, secure, capabilities,
    queue := { entries := [⟨0, .authentication (.begun m params.credentials)⟩], nextId := 1 } }

theorem beginAuthentication_eq (params : ConnectionParams) (a : Assembler) (secure : Bool)
    (capabilities : List (String × AnyValue)) :
    Stage.beginAuthentication params a secure capabilities
      = (Mechanism.choose params.mechanism (Stage.offered capabilities) secure).map fun m =>
        (0, Session.begun params m a secure capabilities,
          [.write (.authenticateStart m.name (m.initialData params.credentials))]) := by
  unfold Stage.beginAuthentication
  cases Mechanism.choose params.mechanism (Stage.offered capabilities) secure <;> rfl

namespace Connection

/-- The connection after what the stream brings, and what it has done. -/
def run (c : Connection) : List Arrival → Connection × List Effect
  | [] => (c, [])
  | arrival :: rest =>
    let (c, effects) := c.receive arrival
    let (c, more) := c.run rest
    (c, effects ++ more)

/-- The connection after its first step and what the stream brings, and what it has done. -/
def after (params : ConnectionParams) (upgrade : Option (Except StreamFailure Unit))
    (arrivals : List Arrival) : Connection × List Effect :=
  let (c, effects) := start params upgrade
  let (c, more) := c.run arrivals
  (c, effects ++ more)

theorem run_nil (c : Connection) : c.run [] = (c, []) := rfl

theorem run_cons (c : Connection) (arrival : Arrival) (rest : List Arrival) :
    c.run (arrival :: rest) = (((c.receive arrival).1.run rest).1,
      (c.receive arrival).2 ++ ((c.receive arrival).1.run rest).2) := rfl

theorem after_eq (params : ConnectionParams) (upgrade : Option (Except StreamFailure Unit))
    (arrivals : List Arrival) :
    after params upgrade arrivals = (((start params upgrade).1.run arrivals).1,
      (start params upgrade).2 ++ ((start params upgrade).1.run arrivals).2) := rfl

theorem run_append (c : Connection) (arrivals more : List Arrival) :
    c.run (arrivals ++ more) = (((c.run arrivals).1.run more).1,
      (c.run arrivals).2 ++ ((c.run arrivals).1.run more).2) := by
  induction arrivals generalizing c with
  | nil => rfl
  | cons arrival rest ih =>
    rw [List.cons_append, run_cons, ih, run_cons]
    simp only [List.append_assoc]

section
variable {params : ConnectionParams}

theorem start_of_not_tls (upgrade : Option (Except StreamFailure Unit))
    (h : params.tls = false) :
    start params upgrade = (⟨params, .askingCapabilities (Stage.newAssembler params) false⟩,
      [.write .capabilitiesGet]) := by
  unfold start Stage.start
  rw [h]
  rfl

theorem start_of_tls (upgrade : Except StreamFailure Unit) (h : params.tls = true) :
    start params (some upgrade)
      = (⟨params, .askingSecurity (Stage.newAssembler params) upgrade⟩,
        [.write Stage.securityRequest]) := by
  unfold start Stage.start
  rw [h]
  rfl

theorem start_of_no_upgrade (h : params.tls = true) :
    start params none = (⟨params, .failed
      (.transport "TLS is required but no TLS implementation was given")⟩, []) := by
  unfold start Stage.start
  rw [h]
  rfl

end

theorem after_append (params : ConnectionParams) (upgrade : Option (Except StreamFailure Unit))
    (arrivals more : List Arrival) :
    after params upgrade (arrivals ++ more)
      = (((after params upgrade arrivals).1.run more).1,
        (after params upgrade arrivals).2 ++ ((after params upgrade arrivals).1.run more).2) := by
  rw [after_eq, after_eq, run_append]
  simp only [List.append_assoc]

/-- A handshake that has failed is over. -/
theorem run_of_failed (params : ConnectionParams) (e : ConnectionError) (arrivals : List Arrival) :
    run ⟨params, .failed e⟩ arrivals = (⟨params, .failed e⟩, []) := by
  induction arrivals with
  | nil => rfl
  | cons arrival rest ih =>
    rw [run_cons, show receive ⟨params, .failed e⟩ arrival = (⟨params, .failed e⟩, []) from rfl, ih]
    rfl

end Connection

end DocWire
