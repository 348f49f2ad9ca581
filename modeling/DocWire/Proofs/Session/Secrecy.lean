import DocWire.Proofs.Auth.Turns
import DocWire.Proofs.Session.Run

/-!
# What is written to a stream that is not secured

The password is shown by the start of one mechanism only, and that start is written to nothing but
a secured stream.  Where a stream has to be secured, the request to secure it is all that is
written before.

* `Request.showsPassword`        the request that must not be read by others;
* `Effect.isDiscreet`, `Stage.isDiscreet`   a step that neither writes it nor secures the stream,
                                 and a stage from which all steps are such;
* `run_discreet`, `run_askingSecurity`      runs;
* `unsecured`                    what is done before the stream is secured;
* `handshake_discreet`           the whole of it.
-/

namespace DocWire

open ConnectionError (StreamFailure)

/-- Whether a request is the start of the mechanism that shows the password, by its name or by
what it carries. -/
def Request.showsPassword : Request → Bool
  | authenticateStart name data => name == Mechanism.plain.name || data.isSome
  | _ => false

/-- Whether an effect neither secures the stream nor writes the password to it. -/
def Effect.isDiscreet : Effect → Bool
  | write request => !request.showsPassword
  | secure => false
  | deliver _ => true

/-- Effects of which none secures the stream or writes the password to it. -/
def Discreet (effects : List Effect) : Prop := ∀ e ∈ effects, e.isDiscreet = true

theorem discreet_nil : Discreet [] := fun _ h => absurd h List.not_mem_nil

theorem discreet_append {a b : List Effect} (ha : Discreet a) (hb : Discreet b) :
    Discreet (a ++ b) := List.forall_mem_append.mpr ⟨ha, hb⟩

theorem discreet_deliver (deliveries : List Delivery) : Discreet (deliveries.map .deliver) := by
  intro e he
  obtain ⟨d, -, rfl⟩ := List.mem_map.mp he
  rfl

theorem discreet_writes {requests : List Request}
    (h : ∀ r ∈ requests, r.showsPassword = false) : Discreet (requests.map .write) := by
  intro e he
  obtain ⟨r, hr, rfl⟩ := List.mem_map.mp he
  show (!r.showsPassword) = true
  rw [h r hr]
  rfl

theorem showsPassword_of_discreet {effects : List Effect} (h : Discreet effects) :
    ∀ r ∈ written effects, r.showsPassword = false := by
  intro r hr
  obtain ⟨e, he, hrequest⟩ := List.mem_filterMap.mp hr
  have hdiscreet := h e he
  cases e with
  | write request =>
    obtain rfl : request = r := Option.some.inj hrequest
    exact Bool.not_eq_true' _ ▸ hdiscreet
  | secure | deliver _ => cases hrequest

theorem secure_not_mem_of_discreet {effects : List Effect} (h : Discreet effects) :
    .secure ∉ effects := fun hmem => Bool.false_ne_true (h _ hmem)

/-! ## Sessions -/

/-- What an operation answers the server does not show the password. -/
theorem showsPassword_handle {o next : Operation} {reply : Reply} {request : Request}
    (h : o.handle reply = .reply next request) : request.showsPassword = false := by
  cases o with
  | statement b o =>
    exfalso
    change Operation.handleStatement b o reply = _ at h
    unfold Operation.handleStatement at h
    split at h <;> first | cases h | (split at h <;> cases h)
  | single => cases reply <;> cases h
  | authentication a =>
    rw [handle_authentication] at h
    rcases a.handle_cases reply with ⟨challenge, data, -, -, hsend⟩ | ⟨data, -, hdone⟩ |
      ⟨e, b, herror⟩
    · rw [hsend] at h
      cases h
      rfl
    · rw [hdone] at h
      cases h
    · rw [herror] at h
      cases h

namespace WorkQueue

theorem showsPassword_routeTo {q : WorkQueue} {head : Queued} {rest : List Queued} {reply : Reply}
    {requests : List Request} (h : (q.routeTo head rest reply).result = .ok requests) :
    ∀ r ∈ requests, r.showsPassword = false := by
  unfold routeTo at h
  cases hhandle : head.operation.handle reply with
  | reply next request =>
    rw [hhandle] at h
    obtain rfl := Except.ok.inj h
    intro r hr
    rw [List.mem_singleton.mp hr]
    exact showsPassword_handle hhandle
  | pending next events | settled settlement =>
    rw [hhandle] at h
    obtain rfl := Except.ok.inj h
    exact fun _ hr => absurd hr List.not_mem_nil
  | failed e =>
    rw [hhandle] at h
    dsimp only at h
    split at h
    · cases h
    · obtain rfl := Except.ok.inj h
      exact fun _ hr => absurd hr List.not_mem_nil

theorem showsPassword_route {q : WorkQueue} {frame : Frame} {requests : List Request}
    (h : (q.route frame).result = .ok requests) : ∀ r ∈ requests, r.showsPassword = false := by
  have hnone {requests : List Request}
      (h : Except.ok [] = (.ok requests : Except ConnectionError _)) :
      ∀ r ∈ requests, r.showsPassword = false := by
    obtain rfl := Except.ok.inj h
    exact fun _ hr => absurd hr List.not_mem_nil
  unfold route at h
  split at h
  · cases h
  · unfold routeReply at h
    split at h
    · exact hnone h
    · split at h
      · unfold routeUnasked at h
        split at h
        · dsimp only at h
          split at h
          · cases h
          · exact hnone h
        · exact hnone h
      · exact showsPassword_routeTo h

end WorkQueue

namespace Session

theorem discreet_shutdown (s : Session) (reason : ConnectionError) :
    Discreet (s.shutdown reason).2 := discreet_deliver _

theorem discreet_routeFrames (s : Session) (frames : List Frame) :
    Discreet (s.routeFrames frames).2 := by
  induction frames generalizing s with
  | nil => exact discreet_nil
  | cons frame rest ih =>
    unfold routeFrames
    cases hresult : (s.queue.route frame).result with
    | ok requests =>
      have hwrites := discreet_writes (WorkQueue.showsPassword_route hresult)
      simp only [hresult]
      exact discreet_append (discreet_append (discreet_deliver _) hwrites) (ih _)
    | error e =>
      simp only [hresult]
      exact discreet_append (discreet_deliver _) (discreet_shutdown _ e)

theorem discreet_pump (s : Session) : Discreet s.pump.2 := by
  unfold pump
  split
  · exact discreet_routeFrames _ _
  · exact discreet_shutdown _ _

theorem discreet_receive (s : Session) (arrival : Arrival) : Discreet (s.receive arrival).2 := by
  unfold receive
  split
  · cases arrival with
    | bytes chunk => exact discreet_pump _
    | stopped f => exact discreet_shutdown _ _
  · exact discreet_nil

end Session

/-! ## Stages -/

namespace Mechanism

theorem showsPassword_start {m : Mechanism} (h : m.needsSecureTransport = false)
    (c : Credentials) :
    (Request.authenticateStart m.name (m.initialData c)).showsPassword = false := by
  cases m with
  | plain => cases h
  | mysql41 | sha256Memory => rfl

end Mechanism

namespace Stage

/-- Whether the stream is not to be secured any more, and the password not to be shown. -/
def isDiscreet : Stage → Bool
  | askingSecurity _ _ => false
  | askingCapabilities _ secure => !secure
  | _ => true

theorem afterAuthentication_discreet (s : Session) (operation : Nat) {effects : List Effect}
    (h : Discreet effects) :
    (afterAuthentication s operation effects).1.isDiscreet = true ∧
      Discreet (afterAuthentication s operation effects).2 := by
  unfold afterAuthentication
  split
  · exact ⟨rfl, h⟩
  · split
    · exact ⟨rfl, h⟩
    · exact ⟨rfl, discreet_append h (s.discreet_shutdown _)⟩

theorem afterClose_discreet (s : Session) (operation : Nat) {effects : List Effect}
    (h : Discreet effects) :
    (afterClose s operation effects).1.isDiscreet = true ∧
      Discreet (afterClose s operation effects).2 := by
  unfold afterClose
  split
  · exact ⟨rfl, h⟩
  · exact ⟨rfl, discreet_append h (s.discreet_shutdown _)⟩

theorem authenticate_discreet (params : ConnectionParams) (a : Assembler)
    (capabilities : List (String × AnyValue)) :
    (authenticate params a false capabilities).1.isDiscreet = true ∧
      Discreet (authenticate params a false capabilities).2 := by
  unfold authenticate
  rw [beginAuthentication_eq]
  cases hchoose : Mechanism.choose params.mechanism (offered capabilities) false with
  | error e => exact ⟨rfl, discreet_nil⟩
  | ok m =>
    have hsecure := Mechanism.needsSecureTransport_of_choose hchoose
    have hstart := discreet_writes
      (List.forall_mem_singleton.mpr (Mechanism.showsPassword_start hsecure params.credentials))
    exact afterAuthentication_discreet _ 0 (discreet_append hstart (Session.discreet_pump _))

theorem afterCapabilities_discreet (params : ConnectionParams) (a : Assembler) :
    (afterCapabilities params a false).1.isDiscreet = true ∧
      Discreet (afterCapabilities params a false).2 := by
  unfold afterCapabilities
  split
  · exact ⟨rfl, discreet_nil⟩
  · exact ⟨rfl, discreet_nil⟩
  · split
    · exact ⟨rfl, discreet_nil⟩
    · exact authenticate_discreet params _ _

/-- **One step**: a stage that is discreet does nothing that is not, and stays so. -/
theorem receive_discreet (params : ConnectionParams) {stage : Stage}
    (h : stage.isDiscreet = true) (arrival : Arrival) :
    (stage.receive params arrival).1.isDiscreet = true ∧
      Discreet (stage.receive params arrival).2 := by
  cases stage with
  | askingSecurity a upgrade => cases h
  | askingCapabilities a secure =>
    obtain rfl : secure = false := Bool.not_eq_true' _ ▸ h
    cases arrival with
    | bytes chunk => exact afterCapabilities_discreet params _
    | stopped f => exact ⟨rfl, discreet_nil⟩
  | authenticating s operation =>
    exact afterAuthentication_discreet _ operation (s.discreet_receive arrival)
  | established s => exact ⟨rfl, s.discreet_receive arrival⟩
  | closing s operation => exact afterClose_discreet _ operation (s.discreet_receive arrival)
  | failed e | gone => exact ⟨rfl, discreet_nil⟩

/-- While the server is asked to let the stream be secured, nothing is done until it is. -/
theorem receive_askingSecurity (params : ConnectionParams) (a : Assembler)
    (upgrade : Except StreamFailure Unit) (arrival : Arrival) :
    (∃ a', receive params (askingSecurity a upgrade) arrival = (askingSecurity a' upgrade, [])) ∨
    (∃ e, receive params (askingSecurity a upgrade) arrival = (failed e, [])) ∨
      upgrade = .ok () ∧ ∃ stage more,
        receive params (askingSecurity a upgrade) arrival = (stage, .secure :: more) := by
  cases arrival with
  | stopped f => exact Or.inr (Or.inl ⟨_, rfl⟩)
  | bytes chunk =>
    have hstep : receive params (askingSecurity a upgrade) (.bytes chunk)
        = afterSecurity params (a.feed chunk) upgrade := rfl
    rw [hstep]
    unfold afterSecurity
    split
    · exact Or.inr (Or.inl ⟨_, rfl⟩)
    · exact Or.inl ⟨_, rfl⟩
    · cases upgrade with
      | error f => exact Or.inr (Or.inl ⟨_, rfl⟩)
      | ok u => exact Or.inr (Or.inr ⟨rfl, _, _, rfl⟩)

end Stage

/-! ## Runs -/

namespace Connection

theorem run_discreet {c : Connection} (h : c.stage.isDiscreet = true) (arrivals : List Arrival) :
    Discreet (c.run arrivals).2 := by
  induction arrivals generalizing c with
  | nil => exact discreet_nil
  | cons arrival rest ih =>
    obtain ⟨hstage, heffects⟩ := c.stage.receive_discreet c.params h arrival
    rw [run_cons]
    exact discreet_append heffects (ih hstage)

theorem run_askingSecurity (params : ConnectionParams) (a : Assembler)
    (upgrade : Except StreamFailure Unit) (arrivals : List Arrival) :
    (run ⟨params, .askingSecurity a upgrade⟩ arrivals).2 = [] ∨
      upgrade = .ok () ∧ ∃ more,
        (run ⟨params, .askingSecurity a upgrade⟩ arrivals).2 = .secure :: more := by
  induction arrivals generalizing a with
  | nil => exact Or.inl rfl
  | cons arrival rest ih =>
    rw [run_cons]
    rcases Stage.receive_askingSecurity params a upgrade arrival with
      ⟨a', hstep⟩ | ⟨e, hstep⟩ | ⟨hupgrade, stage, more, hstep⟩
    · have hreceive : receive ⟨params, .askingSecurity a upgrade⟩ arrival
          = (⟨params, .askingSecurity a' upgrade⟩, []) := by
        unfold receive
        rw [hstep]
      rw [hreceive]
      exact ih a'
    · have hreceive : receive ⟨params, .askingSecurity a upgrade⟩ arrival
          = (⟨params, .failed e⟩, []) := by
        unfold receive
        rw [hstep]
      rw [hreceive, run_of_failed]
      exact Or.inl rfl
    · have hreceive : receive ⟨params, .askingSecurity a upgrade⟩ arrival
          = (⟨params, stage⟩, .secure :: more) := by
        unfold receive
        rw [hstep]
      rw [hreceive]
      exact Or.inr ⟨hupgrade, _, rfl⟩

end Connection

/-- what is done before the stream is secured -/
def unsecured : List Effect → List Effect
  | [] | .secure :: _ => []
  | e :: rest => e :: unsecured rest

theorem unsecured_of_discreet {effects : List Effect} (h : Discreet effects) :
    unsecured effects = effects := by
  induction effects with
  | nil => rfl
  | cons e rest ih =>
    have hrest := ih fun e he => h e (List.mem_cons_of_mem _ he)
    cases e with
    | secure => cases h .secure List.mem_cons_self
    | write _ | deliver _ => exact congrArg (_ :: ·) hrest

/-- **Nothing that shows the password is written to a stream that is not secured**, whatever the
parameters, what becomes of securing the stream, and what the server does.  A stream that has to be
secured is written nothing but the request to secure it until it is. -/
theorem handshake_discreet (params : ConnectionParams)
    (upgrade : Option (Except StreamFailure Unit)) (arrivals : List Arrival) :
    let effects := (Connection.after params upgrade arrivals).2
    (params.tls = true → written (unsecured effects)
      = if upgrade.isSome then [Stage.securityRequest] else []) ∧
    (∀ request ∈ written (unsecured effects), request.showsPassword = false) ∧
    (.secure ∈ effects → params.tls = true ∧ upgrade = some (.ok ())) := by
  intro effects
  have heffects : effects = (Connection.start params upgrade).2
      ++ ((Connection.start params upgrade).1.run arrivals).2 := rfl
  cases htls : params.tls with
  | false =>
    rw [Connection.start_of_not_tls upgrade htls] at heffects
    have hdiscreet : Discreet effects := by
      rw [heffects]
      exact discreet_append (discreet_writes (List.forall_mem_singleton.mpr rfl))
        (Connection.run_discreet rfl arrivals)
    refine ⟨fun h => absurd h Bool.false_ne_true, ?_,
      fun h => absurd h (secure_not_mem_of_discreet hdiscreet)⟩
    rw [unsecured_of_discreet hdiscreet]
    exact showsPassword_of_discreet hdiscreet
  | true =>
    cases upgrade with
    | none =>
      have hnil : effects = [] := by
        rw [heffects, Connection.start_of_no_upgrade htls, Connection.run_of_failed]
        rfl
      rw [hnil]
      exact ⟨fun _ => rfl, fun _ h => absurd h List.not_mem_nil,
        fun h => absurd h List.not_mem_nil⟩
    | some upgrade =>
      rw [Connection.start_of_tls upgrade htls] at heffects
      rcases Connection.run_askingSecurity params (Stage.newAssembler params) upgrade arrivals with
        hnil | ⟨hupgrade, more, hmore⟩
      · rw [hnil] at heffects
        rw [heffects]
        refine ⟨fun _ => rfl, List.forall_mem_singleton.mpr rfl, fun hsecure => ?_⟩
        cases List.mem_singleton.mp hsecure
      · rw [hmore] at heffects
        rw [heffects]
        refine ⟨fun _ => rfl, List.forall_mem_singleton.mpr rfl, fun _ => ⟨rfl, ?_⟩⟩
        rw [hupgrade]

/- A mechanism that shows the password is used, behind the request for a secured stream. -/
example : (written (Connection.after { tls := true } (some (.ok ()))
    [.bytes [1, 0, 0, 0, 0], .bytes [1, 0, 0, 0, 2]]).2).map Request.showsPassword
      = [false, false, true] := by decide

end DocWire
