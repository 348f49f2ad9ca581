import DocWire.Auth.Mechanism
import DocWire.Message.Reply
import DocWire.Message.Request

/-!
# The exchange of an authentication

An authentication starts once, answers the challenges that its mechanism expects, and ends. A
message that it did not ask for makes it fail, and once it has ended nothing moves it.

* `Authentication`                            the state;
* `Authentication.start`, `Authentication.handle`   its steps;
* `state_start`                               what starting leads to.
-/

namespace DocWire

/-- An authentication under way. -/
structure Authentication where
  mechanism : Mechanism
  credentials : Credentials
  state : AuthState := .start
  /-- number of challenges answered -/
  round : Nat := 0
deriving DecidableEq

/-- What is to be done after a message of the server. -/
inductive AuthStep
  | send (request : Request)
  | done

namespace Authentication

/-- The first message of the client. -/
def start (a : Authentication) : Except ConnectionError Request × Authentication :=
  if a.state = .start then
    (.ok (.authenticateStart a.mechanism.name (a.mechanism.initialData a.credentials)),
      { a with state := .awaitingContinue })
  else (.error (.violation (.startedTwice a.state)), a)

def handle (a : Authentication) (reply : Reply) :
    Except ConnectionError AuthStep × Authentication :=
  let fail (e : ConnectionError) : Except ConnectionError AuthStep × Authentication :=
    (.error e, { a with state := .failed })
  if a.state = .awaitingContinue then
    match reply with
    | .authenticateContinue challenge =>
      match a.mechanism.answer a.credentials a.round challenge with
      | .ok data => (.ok (.send (.authenticateContinue data)), { a with round := a.round + 1 })
      | .error e => fail e
    | .authenticateOk _ => (.ok .done, { a with state := .done })
    | .error e => fail (a.mechanism.explain (.server e))
    | other => fail (.violation (.inAuthentication other.name))
  else (.error (.violation (.outsideAuthentication reply.name a.state)), a)

theorem state_start {a : Authentication} (h : a.state = .start) :
    a.start.2.state = .awaitingContinue := by
  simp [start, h]

theorem handle_mechanism (a : Authentication) (reply : Reply) :
    (a.handle reply).2.mechanism = a.mechanism := by
  unfold handle
  dsimp only
  split
  · split
    · split <;> rfl
    · rfl
    · rfl
    · rfl
  · rfl

end Authentication

end DocWire
