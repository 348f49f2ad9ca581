import DocWire.Auth.Exchange

/-!
# Authentications over whole runs

An authentication is started and handed messages in any order.  What one call can do is said once,
in `Authentication.Moves`; what a run can do follows by induction on its calls.

* `Authentication.call_moves`       one call;
* `Authentication.turns`            a run;
* `Authentication.sent_turns`       what is sent in a run;
* `Authentication.turns_of_ended`   nothing moves an authentication that has ended;
* `Authentication.turns_lawful`     the whole of it.
-/

namespace DocWire

/-- What is done with an authentication. -/
inductive AuthCall
  | start
  | handle (reply : Reply)

/-- A call, the authentication before and after it, and the answer. -/
structure AuthTurn where
  before : Authentication
  call : AuthCall
  answer : Except ConnectionError AuthStep
  after : Authentication

def AuthTurn.sent? (t : AuthTurn) : Option Request :=
  match t.answer with
  | .ok (.send request) => some request
  | _ => none

/-- everything that is sent to the server, in order -/
def AuthTurn.sent (turns : List AuthTurn) : List Request := turns.filterMap AuthTurn.sent?

/-- An authentication that nothing moves. -/
def AuthState.isFinal : AuthState → Bool
  | done | failed => true
  | start | awaitingContinue => false

namespace Mechanism

/-- how many challenges a mechanism answers -/
def challenges : Mechanism → Nat
  | plain => 0
  | mysql41 | sha256Memory => 1

theorem round_lt_of_answer {m : Mechanism} {c : Credentials} {round : Nat}
    {challenge data : List UInt8} (h : m.answer c round challenge = .ok data) :
    round < m.challenges := by
  unfold answer at h
  cases m with
  | plain => cases h
  | mysql41 =>
    by_cases hround : 0 < round
    · simp only [if_pos hround] at h
      cases h
    · show round < 1
      omega
  | sha256Memory =>
    by_cases hround : 0 < round
    · simp only [if_pos hround] at h
      cases h
    · show round < 1
      omega

theorem needsSecureTransport_of_choose {requested : Option Mechanism} {offered : List String}
    {m : Mechanism} (h : choose requested offered false = .ok m) :
    m.needsSecureTransport = false := by
  unfold choose at h
  dsimp only at h
  split at h
  · cases h
  · rename_i hsecure
    split at h
    · obtain rfl := Except.ok.inj h
      rw [Bool.not_false, Bool.and_true] at hsecure
      exact Bool.eq_false_iff.mpr hsecure
    · cases h

end Mechanism

namespace Authentication

def call (a : Authentication) : AuthCall → Except ConnectionError AuthStep × Authentication
  | .start => (a.start.1.map .send, a.start.2)
  | .handle reply => a.handle reply

def turns (a : Authentication) : List AuthCall → List AuthTurn
  | [] => []
  | c :: rest => ⟨a, c, (a.call c).1, (a.call c).2⟩ :: (a.call c).2.turns rest

/-! ## One call -/

/-- What a call can do. -/
inductive Moves (a : Authentication) :
    AuthCall → Except ConnectionError AuthStep → Authentication → Prop
  | starts (h : a.state = .start) :
      Moves a .start
        (.ok (.send (.authenticateStart a.mechanism.name (a.mechanism.initialData a.credentials))))
        { a with state := .awaitingContinue }
  | answers {challenge data} (h : a.state = .awaitingContinue)
      (hanswer : a.mechanism.answer a.credentials a.round challenge = .ok data) :
      Moves a (.handle (.authenticateContinue challenge)) (.ok (.send (.authenticateContinue data)))
        { a with round := a.round + 1 }
  | accepted {data} (h : a.state = .awaitingContinue) :
      Moves a (.handle (.authenticateOk data)) (.ok .done) { a with state := .done }
  | fails {reply e} (h : a.state = .awaitingContinue)
      (hreply : ∀ data, reply ≠ .authenticateOk data) :
      Moves a (.handle reply) (.error e) { a with state := .failed }
  | late {e} (h : a.state ≠ .start) : Moves a .start (.error e) a
  | unasked {reply e} (h : a.state ≠ .awaitingContinue) : Moves a (.handle reply) (.error e) a

theorem call_moves (a : Authentication) (c : AuthCall) :
    a.Moves c (a.call c).1 (a.call c).2 := by
  cases c with
  | start =>
    show a.Moves .start (a.start.1.map .send) a.start.2
    unfold start
    by_cases h : a.state = .start
    · rw [if_pos h]
      exact .starts h
    · rw [if_neg h]
      exact .late h
  | handle reply =>
    show a.Moves (.handle reply) (a.handle reply).1 (a.handle reply).2
    unfold handle
    by_cases h : a.state = .awaitingContinue
    · simp only [if_pos h]
      cases reply with
      | authenticateContinue challenge =>
        dsimp only
        cases hanswer : a.mechanism.answer a.credentials a.round challenge with
        | error e => exact .fails h (fun _ hdata => by cases hdata)
        | ok data => exact .answers h hanswer
      | authenticateOk data => exact .accepted h
      | _ => exact .fails h (fun _ hdata => by cases hdata)
    · simp only [if_neg h]
      exact .unasked h

/-- What can come of a message: an answer to a challenge, the end by the assent, or an error. -/
theorem handle_cases (a : Authentication) (reply : Reply) :
    (∃ challenge data, reply = .authenticateContinue challenge ∧
      a.mechanism.answer a.credentials a.round challenge = .ok data ∧
      a.handle reply
        = (.ok (.send (.authenticateContinue data)), { a with round := a.round + 1 })) ∨
    (∃ data, reply = .authenticateOk data ∧
      a.handle reply = (.ok .done, { a with state := .done })) ∨
    ∃ e b, a.handle reply = (.error e, b) := by
  have hmoves : a.Moves (.handle reply) (a.handle reply).1 (a.handle reply).2 :=
    call_moves a (.handle reply)
  generalize a.handle reply = handled at hmoves ⊢
  obtain ⟨answer, b⟩ := handled
  -- the call is an index of the relation, and has to be a variable for the case split
  generalize hcall : AuthCall.handle reply = call at hmoves
  dsimp only at hmoves
  cases hmoves with
  | starts _ | late _ => cases hcall
  | @answers challenge data _ hanswer =>
    cases hcall
    exact Or.inl ⟨challenge, data, rfl, hanswer, rfl⟩
  | @accepted data _ =>
    cases hcall
    exact Or.inr (Or.inl ⟨data, rfl, rfl⟩)
  | fails _ _ | unasked _ => exact Or.inr (Or.inr ⟨_, _, rfl⟩)

section
variable {a b : Authentication} {c : AuthCall} {answer : Except ConnectionError AuthStep}

theorem Moves.mechanism (h : a.Moves c answer b) : b.mechanism = a.mechanism := by
  cases h <;> rfl

theorem Moves.done_iff (h : a.Moves c answer b) :
    (a.state ≠ .done ∧ b.state = .done) ↔
      a.state = .awaitingContinue ∧ ∃ data, c = .handle (.authenticateOk data) := by
  cases h with
  | starts h => simp [h]
  | answers h _ => simp [h]
  | accepted h => simp [h]
  | @fails reply e h hreply => simp [h, hreply]
  | late h => simp
  | unasked h => simp [h]

theorem Moves.failed_iff (h : a.Moves c answer b) :
    (a.state ≠ .failed ∧ b.state = .failed) ↔
      a.state = .awaitingContinue ∧ (∃ reply, c = .handle reply) ∧ ∃ e, answer = .error e := by
  cases h with
  | starts h => simp [h]
  | answers h _ => simp [h]
  | accepted h => simp
  | fails h _ => simp [h]
  | late h => simp
  | unasked h => simp [h]

theorem Moves.of_answered (h : a.Moves c answer b) {data : List UInt8}
    (hdata : AuthTurn.sent? ⟨a, c, answer, b⟩ = some (.authenticateContinue data)) :
    a.state = .awaitingContinue ∧ ∃ challenge, c = .handle (.authenticateContinue challenge) := by
  unfold AuthTurn.sent? at hdata
  cases h with
  | starts _ => cases hdata
  | answers hwait _ => exact ⟨hwait, _, rfl⟩
  | accepted _ | fails _ _ | late _ | unasked _ => cases hdata

theorem Moves.of_isFinal (h : a.Moves c answer b) (hfinal : a.state.isFinal = true) :
    (∃ e, answer = .error e) ∧ b = a := by
  cases h with
  | late _ => exact ⟨⟨_, rfl⟩, rfl⟩
  | unasked _ => exact ⟨⟨_, rfl⟩, rfl⟩
  | starts h | answers h _ | accepted h | fails h _ =>
    rw [h] at hfinal
    cases hfinal

end

/-! ## Runs -/

theorem turns_cons (a : Authentication) (c : AuthCall) (rest : List AuthCall) :
    a.turns (c :: rest) = ⟨a, c, (a.call c).1, (a.call c).2⟩ :: (a.call c).2.turns rest := rfl

/-- Every turn of a run is a move, and no call changes the mechanism. -/
theorem moves_of_mem_turns {a : Authentication} {calls : List AuthCall} {t : AuthTurn}
    (h : t ∈ a.turns calls) :
    t.before.Moves t.call t.answer t.after ∧ t.before.mechanism = a.mechanism := by
  induction calls generalizing a with
  | nil => cases h
  | cons c rest ih =>
    rw [turns_cons] at h
    rcases List.mem_cons.mp h with rfl | hrest
    · exact ⟨call_moves a c, rfl⟩
    · obtain ⟨hmoves, hmechanism⟩ := ih hrest
      exact ⟨hmoves, hmechanism.trans (call_moves a c).mechanism⟩

/-- **Nothing moves an authentication that has ended.** -/
theorem turns_of_ended {a : Authentication} (h : a.state.isFinal = true) (calls : List AuthCall) :
    ∀ t ∈ a.turns calls, (∃ e, t.answer = .error e) ∧ t.after = a := by
  induction calls with
  | nil => exact fun _ ht => absurd ht List.not_mem_nil
  | cons c rest ih =>
    obtain ⟨herror, hafter⟩ := (call_moves a c).of_isFinal h
    intro t ht
    rw [turns_cons, hafter] at ht
    rcases List.mem_cons.mp ht with rfl | hrest
    · exact ⟨herror, rfl⟩
    · exact ih t hrest

/-- What follows a turn is the run of the authentication after it. -/
theorem turns_split {a : Authentication} {calls : List AuthCall} {earlier later : List AuthTurn}
    {t : AuthTurn} (h : a.turns calls = earlier ++ t :: later) :
    ∃ rest, later = t.after.turns rest := by
  induction earlier generalizing a calls with
  | nil =>
    cases calls with
    | nil => cases h
    | cons c rest =>
      rw [turns_cons, List.nil_append] at h
      obtain ⟨rfl, rfl⟩ := List.cons.inj h
      exact ⟨rest, rfl⟩
  | cons first earlier ih =>
    cases calls with
    | nil => cases h
    | cons c rest =>
      rw [turns_cons, List.cons_append] at h
      exact ih (List.cons.inj h).2

theorem sent_of_ended {a : Authentication} (h : a.state.isFinal = true) (calls : List AuthCall) :
    AuthTurn.sent (a.turns calls) = [] := by
  apply List.filterMap_eq_nil_iff.mpr
  intro t ht
  obtain ⟨⟨e, he⟩, -⟩ := turns_of_ended h calls t ht
  unfold AuthTurn.sent?
  rw [he]

theorem sent_cons (a : Authentication) (c : AuthCall) (rest : List AuthCall) :
    AuthTurn.sent (a.turns (c :: rest))
      = (AuthTurn.sent? ⟨a, c, (a.call c).1, (a.call c).2⟩).toList
        ++ AuthTurn.sent ((a.call c).2.turns rest) := by
  unfold AuthTurn.sent
  rw [turns_cons, List.filterMap_cons]
  cases AuthTurn.sent? ⟨a, c, (a.call c).1, (a.call c).2⟩ <;> rfl

/-- While it waits, an authentication sends answers to the challenges that are left. -/
theorem sent_of_awaiting {a : Authentication} (h : a.state = .awaitingContinue)
    (calls : List AuthCall) :
    ∃ answers : List (List UInt8),
      AuthTurn.sent (a.turns calls) = answers.map .authenticateContinue ∧
      answers.length ≤ a.mechanism.challenges - a.round := by
  induction calls generalizing a with
  | nil => exact ⟨[], rfl, Nat.zero_le _⟩
  | cons c rest ih =>
    have hmoves := call_moves a c
    rw [sent_cons]
    generalize hanswer : (a.call c).1 = answer at hmoves ⊢
    generalize (a.call c).2 = b at hmoves ⊢
    cases hmoves with
    | starts hstart =>
      rw [h] at hstart
      cases hstart
    | @answers challenge data _ hdata =>
      have hround := Mechanism.round_lt_of_answer hdata
      obtain ⟨answers, hsent, hlength⟩ := ih (a := { a with round := a.round + 1 }) h
      refine ⟨data :: answers, congrArg (_ :: ·) hsent, ?_⟩
      change answers.length ≤ a.mechanism.challenges - (a.round + 1) at hlength
      rw [List.length_cons]
      omega
    | accepted _ =>
      rw [sent_of_ended rfl]
      exact ⟨[], rfl, Nat.zero_le _⟩
    | fails _ _ =>
      rw [sent_of_ended rfl]
      exact ⟨[], rfl, Nat.zero_le _⟩
    | late _ => exact ih h
    | unasked _ => exact ih h

/-- **What is sent in a run**: the start once, before all else, and then answers to as many
challenges as the mechanism has. -/
theorem sent_turns {a : Authentication} (h : a.state = .start) (calls : List AuthCall) :
    AuthTurn.sent (a.turns calls) = [] ∨
      ∃ answers : List (List UInt8), AuthTurn.sent (a.turns calls)
          = .authenticateStart a.mechanism.name (a.mechanism.initialData a.credentials)
            :: answers.map .authenticateContinue ∧
        answers.length ≤ a.mechanism.challenges - a.round := by
  induction calls with
  | nil => exact Or.inl rfl
  | cons c rest ih =>
    have hmoves := call_moves a c
    rw [sent_cons]
    generalize hanswer : (a.call c).1 = answer at hmoves ⊢
    generalize (a.call c).2 = b at hmoves ⊢
    cases hmoves with
    | starts _ =>
      obtain ⟨answers, hsent, hlength⟩ :=
        sent_of_awaiting (a := { a with state := .awaitingContinue }) rfl rest
      exact Or.inr ⟨answers, congrArg (_ :: ·) hsent, hlength⟩
    | answers hwait _ | accepted hwait | fails hwait _ =>
      rw [h] at hwait
      cases hwait
    | late hlate => exact absurd h hlate
    | unasked _ => exact ih

/-- **The laws of an authentication, over every run.**  The start is sent at most once and before
anything else, and answers to no more challenges than the mechanism has, each to a challenge that
came while one was awaited.  It is done exactly with the assent that comes then, it fails exactly
with an error then; after that every call is refused and changes nothing.  The mechanism stays. -/
theorem turns_lawful (m : Mechanism) (c : Credentials) (calls : List AuthCall) :
    let run := turns { mechanism := m, credentials := c } calls
    (AuthTurn.sent run = [] ∨
      ∃ answers : List (List UInt8), AuthTurn.sent run
          = .authenticateStart m.name (m.initialData c) :: answers.map .authenticateContinue ∧
        answers.length ≤ m.challenges) ∧
    (∀ t ∈ run, ∀ data, t.sent? = some (.authenticateContinue data) →
      t.before.state = .awaitingContinue ∧
        ∃ challenge, t.call = .handle (.authenticateContinue challenge)) ∧
    (∀ t ∈ run, (t.before.state ≠ .done ∧ t.after.state = .done) ↔
      t.before.state = .awaitingContinue ∧ ∃ data, t.call = .handle (.authenticateOk data)) ∧
    (∀ t ∈ run, (t.before.state ≠ .failed ∧ t.after.state = .failed) ↔
      t.before.state = .awaitingContinue ∧ (∃ reply, t.call = .handle reply) ∧
        ∃ e, t.answer = .error e) ∧
    (∀ earlier t later, run = earlier ++ t :: later → t.after.state.isFinal = true →
      ∀ u ∈ later, (∃ e, u.answer = .error e) ∧ u.sent? = none ∧ u.after = t.after) ∧
    ∀ t ∈ run, t.before.mechanism = m ∧ t.after.mechanism = m := by
  intro run
  refine ⟨?_, ?_, ?_, ?_, ?_, ?_⟩
  · exact sent_turns (a := { mechanism := m, credentials := c }) rfl calls
  · intro t ht data hdata
    exact (moves_of_mem_turns ht).1.of_answered hdata
  · intro t ht
    exact (moves_of_mem_turns ht).1.done_iff
  · intro t ht
    exact (moves_of_mem_turns ht).1.failed_iff
  · intro earlier t later hrun hfinal u hu
    obtain ⟨rest, rfl⟩ := turns_split hrun
    obtain ⟨⟨e, he⟩, hafter⟩ := turns_of_ended hfinal rest u hu
    refine ⟨⟨e, he⟩, ?_, hafter⟩
    unfold AuthTurn.sent?
    rw [he]
  · intro t ht
    obtain ⟨hmoves, hmechanism⟩ := moves_of_mem_turns ht
    exact ⟨hmechanism, hmoves.mechanism.trans hmechanism⟩

end Authentication

end DocWire
