import DocWire.Proofs.Auth.Turns
import DocWire.Proofs.Session.Run

/-!
# The messages of a handshake

On a stream that is not secured, the messages of the server bring a handshake on one after the
other, and notices do nothing to it.

* `messages`              what the server says with frames, notices apart;
* `Phase`, `Phase.hear`   how far a handshake is, and what one message does;
* `Accepts`               the messages that a handshake accepts;
* `hears_of_accepts`, `accepts_of_hears`   it accepts those and no others.
-/

namespace DocWire

/-- the message of a frame, unless it is a notice -/
def Frame.message? (frame : Frame) : Option Reply :=
  match Reply.decode frame with
  | .ok (.notice _) | .error _ => none
  | .ok reply => some reply

/-- what the server says with frames, notices apart -/
def messages (frames : List Frame) : List Reply := frames.filterMap Frame.message?

theorem messages_append (a b : List Frame) : messages (a ++ b) = messages a ++ messages b :=
  List.filterMap_append

section
variable {frame : Frame}

theorem messages_of_notice {n : ServerNotice} (h : Reply.decode frame = .ok (.notice n))
    (rest : List Frame) : messages (frame :: rest) = messages rest := by
  have hnone : frame.message? = none := by
    unfold Frame.message?
    rw [h]
  unfold messages
  rw [List.filterMap_cons, hnone]

theorem messages_of_reply {reply : Reply} (h : Reply.decode frame = .ok reply)
    (hr : ∀ n, reply ≠ .notice n) (rest : List Frame) :
    messages (frame :: rest) = reply :: messages rest := by
  have hsome : frame.message? = some reply := by
    unfold Frame.message?
    rw [h]
    cases reply with
    | notice n => exact absurd rfl (hr n)
    | _ => rfl
  unfold messages
  rw [List.filterMap_cons, hsome]

end

/-- How far a handshake is. -/
inductive Phase
  | asking
  | authenticating (exchange : Authentication)
  | accepted (mechanism : Mechanism)
  | refused

namespace Phase

/-- What a message does, and what is written then. -/
def hear (params : ConnectionParams) (phase : Phase) (reply : Reply) : Phase × List Request :=
  match phase with
  | asking =>
    match reply.expectCapabilities with
    | .error _ => (refused, [])
    | .ok capabilities =>
      match Mechanism.choose params.mechanism (Stage.offered capabilities) false with
      | .error _ => (refused, [])
      | .ok m =>
        (authenticating (.begun m params.credentials),
          [.authenticateStart m.name (m.initialData params.credentials)])
  | authenticating a =>
    match a.handle reply with
    | (.ok (.send request), a) => (authenticating a, [request])
    | (.ok .done, a) => (accepted a.mechanism, [])
    | (.error _, _) => (refused, [])
  | accepted m => (accepted m, [])
  | refused => (refused, [])

/-- What messages do, one after the other, and what is written. -/
def hears (params : ConnectionParams) (phase : Phase) : List Reply → Phase × List Request
  | [] => (phase, [])
  | reply :: rest =>
    let (phase, requests) := phase.hear params reply
    let (phase, more) := phase.hears params rest
    (phase, requests ++ more)

section
variable (params : ConnectionParams)

theorem hears_cons (phase : Phase) (reply : Reply) (rest : List Reply) :
    phase.hears params (reply :: rest) = (((phase.hear params reply).1.hears params rest).1,
      (phase.hear params reply).2 ++ ((phase.hear params reply).1.hears params rest).2) := rfl

theorem hears_append (phase : Phase) (replies more : List Reply) :
    phase.hears params (replies ++ more) = (((phase.hears params replies).1.hears params more).1,
      (phase.hears params replies).2 ++ ((phase.hears params replies).1.hears params more).2) := by
  induction replies generalizing phase with
  | nil => rfl
  | cons reply rest ih =>
    rw [List.cons_append, hears_cons, ih, hears_cons]
    simp only [List.append_assoc]

theorem hears_accepted (m : Mechanism) (replies : List Reply) :
    (accepted m).hears params replies = (accepted m, []) := by
  induction replies with
  | nil => rfl
  | cons reply rest ih =>
    rw [hears_cons, show (accepted m).hear params reply = (accepted m, []) from rfl, ih]
    rfl

theorem hears_refused (replies : List Reply) : refused.hears params replies = (refused, []) := by
  induction replies with
  | nil => rfl
  | cons reply rest ih =>
    rw [hears_cons, show refused.hear params reply = (refused, []) from rfl, ih]
    rfl

end

end Phase

/-! ## What is accepted -/

/-- The answers to challenges, from a round on. -/
inductive Answered (m : Mechanism) (c : Credentials) :
    Nat → List (List UInt8) → List (List UInt8) → Prop
  | nil {round} : Answered m c round [] []
  | cons {round challenge data challenges answers} (h : m.answer c round challenge = .ok data)
      (hrest : Answered m c (round + 1) challenges answers) :
      Answered m c round (challenge :: challenges) (data :: answers)

/-- The messages that a handshake accepts: what the server can do, challenges, at most one of
them, and the assent. -/
structure Accepts (params : ConnectionParams) (m : Mechanism) (challenges : List (List UInt8))
    (said : List Reply) : Prop where
  one : challenges.length ≤ 1
  messages : ∃ capabilities data,
    said = .capabilities capabilities :: challenges.map .authenticateContinue
      ++ [.authenticateOk data] ∧
    Mechanism.choose params.mechanism (Stage.offered capabilities) false = .ok m

namespace Mechanism

theorem challenges_le (m : Mechanism) : m.challenges ≤ 1 := by
  cases m with
  | plain => exact Nat.zero_le 1
  | mysql41 | sha256Memory => exact Nat.le_refl 1

theorem answer_first {m : Mechanism} (h : m.needsSecureTransport = false) (c : Credentials)
    (challenge : List UInt8) : ∃ data, m.answer c 0 challenge = .ok data := by
  unfold answer
  cases m with
  | plain => cases h
  | mysql41 =>
    dsimp only
    rw [if_neg (Nat.lt_irrefl 0)]
    by_cases hpassword : (Text.Utf8.encode c.password).isEmpty = true
    · rw [if_pos hpassword]
      exact ⟨_, rfl⟩
    · rw [if_neg hpassword]
      exact ⟨_, rfl⟩
  | sha256Memory =>
    dsimp only
    rw [if_neg (Nat.lt_irrefl 0)]
    exact ⟨_, rfl⟩

end Mechanism

namespace Answered
variable {m : Mechanism} {c : Credentials} {challenges answers : List (List UInt8)} {round : Nat}

theorem length_le (h : Answered m c round challenges answers) :
    challenges.length ≤ m.challenges - round := by
  induction h with
  | nil => exact Nat.zero_le _
  | cons h hrest ih =>
    have hround := Mechanism.round_lt_of_answer h
    rw [List.length_cons]
    omega

/-- One challenge at most is answered, in the first round. -/
theorem of_length_le (hsecure : m.needsSecureTransport = false) (h : challenges.length ≤ 1) :
    ∃ answers, Answered m c 0 challenges answers ∧
      answers.map .ok = challenges.map (m.answer c 0) := by
  match challenges, h with
  | [], _ => exact ⟨[], .nil, rfl⟩
  | [challenge], _ =>
    obtain ⟨data, hdata⟩ := Mechanism.answer_first hsecure c challenge
    refine ⟨[data], .cons hdata .nil, ?_⟩
    rw [List.map_singleton, List.map_singleton, hdata]

end Answered

namespace Phase

section
variable (params : ConnectionParams) {a : Authentication}

theorem hear_authenticating (a : Authentication) (reply : Reply) :
    (authenticating a).hear params reply = match a.handle reply with
      | (.ok (.send request), a) => (authenticating a, [request])
      | (.ok .done, a) => (accepted a.mechanism, [])
      | (.error _, _) => (refused, []) := rfl

theorem hear_of_answer (h : a.state = .awaitingContinue) {challenge data : List UInt8}
    (hanswer : a.mechanism.answer a.credentials a.round challenge = .ok data) :
    (authenticating a).hear params (.authenticateContinue challenge)
      = (authenticating { a with round := a.round + 1 }, [.authenticateContinue data]) := by
  unfold hear Authentication.handle
  simp only [if_pos h, hanswer]

theorem hear_of_ok (h : a.state = .awaitingContinue) (data : List UInt8) :
    (authenticating a).hear params (.authenticateOk data) = (accepted a.mechanism, []) := by
  unfold hear Authentication.handle
  simp only [if_pos h]

theorem hear_cases (reply : Reply) :
    (∃ challenge data, reply = .authenticateContinue challenge ∧
      a.mechanism.answer a.credentials a.round challenge = .ok data) ∨
    (∃ data, reply = .authenticateOk data) ∨
      (authenticating a).hear params reply = (refused, []) := by
  rcases a.handle_cases reply with ⟨challenge, data, hreply, hanswer, -⟩ | ⟨data, hreply, -⟩ |
    ⟨e, b, herror⟩
  · exact Or.inl ⟨challenge, data, hreply, hanswer⟩
  · exact Or.inr (Or.inl ⟨data, hreply⟩)
  · refine Or.inr (Or.inr ?_)
    rw [hear_authenticating, herror]

/-- Challenges that can be answered and the assent are accepted. -/
theorem hears_of_answered (h : a.state = .awaitingContinue)
    {challenges answers : List (List UInt8)}
    (hanswered : Answered a.mechanism a.credentials a.round challenges answers)
    (data : List UInt8) (more : List Reply) :
    (authenticating a).hears params
        (challenges.map .authenticateContinue ++ .authenticateOk data :: more)
      = (accepted a.mechanism, answers.map .authenticateContinue) := by
  induction challenges generalizing a answers with
  | nil =>
    cases hanswered
    rw [List.map_nil, List.nil_append, hears_cons, hear_of_ok params h, hears_accepted]
    rfl
  | cons challenge rest ih =>
    cases hanswered with
    | @cons _ _ data _ answers hanswer hrest =>
      have hnext := ih (a := { a with round := a.round + 1 }) h hrest
      rw [List.map_cons, List.cons_append, hears_cons, hear_of_answer params h hanswer, hnext]
      rfl

/-- Nothing else is. -/
theorem answered_of_hears (h : a.state = .awaitingContinue) {replies : List Reply}
    {m : Mechanism} (hears : ((authenticating a).hears params replies).1 = accepted m) :
    a.mechanism = m ∧ ∃ challenges answers data more,
      Answered a.mechanism a.credentials a.round challenges answers ∧
      replies = challenges.map .authenticateContinue ++ .authenticateOk data :: more := by
  induction replies generalizing a with
  | nil => cases hears
  | cons reply rest ih =>
    rw [hears_cons] at hears
    rcases hear_cases params (a := a) reply with
      ⟨challenge, data, rfl, hanswer⟩ | ⟨data, rfl⟩ | hrefused
    · rw [hear_of_answer params h hanswer] at hears
      obtain ⟨hm, challenges, answers, assent, more, hanswered, hrest⟩ :=
        ih (a := { a with round := a.round + 1 }) h hears
      refine ⟨hm, challenge :: challenges, data :: answers, assent, more,
        .cons hanswer hanswered, ?_⟩
      rw [hrest]
      rfl
    · rw [hear_of_ok params h, hears_accepted] at hears
      exact ⟨Phase.accepted.inj hears, [], [], data, rest, .nil, rfl⟩
    · rw [hrefused, hears_refused] at hears
      cases hears

end

section
variable {params : ConnectionParams} {m : Mechanism} {said : List Reply}

theorem hear_of_choose {capabilities : List (String × AnyValue)}
    (h : Mechanism.choose params.mechanism (Stage.offered capabilities) false = .ok m) :
    asking.hear params (.capabilities capabilities)
      = (authenticating (.begun m params.credentials),
        [.authenticateStart m.name (m.initialData params.credentials)]) := by
  unfold hear Reply.expectCapabilities
  simp only [h]

/-- **What is accepted**, with what is written then.  What comes behind the assent does nothing. -/
theorem hears_of_accepts {challenges : List (List UInt8)}
    (h : Accepts params m challenges said) (more : List Reply) :
    ∃ answers : List (List UInt8),
      answers.map .ok = challenges.map (m.answer params.credentials 0) ∧
      asking.hears params (said ++ more)
        = (accepted m, .authenticateStart m.name (m.initialData params.credentials)
            :: answers.map .authenticateContinue) := by
  obtain ⟨hone, capabilities, data, rfl, hchoose⟩ := h
  obtain ⟨answers, hanswered, hanswers⟩ :=
    Answered.of_length_le (Mechanism.needsSecureTransport_of_choose hchoose) hone
  refine ⟨answers, hanswers, ?_⟩
  have hrest := hears_of_answered params (a := .begun m params.credentials) rfl hanswered data more
  rw [List.cons_append, List.cons_append, List.append_assoc, List.singleton_append, hears_cons,
    hear_of_choose hchoose]
  dsimp only
  rw [hrest]
  rfl

/-- **Nothing else is accepted.** -/
theorem accepts_of_hears {replies : List Reply} (h : (asking.hears params replies).1 = accepted m) :
    ∃ challenges said more, Accepts params m challenges said ∧ replies = said ++ more := by
  cases replies with
  | nil => cases h
  | cons reply rest =>
    rw [hears_cons] at h
    cases hexpect : reply.expectCapabilities with
    | error e =>
      have hrefused : asking.hear params reply = (refused, []) := by
        unfold hear
        simp only [hexpect]
      rw [hrefused, hears_refused] at h
      cases h
    | ok capabilities =>
      obtain rfl : reply = .capabilities capabilities := by
        cases reply with
        | capabilities values => exact congrArg Reply.capabilities (Except.ok.inj hexpect)
        | _ => cases hexpect
      cases hchoose : Mechanism.choose params.mechanism (Stage.offered capabilities) false with
      | error e =>
        have hrefused : asking.hear params (.capabilities capabilities) = (refused, []) := by
          unfold hear
          simp only [hexpect, hchoose]
        rw [hrefused, hears_refused] at h
        cases h
      | ok chosen =>
        rw [hear_of_choose hchoose] at h
        obtain ⟨rfl, challenges, answers, data, more, hanswered, rfl⟩ :=
          answered_of_hears params (a := .begun chosen params.credentials) rfl h
        have hlength := hanswered.length_le
        have hone := chosen.challenges_le
        change challenges.length ≤ chosen.challenges - 0 at hlength
        refine ⟨challenges, .capabilities capabilities :: challenges.map .authenticateContinue
          ++ [.authenticateOk data], more, ⟨by omega, capabilities, data, rfl, hchoose⟩, ?_⟩
        rw [List.cons_append, List.cons_append, List.append_assoc]
        rfl

end

end Phase

end DocWire
