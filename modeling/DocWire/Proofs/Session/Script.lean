import DocWire.Proofs.Session.Handshake

/-!
# A server that answers what it is asked

A server sends whole frames in pieces, its messages only as answers to requests, and ends the
stream at last.

* `Script`, `Script.Prompt`   what it sends;
* `Script.outcome_hears`      what comes of a handshake;
* `handshake_accepts`         the messages for which it succeeds.
-/

namespace DocWire

open ConnectionError (StreamFailure)

/-- What a server sends: whole frames that can be decoded, in pieces. -/
structure Script (limit : Nat) where
  frames : List Frame
  pieces : List (List UInt8)
  cut : pieces.flatten = frames.flatMap Frame.encode
  length : ∀ f ∈ frames, f.length < 2 ^ 32
  bounded : ∀ f ∈ frames, f.length ≤ limit
  decodes : ∀ f ∈ frames, ∃ reply, Reply.decode f = .ok reply

/-- the frames of which something is among the first bytes of their stream -/
def begun : Nat → List Frame → List Frame
  | _, [] => []
  | 0, _ => []
  | n + 1, frame :: rest => frame :: begun (n + 1 - frame.encode.length) rest

theorem begun_all (frames : List Frame) :
    begun (frames.flatMap Frame.encode).length frames = frames := by
  induction frames with
  | nil => rfl
  | cons frame rest ih =>
    have hlength := frame.length_encode
    rw [List.flatMap_cons, List.length_append]
    obtain ⟨n, hn⟩ : ∃ n, frame.encode.length + (rest.flatMap Frame.encode).length = n + 1 :=
      ⟨_, (Nat.succ_pred_eq_of_pos (by omega)).symm⟩
    have hrest : n + 1 - frame.encode.length = (rest.flatMap Frame.encode).length := by omega
    rw [hn, begun, hrest, ih]

namespace Script
variable {limit : Nat}

/-- Whether the messages of a server, notices apart, answer the requests of the client one by one:
no piece has anything of a message before the request that it answers is written. -/
def Prompt (script : Script limit) (params : ConnectionParams)
    (upgrade : Option (Except StreamFailure Unit)) : Prop :=
  ∀ n < script.pieces.length,
    (messages (begun (script.pieces.take (n + 1)).flatten.length script.frames)).length
      ≤ (written (Connection.after params upgrade ((script.pieces.take n).map .bytes)).2).length

instance (script : Script limit) (params : ConnectionParams)
    (upgrade : Option (Except StreamFailure Unit)) : Decidable (script.Prompt params upgrade) :=
  inferInstanceAs (Decidable (∀ n < script.pieces.length, _))

/-- What comes of a handshake with a server that sends a script and then ends the stream. -/
def outcome (script : Script limit) (params : ConnectionParams)
    (upgrade : Option (Except StreamFailure Unit)) (failure : StreamFailure) :
    Connection × List Effect :=
  Connection.after params upgrade (script.pieces.map .bytes ++ [.stopped failure])

section
variable {params : ConnectionParams} (upgrade : Option (Except StreamFailure Unit))
  (script : Script params.frameLimit)

theorem broken_of_greeting {frame : Frame} {rest : List Frame}
    (hframes : script.frames = frame :: rest) (htag : frame.tag = Frame.classicTag) :
    framesOf params.frameLimit script.pieces.flatten = [] ∧
      breakOf params.frameLimit script.pieces.flatten = some .notXProtocol := by
  have hbuffer : (fedWith params.frameLimit script.pieces.flatten).buffer
      = frame.encode ++ rest.flatMap Frame.encode := by
    show script.pieces.flatten = _
    rw [script.cut, hframes, List.flatMap_cons]
  have hlength : frame.length < 2 ^ 32 := script.length frame (by
    rw [hframes]
    exact List.mem_cons_self)
  have hnext : (fedWith params.frameLimit script.pieces.flatten).next = .error .notXProtocol := by
    rw [Assembler.next_encode hlength hbuffer, htag]
    rfl
  unfold framesOf breakOf
  rw [Assembler.frames_of_error hnext]
  exact ⟨rfl, rfl⟩

theorem framesOf_pieces (h : ∀ f, script.frames.head? = some f → f.tag ≠ Frame.classicTag) :
    framesOf params.frameLimit script.pieces.flatten = script.frames ∧
      breakOf params.frameLimit script.pieces.flatten = none :=
  Assembler.frames_of_stream script.cut script.length script.bounded (Or.inr h)

theorem refused_of_greeting {frame : Frame} {rest : List Frame}
    (hframes : script.frames = frame :: rest) (htag : frame.tag = Frame.classicTag) :
    (Phase.asking.hears params (messages script.frames)).1 = .refused := by
  have hdecode : Reply.decode frame = .ok (.unknown frame.tag) := by
    unfold Reply.decode
    rw [htag]
    rfl
  rw [hframes, messages_of_reply hdecode (fun _ h => by cases h), Phase.hears_cons,
    show Phase.asking.hear params (.unknown frame.tag) = (.refused, []) from rfl,
    Phase.hears_refused]

theorem outcome_of_greeting (htls : params.tls = false) (failure : StreamFailure) {frame : Frame}
    {rest : List Frame} (hframes : script.frames = frame :: rest)
    (htag : frame.tag = Frame.classicTag) :
    ∃ e, (script.outcome params upgrade failure).1.handshake = .ready (.error e) := by
  obtain ⟨hnil, hbreak⟩ := script.broken_of_greeting hframes htag
  obtain ⟨e, he⟩ := Connection.run_of_broken [] hnil hbreak rfl
  change (Connection.run ⟨params, .askingCapabilities (Stage.newAssembler params) false⟩ _).1 = _
    at he
  refine ⟨e, ?_⟩
  unfold outcome
  rw [Connection.after_append, Connection.after_eq, Connection.start_of_not_tls upgrade htls]
  dsimp only
  rw [he, Connection.run_of_failed]
  rfl

/-- **What comes of a handshake** is what the messages bring it to. -/
theorem outcome_hears (htls : params.tls = false) (failure : StreamFailure) :
    match (Phase.asking.hears params (messages script.frames)).1 with
    | .accepted m =>
      (∃ s, (script.outcome params upgrade failure).1.handshake = .ready (.ok s) ∧
        s.mechanism = m) ∧
      written (script.outcome params upgrade failure).2
        = written (Connection.after params upgrade (script.pieces.map .bytes)).2 ∧
      written (script.outcome params upgrade failure).2
        = .capabilitiesGet :: (Phase.asking.hears params (messages script.frames)).2
    | _ => ∃ e, (script.outcome params upgrade failure).1.handshake = .ready (.error e) := by
  by_cases hgreeting : ∃ frame rest, script.frames = frame :: rest ∧ frame.tag = Frame.classicTag
  · obtain ⟨frame, rest, hframes, htag⟩ := hgreeting
    rw [script.refused_of_greeting hframes htag]
    exact script.outcome_of_greeting upgrade htls failure hframes htag
  · have hfirst : ∀ f, script.frames.head? = some f → f.tag ≠ Frame.classicTag := by
      intro f hf htag
      obtain ⟨rest, hrest⟩ := List.head?_eq_some_iff.mp hf
      exact hgreeting ⟨f, rest, hrest, htag⟩
    obtain ⟨hframes, hbreak⟩ := script.framesOf_pieces hfirst
    obtain ⟨stage, hstage, hat, hwritten⟩ := Connection.after_hears upgrade htls hbreak (by
      rw [hframes]
      exact script.decodes)
    rw [hframes] at hat hwritten
    obtain ⟨hsilent, hend⟩ := Stage.receive_stopped params hat failure
    have houtcome : script.outcome params upgrade failure
        = (⟨params, (stage.receive params (.stopped failure)).1⟩,
          (Connection.after params upgrade (script.pieces.map .bytes)).2
            ++ (stage.receive params (.stopped failure)).2) := by
      unfold outcome
      rw [Connection.after_append, hstage]
      show (_, _ ++ (_ ++ [])) = _
      rw [List.append_nil]
      rfl
    have hsame : written (script.outcome params upgrade failure).2
        = written (Connection.after params upgrade (script.pieces.map .bytes)).2 := by
      rw [houtcome, written_append, hsilent, List.append_nil]
    generalize hheard : Phase.asking.hears params (messages script.frames) = heard at *
    obtain ⟨phase, requests⟩ := heard
    cases phase with
    | accepted m =>
      obtain ⟨s, hs, hm⟩ := hend
      refine ⟨⟨s, ?_, hm⟩, hsame, hsame.trans hwritten⟩
      rw [houtcome, hs]
      rfl
    | asking | authenticating _ | refused =>
      obtain ⟨e, he⟩ := hend
      refine ⟨e, ?_⟩
      rw [houtcome, he]
      rfl

theorem outcome_of_accepts (htls : params.tls = false) (failure : StreamFailure) {m : Mechanism}
    {challenges : List (List UInt8)} {said more : List Reply}
    (h : Accepts params m challenges said) (hmore : messages script.frames = said ++ more) :
    ∃ (s : Session) (answers : List (List UInt8)),
      (script.outcome params upgrade failure).1.handshake = .ready (.ok s) ∧ s.mechanism = m ∧
      answers.map .ok = challenges.map (m.answer params.credentials 0) ∧
      written (script.outcome params upgrade failure).2 = .capabilitiesGet
        :: .authenticateStart m.name (m.initialData params.credentials)
        :: answers.map .authenticateContinue := by
  obtain ⟨answers, hanswers, hhears⟩ := Phase.hears_of_accepts h more
  have houtcome := script.outcome_hears upgrade htls failure
  rw [hmore, hhears] at houtcome
  obtain ⟨⟨s, hs, hm⟩, -, hwritten⟩ := houtcome
  exact ⟨s, answers, hs, hm, hanswers, hwritten⟩

/-- A server that answers what it is asked says nothing behind what is accepted. -/
theorem Prompt.nothing_more {script : Script params.frameLimit} (htls : params.tls = false)
    (hprompt : script.Prompt params upgrade) {m : Mechanism} {challenges : List (List UInt8)}
    {said more : List Reply} (h : Accepts params m challenges said)
    (hmore : messages script.frames = said ++ more) : more = [] := by
  have hwritten : (written (Connection.after params upgrade (script.pieces.map .bytes)).2).length
      = said.length := by
    obtain ⟨answers, hanswers, hhears⟩ := Phase.hears_of_accepts h more
    have houtcome := script.outcome_hears upgrade htls .ended
    rw [hmore, hhears] at houtcome
    obtain ⟨-, hsame, hall⟩ := houtcome
    have hcount := congrArg List.length hanswers
    obtain ⟨-, capabilities, data, rfl, -⟩ := h
    simp only [List.length_map] at hcount
    rw [← hsame, hall]
    simp only [List.length_cons, List.length_append, List.length_map, List.length_nil]
    omega
  have hcount : (messages script.frames).length ≤ said.length := by
    -- with the last piece every message has begun, so the requests written before it are enough
    cases hlast : script.pieces.length with
    | zero =>
      have hnil : script.frames.flatMap Frame.encode = [] := by
        rw [← script.cut, List.eq_nil_of_length_eq_zero hlast]
        rfl
      have hframes := begun_all script.frames
      rw [hnil] at hframes
      cases hscript : script.frames with
      | nil => exact Nat.zero_le _
      | cons frame rest =>
        rw [hscript] at hframes
        cases hframes
    | succ n =>
      have hn := hprompt n (by omega)
      have htake : script.pieces.take (n + 1) = script.pieces :=
        List.take_of_length_le (Nat.le_of_eq hlast)
      rw [htake, script.cut, begun_all] at hn
      have hle : (written (Connection.after params upgrade
            ((script.pieces.take n).map .bytes)).2).length
          ≤ (written (Connection.after params upgrade (script.pieces.map .bytes)).2).length := by
        conv_rhs => rw [← List.take_append_drop n script.pieces, List.map_append]
        rw [Connection.after_append, written_append, List.length_append]
        exact Nat.le_add_right _ _
      omega
  rw [hmore, List.length_append] at hcount
  exact List.eq_nil_of_length_eq_zero (by omega)

end

end Script

/-- **A handshake accepts exactly its messages.**  With a server that answers what it is asked, in
whatever pieces and with whatever notices, a handshake on a stream that is not secured succeeds if
and only if the server tells what it can do, sends one challenge at most and then the assent, and
there is a mechanism for what it can do.  The client has then written the requests for these
messages and no others, and its session has the mechanism; otherwise it has an error. -/
theorem handshake_accepts (params : ConnectionParams)
    (upgrade : Option (Except StreamFailure Unit)) (failure : StreamFailure)
    (script : Script params.frameLimit) (htls : params.tls = false)
    (hprompt : script.Prompt params upgrade) :
    let outcome := script.outcome params upgrade failure
    ((∃ s, outcome.1.handshake = .ready (.ok s)) ↔
      ∃ m challenges, Accepts params m challenges (messages script.frames)) ∧
    (∀ m challenges, Accepts params m challenges (messages script.frames) →
      ∃ (s : Session) (answers : List (List UInt8)),
        outcome.1.handshake = .ready (.ok s) ∧ s.mechanism = m ∧
        answers.map .ok = challenges.map (m.answer params.credentials 0) ∧
        written outcome.2 = .capabilitiesGet
          :: .authenticateStart m.name (m.initialData params.credentials)
          :: answers.map .authenticateContinue) ∧
    ((¬ ∃ m challenges, Accepts params m challenges (messages script.frames)) →
      ∃ e, outcome.1.handshake = .ready (.error e)) := by
  intro outcome
  have haccepts {m : Mechanism} {challenges : List (List UInt8)}
      (h : Accepts params m challenges (messages script.frames)) :=
    script.outcome_of_accepts upgrade htls failure h (List.append_nil _).symm
  have hrefuses (h : ¬ ∃ m challenges, Accepts params m challenges (messages script.frames)) :
      ∃ e, outcome.1.handshake = .ready (.error e) := by
    have houtcome := script.outcome_hears upgrade htls failure
    cases hphase : (Phase.asking.hears params (messages script.frames)).1 with
    | accepted m =>
      exfalso
      obtain ⟨challenges, said, more, hsaid, hmore⟩ := Phase.accepts_of_hears hphase
      obtain rfl := hprompt.nothing_more upgrade htls hsaid hmore
      rw [List.append_nil] at hmore
      rw [← hmore] at hsaid
      exact h ⟨m, challenges, hsaid⟩
    | asking | authenticating _ | refused =>
      rw [hphase] at houtcome
      exact houtcome
  refine ⟨⟨?_, ?_⟩, fun m challenges h => haccepts h, hrefuses⟩
  · rintro ⟨s, hs⟩
    by_contra hnot
    obtain ⟨e, he⟩ := hrefuses hnot
    rw [hs] at he
    cases he
  · rintro ⟨m, challenges, h⟩
    obtain ⟨s, answers, hs, -⟩ := haccepts h
    exact ⟨s, hs⟩

/-- a server that knows no mechanism by name and sends a notice and a challenge, in three pieces -/
def sampleScript : Script 16 where
  frames := [⟨2, []⟩, ⟨11, [8, 9]⟩, ⟨3, []⟩, ⟨4, []⟩]
  pieces := [[1, 0, 0, 0, 2, 3, 0], [0, 0, 11, 8, 9, 1, 0, 0, 0, 3], [1, 0, 0, 0, 4]]
  cut := by decide
  length := by decide
  bounded := by decide
  decodes := by
    simp only [List.forall_mem_cons]
    exact ⟨⟨_, rfl⟩, ⟨_, rfl⟩, ⟨_, rfl⟩, ⟨_, rfl⟩, fun _ h => absurd h List.not_mem_nil⟩

theorem handshake_accepts_sample :
    ∃ s, (sampleScript.outcome { frameLimit := 16 } none .ended).1.handshake = .ready (.ok s) ∧
      s.mechanism = .mysql41 := by
  have hsaid : Accepts { frameLimit := 16 } .mysql41 [[]] (messages sampleScript.frames) :=
    ⟨Nat.le_refl 1, [], [], rfl, rfl⟩
  obtain ⟨s, answers, hs, hm, -⟩ :=
    (handshake_accepts { frameLimit := 16 } none .ended sampleScript rfl (by decide)).2.1 _ _ hsaid
  exact ⟨s, hs, hm⟩

end DocWire
