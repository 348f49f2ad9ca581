import DocWire.Proofs.Frame.Pieces
import DocWire.Proofs.Session.Readers

/-!
# Securing a stream

A client that has asked to secure its stream goes by the first message of the server that is no
notice.  It takes an error for a refusal, and everything else for consent.  Whatever stands behind
that message in the same piece is forgotten together with the assembler.

* `firstSaid`, `verdict`         the first message of frames, and of a stream;
* `Stage.judge`                  what comes of it;
* `Connection.run_answered`      a run up to the piece with which the first message is whole;
* `consentOnly_iff`              when the stream is secured on consent only;
* `injected_bytes_forgotten`     what stands behind the first message does nothing.
-/

namespace DocWire

open ConnectionError (StreamFailure)

/-! ## The first message -/

/-- The first message with frames that is no notice, or why a frame before it is not decoded. -/
def firstSaid : List Frame → Option (Except ConnectionError Reply)
  | [] => none
  | frame :: rest =>
    match Reply.decode frame with
    | .ok (.notice _) => firstSaid rest
    | said => some said

section
variable {frame : Frame}

theorem firstSaid_of_error {e : ConnectionError} (h : Reply.decode frame = .error e)
    (rest : List Frame) : firstSaid (frame :: rest) = some (.error e) := by
  simp only [firstSaid, h]

theorem firstSaid_of_notice {n : ServerNotice} (h : Reply.decode frame = .ok (.notice n))
    (rest : List Frame) : firstSaid (frame :: rest) = firstSaid rest := by
  simp only [firstSaid, h]

theorem firstSaid_of_reply {reply : Reply} (h : Reply.decode frame = .ok reply)
    (hr : ∀ n, reply ≠ .notice n) (rest : List Frame) :
    firstSaid (frame :: rest) = some (.ok reply) := by
  simp only [firstSaid, h]
  cases reply with
  | notice n => exact absurd rfl (hr n)
  | _ => rfl

theorem firstSaid_append (a b : List Frame) :
    firstSaid (a ++ b) = (firstSaid a).or (firstSaid b) := by
  induction a with
  | nil => rfl
  | cons frame rest ih =>
    rw [List.cons_append]
    rcases WorkQueue.decode_cases frame with ⟨e, he⟩ | ⟨n, hn⟩ | ⟨reply, hreply, hr⟩
    · rw [firstSaid_of_error he, firstSaid_of_error he, Option.some_or]
    · rw [firstSaid_of_notice hn, firstSaid_of_notice hn, ih]
    · rw [firstSaid_of_reply hreply hr, firstSaid_of_reply hreply hr, Option.some_or]

end

/-- what is left of a stream behind its whole frames -/
def restOf (limit : Nat) (stream : List UInt8) : Assembler := (fedWith limit stream).frames.2.2

/-- The first message of a stream, or why it cannot be read, once either is known. -/
def verdict (limit : Nat) (stream : List UInt8) : Option (Except ConnectionError Reply) :=
  (firstSaid (framesOf limit stream)).or ((breakOf limit stream).map .error)

section
variable {limit : Nat} {xs ys : List UInt8}

theorem verdict_eq_none_iff :
    verdict limit xs = none ↔ firstSaid (framesOf limit xs) = none ∧ breakOf limit xs = none := by
  unfold verdict
  rw [Option.or_eq_none_iff, Option.map_eq_none_iff]

theorem verdict_of_said {said : Except ConnectionError Reply}
    (h : firstSaid (framesOf limit xs) = some said) : verdict limit xs = some said := by
  unfold verdict
  rw [h, Option.some_or]

/-- What has been said stays the first that was said. -/
theorem firstSaid_framesOf_append {said : Except ConnectionError Reply}
    (h : firstSaid (framesOf limit xs) = some said) (ys : List UInt8) :
    firstSaid (framesOf limit (xs ++ ys)) = some said := by
  obtain ⟨more, hmore⟩ := framesOf_le limit xs ys
  rw [← hmore, firstSaid_append, h, Option.some_or]

theorem verdict_of_append (h : verdict limit (xs ++ ys) = none) : verdict limit xs = none := by
  obtain ⟨hsaid, hbreak⟩ := verdict_eq_none_iff.mp h
  refine verdict_eq_none_iff.mpr ⟨?_, breakOf_of_append hbreak⟩
  cases hfirst : firstSaid (framesOf limit xs) with
  | none => rfl
  | some said =>
    rw [firstSaid_framesOf_append hfirst] at hsaid
    cases hsaid

/-- Where nothing is known yet, the frames that come next decide. -/
theorem verdict_append (h : verdict limit xs = none) (ys : List UInt8) :
    verdict limit (xs ++ ys)
      = (firstSaid ((restOf limit xs).feed ys).frames.1).or
          (((restOf limit xs).feed ys).frames.2.1.map .error) := by
  have hsaid := (verdict_eq_none_iff.mp h).1
  unfold verdict restOf
  rw [framesOf_append, breakOf_append, firstSaid_append, hsaid, Option.none_or]

theorem restOf_append (limit : Nat) (xs ys : List UInt8) :
    restOf limit (xs ++ ys) = ((restOf limit xs).feed ys).frames.2.2 :=
  congrArg (fun r => r.2.2) (Assembler.frames_feed (fedWith limit xs) ys)

/-- The first verdict on a stream is on what was said first, or the stream broke before. -/
theorem firstSaid_of_verdict {said : Except ConnectionError Reply}
    (h : verdict limit xs = some said) (ys : List UInt8) :
    firstSaid (framesOf limit (xs ++ ys)) = some said ∨
      firstSaid (framesOf limit (xs ++ ys)) = none ∧ ∃ e, said = .error e := by
  unfold verdict at h
  cases hfirst : firstSaid (framesOf limit xs) with
  | some first =>
    rw [hfirst, Option.some_or] at h
    obtain rfl := Option.some.inj h
    exact Or.inl (firstSaid_framesOf_append hfirst ys)
  | none =>
    rw [hfirst, Option.none_or, Option.map_eq_some_iff] at h
    obtain ⟨e, hbreak, rfl⟩ := h
    refine Or.inr ⟨?_, e, rfl⟩
    rw [(break_append hbreak ys).1, hfirst]

end

/-! ## What comes of it -/

def Reply.isAssent : Reply → Bool
  | ok _ => true
  | _ => false

def Reply.isError : Reply → Bool
  | error _ => true
  | _ => false

theorem Reply.exists_of_isError {reply : Reply} (h : reply.isError = true) :
    ∃ e, reply = error e := by
  cases reply with
  | error e => exact ⟨e, rfl⟩
  | _ => cases h

namespace Stage

/-- What a client that has asked to secure its stream does with the first message, or with the
reason why there is none. -/
def judge (params : ConnectionParams) (upgrade : Except StreamFailure Unit) :
    Except ConnectionError Reply → Stage × List Effect
  | .error e => (failed (refusal e), [])
  | .ok (.error e) => (failed (refusal (.server e)), [])
  | .ok _ =>
    match upgrade with
    | .error f => (failed (.ofStreamFailure f), [])
    | .ok _ =>
      (askingCapabilities (newAssembler params) true, [.secure, .write .capabilitiesGet])

section
variable {params : ConnectionParams} {upgrade : Except StreamFailure Unit}

theorem judge_of_reply {reply : Reply} (h : reply.isError = false) :
    judge params upgrade (.ok reply) = match upgrade with
      | .error f => (failed (.ofStreamFailure f), [])
      | .ok _ =>
        (askingCapabilities (newAssembler params) true, [.secure, .write .capabilitiesGet]) := by
  cases reply with
  | error e => cases h
  | _ => rfl

/-- An error of the server and a stream that cannot be read are refusals. -/
theorem judge_of_refused {said : Except ConnectionError Reply}
    (h : ∀ reply, said = .ok reply → reply.isError = true) :
    ∃ e, judge params upgrade said = (failed e, []) := by
  cases said with
  | error e => exact ⟨_, rfl⟩
  | ok reply =>
    obtain ⟨e, rfl⟩ := reply.exists_of_isError (h reply rfl)
    exact ⟨_, rfl⟩

theorem afterSecurity_eq {a b : Assembler} {frames : List Frame} {stop : Option ConnectionError}
    (h : a.frames = (frames, stop, b)) :
    afterSecurity params a upgrade = match (firstSaid frames).or (stop.map .error) with
      | some said => judge params upgrade said
      | none => (askingSecurity b upgrade, []) := by
  induction frames generalizing a with
  | nil =>
    obtain ⟨rfl, hnext⟩ := Assembler.next_of_frames_nil h
    unfold afterSecurity
    cases stop with
    | none =>
      rw [Assembler.answer_of_wait hnext]
      rfl
    | some e =>
      rw [Assembler.answer_of_error hnext]
      rfl
  | cons frame rest ih =>
    obtain ⟨a', hnext, hframes⟩ := Assembler.next_of_frames_cons h
    rcases WorkQueue.decode_cases frame with ⟨e, he⟩ | ⟨n, hn⟩ | ⟨reply, hreply, hr⟩
    · rw [firstSaid_of_error he, Option.some_or]
      unfold afterSecurity
      rw [Assembler.answer_of_undecodable hnext he]
      rfl
    · rw [firstSaid_of_notice hn, ← ih hframes]
      unfold afterSecurity
      rw [Assembler.answer_of_notice hnext hn]
    · rw [firstSaid_of_reply hreply hr, Option.some_or]
      unfold afterSecurity
      cases herror : reply.isError with
      | true =>
        obtain ⟨e, rfl⟩ := reply.exists_of_isError herror
        rw [Assembler.answer_of_serverError hnext hreply]
        rfl
      | false =>
        rcases Assembler.answer_of_reply hnext hreply hr with ⟨e, rfl, -⟩ | hanswer
        · cases herror
        · rw [hanswer]
          dsimp only
          rw [judge_of_reply herror]
          rfl

theorem receive_undecided {stream : List UInt8} (h : verdict params.frameLimit stream = none)
    (piece : List UInt8) :
    receive params (askingSecurity (restOf params.frameLimit stream) upgrade) (.bytes piece)
      = match verdict params.frameLimit (stream ++ piece) with
        | some said => judge params upgrade said
        | none => (askingSecurity (restOf params.frameLimit (stream ++ piece)) upgrade, []) := by
  rw [verdict_append h, restOf_append]
  exact afterSecurity_eq rfl

end

end Stage

/-! ## Runs -/

namespace Connection

section
variable {params : ConnectionParams} {upgrade : Except StreamFailure Unit} (stream : List UInt8)

/-- While nothing is known, a client waits and does nothing. -/
theorem run_undecided {pieces : List (List UInt8)}
    (h : verdict params.frameLimit (stream ++ pieces.flatten) = none) :
    run ⟨params, .askingSecurity (restOf params.frameLimit stream) upgrade⟩ (pieces.map .bytes)
      = (⟨params, .askingSecurity (restOf params.frameLimit (stream ++ pieces.flatten)) upgrade⟩,
        []) := by
  induction pieces generalizing stream with
  | nil =>
    rw [List.flatten_nil, List.append_nil]
    rfl
  | cons piece rest ih =>
    rw [List.flatten_cons, ← List.append_assoc] at h ⊢
    have hpiece := verdict_of_append h
    have hstep : receive ⟨params, .askingSecurity (restOf params.frameLimit stream) upgrade⟩
        (.bytes piece)
        = (⟨params, .askingSecurity (restOf params.frameLimit (stream ++ piece)) upgrade⟩, []) := by
      unfold receive
      rw [Stage.receive_undecided (verdict_of_append hpiece), hpiece]
    rw [List.map_cons, run_cons, hstep, ih _ h, List.nil_append]

/-- **The piece with which the first message is whole** decides, and nothing else of it matters. -/
theorem run_answered {before : List (List UInt8)} {piece : List UInt8}
    {said : Except ConnectionError Reply}
    (hbefore : verdict params.frameLimit (stream ++ before.flatten) = none)
    (hsaid : verdict params.frameLimit (stream ++ before.flatten ++ piece) = some said)
    (later : List Arrival) :
    run ⟨params, .askingSecurity (restOf params.frameLimit stream) upgrade⟩
        (before.map .bytes ++ .bytes piece :: later)
      = ((run ⟨params, (Stage.judge params upgrade said).1⟩ later).1,
        (Stage.judge params upgrade said).2
          ++ (run ⟨params, (Stage.judge params upgrade said).1⟩ later).2) := by
  have hstep : receive ⟨params, .askingSecurity
        (restOf params.frameLimit (stream ++ before.flatten)) upgrade⟩ (.bytes piece)
      = (⟨params, (Stage.judge params upgrade said).1⟩, (Stage.judge params upgrade said).2) := by
    unfold receive
    rw [Stage.receive_undecided hbefore, hsaid]
  rw [run_append, run_undecided stream hbefore, List.nil_append, run_cons, hstep]

end

/-- Pieces tell nothing, or one of them is the first to tell something. -/
theorem undecided_or_answered (limit : Nat) (pieces : List (List UInt8)) :
    verdict limit pieces.flatten = none ∨
      ∃ before piece behind said, pieces = before ++ piece :: behind ∧
        verdict limit before.flatten = none ∧
        verdict limit (before.flatten ++ piece) = some said := by
  induction pieces using List.reverseRecOn with
  | nil => exact Or.inl rfl
  | append_singleton pieces last ih =>
    rcases ih with hnone | ⟨before, piece, behind, said, rfl, hbefore, hsaid⟩
    · rw [List.flatten_append, List.flatten_singleton]
      cases hlast : verdict limit (pieces.flatten ++ last) with
      | none => exact Or.inl rfl
      | some said => exact Or.inr ⟨pieces, last, [], said, rfl, hnone, hlast⟩
    · refine Or.inr ⟨before, piece, behind ++ [last], said, ?_, hbefore, hsaid⟩
      rw [List.append_assoc, List.cons_append]

/-- What has come of asking to secure the stream: nothing yet, a failure with nothing more written,
or what comes of securing it. -/
inductive Asked (params : ConnectionParams) (upgrade : Except StreamFailure Unit) :
    Option (Except ConnectionError Reply) → Connection × List Effect → Prop
  | waiting {a} :
      Asked params upgrade none
        (⟨params, .askingSecurity a upgrade⟩, [.write Stage.securityRequest])
  | refused {said e} (h : ∀ reply, said = some (.ok reply) → reply.isError = true) :
      Asked params upgrade said (⟨params, .failed e⟩, [.write Stage.securityRequest])
  | failed {reply f} (herror : reply.isError = false) (hupgrade : upgrade = .error f) :
      Asked params upgrade (some (.ok reply))
        (⟨params, .failed (.ofStreamFailure f)⟩, [.write Stage.securityRequest])
  | secured {reply c more} (herror : reply.isError = false) (hupgrade : upgrade = .ok ()) :
      Asked params upgrade (some (.ok reply))
        (c, .write Stage.securityRequest :: .secure :: .write .capabilitiesGet :: more)

section
variable {params : ConnectionParams}

theorem after_of_tls (htls : params.tls = true) (upgrade : Except StreamFailure Unit)
    (arrivals : List Arrival) :
    after params (some upgrade) arrivals
      = ((run ⟨params, .askingSecurity (restOf params.frameLimit []) upgrade⟩ arrivals).1,
        .write Stage.securityRequest
          :: (run ⟨params, .askingSecurity (restOf params.frameLimit []) upgrade⟩ arrivals).2) := by
  rw [after_eq, start_of_tls upgrade htls]
  rfl

/-- **What comes of asking to secure the stream**, by what the server says first. -/
theorem after_asked (htls : params.tls = true) (pieces : List (List UInt8))
    (upgrade : Except StreamFailure Unit) :
    Asked params upgrade (firstSaid (framesOf params.frameLimit pieces.flatten))
      (after params (some upgrade) (pieces.map .bytes)) := by
  rw [after_of_tls htls]
  rcases undecided_or_answered params.frameLimit pieces with
    hnone | ⟨before, piece, behind, first, rfl, hbefore, hfirst⟩
  · rw [run_undecided [] hnone, (verdict_eq_none_iff.mp hnone).1]
    exact .waiting
  · have hsaid := firstSaid_of_verdict hfirst behind.flatten
    have hstream : before.flatten ++ piece ++ behind.flatten
        = (before ++ piece :: behind).flatten := by
      rw [List.flatten_append, List.flatten_cons, List.append_assoc]
    rw [hstream] at hsaid
    rw [List.map_append, List.map_cons, run_answered [] hbefore hfirst]
    by_cases hrefused : ∀ reply, first = .ok reply → reply.isError = true
    · obtain ⟨e, hjudge⟩ : ∃ e, Stage.judge params upgrade first = (.failed e, []) :=
        Stage.judge_of_refused hrefused
      rw [hjudge, run_of_failed]
      refine .refused fun reply hreply => ?_
      rcases hsaid with hsame | ⟨hnone, -⟩
      · exact hrefused reply (Option.some.inj (hsame.symm.trans hreply))
      · rw [hnone] at hreply
        cases hreply
    · obtain ⟨reply, hrefused⟩ := not_forall.mp hrefused
      obtain ⟨rfl, herror⟩ := Classical.not_imp.mp hrefused
      have herror : reply.isError = false := Bool.eq_false_iff.mpr herror
      rcases hsaid with hsame | ⟨-, e, he⟩
      · rw [hsame, Stage.judge_of_reply herror]
        cases upgrade with
        | error f =>
          dsimp only
          rw [run_of_failed]
          exact .failed herror rfl
        | ok u => exact .secured herror rfl
      · cases he

end

end Connection

/-! ## Consent -/

/-- Whether the stream is to be secured: it is, if that succeeds. -/
def Attempts (params : ConnectionParams) (pieces : List (List UInt8)) : Prop :=
  .secure ∈ (Connection.after params (some (.ok ())) (pieces.map .bytes)).2

/-- The handshake has failed, and nothing was written but the request to secure the stream. -/
def Refuses (params : ConnectionParams) (pieces : List (List UInt8)) : Prop :=
  ∀ upgrade, ∃ e,
    (Connection.after params (some upgrade) (pieces.map .bytes)).1.handshake
      = .ready (.error e) ∧
    written (Connection.after params (some upgrade) (pieces.map .bytes)).2
      = [Stage.securityRequest]

/-- The stream is to be secured if the server says its plain assent first, and any other message
ends the handshake without that. -/
structure ConsentOnly (params : ConnectionParams) (pieces : List (List UInt8)) : Prop where
  attempts : Attempts params pieces ↔
    ∃ info, firstSaid (framesOf params.frameLimit pieces.flatten) = some (.ok (.ok info))
  refuses : ∀ reply, firstSaid (framesOf params.frameLimit pieces.flatten) = some (.ok reply) →
    reply.isAssent = false → Refuses params pieces

section
variable {params : ConnectionParams}

theorem attempts_iff (htls : params.tls = true) (pieces : List (List UInt8)) :
    Attempts params pieces ↔
      ∃ reply, firstSaid (framesOf params.frameLimit pieces.flatten) = some (.ok reply) ∧
        reply.isError = false := by
  have hasked := Connection.after_asked htls pieces (.ok ())
  unfold Attempts
  generalize firstSaid (framesOf params.frameLimit pieces.flatten) = said at hasked ⊢
  generalize Connection.after params (some (.ok ())) (pieces.map .bytes) = outcome at hasked ⊢
  cases hasked with
  | waiting =>
    refine iff_of_false (fun h => ?_) fun ⟨reply, h, _⟩ => by cases h
    cases List.mem_singleton.mp h
  | refused h =>
    refine iff_of_false (fun hmem => ?_) fun ⟨reply, hreply, herror⟩ => ?_
    · cases List.mem_singleton.mp hmem
    · rw [h reply hreply] at herror
      cases herror
  | failed herror hupgrade => cases hupgrade
  | secured herror hupgrade =>
    exact iff_of_true (List.mem_cons_of_mem _ List.mem_cons_self) ⟨_, rfl, herror⟩

/-- Where the stream is not to be secured, the first message ends the handshake. -/
theorem refuses_of_not_attempts (htls : params.tls = true) {pieces : List (List UInt8)}
    (h : ¬ Attempts params pieces)
    (hsaid : firstSaid (framesOf params.frameLimit pieces.flatten) ≠ none) :
    Refuses params pieces := by
  intro upgrade
  rw [attempts_iff htls] at h
  have hasked := Connection.after_asked htls pieces upgrade
  generalize firstSaid (framesOf params.frameLimit pieces.flatten) = said at hasked h hsaid
  generalize Connection.after params (some upgrade) (pieces.map .bytes) = outcome at hasked ⊢
  cases hasked with
  | waiting => exact absurd rfl hsaid
  | refused => exact ⟨_, rfl, rfl⟩
  | failed herror | secured herror => exact absurd ⟨_, rfl, herror⟩ h

/-- **The stream is secured on consent only exactly if the server says its assent or an error
first**, or nothing that can be decoded.  Any other message is taken for consent. -/
theorem consentOnly_iff (htls : params.tls = true) (pieces : List (List UInt8)) :
    (ConsentOnly params pieces ↔
      ∀ reply, firstSaid (framesOf params.frameLimit pieces.flatten) = some (.ok reply) →
        reply.isAssent = true ∨ reply.isError = true) ∧
    (Attempts params pieces ↔
      ∃ reply, firstSaid (framesOf params.frameLimit pieces.flatten) = some (.ok reply) ∧
        reply.isError = false) ∧
    (¬ Attempts params pieces →
      firstSaid (framesOf params.frameLimit pieces.flatten) ≠ none → Refuses params pieces) := by
  have hattempts := attempts_iff htls pieces
  have hrefuses : ¬ Attempts params pieces →
      firstSaid (framesOf params.frameLimit pieces.flatten) ≠ none → Refuses params pieces :=
    refuses_of_not_attempts htls
  refine ⟨⟨fun hconsent reply hreply => ?_, fun h => ⟨?_, ?_⟩⟩, hattempts, hrefuses⟩
  · cases herror : reply.isError with
    | true => exact Or.inr rfl
    | false =>
      obtain ⟨info, hinfo⟩ := hconsent.attempts.mp (hattempts.mpr ⟨reply, hreply, herror⟩)
      rw [hreply] at hinfo
      cases hinfo
      exact Or.inl rfl
  · rw [hattempts]
    constructor
    · rintro ⟨reply, hreply, herror⟩
      rcases h reply hreply with hassent | hserver
      · cases reply with
        | ok info => exact ⟨info, hreply⟩
        | _ => cases hassent
      · rw [herror] at hserver
        cases hserver
    · rintro ⟨info, hinfo⟩
      exact ⟨_, hinfo, rfl⟩
  · intro reply hreply hassent
    have herror : reply.isError = true := by
      rcases h reply hreply with hsame | herror
      · rw [hassent] at hsame
        cases hsame
      · exact herror
    refine hrefuses (fun hattempted => ?_) (by rw [hreply]; exact Option.some_ne_none _)
    obtain ⟨other, hother, hfalse⟩ := hattempts.mp hattempted
    rw [hreply] at hother
    cases hother
    rw [herror] at hfalse
    cases hfalse

theorem consentOnly_notice_then_ok :
    ({ tls := true } : ConnectionParams).tls = true ∧
      ConsentOnly { tls := true } [[3, 0, 0, 0, 11, 8], [9, 1, 0, 0, 0, 0]] ∧
      Attempts { tls := true } [[3, 0, 0, 0, 11, 8], [9, 1, 0, 0, 0, 0]] := by
  have hsaid : firstSaid (framesOf Frame.defaultLimit
      [[3, 0, 0, 0, 11, 8], [9, 1, 0, 0, 0, 0]].flatten) = some (.ok (.ok none)) := rfl
  obtain ⟨hconsent, hattempts, -⟩ := @consentOnly_iff { tls := true } rfl
    [[3, 0, 0, 0, 11, 8], [9, 1, 0, 0, 0, 0]]
  refine ⟨rfl, hconsent.mpr fun reply h => Or.inl ?_, hattempts.mpr ⟨_, hsaid, rfl⟩⟩
  obtain rfl := Except.ok.inj (Option.some.inj (hsaid.symm.trans h))
  rfl

/-- A server that tells what it can do, without being asked, is taken to consent. -/
theorem not_consentOnly_capabilities :
    firstSaid (framesOf Frame.defaultLimit [[1, 0, 0, 0, 2]].flatten)
        = some (.ok (.capabilities [])) ∧
      Attempts { tls := true } [[1, 0, 0, 0, 2]] ∧
      ¬ ConsentOnly { tls := true } [[1, 0, 0, 0, 2]] := by
  have hattempts : Attempts { tls := true } [[1, 0, 0, 0, 2]] :=
    (attempts_iff rfl _).mpr ⟨.capabilities [], rfl, rfl⟩
  refine ⟨rfl, hattempts, fun hconsent => ?_⟩
  obtain ⟨info, hinfo⟩ := hconsent.attempts.mp hattempts
  cases hinfo

end

/-! ## What stands behind the answer -/

/-- Frames of which the last is the first message that is no notice. -/
structure EndsWithAnswer (limit : Nat) (frames : List Frame) : Prop where
  streamable : Streamable frames limit
  notices : firstSaid frames.dropLast = none
  answer : firstSaid frames ≠ none

/-- A stream that is read up to the piece with which it is whole, and what stands behind it in
that piece. -/
structure ReadUpTo (stream extra : List UInt8) (pieces : List (List UInt8)) : Prop where
  flatten : pieces.flatten = stream ++ extra
  unread : pieces.dropLast.flatten.length < stream.length

section
variable {limit : Nat} {frames : List Frame} {extra : List UInt8} {pieces : List (List UInt8)}

theorem EndsWithAnswer.frames_of_stream (h : EndsWithAnswer limit frames) :
    framesOf limit (frames.flatMap Frame.encode) = frames ∧
      breakOf limit (frames.flatMap Frame.encode) = none :=
  Assembler.frames_of_stream rfl h.streamable.length h.streamable.limit (Or.inr h.streamable.first)

/-- A part of the stream that is not all of it tells nothing. -/
theorem EndsWithAnswer.verdict_of_part (h : EndsWithAnswer limit frames) {part rest : List UInt8}
    (hstream : part ++ rest = frames.flatMap Frame.encode) (hrest : rest ≠ []) :
    verdict limit part = none := by
  obtain ⟨hframes, hbreak⟩ := h.frames_of_stream
  rw [← hstream] at hframes hbreak
  have hle : framesOf limit part <+: frames := by
    rw [← hframes]
    exact framesOf_le limit part rest
  have hne : framesOf limit part ≠ frames := by
    intro heq
    have hconserve : part = (framesOf limit part).flatMap Frame.encode
        ++ (restOf limit part).buffer := (Assembler.frames_conserve (fedWith limit part)).1
    have hlength := congrArg List.length hconserve
    rw [heq, ← hstream, List.length_append, List.length_append] at hlength
    have hpos := List.length_pos_iff.mpr hrest
    omega
  have hnil : frames ≠ [] := by
    rintro rfl
    exact h.answer rfl
  have hnotices := h.notices
  rw [← List.dropLast_concat_getLast hnil, List.prefix_concat_iff,
    List.dropLast_concat_getLast hnil] at hle
  obtain ⟨more, hmore⟩ := hle.resolve_left hne
  rw [← hmore, firstSaid_append, Option.or_eq_none_iff] at hnotices
  exact verdict_eq_none_iff.mpr ⟨hnotices.1, breakOf_of_append hbreak⟩

theorem ReadUpTo.eq_append {stream : List UInt8} (h : ReadUpTo stream extra pieces) :
    ∃ before last rest, pieces = before ++ [last] ∧ before.flatten ++ last = stream ++ extra ∧
      before.flatten ++ rest = stream ∧ rest ≠ [] := by
  have hflatten := h.flatten
  have hunread := h.unread
  rcases List.eq_nil_or_concat pieces with rfl | ⟨before, last, rfl⟩
  · have hlength := congrArg List.length hflatten
    rw [List.length_append] at hlength
    change 0 < stream.length at hunread
    change 0 = stream.length + extra.length at hlength
    omega
  · rw [List.concat_eq_append] at hflatten hunread ⊢
    rw [List.dropLast_concat] at hunread
    rw [List.flatten_append, List.flatten_singleton] at hflatten
    have hle : before.flatten <+: stream :=
      List.prefix_of_prefix_length_le (hflatten ▸ List.prefix_append _ _)
        (List.prefix_append _ _) (Nat.le_of_lt hunread)
    obtain ⟨rest, hrest⟩ := hle
    refine ⟨before, last, rest, rfl, hflatten, hrest, ?_⟩
    rintro rfl
    rw [List.append_nil] at hrest
    exact absurd (congrArg List.length hrest) (Nat.ne_of_lt hunread)

end

/-- A client that was answered goes by the answer, whatever stands behind it. -/
theorem Connection.after_readUpTo {params : ConnectionParams} (htls : params.tls = true)
    {frames : List Frame} (hframes : EndsWithAnswer params.frameLimit frames)
    {said : Except ConnectionError Reply} (hsaid : firstSaid frames = some said)
    {extra : List UInt8} {pieces : List (List UInt8)}
    (h : ReadUpTo (frames.flatMap Frame.encode) extra pieces) (upgrade : Except StreamFailure Unit)
    (later : List Arrival) :
    after params (some upgrade) (pieces.map .bytes ++ later)
      = ((run ⟨params, (Stage.judge params upgrade said).1⟩ later).1,
        .write Stage.securityRequest :: (Stage.judge params upgrade said).2
          ++ (run ⟨params, (Stage.judge params upgrade said).1⟩ later).2) := by
  obtain ⟨before, last, rest, rfl, hflatten, hstream, hrest⟩ := h.eq_append
  have hbefore : verdict params.frameLimit before.flatten = none :=
    hframes.verdict_of_part hstream hrest
  have hlast : verdict params.frameLimit (before.flatten ++ last) = some said := by
    rw [hflatten]
    refine verdict_of_said (firstSaid_framesOf_append ?_ extra)
    rw [hframes.frames_of_stream.1, hsaid]
  rw [after_of_tls htls, List.map_append, List.map_singleton, List.append_assoc,
    List.singleton_append, run_answered [] hbefore hlast later]
  rfl

/-- **What is injected behind the answer does nothing**: two clients that were answered the same,
and then read the same of the secured stream, have done the same and are in the same state. -/
theorem injected_bytes_forgotten {params : ConnectionParams} (htls : params.tls = true)
    {frames : List Frame} (hframes : EndsWithAnswer params.frameLimit frames)
    {extra extra' : List UInt8} {pieces pieces' : List (List UInt8)}
    (h : ReadUpTo (frames.flatMap Frame.encode) extra pieces)
    (h' : ReadUpTo (frames.flatMap Frame.encode) extra' pieces')
    (upgrade : Option (Except StreamFailure Unit)) (later : List Arrival) :
    Connection.after params upgrade (pieces.map .bytes ++ later)
      = Connection.after params upgrade (pieces'.map .bytes ++ later) := by
  cases upgrade with
  | none =>
    rw [Connection.after_eq, Connection.after_eq, Connection.start_of_no_upgrade htls,
      Connection.run_of_failed, Connection.run_of_failed]
  | some upgrade =>
    obtain ⟨said, hsaid⟩ := Option.ne_none_iff_exists'.mp hframes.answer
    rw [Connection.after_readUpTo htls hframes hsaid h,
      Connection.after_readUpTo htls hframes hsaid h']

theorem injected_bytes_forgotten_sample :
    ({ tls := true } : ConnectionParams).tls = true ∧
      EndsWithAnswer Frame.defaultLimit [⟨11, [8, 9]⟩, ⟨0, []⟩] ∧
      ReadUpTo ([⟨11, [8, 9]⟩, ⟨0, []⟩].flatMap Frame.encode) []
        [[3, 0, 0, 0, 11, 8], [9, 1, 0, 0, 0, 0]] ∧
      ReadUpTo ([⟨11, [8, 9]⟩, ⟨0, []⟩].flatMap Frame.encode) [1, 0, 0, 0, 2, 7, 0]
        [[3, 0, 0, 0, 11, 8], [9, 1, 0, 0, 0, 0, 1, 0, 0, 0, 2, 7, 0]] ∧
      Connection.after { tls := true } (some (.ok ()))
          (([[3, 0, 0, 0, 11, 8], [9, 1, 0, 0, 0, 0]].map .bytes)
            ++ [.bytes [1, 0, 0, 0, 2]])
        = Connection.after { tls := true } (some (.ok ()))
          (([[3, 0, 0, 0, 11, 8], [9, 1, 0, 0, 0, 0, 1, 0, 0, 0, 2, 7, 0]].map .bytes)
            ++ [.bytes [1, 0, 0, 0, 2]]) := by
  have hframes : EndsWithAnswer Frame.defaultLimit [⟨11, [8, 9]⟩, ⟨0, []⟩] :=
    ⟨⟨by decide, by decide, by decide⟩, rfl, nofun⟩
  have hclean : ReadUpTo ([⟨11, [8, 9]⟩, ⟨0, []⟩].flatMap Frame.encode) []
      [[3, 0, 0, 0, 11, 8], [9, 1, 0, 0, 0, 0]] := ⟨by decide, by decide⟩
  have hinjected : ReadUpTo ([⟨11, [8, 9]⟩, ⟨0, []⟩].flatMap Frame.encode) [1, 0, 0, 0, 2, 7, 0]
      [[3, 0, 0, 0, 11, 8], [9, 1, 0, 0, 0, 0, 1, 0, 0, 0, 2, 7, 0]] := ⟨by decide, by decide⟩
  have htls : ({ tls := true } : ConnectionParams).tls = true := rfl
  exact ⟨htls, hframes, hclean, hinjected,
    injected_bytes_forgotten htls hframes hclean hinjected _ _⟩

end DocWire
