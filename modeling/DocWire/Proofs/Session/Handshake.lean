import DocWire.Proofs.Frame.Pieces
import DocWire.Proofs.Session.Readers

/-!
# Handshakes over a stream

What a connection does with a stream is what its messages do to a handshake, whatever the pieces
are that the stream comes in.

* `Stage.At`               a stage and the phase of its handshake;
* `Stage.receive_hears`    one piece;
* `Connection.after_hears`  the pieces of a stream;
* `Connection.run_of_broken`   a stream that breaks at once.
-/

namespace DocWire

open ConnectionError (StreamFailure)

/-! ## One piece -/

namespace Stage

/-- A stage of a handshake on a stream that is not secured, with the bytes that wait. -/
inductive At : Stage → Phase → Assembler → Prop
  | asking {a} : At (askingCapabilities a false) .asking a
  | authenticating {s operation x a} (hopen : s.isOpen = true)
      (hentries : s.queue.entries = [⟨operation, .authentication x⟩])
      (hmechanism : s.mechanism = x.mechanism) (hassembler : s.assembler = a) :
      At (authenticating s operation) (.authenticating x) a
  | accepted {s m a} (hentries : s.queue.entries = []) (hmechanism : s.mechanism = m) :
      At (established s) (.accepted m) a
  | refused {e a} : At (failed e) .refused a

section
variable {params : ConnectionParams} {a b : Assembler} {frames : List Frame}

theorem afterAuthentication_at {phase : Phase} {s : Session} {operation : Nat}
    {effects : List Effect} (h : Session.Reaches operation phase s effects)
    (ha : s.assembler = a) :
    At (afterAuthentication s operation effects).1 phase a ∧
      written (afterAuthentication s operation effects).2 = written effects := by
  unfold afterAuthentication
  cases h with
  | authenticating hopen hentries hmechanism hnone =>
    rw [hnone]
    exact ⟨.authenticating hopen hentries hmechanism ha, rfl⟩
  | accepted hentries hmechanism hsome =>
    rw [hsome]
    exact ⟨.accepted hentries hmechanism, rfl⟩
  | refused hsome =>
    rw [hsome]
    refine ⟨.refused, ?_⟩
    show written (effects ++ (s.shutdown .closed).2) = written effects
    rw [written_append, written_shutdown, List.append_nil]

theorem authenticate_at {capabilities : List (String × AnyValue)} {m : Mechanism}
    (hchoose : Mechanism.choose params.mechanism (offered capabilities) false = .ok m)
    (hframes : a.frames = (frames, none, b))
    (hd : ∀ f ∈ frames, ∃ reply, Reply.decode f = .ok reply) :
    At (authenticate params a false capabilities).1
        ((Phase.authenticating (.begun m params.credentials)).hears params (messages frames)).1 b ∧
      written (authenticate params a false capabilities).2
        = .authenticateStart m.name (m.initialData params.credentials)
          :: ((Phase.authenticating (.begun m params.credentials)).hears params
            (messages frames)).2 := by
  have hdrain : a.drain = (.ok frames, b) := by
    unfold Assembler.drain
    rw [hframes]
  have hpump : (Session.begun params m a false capabilities).pump
      = (Session.begun params m b false capabilities).routeFrames frames := by
    unfold Session.pump
    rw [show (Session.begun params m a false capabilities).assembler.drain = (.ok frames, b)
      from hdrain]
    rfl
  have hassembler : ((Session.begun params m b false capabilities).routeFrames frames).1.assembler
      = b := by
    have hsame := Session.routeFrames_assembler (Session.begun params m b false capabilities) b
      frames
    exact congrArg (fun r => r.1.assembler) hsame
  have hentries : (Session.begun params m b false capabilities).queue.entries
      = [⟨0, .authentication (.begun m params.credentials)⟩] := rfl
  obtain ⟨hreaches, hwritten⟩ := Session.routeFrames_hears params rfl hentries rfl hd
  have hstart : settlement? 0
      [Effect.write (.authenticateStart m.name (m.initialData params.credentials))] = none := rfl
  unfold authenticate
  rw [beginAuthentication_eq, hchoose]
  dsimp only [Except.map]
  rw [hpump]
  obtain ⟨hat, hsame⟩ := afterAuthentication_at (hreaches.append hstart) hassembler
  refine ⟨hat, ?_⟩
  rw [hsame, written_append, hwritten]
  rfl

theorem afterCapabilities_at (hframes : a.frames = (frames, none, b))
    (hd : ∀ f ∈ frames, ∃ reply, Reply.decode f = .ok reply) :
    At (afterCapabilities params a false).1 (Phase.asking.hears params (messages frames)).1 b ∧
      written (afterCapabilities params a false).2
        = (Phase.asking.hears params (messages frames)).2 := by
  induction frames generalizing a with
  | nil =>
    obtain ⟨rfl, hwait⟩ := Assembler.next_of_frames_nil hframes
    unfold afterCapabilities
    rw [Assembler.answer_of_wait hwait]
    exact ⟨.asking, rfl⟩
  | cons frame rest ih =>
    have hrest : ∀ f ∈ rest, ∃ reply, Reply.decode f = .ok reply :=
      fun f hf => hd f (List.mem_cons_of_mem _ hf)
    obtain ⟨a', hnext, hframes'⟩ := Assembler.next_of_frames_cons hframes
    rcases WorkQueue.decode_cases frame with ⟨e, he⟩ | ⟨n, hn⟩ | ⟨reply, hreply, hr⟩
    · obtain ⟨reply, hreply⟩ := hd frame List.mem_cons_self
      rw [he] at hreply
      cases hreply
    · have hskip : afterCapabilities params a false = afterCapabilities params a' false := by
        unfold afterCapabilities
        rw [Assembler.answer_of_notice hnext hn]
      rw [hskip, messages_of_notice hn]
      exact ih hframes' hrest
    · rw [messages_of_reply hreply hr, Phase.hears_cons]
      rcases Assembler.answer_of_reply hnext hreply hr with ⟨e, rfl, hanswer⟩ | hanswer
      · unfold afterCapabilities
        rw [hanswer, show Phase.asking.hear params (.error e) = (.refused, []) from rfl,
          Phase.hears_refused]
        exact ⟨.refused, rfl⟩
      · unfold afterCapabilities Phase.hear
        rw [hanswer]
        dsimp only
        cases reply.expectCapabilities with
        | error e =>
          dsimp only
          rw [Phase.hears_refused]
          exact ⟨.refused, rfl⟩
        | ok capabilities =>
          dsimp only
          cases hchoose : Mechanism.choose params.mechanism (offered capabilities) false with
          | error e =>
            unfold authenticate
            rw [beginAuthentication_eq, hchoose]
            dsimp only [Except.map]
            rw [Phase.hears_refused]
            exact ⟨.refused, rfl⟩
          | ok m => exact authenticate_at hchoose hframes' hrest

theorem receive_authenticating (params : ConnectionParams) (s : Session) (operation : Nat)
    (arrival : Arrival) :
    receive params (authenticating s operation) arrival
      = afterAuthentication (s.receive arrival).1 operation (s.receive arrival).2 := rfl

/-- **One piece** brings a handshake on by the messages of the frames that are whole with it. -/
theorem receive_hears (params : ConnectionParams) {stage : Stage} {phase : Phase}
    (h : At stage phase a) {piece : List UInt8}
    (hframes : (a.feed piece).frames = (frames, none, b))
    (hd : ∀ f ∈ frames, ∃ reply, Reply.decode f = .ok reply) :
    At (stage.receive params (.bytes piece)).1 (phase.hears params (messages frames)).1 b ∧
      written (stage.receive params (.bytes piece)).2
        = (phase.hears params (messages frames)).2 := by
  cases h with
  | asking => exact afterCapabilities_at hframes hd
  | @authenticating s operation x _ hopen hentries hmechanism hassembler =>
    subst hassembler
    have hdrain : (s.assembler.feed piece).drain = (.ok frames, b) := by
      unfold Assembler.drain
      rw [hframes]
    obtain ⟨hreaches, hwritten⟩ :=
      Session.routeFrames_hears params hopen hentries hmechanism hd
    obtain ⟨hat, hsame⟩ := afterAuthentication_at (hreaches.assembler b) rfl
    rw [receive_authenticating, Session.receive_of_drained hopen hdrain]
    exact ⟨hat, hsame.trans hwritten⟩
  | @accepted s m _ hentries hmechanism =>
    obtain ⟨hwritten, hidle, hkeeps⟩ := Session.receive_idle hentries (.bytes piece)
    rw [Phase.hears_accepted]
    exact ⟨.accepted hidle (hkeeps.trans hmechanism), hwritten⟩
  | refused =>
    rw [Phase.hears_refused]
    exact ⟨.refused, rfl⟩

/-- The end of the stream ends every handshake that is not accepted. -/
theorem receive_stopped (params : ConnectionParams) {stage : Stage} {phase : Phase}
    (h : At stage phase a) (failure : StreamFailure) :
    written (stage.receive params (.stopped failure)).2 = [] ∧
      match phase with
      | .accepted m => ∃ s, (stage.receive params (.stopped failure)).1 = established s ∧
          s.mechanism = m
      | _ => ∃ e, (stage.receive params (.stopped failure)).1 = failed e := by
  cases h with
  | asking => exact ⟨rfl, _, rfl⟩
  | @authenticating s operation x _ hopen hentries hmechanism hassembler =>
    have hreceive : s.receive (.stopped failure) = s.shutdown (.ofStreamFailure failure) := by
      unfold Session.receive
      rw [if_pos hopen]
    have hsettled : settlement? operation (s.shutdown (.ofStreamFailure failure)).2
        = some (.mechanism (.error (.ofStreamFailure failure))) := by
      unfold Session.shutdown WorkQueue.close
      rw [hentries]
      exact settlement?_settled operation _ _
    obtain ⟨hat, hsame⟩ := afterAuthentication_at (s := (s.shutdown (.ofStreamFailure failure)).1)
      (.refused hsettled) rfl
    rw [receive_authenticating, hreceive]
    refine ⟨hsame.trans (written_shutdown s _), ?_⟩
    dsimp only
    generalize (afterAuthentication _ operation _).1 = stage at hat ⊢
    cases hat with
    | refused => exact ⟨_, rfl⟩
  | @accepted s m _ hentries hmechanism =>
    obtain ⟨hwritten, -, hkeeps⟩ := Session.receive_idle hentries (.stopped failure)
    exact ⟨hwritten, _, rfl, hkeeps.trans hmechanism⟩
  | refused => exact ⟨rfl, _, rfl⟩

end

end Stage

/-! ## The pieces of a stream -/

namespace Connection

section
variable {params : ConnectionParams} (upgrade : Option (Except StreamFailure Unit))

/-- **A stream that does not break** brings a handshake on by its messages, whatever the pieces are
that it comes in. -/
theorem after_hears (htls : params.tls = false) {pieces : List (List UInt8)}
    (hbreak : breakOf params.frameLimit pieces.flatten = none)
    (hd : ∀ f ∈ framesOf params.frameLimit pieces.flatten, ∃ reply, Reply.decode f = .ok reply) :
    let said := messages (framesOf params.frameLimit pieces.flatten)
    ∃ stage,
      (after params upgrade (pieces.map .bytes)).1 = ⟨params, stage⟩ ∧
      stage.At (Phase.asking.hears params said).1
        (fedWith params.frameLimit pieces.flatten).frames.2.2 ∧
      written (after params upgrade (pieces.map .bytes)).2
        = .capabilitiesGet :: (Phase.asking.hears params said).2 := by
  dsimp only
  -- from the end, since where a stage stands depends on all the bytes before a piece
  induction pieces using List.reverseRecOn with
  | nil =>
    rw [List.map_nil, after_eq, run_nil, start_of_not_tls upgrade htls]
    exact ⟨.askingCapabilities (fedWith params.frameLimit []) false, rfl, .asking, rfl⟩
  | append_singleton before piece ih =>
    have hflatten : (before ++ [piece]).flatten = before.flatten ++ piece := by
      rw [List.flatten_append, List.flatten_singleton]
    rw [hflatten] at hbreak hd ⊢
    have hmore := framesOf_append params.frameLimit before.flatten piece
    have hfeed := Assembler.frames_feed (fedWith params.frameLimit before.flatten) piece
    rw [breakOf_append] at hbreak
    generalize hlater : ((fedWith params.frameLimit before.flatten).frames.2.2.feed piece).frames
      = later at hbreak hmore hfeed
    obtain ⟨frames, stop, b⟩ := later
    obtain rfl : stop = none := hbreak
    rw [hmore] at hd ⊢
    have hb : (fedWith params.frameLimit (before.flatten ++ piece)).frames.2.2 = b :=
      congrArg (fun r => r.2.2) hfeed
    have hunbroken : breakOf params.frameLimit (before.flatten ++ piece) = none :=
      congrArg (fun r => r.2.1) hfeed
    obtain ⟨stage, hstage, hat, hwritten⟩ := ih (breakOf_of_append hunbroken)
      (fun f hf => hd f (List.mem_append_left _ hf))
    obtain ⟨hnext, hmore⟩ := Stage.receive_hears params hat hlater
      (fun f hf => hd f (List.mem_append_right _ hf))
    rw [List.map_append, after_append, hstage, messages_append, Phase.hears_append, hb]
    refine ⟨_, rfl, hnext, ?_⟩
    rw [written_append, hwritten]
    show _ ++ written ((stage.receive params (.bytes piece)).2 ++ []) = _
    rw [List.append_nil, hmore]
    rfl

/-- A stream that breaks before any frame of it is whole is not accepted. -/
theorem run_of_broken (stream : List UInt8) {e : ConnectionError} {pieces : List (List UInt8)}
    (hframes : framesOf params.frameLimit (stream ++ pieces.flatten) = [])
    (hbreak : breakOf params.frameLimit (stream ++ pieces.flatten) = some e)
    (hstream : breakOf params.frameLimit stream = none) :
    ∃ e', (run ⟨params, .askingCapabilities (fedWith params.frameLimit stream) false⟩
      (pieces.map .bytes)).1 = ⟨params, .failed e'⟩ := by
  induction pieces generalizing stream with
  | nil =>
    rw [List.flatten_nil, List.append_nil, hstream] at hbreak
    cases hbreak
  | cons piece rest ih =>
    rw [List.flatten_cons, ← List.append_assoc] at hframes hbreak
    have hnil : framesOf params.frameLimit (stream ++ piece) = [] := by
      have hle := framesOf_le params.frameLimit (stream ++ piece) rest.flatten
      rw [hframes] at hle
      exact List.prefix_nil.mp hle
    have hreceive : receive
        ⟨params, .askingCapabilities (fedWith params.frameLimit stream) false⟩ (.bytes piece)
        = (⟨params, (Stage.afterCapabilities params
            (fedWith params.frameLimit (stream ++ piece)) false).1⟩,
          (Stage.afterCapabilities params
            (fedWith params.frameLimit (stream ++ piece)) false).2) := rfl
    have hempty : (fedWith params.frameLimit (stream ++ piece)).frames
        = ([], breakOf params.frameLimit (stream ++ piece),
          (fedWith params.frameLimit (stream ++ piece)).frames.2.2) := Prod.ext hnil rfl
    have hnext := (Assembler.next_of_frames_nil hempty).2
    rw [List.map_cons, run_cons, hreceive]
    dsimp only
    cases hstop : breakOf params.frameLimit (stream ++ piece) with
    | none =>
      rw [hstop] at hnext
      have hwait : Stage.afterCapabilities params
          (fedWith params.frameLimit (stream ++ piece)) false
          = (.askingCapabilities (fedWith params.frameLimit (stream ++ piece)) false, []) := by
        unfold Stage.afterCapabilities
        rw [Assembler.answer_of_wait hnext]
      rw [hwait]
      exact ih _ hframes hbreak hstop
    | some e' =>
      rw [hstop] at hnext
      have hfail : Stage.afterCapabilities params
          (fedWith params.frameLimit (stream ++ piece)) false = (.failed e', []) := by
        unfold Stage.afterCapabilities
        rw [Assembler.answer_of_error hnext]
      rw [hfail, run_of_failed]
      exact ⟨e', rfl⟩

end

end Connection

end DocWire
