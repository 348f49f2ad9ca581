import DocWire.Proofs.Frame.Draining
import DocWire.Proofs.Session.Routing

/-!
# A stream that comes in pieces

A reader takes in a piece, drains the assembler, hands on the frames and takes in the next piece,
until an error stops it.  A piece that breaks the stream takes the frames that it completes with
it, and the error tells a classic greeting only if its tag comes no later than the length in front
of it.  Apart from that it does not matter where the pieces end.

* `Assembler.handOn`         the reader;
* `framesOf`, `breakOf`      a stream that is read frame by frame;
* `HandsOn`, `handOn_handsOn`   what is handed on of a stream in pieces;
* `Session.read_eq_routeHanded`   the reader of a session;
* `handOn_alike_iff`         the streams for which the pieces do not matter.
-/

namespace DocWire

open Bytes

/-- What a reader hands on of a stream that comes in pieces, and the error that stops it. -/
def Assembler.handOn (a : Assembler) : List (List UInt8) → List Frame × Option ConnectionError
  | [] => ([], none)
  | piece :: rest =>
    match (a.feed piece).drain with
    | (.error e, _) => ([], some e)
    | (.ok frames, a) => (frames ++ (a.handOn rest).1, (a.handOn rest).2)

open Assembler (handOn)

/-- an assembler that was fed a stream and was not asked for a frame -/
def fedWith (limit : Nat) (stream : List UInt8) : Assembler := { limit, buffer := stream }

/-- The frames of a stream that is read frame by frame, up to where it breaks. -/
def framesOf (limit : Nat) (stream : List UInt8) : List Frame := (fedWith limit stream).frames.1

/-- The error with which a stream that is read frame by frame breaks. -/
def breakOf (limit : Nat) (stream : List UInt8) : Option ConnectionError :=
  (fedWith limit stream).frames.2.1

/-- What is handed on of pieces: the frames that are whole before the piece that breaks the
stream. -/
inductive HandsOn (limit : Nat) : List (List UInt8) → List Frame × Option ConnectionError → Prop
  | all {pieces} (h : breakOf limit pieces.flatten = none) :
      HandsOn limit pieces (framesOf limit pieces.flatten, none)
  | upTo {before piece after e} (h : breakOf limit before.flatten = none)
      (hbreak : breakOf limit (before.flatten ++ piece) = some e) :
      HandsOn limit (before ++ piece :: after) (framesOf limit before.flatten, some e)

/-- A header that is broken whatever follows it, and behind it the tag of a classic greeting. -/
def BrokenGreeting (limit : Nat) (stream : List UInt8) : Prop :=
  ∃ header rest, stream = header ++ Frame.classicTag :: rest ∧ header.length = 4 ∧
    (Reader.littleEndian header = 0 ∨ limit < Reader.littleEndian header)

section
variable {limit : Nat} {xs ys : List UInt8} {e : ConnectionError}

/-! ## More of a stream -/

theorem framesOf_append (limit : Nat) (xs ys : List UInt8) :
    framesOf limit (xs ++ ys)
      = framesOf limit xs ++ ((fedWith limit xs).frames.2.2.feed ys).frames.1 :=
  congrArg Prod.fst (Assembler.frames_feed (fedWith limit xs) ys)

theorem breakOf_append (limit : Nat) (xs ys : List UInt8) :
    breakOf limit (xs ++ ys) = ((fedWith limit xs).frames.2.2.feed ys).frames.2.1 :=
  congrArg (fun r => r.2.1) (Assembler.frames_feed (fedWith limit xs) ys)

theorem framesOf_le (limit : Nat) (xs ys : List UInt8) :
    framesOf limit xs <+: framesOf limit (xs ++ ys) := by
  rw [framesOf_append]
  exact List.prefix_append _ _

theorem breakOf_of_length_lt (h : xs.length < 4) : breakOf limit xs = none := by
  have hwait : (fedWith limit xs).next = .ok none := Assembler.next_of_pending_lt h
  unfold breakOf
  rw [Assembler.frames_of_wait hwait]

/-- A stream that is broken stays so.  Its error changes only where a classic greeting shows. -/
theorem break_append (h : breakOf limit xs = some e) (ys : List UInt8) :
    framesOf limit (xs ++ ys) = framesOf limit xs ∧
      (breakOf limit (xs ++ ys) = some e ∨
        breakOf limit (xs ++ ys) = some .notXProtocol ∧ xs.length = 4 ∧
          (fedWith limit xs).next = .error e ∧ ys.head? = some Frame.classicTag) := by
  have hnext := Assembler.next_frames (fedWith limit xs)
  rw [show (fedWith limit xs).frames.2.1 = some e from h] at hnext
  rw [framesOf_append, breakOf_append]
  rcases Assembler.next_feed_of_error hnext ys with hsame | ⟨hgreeting, hstarted, hpending, hhead⟩
  · rw [Assembler.frames_of_error hsame]
    exact ⟨List.append_nil _, Or.inl rfl⟩
  · rw [Assembler.frames_of_error hgreeting]
    refine ⟨List.append_nil _, Or.inr ⟨rfl, ?_⟩⟩
    have hfirst : (fedWith limit xs).frames.2.2 = fedWith limit xs := by
      obtain ⟨-, -, hcut⟩ := Assembler.frames_conserve (fedWith limit xs)
      have hnil : (fedWith limit xs).frames.1 = [] := by
        cases hframes : (fedWith limit xs).frames.1 with
        | nil => rfl
        | cons f rest =>
          rw [hstarted, hframes] at hcut
          cases hcut
      exact (Assembler.next_of_frames_nil (Prod.ext hnil rfl)).1
    rw [hfirst] at hnext hpending
    exact ⟨hpending, hnext, hhead⟩

theorem breakOf_of_append (h : breakOf limit (xs ++ ys) = none) : breakOf limit xs = none := by
  cases hbreak : breakOf limit xs with
  | none => rfl
  | some e =>
    rcases (break_append hbreak ys).2 with hsame | ⟨hgreeting, -⟩
    · rw [h] at hsame
      cases hsame
    · rw [h] at hgreeting
      cases hgreeting

/-! ## What is handed on -/

/-- A reader that was fed the pieces `before`, and handed their frames on, goes on. -/
theorem handOn_after (limit : Nat) (before pieces : List (List UInt8))
    (h : breakOf limit before.flatten = none) :
    HandsOn limit (before ++ pieces)
      (framesOf limit before.flatten
          ++ ((fedWith limit before.flatten).frames.2.2.handOn pieces).1,
        ((fedWith limit before.flatten).frames.2.2.handOn pieces).2) := by
  induction pieces generalizing before with
  | nil =>
    rw [List.append_nil]
    show HandsOn limit before (framesOf limit before.flatten ++ [], none)
    rw [List.append_nil]
    exact .all h
  | cons piece rest ih =>
    have hmore := framesOf_append limit before.flatten piece
    have hbreak := breakOf_append limit before.flatten piece
    have hfrom : ((fedWith limit before.flatten).frames.2.2.feed piece).frames.2.2
        = (fedWith limit (before.flatten ++ piece)).frames.2.2 :=
      (congrArg (fun r => r.2.2) (Assembler.frames_feed (fedWith limit before.flatten) piece)).symm
    cases hdrain : ((fedWith limit before.flatten).frames.2.2.feed piece).frames with
    | mk frames stop =>
      obtain ⟨stop, a⟩ := stop
      rw [hdrain] at hmore hbreak hfrom
      unfold Assembler.handOn Assembler.drain
      rw [hdrain]
      cases stop with
      | some e =>
        dsimp only
        rw [List.append_nil]
        exact .upTo h hbreak
      | none =>
        have hflatten : (before ++ [piece]).flatten = before.flatten ++ piece := by
          rw [List.flatten_append, List.flatten_singleton]
        have hrest := ih (before ++ [piece]) (by rw [hflatten]; exact hbreak)
        rw [hflatten, ← hfrom, hmore, List.append_assoc, List.append_assoc] at hrest
        exact hrest

/-- **What is handed on of a stream in pieces** is what was whole before the piece that breaks
it. -/
theorem handOn_handsOn (limit : Nat) (pieces : List (List UInt8)) :
    HandsOn limit pieces (handOn { limit } pieces) :=
  handOn_after limit [] pieces rfl

/-! ## The greeting of a classic server -/

theorem BrokenGreeting.breakOf {stream : List UInt8} (h : BrokenGreeting limit stream) :
    breakOf limit stream = some .notXProtocol ∧ ∃ what, breakOf limit (stream.take 4)
      = some (.violation what) := by
  obtain ⟨header, rest, rfl, hlength, hbroken⟩ := h
  refine ⟨?_, ?_⟩
  · have hnext : (fedWith limit (header ++ Frame.classicTag :: rest)).next
        = .error .notXProtocol :=
      Assembler.next_eq_error_iff.mpr ⟨header, _, rfl, hlength, rfl⟩
    unfold DocWire.breakOf
    rw [Assembler.frames_of_error hnext]
  · have htake : (header ++ Frame.classicTag :: rest).take 4 = header := by
      rw [← hlength, List.take_left]
    have herror (what : Violation)
        (hfault : (fedWith limit header).fault header [] = some (.violation what)) :
        ∃ what, DocWire.breakOf limit header = some (.violation what) := by
      have hnext : (fedWith limit header).next = .error (.violation what) :=
        Assembler.next_eq_error_iff.mpr ⟨header, [], (List.append_nil _).symm, hlength, hfault⟩
      refine ⟨what, ?_⟩
      unfold DocWire.breakOf
      rw [Assembler.frames_of_error hnext]
    have hsilent : (!(fedWith limit header).started
        && ([] : List UInt8).head? == some Frame.classicTag) = false := rfl
    rw [htake]
    by_cases hzero : Reader.littleEndian header = 0
    · apply herror .emptyFrame
      unfold Assembler.fault
      rw [hsilent, if_neg Bool.false_ne_true, if_pos hzero]
    · apply herror (.longFrame (Reader.littleEndian header) limit)
      unfold Assembler.fault
      rw [hsilent, if_neg Bool.false_ne_true, if_neg hzero]
      exact if_pos (hbroken.resolve_left hzero)

theorem brokenGreeting_of_ne (h : breakOf limit xs = some e)
    (hne : breakOf limit (xs ++ ys) ≠ some e) :
    BrokenGreeting limit (xs ++ ys) ∧ xs.length = 4 := by
  obtain ⟨-, hsame | ⟨hgreeting, hlength, hnext, hhead⟩⟩ := break_append h ys
  · exact absurd hsame hne
  · refine ⟨?_, hlength⟩
    obtain ⟨tag, rest, rfl⟩ : ∃ tag rest, ys = tag :: rest := by
      cases ys with
      | nil => cases hhead
      | cons tag rest => exact ⟨tag, rest, rfl⟩
    obtain rfl : tag = Frame.classicTag := Option.some.inj hhead
    refine ⟨xs, rest, rfl, hlength, ?_⟩
    obtain ⟨header, behind, hbuffer, hheader, hfault⟩ := Assembler.next_eq_error_iff.mp hnext
    change xs = header ++ behind at hbuffer
    have hbehind : behind = [] := by
      have hlen := congrArg List.length hbuffer
      rw [List.length_append] at hlen
      exact List.eq_nil_of_length_eq_zero (by omega)
    rw [hbehind, List.append_nil] at hbuffer
    rw [hbehind, ← hbuffer] at hfault
    by_contra hsound
    rw [not_or] at hsound
    have hnone : (fedWith limit xs).fault xs [] = none := by
      unfold Assembler.fault
      rw [List.head?_nil, if_neg (by rintro ⟨⟩), if_neg hsound.1]
      exact if_neg hsound.2
    rw [hnone] at hfault
    cases hfault

end

/-! ## Whether the pieces matter -/

section
variable {limit : Nat} {pieces : List (List UInt8)} {handed : List Frame × Option ConnectionError}

theorem HandsOn.initial (h : HandsOn limit pieces handed) :
    handed.1 <+: framesOf limit pieces.flatten := by
  cases h with
  | all h => exact List.prefix_refl _
  | @upTo before piece after e h hbreak =>
    rw [List.flatten_append]
    exact framesOf_le limit _ _

/-- The error that stops a reader is that of the stream, unless a piece ends between the length of
a broken greeting and its tag. -/
theorem HandsOn.error_iff (h : HandsOn limit pieces handed) :
    handed.2 = breakOf limit pieces.flatten ↔
      ¬ (BrokenGreeting limit pieces.flatten ∧
        ∃ before, before <+: pieces ∧ before.flatten.length = 4) := by
  cases h with
  | all h =>
    refine ⟨?_, fun _ => h.symm⟩
    rintro - ⟨hgreeting, -⟩
    rw [hgreeting.breakOf.1] at h
    cases h
  | @upTo before piece after e h hbreak =>
    have hstream : (before ++ piece :: after).flatten
        = (before.flatten ++ piece) ++ after.flatten := by
      rw [List.flatten_append, List.flatten_cons, List.append_assoc]
    have hfirst : (before ++ [piece]).flatten = before.flatten ++ piece := by
      rw [List.flatten_append, List.flatten_singleton]
    constructor
    · rintro herror ⟨hgreeting, start, hstart, hfour⟩
      obtain ⟨hclassic, what, hwhat⟩ := hgreeting.breakOf
      have hfull : ¬ before.flatten.length + piece.length < 4 := by
        intro hlt
        rw [breakOf_of_length_lt (by rw [List.length_append]; exact hlt)] at hbreak
        cases hbreak
      have htake : (before ++ piece :: after).flatten.take 4 = start.flatten := by
        obtain ⟨rest, hrest⟩ := hstart
        rw [← hrest, List.flatten_append, ← hfour, List.take_left]
      rw [htake] at hwhat
      by_cases hlen : start.length ≤ before.length
      · obtain ⟨rest, rfl⟩ : start <+: before :=
          List.prefix_of_prefix_length_le hstart (List.prefix_append _ _) hlen
        rw [List.flatten_append] at h
        rw [breakOf_of_append h] at hwhat
        cases hwhat
      · obtain ⟨rest, rfl⟩ : before ++ [piece] <+: start := by
          refine List.prefix_of_prefix_length_le ⟨after, ?_⟩ hstart ?_
          · rw [List.append_assoc, List.singleton_append]
          · rw [List.length_append, List.length_singleton]
            omega
        rw [List.flatten_append, hfirst] at hfour hwhat
        have hnil : rest.flatten = [] := by
          rw [List.length_append, List.length_append] at hfour
          exact List.eq_nil_of_length_eq_zero (by omega)
        rw [hnil, List.append_nil, hbreak] at hwhat
        rw [hclassic, hwhat] at herror
        cases herror
    · intro hnot
      by_contra hne
      rw [hstream] at hne hnot
      obtain ⟨hgreeting, hfour⟩ := brokenGreeting_of_ne hbreak (Ne.symm hne)
      apply hnot
      refine ⟨hgreeting, before ++ [piece], ?_, by rw [hfirst, hfour]⟩
      exact ⟨after, by rw [List.append_assoc, List.singleton_append]⟩

end

theorem handOn_of_unbroken {limit : Nat} {pieces : List (List UInt8)}
    (h : breakOf limit pieces.flatten = none) :
    handOn { limit } pieces = (framesOf limit pieces.flatten, none) := by
  have hspec := handOn_handsOn limit pieces
  generalize handOn { limit } pieces = handed at hspec
  cases hspec with
  | all _ => rfl
  | @upTo before piece after e hbefore hbreak =>
    rw [List.flatten_append, List.flatten_cons, ← List.append_assoc] at h
    rw [breakOf_of_append h] at hbreak
    cases hbreak

/-- In one piece, a stream that breaks takes all its frames with it. -/
theorem handOn_singleton {limit : Nat} {stream : List UInt8} {e : ConnectionError}
    (h : breakOf limit stream = some e) : handOn { limit } [stream] = ([], some e) := by
  have hframes : (({ limit } : Assembler).feed stream).frames.2.1 = some e := h
  unfold handOn Assembler.drain
  cases hdrain : (({ limit } : Assembler).feed stream).frames with
  | mk frames stop =>
    obtain ⟨stop, a⟩ := stop
    rw [hdrain] at hframes
    obtain rfl : stop = some e := hframes
    rfl

/-- With a piece that ends where the frames end, all of them are handed on. -/
theorem handOn_apart {limit : Nat} {stream : List UInt8} {e : ConnectionError}
    (h : breakOf limit stream = some e) :
    ∃ pieces, pieces.flatten = stream ∧
      handOn { limit } pieces = (framesOf limit stream, some e) := by
  obtain ⟨hbuffer, -, -⟩ := Assembler.frames_conserve (fedWith limit stream)
  have hnext := Assembler.next_frames (fedWith limit stream)
  rw [show (fedWith limit stream).frames.2.1 = some e from h] at hnext
  generalize hleft : (fedWith limit stream).frames.2.2 = left at hbuffer hnext
  have hfirst : (({ limit } : Assembler).feed ((framesOf limit stream).flatMap Frame.encode)).drain
      = (.ok (framesOf limit stream), { left with buffer := [] }) := by
    have hreplay := Assembler.frames_replay (fedWith limit stream)
    rw [hleft] at hreplay
    unfold Assembler.drain
    rw [show (({ limit } : Assembler).feed ((framesOf limit stream).flatMap Frame.encode)).frames
      = (framesOf limit stream, none, { left with buffer := [] }) from hreplay]
  have hsecond : (({ left with buffer := [] } : Assembler).feed left.buffer).drain
      = (.error e, left) := by
    unfold Assembler.drain
    rw [show ({ left with buffer := [] } : Assembler).feed left.buffer = left from rfl,
      Assembler.frames_of_error hnext]
  refine ⟨[(framesOf limit stream).flatMap Frame.encode, left.buffer], ?_, ?_⟩
  · rw [List.flatten_cons, List.flatten_singleton]
    exact hbuffer.symm
  · simp only [handOn, hfirst, hsecond, List.append_nil]

/-! ## The reader of a session -/

namespace Session

/-- Routes what is handed on, and ends with the error unless the session has ended. -/
def routeHanded (s : Session) (handed : List Frame × Option ConnectionError) :
    Session × List Effect :=
  let (s, effects) := s.routeFrames handed.1
  match handed.2 with
  | none => (s, effects)
  | some e => if s.isOpen then ((s.shutdown e).1, effects ++ (s.shutdown e).2) else (s, effects)

theorem routeHanded_assembler (s : Session) (a : Assembler)
    (handed : List Frame × Option ConnectionError) :
    (({ s with assembler := a } : Session).routeHanded handed).2 = (s.routeHanded handed).2 := by
  unfold routeHanded
  rw [routeFrames_assembler]
  cases handed.2 with
  | none => rfl
  | some e => cases h : (s.routeFrames handed.1).1.isOpen <;> simp only [h] <;> rfl

theorem routeHanded_append {s : Session} (h : s.isOpen = true) (frames : List Frame)
    (handed : List Frame × Option ConnectionError) :
    (s.routeHanded (frames ++ handed.1, handed.2)).2
      = (s.routeFrames frames).2 ++ if (s.routeFrames frames).1.isOpen then
          ((s.routeFrames frames).1.routeHanded handed).2 else [] := by
  have happend := routeFrames_append h frames handed.1
  generalize s.routeFrames frames = first at happend ⊢
  obtain ⟨t, effects⟩ := first
  unfold routeHanded
  dsimp only at happend ⊢
  rw [happend]
  cases hopen : t.isOpen with
  | false =>
    rw [if_neg Bool.false_ne_true, if_neg Bool.false_ne_true, List.append_nil]
    cases handed.2 with
    | none => rfl
    | some e => simp only [hopen, if_neg Bool.false_ne_true]
  | true =>
    rw [if_pos rfl, if_pos rfl]
    cases handed.2 with
    | none => rfl
    | some e =>
      dsimp only
      split
      · rw [List.append_assoc]
      · rfl

/-- **A session does what its reader hands on**, and ends with the error that stops it. -/
theorem read_eq_routeHanded {s : Session} (h : s.isOpen = true) (pieces : List (List UInt8)) :
    (s.read pieces).2 = (s.routeHanded (handOn s.assembler pieces)).2 := by
  induction pieces generalizing s with
  | nil => rfl
  | cons piece rest ih =>
    rw [read_cons]
    cases hdrain : (s.assembler.feed piece).drain with
    | mk result a =>
      cases result with
      | error e =>
        have hended : ({ (s.shutdown e).1 with assembler := a } : Session).isOpen = false := rfl
        rw [receive_of_broken h hdrain, read_of_not_open hended, List.append_nil]
        simp only [handOn, hdrain, routeHanded, routeFrames_nil, h, if_pos, List.nil_append]
      | ok frames =>
        rw [receive_of_drained h hdrain]
        simp only [handOn, hdrain]
        rw [routeHanded_append h]
        by_cases hopen : (s.routeFrames frames).1.isOpen = true
        · have hrest := ih (s := { (s.routeFrames frames).1 with assembler := a }) hopen
          rw [if_pos hopen, hrest, routeHanded_assembler]
        · have hended : ({ (s.routeFrames frames).1 with assembler := a } : Session).isOpen
              = false := Bool.eq_false_iff.mpr hopen
          rw [if_neg hopen, read_of_not_open hended]

end Session

/-- **When the pieces do not matter.**  A reader hands on what was whole before the piece that
breaks the stream, with the error of the stream unless a piece ends between the length of a broken
greeting and its tag; a session does what its reader hands on.  So the pieces of a stream do not
matter exactly if the stream never breaks, or breaks before a frame of it was whole and does not
show a classic greeting behind a length that is broken by itself. -/
theorem handOn_alike_iff (limit : Nat) :
    (∀ pieces, HandsOn limit pieces (handOn { limit } pieces)) ∧
    (∀ pieces, (handOn { limit } pieces).1 <+: framesOf limit pieces.flatten ∧
      ((handOn { limit } pieces).2 = breakOf limit pieces.flatten ↔
        ¬ (BrokenGreeting limit pieces.flatten ∧
          ∃ before, before <+: pieces ∧ before.flatten.length = 4))) ∧
    (∀ (s : Session) pieces, s.isOpen = true →
      (s.read pieces).2 = (s.routeHanded (handOn s.assembler pieces)).2) ∧
    ∀ stream,
      (∀ p q, p.flatten = stream → q.flatten = stream →
        handOn { limit } p = handOn { limit } q) ↔
      (breakOf limit stream = none ∨
        framesOf limit stream = [] ∧ ¬ BrokenGreeting limit stream) := by
  refine ⟨handOn_handsOn limit, fun pieces => ?_,
    fun s pieces h => Session.read_eq_routeHanded h pieces, fun stream => ⟨?_, ?_⟩⟩
  · exact ⟨(handOn_handsOn limit pieces).initial, (handOn_handsOn limit pieces).error_iff⟩
  · intro halike
    cases hbreak : breakOf limit stream with
    | none => exact Or.inl rfl
    | some e =>
      obtain ⟨pieces, hpieces, hapart⟩ := handOn_apart hbreak
      have hwhole := halike [stream] pieces (List.flatten_singleton) hpieces
      rw [handOn_singleton hbreak, hapart] at hwhole
      refine Or.inr ⟨(Prod.mk.inj hwhole).1.symm, ?_⟩
      intro hgreeting
      obtain ⟨header, rest, rfl, hlength, -⟩ := id hgreeting
      have hflatten : [header, Frame.classicTag :: rest].flatten
          = header ++ Frame.classicTag :: rest := by
        rw [List.flatten_cons, List.flatten_singleton]
      have hcut := halike [header ++ Frame.classicTag :: rest]
        [header, Frame.classicTag :: rest] List.flatten_singleton hflatten
      have herror := (handOn_handsOn limit [header, Frame.classicTag :: rest]).error_iff
      rw [hflatten, ← hcut, handOn_singleton hbreak, hbreak] at herror
      refine herror.mp rfl ⟨hgreeting, [header], ⟨[Frame.classicTag :: rest], rfl⟩, ?_⟩
      rw [List.flatten_singleton]
      exact hlength
  · rintro (hsound | ⟨hnil, hgreeting⟩) p q rfl hq
    · rw [handOn_of_unbroken hsound, handOn_of_unbroken (by rw [hq]; exact hsound), hq]
    · have hone (pieces : List (List UInt8)) (hpieces : pieces.flatten = p.flatten) :
          handOn { limit } pieces = ([], breakOf limit p.flatten) := by
        have hspec := handOn_handsOn limit pieces
        refine Prod.ext ?_ ?_
        · have hinitial := hspec.initial
          rw [hpieces, hnil] at hinitial
          exact List.prefix_nil.mp hinitial
        · rw [← hpieces] at hgreeting ⊢
          exact hspec.error_iff.mpr fun h => hgreeting h.1
      rw [hone p rfl, hone q hq]

/-- Two streams whose pieces matter: a frame is lost with the broken header behind it, and the tag
of a classic greeting is not looked at if it comes after a length of zero. -/
theorem handOn_not_alike :
    handOn ⟨[], 16, false⟩ [[1, 0, 0, 0, 5], [0, 0, 0, 0]]
        = ([⟨5, []⟩], some (.violation .emptyFrame)) ∧
      handOn ⟨[], 16, false⟩ [[1, 0, 0, 0, 5, 0, 0, 0, 0]]
        = ([], some (.violation .emptyFrame)) ∧
      handOn ⟨[], 16, false⟩ [[0, 0, 0, 0], [10]] = ([], some (.violation .emptyFrame)) ∧
      handOn ⟨[], 16, false⟩ [[0, 0, 0, 0, 10]] = ([], some .notXProtocol) := by
  decide

end DocWire
