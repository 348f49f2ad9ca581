import DocWire.Proofs.Queue.Complete
import DocWire.Proofs.Queue.Isolation

/-!
# Keeping in step with the server

The server goes on with an answer that the client has failed to read, while the operation has left
the queue.  So the rest of the answer is handed to the next operation: a queue stays in step with
the server exactly if every answer but the last is well-formed, or the connection is lost.

* `pipelined`            operations that are all asked for before anything is answered;
* `Course.InStep`        each frame goes to the operation that it answers;
* `lost_or_inStep_iff`   when a queue stays in step;
* `not_inStep_shifted`   a statement that is settled by the answer to another.
-/

namespace DocWire

def asks (rounds : List Round) : List DeskStep := rounds.map fun r => .ask r.request

/-- The course of a desk where all operations are asked for and then frames come. -/
def answered (rounds : List Round) (frames : List Frame) : Course :=
  .after (asks rounds ++ frames.map .route)

/-- The course of a desk where all operations are asked for and then all answers come. -/
def pipelined (rounds : List Round) : Course := answered rounds (rounds.flatMap Round.answer)

namespace Course

/-- The connection is reported to be unusable. -/
def Lost (c : Course) : Prop := ∃ x ∈ c.log, ∃ e, x.result = .error e

/-- No frame is handed to an operation that it does not answer, and every caller is told what it
would be told alone. -/
structure InStep (c : Course) (rounds : List Round) : Prop where
  handed : ∀ (k : Nat) (r : Round) (j : Nat) (x : Handling), rounds[k]? = some r →
    j < r.answer.length → c.log[offset rounds k + j]? = some x →
    ∀ id, x.recipient = some id → id = k
  hears : ∀ (k : Nat) (r : Round), rounds[k]? = some r →
    told k c.given = told 0 (alone r.request r.answer).given

/-! ## Frames that nothing waits for -/

theorem log_follow (c : Course) (steps : List DeskStep) : c.log <+: (c.follow steps).log := by
  induction steps generalizing c with
  | nil => exact List.prefix_refl _
  | cons s rest ih =>
    refine List.IsPrefix.trans ?_ (ih (c.step s))
    cases s with
    | route frame => exact List.prefix_append _ _
    | ask what => exact List.prefix_refl _
    | consume n => exact List.prefix_refl _

theorem follow_idle {c : Course} (h : c.desk.queue.entries = []) (frames : List Frame) :
    (∀ id, told id (c.follow (frames.map .route)).given = told id c.given) ∧
      ∃ more, (c.follow (frames.map .route)).log = c.log ++ more ∧ ∀ x ∈ more, x.head = none := by
  induction frames generalizing c with
  | nil => exact ⟨fun _ => rfl, [], (List.append_nil _).symm, fun _ hx => absurd hx List.not_mem_nil⟩
  | cons frame rest ih =>
    obtain ⟨hentries, hquiet⟩ := WorkQueue.route_empty h frame
    have hnow : (c.step (.route frame)).desk.queue.entries = [] := hentries
    obtain ⟨htold, more, hlog, hmore⟩ := ih hnow
    refine ⟨fun id => ?_, ⟨c.desk.queue.ids.head?, frame, (c.desk.route frame).1⟩ :: more, ?_, ?_⟩
    · refine (htold id).trans ?_
      show told id (c.given ++ (c.desk.queue.route frame).deliveries) = _
      rw [told_append, hquiet, List.append_nil]
    · exact hlog.trans (List.append_assoc _ _ _)
    · intro x hx
      rcases List.mem_cons.mp hx with rfl | hrest
      · show c.desk.queue.ids.head? = none
        rw [WorkQueue.ids, h]
        rfl
      · exact hmore x hrest

/-- A frame that is for nobody leaves all operations waiting. -/
theorem ids_route_quiet {q : WorkQueue} {frame : Frame} (h : frame.isAddressed = false) :
    (q.route frame).queue.ids = q.ids := by
  unfold Frame.isAddressed at h
  rcases WorkQueue.decode_cases frame with ⟨e, hd⟩ | ⟨n, hd⟩ | ⟨reply, hd, hr⟩
  · rw [WorkQueue.route_of_error hd]
  · rw [WorkQueue.route_of_notice hd, WorkQueue.ids_routeNotice]
  · rw [hd] at h
    cases reply with
    | notice n => exact absurd rfl (hr n)
    | _ => cases h

theorem ids_follow_quiet {frames : List Frame} (h : ∀ frame ∈ frames, frame.isAddressed = false)
    (c : Course) : (c.follow (frames.map .route)).desk.queue.ids = c.desk.queue.ids := by
  induction frames generalizing c with
  | nil => rfl
  | cons frame rest ih =>
    refine (ih (fun f hf => h f (List.mem_cons_of_mem _ hf)) (c.step (.route frame))).trans ?_
    exact ids_route_quiet (h frame List.mem_cons_self)

end Course

theorem exists_first_not {α : Type} {p : α → Prop} {l : List α} (h : ¬ ∀ x ∈ l, p x) :
    ∃ before x after, l = before ++ x :: after ∧ (∀ y ∈ before, p y) ∧ ¬ p x := by
  induction l with
  | nil => exact absurd (fun _ hx => absurd hx List.not_mem_nil) h
  | cons a rest ih =>
    by_cases ha : p a
    · obtain ⟨before, x, after, rfl, hbefore, hx⟩ :=
        ih fun hrest => h (List.forall_mem_cons.mpr ⟨ha, hrest⟩)
      exact ⟨a :: before, x, after, rfl, List.forall_mem_cons.mpr ⟨ha, hbefore⟩, hx⟩
    · exact ⟨[], a, rest, rfl, fun _ hx => absurd hx List.not_mem_nil, ha⟩

/-! ## The answers up to a first part of one -/

theorem asked_asks (rounds : List Round) :
    DeskStep.asked (asks rounds) = rounds.map Round.request ∧
      DeskStep.routed (asks rounds) = [] := by
  induction rounds with
  | nil => exact ⟨rfl, rfl⟩
  | cons r rest ih => exact ⟨congrArg (r.request :: ·) ih.1, ih.2⟩

theorem asked_answered (rounds : List Round) (frames : List Frame) :
    DeskStep.asked (asks rounds ++ frames.map .route) = rounds.map Round.request ∧
      DeskStep.routed (asks rounds ++ frames.map .route) = frames := by
  rw [DeskStep.asked_append, DeskStep.routed_append, (asked_asks rounds).1, (asked_asks rounds).2,
    (DeskStep.of_routes frames).1, (DeskStep.of_routes frames).2.1]
  exact ⟨List.append_nil _, rfl⟩

theorem answered_append (rounds : List Round) (a b : List Frame) :
    answered rounds (a ++ b) = (answered rounds a).follow (b.map .route) := by
  unfold answered
  rw [List.map_append, ← List.append_assoc, Course.after_append]

/-- What is known of a frame from the frames before it. -/
theorem log_pipelined {rounds : List Round} {before more : List Frame} {frame : Frame}
    (h : rounds.flatMap Round.answer = before ++ frame :: more) :
    (pipelined rounds).log[before.length]?
      = some ⟨(answered rounds before).desk.queue.ids.head?, frame,
          ((answered rounds before).desk.route frame).1⟩ := by
  have hlen : (answered rounds before).log.length = before.length := by
    rw [← List.length_map Handling.frame]
    show ((Course.after _).log.map Handling.frame).length = _
    rw [Course.frames_log, (asked_answered _ _).2]
  have hall : pipelined rounds
      = ((answered rounds before).step (.route frame)).follow (more.map .route) := by
    unfold pipelined
    rw [h, answered_append]
    rfl
  obtain ⟨tail, htail⟩ :=
    Course.log_follow ((answered rounds before).step (.route frame)) (more.map .route)
  rw [hall, ← htail]
  show ((answered rounds before).log ++ [_] ++ tail)[_]? = _
  rw [List.append_assoc, ← hlen, List.getElem?_append_right (Nat.le_refl _), Nat.sub_self]
  rfl

theorem resembles_answered {rounds : List Round} {k : Nat} {r : Round} (h : rounds[k]? = some r)
    (frames : List Frame) :
    (answered rounds frames).Resembles k
      (Course.alone r.request ((answered rounds frames).share k)) := by
  apply Course.resembles_alone
  rw [(asked_answered rounds frames).1, List.getElem?_map, h]
  rfl

/-- Where everything has been asked for, answers to the first operations come in turn. -/
theorem inTurn_answered {rounds known : List Round} {frames : List Frame}
    (hrequests : known.map Round.request <+: rounds.map Round.request)
    (hframes : frames <+: known.flatMap Round.answer) :
    InTurn known (asks rounds ++ frames.map .route) := by
  refine ⟨fun k r what hr hwhat => ?_, fun before hbefore => ?_⟩
  · obtain ⟨more, hmore⟩ := hrequests
    have hk : k < (known.map Round.request).length := by
      rw [List.length_map]
      exact (List.getElem?_eq_some_iff.mp hr).1
    rw [(asked_answered rounds frames).1, ← hmore, List.getElem?_append_left hk,
      List.getElem?_map, hr] at hwhat
    exact (Option.some.inj hwhat).symm
  · rcases List.prefix_or_prefix_of_prefix hbefore (List.prefix_append (asks rounds) _) with
      hasks | ⟨some', rfl⟩
    · have hnil : DeskStep.routed before <+: [] := by
        rw [← (asked_asks rounds).2]
        exact hasks.filterMap _
      rw [List.prefix_nil.mp hnil]
      exact List.nil_prefix
    · have hsome : some' <+: frames.map .route := (List.prefix_append_right_inj _).mp hbefore
      have hrouted : DeskStep.routed (asks rounds ++ some') <+: frames := by
        rw [DeskStep.routed_append, (asked_asks rounds).2, List.nil_append]
        rw [← (DeskStep.of_routes frames).2.1]
        exact hsome.filterMap _
      have hall : known.length ≤ (DeskStep.asked (asks rounds ++ some')).length := by
        have hle := hrequests.length_le
        rw [List.length_map] at hle
        rw [DeskStep.asked_append, (asked_asks rounds).1, List.length_append]
        omega
      rw [List.take_of_length_le hall]
      exact hrouted.trans hframes

theorem getElem?_length_append (past : List Round) (r : Round) (later : List Round) :
    (past ++ r :: later)[past.length]? = some r := by
  rw [List.getElem?_append_right (Nat.le_refl _), Nat.sub_self]
  rfl

theorem offset_append (past later : List Round) :
    offset (past ++ later) past.length = (past.flatMap Round.answer).length := by
  unfold offset
  rw [List.take_left]

section
variable {past : List Round} (later : List Round) {r : Round} {first : List Frame}

/-- The answers before one and a first part of it. -/
theorem inTurn_first (past later : List Round) (r : Round) (first : List Frame) :
    InTurn (past ++ [⟨r.request, first⟩])
      (asks (past ++ r :: later) ++ (past.flatMap Round.answer ++ first).map .route) := by
  apply inTurn_answered
  · rw [List.map_append, List.map_append, List.map_cons, List.map_cons, List.map_nil]
    exact (List.prefix_append_right_inj _).mpr (List.prefix_append [r.request] _)
  · rw [List.flatMap_append, List.flatMap_singleton]

theorem exact_first (hpast : ∀ s ∈ past, s.Exact) (hfirst : (Round.mk r.request first).Exact) :
    ∀ s ∈ past ++ [Round.mk r.request first], s.Exact := by
  intro s hs
  rcases List.mem_append.mp hs with hold | hnew
  · exact hpast s hold
  · rw [List.mem_singleton.mp hnew]
    exact hfirst

theorem attributed_first (hpast : ∀ s ∈ past, s.Exact)
    (hfirst : (Round.mk r.request first).Exact) :
    Attributed (answered (past ++ r :: later) (past.flatMap Round.answer ++ first))
      (past ++ [⟨r.request, first⟩]) (past.flatMap Round.answer ++ first).length := by
  have h := attributed (exact_first hpast hfirst) (inTurn_first past later r first)
  rw [(asked_answered _ _).2] at h
  exact h

theorem offset_first (past : List Round) (r : Round) (first : List Frame) :
    offset (past ++ [⟨r.request, first⟩]) (past.length + 1)
      = (past.flatMap Round.answer ++ first).length := by
  rw [offset_succ List.getElem?_concat_length, offset_append, List.length_append]

/-- With the first part of its answer an operation has ended, and so have those before it. -/
theorem not_mem_ids_first (hpast : ∀ s ∈ past, s.Exact)
    (hfirst : (Round.mk r.request first).Exact) {i : Nat} (hi : i ≤ past.length) :
    i ∉ (answered (past ++ r :: later)
      (past.flatMap Round.answer ++ first)).desk.queue.ids := by
  intro hmem
  have hlt : i < (past ++ [Round.mk r.request first]).length := by
    rw [List.length_append, List.length_singleton]
    omega
  have hs := List.getElem?_eq_getElem hlt
  have hexact := exact_first hpast hfirst _ (List.getElem_mem hlt)
  have hasked : i < (DeskStep.asked (asks (past ++ r :: later)
      ++ (past.flatMap Round.answer ++ first).map .route)).length := by
    rw [(asked_answered _ _).1, List.length_map, List.length_append, List.length_cons]
    omega
  have hwaits := ((attributed_first later hpast hfirst).mem_ids_iff (inTurn_first past later r first)
    hexact hs hasked).mp hmem
  rw [← offset_first past r first] at hwaits
  have hmono : offset (past ++ [⟨r.request, first⟩]) (i + 1)
      ≤ offset (past ++ [⟨r.request, first⟩]) (past.length + 1) := offset_mono _ (by omega)
  omega

theorem share_first (hpast : ∀ s ∈ past, s.Exact) (hfirst : (Round.mk r.request first).Exact)
    {k : Nat} {s : Round} (hs : (past ++ [⟨r.request, first⟩])[k]? = some s) :
    (answered (past ++ r :: later) (past.flatMap Round.answer ++ first)).share k = s.answer := by
  refine ((attributed_first later hpast hfirst).share k s hs).trans (List.take_of_length_le ?_)
  have hk := (List.getElem?_eq_some_iff.mp hs).1
  rw [List.length_append, List.length_singleton] at hk
  have hmono : offset (past ++ [⟨r.request, first⟩]) (k + 1)
      ≤ offset (past ++ [⟨r.request, first⟩]) (past.length + 1) := offset_mono _ (by omega)
  rw [offset_succ hs, offset_first] at hmono
  omega

/-- No frame of these answers came for an operation behind them. -/
theorem share_behind (hpast : ∀ s ∈ past, s.Exact) (hfirst : (Round.mk r.request first).Exact) :
    (answered (past ++ r :: later) (past.flatMap Round.answer ++ first)).share (past.length + 1)
      = [] := by
  have hattr := attributed_first later hpast hfirst
  unfold Course.share Course.logOf
  rw [List.map_eq_nil_iff, List.filter_eq_nil_iff]
  intro x hx hhead
  obtain ⟨j, hj⟩ := List.getElem?_of_mem hx
  obtain ⟨k, hk, hle, hlt⟩ := hattr.heads j x hj
  obtain ⟨s, hs⟩ := exists_of_offset_lt (Nat.lt_of_le_of_lt hle hlt)
  have hlen := (List.getElem?_eq_some_iff.mp hs).1
  rw [List.length_append, List.length_singleton] at hlen
  have hkeq : k = past.length + 1 := Option.some.inj (hk.symm.trans (of_decide_eq_true hhead))
  omega

/-- Then the next operation is at the head. -/
theorem head_first {next : Round} (hpast : ∀ s ∈ past, s.Exact)
    (hfirst : (Round.mk r.request first).Exact) :
    (answered (past ++ r :: next :: later)
      (past.flatMap Round.answer ++ first)).desk.queue.ids.head? = some (past.length + 1) := by
  have hnum := Course.numbered (asks (past ++ r :: next :: later)
    ++ (past.flatMap Round.answer ++ first).map .route)
  refine head?_of_sorted hnum.sorted ?_ ?_
  · have hnext : (past ++ r :: next :: later)[past.length + 1]? = some next := by
      rw [List.getElem?_append_right (Nat.le_add_right _ _), Nat.add_sub_cancel_left]
      rfl
    have hsame := resembles_answered hnext (past.flatMap Round.answer ++ first)
    rw [share_behind (next :: later) hpast hfirst] at hsame
    exact hsame.mem_ids_iff.mpr (Option.some_ne_none _)
  · intro i hi
    by_contra hik
    exact not_mem_ids_first (next :: later) hpast hfirst (by omega) hi

/-- **What is left of an answer goes to the next operation.** -/
theorem not_inStep_of_rest {next : Round} {rest : List Frame} (hpast : ∀ s ∈ past, s.Exact)
    (hfirst : (Round.mk r.request first).Exact) (hanswer : r.answer = first ++ rest) {g : Frame}
    (hg : g ∈ rest) (haddressed : g.isAddressed = true) :
    ¬ (pipelined (past ++ r :: next :: later)).InStep (past ++ r :: next :: later) := by
  intro h
  have hsome : ¬ ∀ frame ∈ rest, frame.isAddressed = false := by
    intro hnone
    rw [hnone g hg] at haddressed
    cases haddressed
  obtain ⟨quiet, g', more, rfl, hquiet, hg'⟩ := exists_first_not hsome
  let before := past.flatMap Round.answer ++ first ++ quiet
  have hhead : (answered (past ++ r :: next :: later) before).desk.queue.ids.head?
      = some (past.length + 1) := by
    rw [answered_append, Course.ids_follow_quiet hquiet]
    exact head_first later hpast hfirst
  have hflat : (past ++ r :: next :: later).flatMap Round.answer
      = before ++ (g' :: (more ++ (next :: later).flatMap Round.answer)) := by
    rw [List.flatMap_append, List.flatMap_cons, hanswer]
    simp [before]
  have hx := log_pipelined hflat
  rw [hhead] at hx
  have hk := getElem?_length_append past r (next :: later)
  have hposition : offset (past ++ r :: next :: later) past.length + (first.length + quiet.length)
      = before.length := by
    rw [offset_append, List.length_append, List.length_append, Nat.add_assoc]
  rw [← hposition] at hx
  have hin : first.length + quiet.length < r.answer.length := by
    rw [hanswer, List.length_append, List.length_append, List.length_cons]
    omega
  have hself := h.handed past.length r _ _ hk hin hx (past.length + 1)
    (if_pos (Bool.of_not_eq_false hg'))
  omega

/-! ## In step -/

theorem offset_append_of_le {m : Nat} (h : m ≤ past.length) (later : List Round) :
    offset (past ++ later) m = offset past m := by
  unfold offset
  rw [List.take_append_of_le_length h]

/-- Answers that begin in the same way have the same frames in the same places. -/
theorem place_unique {answer : List Frame} {k i n : Nat}
    (hk : offset (past ++ [r]) k ≤ n ∧ n < offset (past ++ [r]) (k + 1))
    (hi : offset (past ++ [⟨r.request, answer⟩]) i ≤ n ∧
      n < offset (past ++ [⟨r.request, answer⟩]) (i + 1)) : i = k := by
  have hlast {m : Nat} {s : Round}
      (hm : offset (past ++ [s]) m < offset (past ++ [s]) (m + 1)) : m ≤ past.length := by
    obtain ⟨t, ht⟩ := exists_of_offset_lt hm
    have := (List.getElem?_eq_some_iff.mp ht).1
    rw [List.length_append, List.length_singleton] at this
    omega
  have hkle : k ≤ past.length := hlast (Nat.lt_of_le_of_lt hk.1 hk.2)
  have hile : i ≤ past.length := hlast (Nat.lt_of_le_of_lt hi.1 hi.2)
  rcases Nat.lt_trichotomy i k with hlt | heq | hgt
  · have hmono : offset (past ++ [r]) (i + 1) ≤ offset (past ++ [r]) k := offset_mono _ hlt
    rw [offset_append_of_le (Nat.le_trans hlt hkle)] at hi hmono
    omega
  · exact heq
  · have hmono : offset (past ++ [⟨r.request, answer⟩]) (k + 1)
        ≤ offset (past ++ [⟨r.request, answer⟩]) i := offset_mono _ hgt
    rw [offset_append_of_le (Nat.le_trans hgt hile)] at hk hmono
    omega

end

section
variable {past : List Round} {r : Round} {first rest : List Frame}

theorem entries_first (hpast : ∀ s ∈ past, s.Exact) (hfirst : (Round.mk r.request first).Exact) :
    (answered (past ++ [r]) (past.flatMap Round.answer ++ first)).desk.queue.entries = [] := by
  have hnum := Course.numbered (asks (past ++ [r])
    ++ (past.flatMap Round.answer ++ first).map .route)
  have hids : (answered (past ++ [r])
      (past.flatMap Round.answer ++ first)).desk.queue.ids = [] := by
    apply List.eq_nil_iff_forall_not_mem.mpr
    intro i hi
    have hlt := hnum.ids i hi
    rw [hnum.nextId, (asked_answered _ _).1, List.length_map, List.length_append,
      List.length_singleton] at hlt
    exact not_mem_ids_first [] hpast hfirst (Nat.le_of_lt_succ hlt) hi
  exact List.map_eq_nil_iff.mp hids

/-- What comes after the end of an operation tells its caller nothing. -/
theorem told_alone_first (hfirst : (Round.mk r.request first).Exact)
    (hanswer : r.answer = first ++ rest) :
    told 0 (Course.alone r.request r.answer).given
      = told 0 (Course.alone r.request first).given := by
  have hnone : r.request.operation.through first = none :=
    (hfirst first [] (List.append_nil _).symm).mpr rfl
  have hentries := Course.entries_alone r.request first
  rw [hnone] at hentries
  rw [hanswer, Course.alone_append]
  exact (Course.follow_idle hentries rest).1 0

/-- With these answers the operations were told what they are told alone. -/
theorem told_first (hpast : ∀ s ∈ past, s.Exact) (hfirst : (Round.mk r.request first).Exact)
    (hanswer : r.answer = first ++ rest) {k : Nat} {s : Round} (hs : (past ++ [r])[k]? = some s) :
    told k (answered (past ++ [r]) (past.flatMap Round.answer ++ first)).given
      = told 0 (Course.alone s.request s.answer).given := by
  have hhears := (resembles_answered hs (past.flatMap Round.answer ++ first)).hears
  by_cases hk : k < past.length
  · rw [List.getElem?_append_left hk] at hs
    have ht : (past ++ [⟨r.request, first⟩])[k]? = some s := by
      rw [List.getElem?_append_left hk]
      exact hs
    rw [share_first [] hpast hfirst ht] at hhears
    exact hhears
  · have hkeq : k = past.length := by
      have := (List.getElem?_eq_some_iff.mp hs).1
      rw [List.length_append, List.length_singleton] at this
      omega
    subst hkeq
    rw [List.getElem?_concat_length] at hs
    obtain rfl := Option.some.inj hs
    rw [share_first [] hpast hfirst List.getElem?_concat_length] at hhears
    rw [told_alone_first hfirst hanswer]
    exact hhears

/-- **While only the last answer cannot be read, each frame goes to the operation it answers.** -/
theorem inStep_of_exact (hpast : ∀ s ∈ past, s.Exact) (hfirst : (Round.mk r.request first).Exact)
    (hanswer : r.answer = first ++ rest) : (pipelined (past ++ [r])).InStep (past ++ [r]) := by
  have hpipelined : pipelined (past ++ [r])
      = (answered (past ++ [r]) (past.flatMap Round.answer ++ first)).follow
          (rest.map .route) := by
    rw [← answered_append, List.append_assoc, ← hanswer]
    unfold pipelined
    rw [List.flatMap_append, List.flatMap_singleton]
  obtain ⟨htold, more, hlog, hmore⟩ :=
    Course.follow_idle (entries_first hpast hfirst) rest
  have hattr := attributed_first [] hpast hfirst
  refine ⟨?_, ?_⟩
  · intro k s j x hs hj hx id hid
    have hhead := Handling.head_of_recipient hid
    rw [hpipelined, hlog] at hx
    by_cases hlt : offset (past ++ [r]) k + j
        < (answered (past ++ [r]) (past.flatMap Round.answer ++ first)).log.length
    · rw [List.getElem?_append_left hlt] at hx
      obtain ⟨i, hi, hle, hlt'⟩ := hattr.heads _ x hx
      obtain rfl : i = id := Option.some.inj (hi.symm.trans hhead)
      refine place_unique ⟨Nat.le_add_right _ j, ?_⟩ ⟨hle, hlt'⟩
      rw [offset_succ hs]
      omega
    · rw [List.getElem?_append_right (Nat.le_of_not_lt hlt)] at hx
      rw [hmore x (List.mem_of_getElem? hx)] at hhead
      cases hhead
  · intro k s hs
    rw [hpipelined, htold k]
    exact told_first hpast hfirst hanswer hs

/-- An answer that is followed by another is well-formed if the queue stays in step. -/
theorem wellFormed_of_inStep {next : Round} {later : List Round} (hpast : ∀ s ∈ past, s.Exact)
    (hr : r.Complete) (hlost : ¬ (pipelined (past ++ r :: next :: later)).Lost)
    (hstep : (pipelined (past ++ r :: next :: later)).InStep (past ++ r :: next :: later)) :
    r.WellFormed := by
  obtain ⟨first, rest, hanswer, hfirst⟩ := hr.exists_exact
  cases rest with
  | nil =>
    rw [List.append_nil] at hanswer
    subst hanswer
    refine hr.wellFormed hfirst fun x hx e he => hlost ?_
    have hsame := (resembles_answered (getElem?_length_append past r (next :: later))
      (past.flatMap Round.answer ++ r.answer)).results
    rw [share_first (next :: later) hpast hfirst List.getElem?_concat_length] at hsame
    have hmem := List.mem_map_of_mem (f := Handling.result) hx
    rw [← hsame] at hmem
    obtain ⟨y, hy, hyx⟩ := List.mem_map.mp hmem
    have hflat : (past ++ r :: next :: later).flatMap Round.answer
        = past.flatMap Round.answer ++ r.answer ++ (next :: later).flatMap Round.answer := by
      rw [List.flatMap_append, List.flatMap_cons, List.append_assoc]
    refine ⟨y, ?_, e, hyx.trans he⟩
    unfold pipelined
    rw [hflat, answered_append]
    exact (Course.log_follow _ _).subset (List.mem_filter.mp hy).1
  | cons g rest =>
    -- the last frame of the answer is left over, and is for some operation
    obtain ⟨body, last, reply, hbody, _, hd, hend⟩ := hr.split
    have hlast : last ∈ g :: rest := by
      have h : (first ++ g :: rest).getLast? = some last := by
        rw [← hanswer, hbody, List.getLast?_concat]
      rw [List.getLast?_append_of_ne_nil _ (List.cons_ne_nil g rest)] at h
      exact List.mem_of_getLast? h
    have haddressed : last.isAddressed = true := by
      unfold Frame.isAddressed
      rw [hd]
      cases reply with
      | notice n => cases hrequest : r.request <;> rw [hrequest] at hend <;> cases hend
      | _ => rfl
    exact absurd hstep (not_inStep_of_rest later hpast hfirst hanswer hlast haddressed)

end

/-- **A queue stays in step with the server exactly if every answer but the last is well-formed**,
or the connection is lost.  An answer that the client fails to read is enough to hand what is left
of it to the operation behind. -/
theorem lost_or_inStep_iff (rounds : List Round) (h : ∀ r ∈ rounds, r.Complete) :
    ((pipelined rounds).Lost ∨ (pipelined rounds).InStep rounds) ↔
      ((pipelined rounds).Lost ∨ ∀ r ∈ rounds.dropLast, r.WellFormed) := by
  by_cases hlost : (pipelined rounds).Lost
  · exact iff_of_true (Or.inl hlost) (Or.inl hlost)
  rw [or_iff_right hlost, or_iff_right hlost]
  rcases List.eq_nil_or_concat rounds with rfl | ⟨init, r, rfl⟩
  · refine iff_of_true ⟨?_, ?_⟩ fun _ hr => absurd hr List.not_mem_nil
    · intro k r j x hr
      cases hr
    · intro k r hr
      cases hr
  rw [List.concat_eq_append] at h hlost ⊢
  rw [List.dropLast_concat]
  constructor
  · intro hstep
    by_contra hbad
    obtain ⟨past, s, more, rfl, hpast, hs⟩ := exists_first_not hbad
    have hexact : ∀ t ∈ past, t.Exact := fun t ht => Round.exact_of_wellFormed (hpast t ht)
    obtain ⟨next, later, hnext⟩ : ∃ next later, more ++ [r] = next :: later :=
      List.exists_cons_of_ne_nil (List.append_ne_nil_of_right_ne_nil more (List.cons_ne_nil r []))
    rw [List.append_assoc, List.cons_append, hnext] at h hlost hstep
    exact hs (wellFormed_of_inStep hexact
      (h s (List.mem_append_right past List.mem_cons_self)) hlost hstep)
  · intro hinit
    obtain ⟨first, rest, hanswer, hfirst⟩ :=
      (h r (List.mem_append_right init (List.mem_singleton_self r))).exists_exact
    exact inStep_of_exact (fun s hs => Round.exact_of_wellFormed (hinit s hs)) hfirst hanswer

/-- A statement whose row is too wide for its columns, and another statement. -/
def shifted : List Round :=
  [⟨.statement, [⟨12, [8, 1]⟩, ⟨13, [10, 1, 2, 10, 1, 3]⟩, ⟨14, []⟩, ⟨17, []⟩]⟩,
   ⟨.statement, [⟨12, [8, 1]⟩, ⟨13, [10, 1, 4]⟩, ⟨14, []⟩, ⟨17, []⟩]⟩]

theorem complete_shifted : ∀ r ∈ shifted, r.Complete := by
  have hbody (fields : List UInt8) (h : ∃ f, Reply.decode ⟨13, fields⟩ = .ok (.row f)) :
      ∀ frame ∈ [⟨12, [8, 1]⟩, ⟨13, fields⟩, ⟨14, []⟩], ∃ reply,
        Reply.decode frame = .ok reply ∧ Ask.statement.endedBy reply = false := by
    obtain ⟨f, hf⟩ := h
    rw [List.forall_mem_cons, List.forall_mem_cons, List.forall_mem_singleton]
    exact ⟨⟨_, rfl, rfl⟩, ⟨_, hf, rfl⟩, ⟨_, rfl, rfl⟩⟩
  unfold shifted
  rw [List.forall_mem_cons, List.forall_mem_singleton]
  exact ⟨⟨_, _, _, rfl, hbody _ ⟨_, rfl⟩, rfl, rfl⟩, ⟨_, _, _, rfl, hbody _ ⟨_, rfl⟩, rfl, rfl⟩⟩

/-- The other way round nobody is disturbed. -/
theorem lost_or_inStep_reverse :
    (∀ r ∈ shifted.reverse, r.Complete) ∧
      ((pipelined shifted.reverse).Lost ∨ (pipelined shifted.reverse).InStep shifted.reverse) := by
  have hcomplete : ∀ r ∈ shifted.reverse, r.Complete :=
    fun r hr => complete_shifted r (List.mem_reverse.mp hr)
  refine ⟨hcomplete, (lost_or_inStep_iff shifted.reverse hcomplete).mpr (Or.inr ?_)⟩
  intro r hr
  obtain rfl := List.mem_singleton.mp hr
  exact .column rfl (.row rfl (by decide) rfl (.setEnd rfl rfl (.last rfl rfl rfl)))

/-- **What is left of the first answer settles the second statement**, and nothing is reported. -/
theorem not_inStep_shifted :
    (∀ r ∈ shifted, r.Complete) ∧
      ¬ ((pipelined shifted).Lost ∨ (pipelined shifted).InStep shifted) := by
  refine ⟨complete_shifted, ?_⟩
  rintro (⟨x, hx, e, he⟩ | hstep)
  · have hok : ∀ x ∈ (pipelined shifted).log, x.result.toBool = true := by decide
    have hx' := hok x hx
    rw [he] at hx'
    cases hx'
  · have hthird : ((pipelined shifted).log[2]?).bind Handling.recipient = some 1 := rfl
    obtain ⟨x, hx, hrecipient⟩ := Option.bind_eq_some_iff.mp hthird
    have hself := hstep.handed 0 _ 2 x rfl (by decide) hx 1 hrecipient
    exact absurd hself (by decide)

end DocWire
