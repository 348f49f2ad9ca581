import DocWire.Proofs.Queue.Alone
import DocWire.Proofs.Queue.Answers
import DocWire.Proofs.Queue.Holdings
import Mathlib.Data.List.Infix

/-!
# Operations that share a connection

Clients ask without waiting for answers, and the server answers in the order in which it was asked.
While the answers are well-formed, the frames of each come while its own operation is at the head:
so every operation does what it would do on a connection of its own.

* `offset`                   how many frames stand before an answer;
* `InTurn`, `Interleaved`    answers come in order, and none before it was asked for;
* `attributed`               each frame finds its own operation at the head;
* `operations_isolated`      operations do not disturb each other.
-/

namespace DocWire

/-- The number of frames in the answers before one. -/
def offset (rounds : List Round) (k : Nat) : Nat := ((rounds.take k).flatMap Round.answer).length

section
variable {rounds : List Round} {r : Round} {k : Nat}

theorem offset_cons (r : Round) (rounds : List Round) (k : Nat) :
    offset (r :: rounds) (k + 1) = r.answer.length + offset rounds k := by
  unfold offset
  rw [List.take_succ_cons, List.flatMap_cons, List.length_append]

theorem offset_succ (h : rounds[k]? = some r) :
    offset rounds (k + 1) = offset rounds k + r.answer.length := by
  unfold offset
  rw [List.take_add_one, h, List.flatMap_append, List.length_append]
  show _ = _ + r.answer.length
  rw [Option.toList_some, List.flatMap_singleton]

theorem offset_mono (rounds : List Round) {i k : Nat} (h : i ≤ k) :
    offset rounds i ≤ offset rounds k := by
  obtain ⟨more, hmore⟩ := List.take_prefix_take_left (l := rounds) h
  unfold offset
  rw [← hmore, List.flatMap_append, List.length_append]
  exact Nat.le_add_right _ _

theorem offset_take {m : Nat} (h : k ≤ m) : offset (rounds.take m) k = offset rounds k := by
  unfold offset
  rw [List.take_take, Nat.min_eq_left h]

theorem exists_of_offset_lt (h : offset rounds k < offset rounds (k + 1)) :
    ∃ r, rounds[k]? = some r := by
  cases hr : rounds[k]? with
  | some r => exact ⟨r, rfl⟩
  | none =>
    unfold offset at h
    rw [List.take_add_one, hr, Option.toList_none, List.append_nil] at h
    exact absurd h (Nat.lt_irrefl _)

/-- Every frame stands in one of the answers. -/
theorem locate {n : Nat} {frame : Frame} (h : (rounds.flatMap Round.answer)[n]? = some frame) :
    ∃ k r, rounds[k]? = some r ∧ offset rounds k ≤ n ∧
      r.answer[n - offset rounds k]? = some frame := by
  induction rounds generalizing n with
  | nil => cases h
  | cons r rest ih =>
    rw [List.flatMap_cons] at h
    by_cases hn : n < r.answer.length
    · rw [List.getElem?_append_left hn] at h
      exact ⟨0, r, rfl, Nat.zero_le n, h⟩
    · rw [List.getElem?_append_right (Nat.le_of_not_lt hn)] at h
      obtain ⟨k, s, hk, hle, hs⟩ := ih h
      refine ⟨k + 1, s, hk, ?_, ?_⟩
      · rw [offset_cons]
        omega
      · rw [offset_cons, ← Nat.sub_sub]
        exact hs

end

/-! ## Each frame finds its operation at the head -/

/-- The answers come one after another, and none of an answer comes before its operation was asked
for. -/
structure InTurn (rounds : List Round) (steps : List DeskStep) : Prop where
  agrees : ∀ (k : Nat) (r : Round) what, rounds[k]? = some r → (DeskStep.asked steps)[k]? = some what →
    what = r.request
  routed : ∀ before, before <+: steps →
    DeskStep.routed before
      <+: (rounds.take (DeskStep.asked before).length).flatMap Round.answer

theorem InTurn.init {rounds : List Round} {steps : List DeskStep} {s : DeskStep}
    (h : InTurn rounds (steps ++ [s])) : InTurn rounds steps := by
  refine ⟨fun k r what hr hwhat => h.agrees k r what hr ?_, fun before hbefore => h.routed before ?_⟩
  · rw [DeskStep.asked_append, List.getElem?_append_left (List.getElem?_eq_some_iff.mp hwhat).1]
    exact hwhat
  · exact hbefore.trans (List.prefix_append steps [s])

/-- After `n` frames each operation had the frames of its own answer that are among them. -/
structure Attributed (c : Course) (rounds : List Round) (n : Nat) : Prop where
  share : ∀ k r, rounds[k]? = some r → c.share k = r.answer.take (n - offset rounds k)
  length : c.log.length = n
  heads : ∀ (j : Nat) x, c.log[j]? = some x →
    ∃ k, x.head = some k ∧ offset rounds k ≤ j ∧ j < offset rounds (k + 1)

theorem head?_of_sorted {l : List Nat} (h : l.Pairwise (· < ·)) {k : Nat} (hk : k ∈ l)
    (hle : ∀ i ∈ l, k ≤ i) : l.head? = some k := by
  cases l with
  | nil => cases hk
  | cons i rest =>
    rcases List.mem_cons.mp hk with rfl | hrest
    · rfl
    · have hlt := (List.pairwise_cons.mp h).1 k hrest
      have hki := hle i List.mem_cons_self
      omega

section
variable {rounds : List Round} {steps : List DeskStep}

/-- An operation waits until its answer is complete. -/
theorem Attributed.mem_ids_iff {n : Nat} (h : Attributed (Course.after steps) rounds n)
    (hturn : InTurn rounds steps) {k : Nat} {r : Round} (hexact : r.Exact)
    (hr : rounds[k]? = some r) (hk : k < (DeskStep.asked steps).length) :
    k ∈ (Course.after steps).desk.queue.ids ↔ n < offset rounds (k + 1) := by
  have hwhat := List.getElem?_eq_getElem hk
  have hsame := Course.resembles_alone steps hwhat
  rw [hturn.agrees k r _ hr hwhat, h.share k r hr] at hsame
  have hend := hexact (r.answer.take (n - offset rounds k)) (r.answer.drop (n - offset rounds k))
    (List.take_append_drop _ _).symm
  have hpos : 0 < r.answer.length := List.length_pos_iff.mpr hexact.ne_nil
  rw [hsame.mem_ids_iff, offset_succ hr, Ne, hend, List.drop_eq_nil_iff]
  omega

/-- **The next frame finds its operation at the head.** -/
theorem Attributed.head {frame : Frame}
    (h : Attributed (Course.after steps) rounds (DeskStep.routed steps).length)
    (hturn : InTurn rounds (steps ++ [.route frame])) (hexact : ∀ r ∈ rounds, r.Exact) :
    ∃ k r, rounds[k]? = some r ∧ (Course.after steps).desk.queue.ids.head? = some k ∧
      offset rounds k ≤ (DeskStep.routed steps).length ∧
      r.answer[(DeskStep.routed steps).length - offset rounds k]? = some frame := by
  have hprefix := hturn.routed _ (List.prefix_refl _)
  rw [DeskStep.routed_append, DeskStep.asked_append,
    show DeskStep.asked [.route frame] = [] from rfl, List.append_nil,
    show DeskStep.routed [.route frame] = [frame] from rfl] at hprefix
  obtain ⟨more, hmore⟩ := hprefix
  have hframe : ((rounds.take (DeskStep.asked steps).length).flatMap
      Round.answer)[(DeskStep.routed steps).length]? = some frame := by
    rw [← hmore, List.append_assoc, List.getElem?_append_right (Nat.le_refl _), Nat.sub_self]
    rfl
  obtain ⟨k, r, hk, hle, hr⟩ := locate hframe
  have hkm : k < (DeskStep.asked steps).length := by
    have hlt := (List.getElem?_eq_some_iff.mp hk).1
    rw [List.length_take] at hlt
    exact (Nat.lt_min.mp hlt).1
  rw [List.getElem?_take_of_lt hkm] at hk
  rw [offset_take (Nat.le_of_lt hkm)] at hle hr
  have hlt : (DeskStep.routed steps).length < offset rounds (k + 1) := by
    have := (List.getElem?_eq_some_iff.mp hr).1
    rw [offset_succ hk]
    omega
  refine ⟨k, r, hk, ?_, hle, hr⟩
  have hnum := Course.numbered steps
  refine head?_of_sorted hnum.sorted ?_ ?_
  · exact (h.mem_ids_iff hturn.init (hexact r (List.mem_of_getElem? hk)) hk hkm).mpr hlt
  · -- the operations before this one had all frames of their answers
    intro i hi
    by_contra hik
    have hik : i < k := Nat.lt_of_not_le hik
    obtain ⟨s, hs⟩ : ∃ s, rounds[i]? = some s :=
      ⟨_, List.getElem?_eq_getElem (Nat.lt_trans hik (List.getElem?_eq_some_iff.mp hk).1)⟩
    have hwaits := (h.mem_ids_iff hturn.init (hexact s (List.mem_of_getElem? hs)) hs
      (Nat.lt_trans hik hkm)).mp hi
    have hmono : offset rounds (i + 1) ≤ offset rounds k := offset_mono rounds hik
    omega

theorem Attributed.route {frame : Frame}
    (h : Attributed (Course.after steps) rounds (DeskStep.routed steps).length)
    (hturn : InTurn rounds (steps ++ [.route frame])) (hexact : ∀ r ∈ rounds, r.Exact) :
    Attributed (Course.after (steps ++ [.route frame])) rounds
      ((DeskStep.routed steps).length + 1) := by
  obtain ⟨k, r, hk, hhead, hle, hframe⟩ := h.head hturn hexact
  have hlt := (List.getElem?_eq_some_iff.mp hframe).1
  have hsucc := offset_succ hk
  rw [Course.after_concat]
  refine ⟨?_, ?_, ?_⟩
  · intro i s hs
    rw [Course.share_route, h.share i s hs, hhead]
    by_cases hik : i = k
    · subst hik
      obtain rfl : r = s := Option.some.inj (hk.symm.trans hs)
      rw [if_pos rfl, Nat.sub_add_comm hle, List.take_add_one, hframe]
      rfl
    · rw [if_neg (fun he => hik (Option.some.inj he).symm), List.append_nil]
      rcases Nat.lt_or_gt_of_ne hik with hbefore | hafter
      · have hmono : offset rounds (i + 1) ≤ offset rounds k := offset_mono rounds hbefore
        have hsucc' := offset_succ hs
        rw [List.take_of_length_le (by omega), List.take_of_length_le (by omega)]
      · have hmono : offset rounds (k + 1) ≤ offset rounds i := offset_mono rounds hafter
        rw [show (DeskStep.routed steps).length - offset rounds i = 0 by omega,
          show (DeskStep.routed steps).length + 1 - offset rounds i = 0 by omega]
  · show ((Course.after steps).log ++ [_]).length = _
    rw [List.length_append, h.length]
    rfl
  · intro j x hx
    change ((Course.after steps).log ++ [_])[j]? = some x at hx
    by_cases hj : j < (Course.after steps).log.length
    · rw [List.getElem?_append_left hj] at hx
      exact h.heads j x hx
    · rw [List.getElem?_append_right (Nat.le_of_not_lt hj)] at hx
      have hj' : j - (Course.after steps).log.length = 0 := by
        have := (List.getElem?_eq_some_iff.mp hx).1
        rw [List.length_singleton] at this
        omega
      rw [hj'] at hx
      obtain rfl := Option.some.inj hx
      rw [h.length] at hj hj'
      exact ⟨k, hhead, by omega, by omega⟩

/-- **Each frame finds its own operation at the head**, in whatever order operations are asked for
and answers come. -/
theorem attributed (hexact : ∀ r ∈ rounds, r.Exact) (h : InTurn rounds steps) :
    Attributed (Course.after steps) rounds (DeskStep.routed steps).length := by
  induction steps using List.reverseRecOn with
  | nil =>
    refine ⟨fun k r _ => ?_, rfl, fun j x hx => by cases hx⟩
    show [] = r.answer.take (0 - offset rounds k)
    rw [Nat.zero_sub]
    rfl
  | append_singleton steps s ih =>
    have hbefore := ih h.init
    cases s with
    | route frame =>
      rw [DeskStep.routed_append, List.length_append]
      exact hbefore.route h hexact
    | ask what =>
      rw [DeskStep.routed_append, List.length_append, Course.after_concat]
      exact ⟨hbefore.share, hbefore.length, hbefore.heads⟩
    | consume n =>
      rw [DeskStep.routed_append, List.length_append, Course.after_concat]
      exact ⟨hbefore.share, hbefore.length, hbefore.heads⟩

end

/-! ## Isolation -/

/-- Operations are asked for, answers are routed and executions are given up in any order, except
that the answers come one after another in the order in which the operations were asked for, and no
frame of an answer before its operation was. -/
structure Interleaved (rounds : List Round) (steps : List DeskStep) : Prop where
  asked : DeskStep.asked steps <+: rounds.map Round.request
  routed : ∀ before, before <+: steps →
    DeskStep.routed before
      <+: (rounds.take (DeskStep.asked before).length).flatMap Round.answer

theorem Interleaved.inTurn {rounds : List Round} {steps : List DeskStep}
    (h : Interleaved rounds steps) : InTurn rounds steps := by
  refine ⟨fun k r what hr hwhat => ?_, h.routed⟩
  obtain ⟨more, hmore⟩ := h.asked
  have hmap : (rounds.map Round.request)[k]? = some what := by
    rw [← hmore, List.getElem?_append_left (List.getElem?_eq_some_iff.mp hwhat).1]
    exact hwhat
  rw [List.getElem?_map, hr] at hmap
  exact (Option.some.inj hmap).symm

namespace Course

/-- The caller of an operation of the course `c` holds what the caller of the only operation of the
course `a` holds, unless it gave its execution up. -/
def HoldsLike (c : Course) (consumed : List Nat) (id : Nat) (a : Course) : Ask → Prop
  | .statement => ∃ (n m : Nat) (x : Execution) (content : Option Execution),
      a.desk.callers.executions[m]? = some ⟨some 0, some x⟩ ∧
      c.desk.callers.executions[n]? = some ⟨some id, content⟩ ∧
      (n ∈ consumed ∨ content = some x)
  | .single => ∃ (n m : Nat) (w : Awaited Settlement),
      a.desk.callers.replies[m]? = some ⟨some 0, some w⟩ ∧
      c.desk.callers.replies[n]? = some ⟨some id, some w⟩

theorem holdsLike_of_told {steps : List DeskStep} {id : Nat} {what : Ask} {frames : List Frame}
    (h : (DeskStep.asked steps)[id]? = some what)
    (htold : told id (after steps).given = told 0 (alone what frames).given) :
    (after steps).HoldsLike (DeskStep.consumed steps) id (alone what frames) what := by
  have hshared := holds_of_asked steps h
  have halone : (alone what frames).Holds [] 0 what := by
    rw [← (DeskStep.of_routes frames).2.2]
    exact holds_of_asked (.ask what :: frames.map .route) rfl
  cases what with
  | statement =>
    obtain ⟨n, content, hn, hcontent⟩ := hshared
    obtain ⟨m, content', hm, hnone | rfl⟩ := halone
    · exact absurd hnone List.not_mem_nil
    · rw [htold] at hcontent
      exact ⟨n, m, _, content, hm, hn, hcontent⟩
  | single =>
    obtain ⟨n, hn⟩ := hshared
    obtain ⟨m, hm⟩ := halone
    rw [htold] at hn
    exact ⟨n, m, _, hm, hn⟩

/-- An operation of which some frames of the answer have come does at a desk what it does alone: it
was handed the messages and local notices among them, it waits until they are the whole answer, and
is settled, once, by the last of them. -/
structure Isolated (c : Course) (consumed : List Nat) (id : Nat) (r : Round)
    (come : List Frame) : Prop where
  handed : c.handed id = come.filter Frame.isAddressed
  waits : id ∈ c.desk.queue.ids ↔ come ≠ r.answer
  hears : told id c.given = told 0 (alone r.request come).given
  holds : c.HoldsLike consumed id (alone r.request come) r.request
  unsettled : come ≠ r.answer → ∀ s, Told.settled s ∉ told id c.given
  settled : come = r.answer → ∃ before s, told id c.given = before ++ [.settled s] ∧
    (∀ s, Told.settled s ∉ before) ∧ s.isFor r.request = true

theorem isolated_of_share {steps : List DeskStep} {id : Nat} {r : Round} {come todo : List Frame}
    (hr : r.WellFormed) (hasked : (DeskStep.asked steps)[id]? = some r.request)
    (hshare : (after steps).share id = come) (hsplit : r.answer = come ++ todo) :
    (after steps).Isolated (DeskStep.consumed steps) id r come := by
  have hsame := resembles_alone steps hasked
  rw [hshare] at hsame
  have hwhole : come = r.answer ↔ todo = [] := by
    rw [hsplit]
    exact List.self_eq_append_right
  refine ⟨?_, ?_, hsame.hears, holdsLike_of_told hasked hsame.hears, ?_, ?_⟩
  · rw [handed_eq, hshare]
  · rw [hsame.mem_ids_iff, Ne, Round.exact_of_wellFormed hr come todo hsplit, Ne, hwhole]
  · intro hne
    rw [hsame.hears]
    exact (Round.awaits hr hsplit (fun hnil => hne (hwhole.mpr hnil))).unsettled
  · intro heq
    rw [hsame.hears, heq]
    exact (Round.ended hr).settled

end Course

/-- Every frame is routed as it is for its own operation alone. -/
theorem results_of_attributed {rounds : List Round} {steps : List DeskStep}
    (hrounds : ∀ r ∈ rounds, r.WellFormed) (hturn : InTurn rounds steps) {n : Nat}
    (h : Attributed (Course.after steps) rounds n) :
    ∀ x ∈ (Course.after steps).log, x.result = .ok [] := by
  intro x hx
  obtain ⟨j, hj⟩ := List.getElem?_of_mem hx
  obtain ⟨k, hhead, hle, hlt⟩ := h.heads j x hj
  obtain ⟨r, hr⟩ := exists_of_offset_lt (Nat.lt_of_le_of_lt hle hlt)
  have hnum := Course.numbered steps
  have hk : k < (DeskStep.asked steps).length := by
    rw [← hnum.nextId]
    exact hnum.log x hx k hhead
  have hasked := List.getElem?_eq_getElem hk
  rw [hturn.agrees k r _ hr hasked] at hasked
  have hsame := Course.resembles_alone steps hasked
  rw [h.share k r hr] at hsame
  have hmem : x.result ∈ ((Course.after steps).logOf k).map Handling.result :=
    List.mem_map_of_mem (List.mem_filter.mpr ⟨hx, decide_eq_true hhead⟩)
  rw [hsame.results] at hmem
  obtain ⟨y, hy, hyx⟩ := List.mem_map.mp hmem
  rw [← hyx]
  exact Round.results (hrounds r (List.mem_of_getElem? hr)) (List.take_append_drop _ _).symm y hy

/-- **Operations do not disturb each other.**  However they are asked for while well-formed answers
come one after another, every frame is routed without an error and nothing is sent to the server;
and each operation that was asked for does with what has come of its own answer what it would do
alone. -/
theorem operations_isolated (rounds : List Round) (hrounds : ∀ r ∈ rounds, r.WellFormed)
    (steps : List DeskStep) (h : Interleaved rounds steps) :
    (∀ x ∈ (Course.after steps).log, x.result = .ok []) ∧
    ∀ (k : Nat) (r : Round), rounds[k]? = some r → k < (DeskStep.asked steps).length →
      (Course.after steps).Isolated (DeskStep.consumed steps) k r
        (r.answer.take ((DeskStep.routed steps).length - offset rounds k)) := by
  have hturn := h.inTurn
  have hattributed := attributed (fun r hr => Round.exact_of_wellFormed (hrounds r hr)) hturn
  refine ⟨results_of_attributed hrounds hturn hattributed, ?_⟩
  intro k r hr hk
  have hasked := List.getElem?_eq_getElem hk
  rw [hturn.agrees k r _ hr hasked] at hasked
  exact Course.isolated_of_share (hrounds r (List.mem_of_getElem? hr)) hasked
    (hattributed.share k r hr) (List.take_append_drop _ _).symm

/-- a statement with one row and a notice, and something that one message answers -/
def sampleRounds : List Round :=
  [⟨.statement, [⟨12, [8, 1]⟩, ⟨13, [10, 1, 2]⟩,
    ⟨11, [8, 3, 16, 2, 26, 8, 8, 4, 18, 4, 8, 2, 24, 5]⟩, ⟨14, []⟩, ⟨17, []⟩]⟩,
   ⟨.single, [⟨0, []⟩]⟩]

/-- The second operation is asked for in the middle of the answer to the first, and the execution
is dropped after the first row. -/
def sampleSteps : List DeskStep :=
  [.ask .statement, .route ⟨12, [8, 1]⟩, .ask .single, .route ⟨13, [10, 1, 2]⟩, .consume 0,
    .route ⟨11, [8, 3, 16, 2, 26, 8, 8, 4, 18, 4, 8, 2, 24, 5]⟩, .route ⟨14, []⟩, .route ⟨17, []⟩,
    .route ⟨0, []⟩]

theorem wellFormed_sampleRounds : ∀ r ∈ sampleRounds, r.WellFormed := by
  intro r hr
  rcases List.mem_cons.mp hr with rfl | hr
  · exact .column rfl (.row rfl (by decide) rfl (.notice rfl (.setEnd rfl rfl (.last rfl rfl rfl))))
  · obtain rfl := List.mem_singleton.mp hr
    exact .last rfl rfl rfl

theorem interleaved_sampleSteps : Interleaved sampleRounds sampleSteps := by
  refine ⟨by decide, fun before hbefore => ?_⟩
  have hall : ∀ before ∈ sampleSteps.inits, DeskStep.routed before
      <+: (sampleRounds.take (DeskStep.asked before).length).flatMap Round.answer := by
    decide
  exact hall before ((List.mem_inits before sampleSteps).mpr hbefore)

theorem operations_isolated_samples :
    (∀ r ∈ sampleRounds, r.WellFormed) ∧ Interleaved sampleRounds sampleSteps ∧
    (∀ x ∈ (Course.after sampleSteps).log, x.result = .ok []) ∧
    (Course.after sampleSteps).Isolated [0] 1 ⟨.single, [⟨0, []⟩]⟩ [⟨0, []⟩] := by
  have h := operations_isolated sampleRounds wellFormed_sampleRounds sampleSteps
    interleaved_sampleSteps
  exact ⟨wellFormed_sampleRounds, interleaved_sampleSteps, h.1, h.2 1 _ rfl (by decide)⟩

end DocWire
