import DocWire.Proofs.Queue.Course

/-!
# An operation among others, and alone

Whatever happens at a desk, an operation does there what it would do alone if it were handed the
frames that came while it was at the head.  Nothing is assumed of the frames.

* `Course.Resembles`           what an operation does in one course it does, alone, in another;
* `Course.resembles_alone`     an operation and the same one alone;
* `Course.Resembles.mem_ids_iff`   it waits as long as it waits alone.
-/

namespace DocWire

namespace Course

/-! ## Alone -/

theorem entries_alone (what : Ask) (frames : List Frame) :
    (alone what frames).desk.queue.entries
      = ((what.operation.through frames).map (Queued.mk 0)).toList := by
  induction frames using List.reverseRecOn with
  | nil => cases what <;> rfl
  | append_singleton frames frame ih =>
    rw [alone_concat, through_append]
    show ((alone what frames).desk.queue.route frame).queue.entries = _
    cases hthrough : what.operation.through frames with
    | none =>
      rw [hthrough] at ih
      exact (WorkQueue.route_empty ih frame).1
    | some o =>
      rw [hthrough] at ih
      rw [WorkQueue.entries_route ih, List.append_nil, Option.bind_some, through_cons]
      cases (o.take frame).next <;> rfl

theorem entries_alone_of_mem {what : Ask} {frames : List Frame} {x : Queued}
    (h : x ∈ (alone what frames).desk.queue.entries) :
    (alone what frames).desk.queue.entries = [x] := by
  rw [entries_alone] at h ⊢
  cases hthrough : what.operation.through frames with
  | none =>
    rw [hthrough] at h
    cases h
  | some o =>
    rw [hthrough] at h
    rw [List.mem_singleton.mp h]
    rfl

theorem waits_alone_iff (what : Ask) (frames : List Frame) :
    (∃ o, ⟨0, o⟩ ∈ (alone what frames).desk.queue.entries)
      ↔ what.operation.through frames ≠ none := by
  rw [entries_alone]
  cases what.operation.through frames <;> simp

/-! ## Among others -/

/-- An operation of the course `c` does what the only operation of the course `a` does. -/
structure Resembles (c : Course) (id : Nat) (a : Course) : Prop where
  waits : ∀ o, ⟨id, o⟩ ∈ c.desk.queue.entries ↔ ⟨0, o⟩ ∈ a.desk.queue.entries
  hears : told id c.given = told 0 a.given
  results : (c.logOf id).map Handling.result = a.log.map Handling.result

theorem logOf_route (c : Course) (frame : Frame) (id : Nat) :
    (c.step (.route frame)).logOf id = c.logOf id
      ++ if c.desk.queue.ids.head? = some id then
          [⟨c.desk.queue.ids.head?, frame, (c.desk.route frame).1⟩] else [] := by
  show (c.log ++ [_]).filter _ = _
  rw [List.filter_append]
  refine congrArg (c.logOf id ++ ·) ?_
  by_cases h : c.desk.queue.ids.head? = some id
  · rw [if_pos h]
    exact List.filter_cons_of_pos (decide_eq_true h)
  · rw [if_neg h]
    exact List.filter_cons_of_neg (fun hd => h (of_decide_eq_true hd))

theorem share_route (c : Course) (frame : Frame) (id : Nat) :
    (c.step (.route frame)).share id
      = c.share id ++ if c.desk.queue.ids.head? = some id then [frame] else [] := by
  unfold share
  rw [logOf_route, List.map_append]
  split <;> rfl

/-- A frame that comes while another operation is at the head changes nothing. -/
theorem Resembles.route_other {c a : Course} {id : Nat} (h : c.Resembles id a) {frame : Frame}
    (hhead : c.desk.queue.ids.head? ≠ some id) : (c.step (.route frame)).Resembles id a := by
  have hlog := logOf_route c frame id
  rw [if_neg hhead, List.append_nil] at hlog
  have hgiven : told id (c.step (.route frame)).given
      = told id c.given ++ told id (c.desk.queue.route frame).deliveries :=
    told_append _ _ _
  cases hq : c.desk.queue.entries with
  | nil =>
    obtain ⟨hentries, htold⟩ := WorkQueue.route_empty hq frame
    refine ⟨fun o => ?_, ?_, ?_⟩
    · rw [← h.waits o, hq]
      show _ ∈ (c.desk.queue.route frame).queue.entries ↔ _
      rw [hentries]
    · rw [hgiven, htold, List.append_nil, h.hears]
    · rw [hlog, h.results]
  | cons head rest =>
    have hne : head.id ≠ id := by
      rintro rfl
      apply hhead
      rw [WorkQueue.ids, hq]
      rfl
    refine ⟨fun o => ?_, ?_, ?_⟩
    · rw [← h.waits o, hq]
      show _ ∈ (c.desk.queue.route frame).queue.entries ↔ _
      have hother : ⟨id, o⟩ ∉ ((head.operation.take frame).next.map (Queued.mk head.id)).toList := by
        cases (head.operation.take frame).next with
        | none => exact List.not_mem_nil
        | some next =>
          intro hmem
          exact hne (congrArg Queued.id (List.mem_singleton.mp hmem)).symm
      have hhead' : (⟨id, o⟩ : Queued) ≠ head := fun he => hne (congrArg Queued.id he).symm
      rw [WorkQueue.entries_route hq, List.mem_append, List.mem_cons, or_iff_right hother,
        or_iff_right hhead']
    · rw [hgiven, WorkQueue.told_route hq, if_neg hne, List.append_nil, h.hears]
    · rw [hlog, h.results]

/-- A frame that comes while the operation is at the head does to it what it does alone. -/
theorem Resembles.route_head {c : Course} {id : Nat} {what : Ask} {frames : List Frame}
    (h : c.Resembles id (alone what frames)) (hsorted : c.desk.queue.ids.Pairwise (· < ·))
    {frame : Frame} (hhead : c.desk.queue.ids.head? = some id) :
    (c.step (.route frame)).Resembles id (alone what (frames ++ [frame])) := by
  rw [alone_concat]
  cases hq : c.desk.queue.entries with
  | nil =>
    rw [WorkQueue.ids, hq] at hhead
    cases hhead
  | cons head rest =>
    obtain rfl : head.id = id := by
      rw [WorkQueue.ids, hq] at hhead
      exact Option.some.inj hhead
    have hrest : ∀ o, ⟨head.id, o⟩ ∉ rest := by
      intro o ho
      rw [WorkQueue.ids, hq, List.map_cons, List.pairwise_cons] at hsorted
      exact Nat.lt_irrefl _ (hsorted.1 _ (List.mem_map.mpr ⟨_, ho, rfl⟩))
    have halone : (alone what frames).desk.queue.entries = [⟨0, head.operation⟩] := by
      apply entries_alone_of_mem
      rw [← h.waits head.operation, hq]
      exact List.mem_cons_self
    refine ⟨fun o => ?_, ?_, ?_⟩
    · show _ ∈ (c.desk.queue.route frame).queue.entries
        ↔ _ ∈ ((alone what frames).desk.queue.route frame).queue.entries
      rw [WorkQueue.entries_route hq, WorkQueue.entries_route halone, List.append_nil,
        List.mem_append, or_iff_left (hrest o)]
      cases (head.operation.take frame).next <;> simp
    · show told head.id (c.given ++ (c.desk.queue.route frame).deliveries)
        = told 0 ((alone what frames).given
            ++ ((alone what frames).desk.queue.route frame).deliveries)
      rw [told_append, told_append, WorkQueue.told_route hq, WorkQueue.told_route halone,
        if_pos rfl, if_pos rfl, h.hears]
    · rw [logOf_route, if_pos hhead, List.map_append, h.results]
      show _ ++ [(c.desk.queue.route frame).result]
        = ((alone what frames).log ++ [_]).map Handling.result
      rw [List.map_append, WorkQueue.result_route hq]
      show _ = _ ++ [((alone what frames).desk.queue.route frame).result]
      rw [WorkQueue.result_route halone]

/-- Asking for something changes nothing for what was asked for before. -/
theorem Resembles.ask {c a : Course} {steps : List DeskStep} {id : Nat} (h : c.Resembles id a)
    (hnum : c.Numbered steps) (hid : id < (DeskStep.asked steps).length) (what : Ask) :
    (c.step (.ask what)).Resembles id a := by
  have hqueue : (c.step (.ask what)).desk.queue = _ := ask_queue hnum.closed what
  refine ⟨fun o => ?_, h.hears, h.results⟩
  have hne : (⟨id, o⟩ : Queued) ∉ [⟨c.desk.queue.nextId, what.operation⟩] := by
    intro hmem
    have hid' : id = c.desk.queue.nextId := congrArg Queued.id (List.mem_singleton.mp hmem)
    rw [hid', hnum.nextId] at hid
    exact Nat.lt_irrefl _ hid
  rw [hqueue, ← h.waits o, List.mem_append, or_iff_left hne]

/-- What has just been asked for is like what is asked for alone. -/
theorem resembles_new {c : Course} {steps : List DeskStep} (h : c.Numbered steps) (what : Ask) :
    (c.step (.ask what)).logOf (DeskStep.asked steps).length = [] ∧
      (c.step (.ask what)).Resembles (DeskStep.asked steps).length (alone what []) := by
  have hqueue : (c.step (.ask what)).desk.queue = _ := ask_queue h.closed what
  have hlog : (c.step (.ask what)).logOf (DeskStep.asked steps).length = [] := by
    apply List.filter_eq_nil_iff.mpr
    intro x hx hhead
    have := h.log x hx _ (of_decide_eq_true hhead)
    rw [h.nextId] at this
    exact Nat.lt_irrefl _ this
  refine ⟨hlog, fun o => ?_, ?_, ?_⟩
  · have hold : ⟨(DeskStep.asked steps).length, o⟩ ∉ c.desk.queue.entries := by
      intro hmem
      have := h.ids _ (List.mem_map_of_mem hmem)
      rw [h.nextId] at this
      exact Nat.lt_irrefl _ this
    rw [hqueue, entries_alone, through_nil, List.mem_append, or_iff_right hold, h.nextId]
    simp
  · have hgiven : told (DeskStep.asked steps).length (c.step (.ask what)).given = [] :=
      h.given _ (Nat.le_of_eq h.nextId)
    rw [hgiven]
    cases what <;> rfl
  · rw [hlog]
    cases what <;> rfl

/-- **An operation does at any desk what it does alone** with the frames that came while it was at
the head. -/
theorem resembles_alone (steps : List DeskStep) {id : Nat} {what : Ask}
    (h : (DeskStep.asked steps)[id]? = some what) :
    (after steps).Resembles id (alone what ((after steps).share id)) := by
  induction steps using List.reverseRecOn with
  | nil => exact absurd h (by simp [DeskStep.asked])
  | append_singleton steps s ih =>
    have hnum := numbered steps
    rw [after_concat]
    rw [DeskStep.asked_append] at h
    cases s with
    | consume n =>
      rw [show DeskStep.asked [.consume n] = [] from rfl, List.append_nil] at h
      exact ⟨(ih h).waits, (ih h).hears, (ih h).results⟩
    | route frame =>
      rw [show DeskStep.asked [.route frame] = [] from rfl, List.append_nil] at h
      rw [share_route]
      by_cases hhead : (after steps).desk.queue.ids.head? = some id
      · rw [if_pos hhead]
        exact (ih h).route_head hnum.sorted hhead
      · rw [if_neg hhead, List.append_nil]
        exact (ih h).route_other hhead
    | ask other =>
      rw [show DeskStep.asked [.ask other] = [other] from rfl] at h
      by_cases hold : id < (DeskStep.asked steps).length
      · rw [List.getElem?_append_left hold] at h
        exact (ih h).ask hnum hold other
      · have hid : id = (DeskStep.asked steps).length := by
          have := (List.getElem?_eq_some_iff.mp h).1
          rw [List.length_append, List.length_singleton] at this
          omega
        rw [hid, List.getElem?_concat_length] at h
        obtain ⟨hlog, hnew⟩ := resembles_new hnum other
        rw [hid, share, hlog, ← Option.some.inj h]
        exact hnew

/-- An operation waits as long as it waits alone. -/
theorem Resembles.mem_ids_iff {c : Course} {id : Nat} {what : Ask} {frames : List Frame}
    (h : c.Resembles id (alone what frames)) :
    id ∈ c.desk.queue.ids ↔ what.operation.through frames ≠ none := by
  unfold WorkQueue.ids
  rw [← waits_alone_iff, List.mem_map]
  constructor
  · rintro ⟨⟨_, o⟩, hmem, rfl⟩
    exact ⟨o, (h.waits o).mp hmem⟩
  · rintro ⟨o, ho⟩
    exact ⟨⟨id, o⟩, (h.waits o).mpr ho, rfl⟩

end Course

end DocWire
