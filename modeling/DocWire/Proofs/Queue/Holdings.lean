import DocWire.Proofs.Queue.Course

/-!
# What callers hold

A queue gives to callers through what they hold: an execution for a statement, an awaited reply for
anything else.  In every course the caller of an operation holds what it was told, until it gives
its execution up; what others give up changes nothing for it.

* `Execution.hear`, `Awaited.hear`   what is held after more was told;
* `Callers.executions_deliverAll`, `Callers.replies_deliverAll`   deliveries are told;
* `Course.holds_of_asked`            a caller holds what it was told.
-/

namespace DocWire

/-- An execution after its caller was told more. -/
def Execution.hear (x : Execution) : Told → Execution
  | .event e => x.accept e
  | .settled (.outcome result) => x.settle result
  | .settled _ => x

/-- An awaited reply after its caller was told more. -/
def Awaited.hear (w : Awaited Settlement) : Told → Awaited Settlement
  | .event _ | .settled (.outcome _) => w
  | .settled s => .ready s

theorem Held.getElem?_map_update {α : Type} {l : List (Held α)} {n id : Nat} {content : Option α}
    (h : l[n]? = some ⟨some id, content⟩) (i : Nat) (f : α → α) :
    (l.map (Held.update i f))[n]?
      = some ⟨some id, if i = id then content.map f else content⟩ := by
  rw [List.getElem?_map, h]
  show some (Held.update i f ⟨some id, content⟩) = _
  unfold Held.update
  by_cases hi : i = id
  · rw [if_pos (congrArg some hi.symm), if_pos hi]
  · rw [if_neg (fun he => hi (Option.some.inj he).symm), if_neg hi]

namespace Callers

variable {c : Callers} {n id : Nat}

theorem executions_deliver {content : Option Execution}
    (h : c.executions[n]? = some ⟨some id, content⟩) (d : Delivery) :
    (c.deliver d).executions[n]?
      = some ⟨some id, content.map ((d.tells? id).toList.foldl Execution.hear)⟩ := by
  cases d with
  | event i e =>
    show (c.executions.map (Held.update i (·.accept e)))[n]? = _
    rw [Held.getElem?_map_update h, tells?_event]
    by_cases hi : i = id <;> simp [hi, Execution.hear]
  | settled i s =>
    cases s with
    | outcome result =>
      show (c.executions.map (Held.update i (·.settle result)))[n]? = _
      rw [Held.getElem?_map_update h, tells?_settled]
      by_cases hi : i = id <;> simp [hi, Execution.hear]
    | reply result | mechanism result =>
      show c.executions[n]? = _
      rw [h, tells?_settled]
      by_cases hi : i = id <;> simp [hi, Execution.hear]
  | notice subscriber m | ended subscriber =>
    show c.executions[n]? = _
    rw [h]
    simp [Delivery.tells?]

theorem replies_deliver {content : Option (Awaited Settlement)}
    (h : c.replies[n]? = some ⟨some id, content⟩) (d : Delivery) :
    (c.deliver d).replies[n]?
      = some ⟨some id, content.map ((d.tells? id).toList.foldl Awaited.hear)⟩ := by
  cases d with
  | event i e =>
    show c.replies[n]? = _
    rw [h, tells?_event]
    by_cases hi : i = id <;> simp [hi, Awaited.hear]
  | settled i s =>
    cases s with
    | outcome result =>
      show c.replies[n]? = _
      rw [h, tells?_settled]
      by_cases hi : i = id <;> simp [hi, Awaited.hear]
    | reply result =>
      show (c.replies.map (Held.update i fun _ => .ready (.reply result)))[n]? = _
      rw [Held.getElem?_map_update h, tells?_settled]
      by_cases hi : i = id <;> simp [hi, Awaited.hear]
    | mechanism result =>
      show (c.replies.map (Held.update i fun _ => .ready (.mechanism result)))[n]? = _
      rw [Held.getElem?_map_update h, tells?_settled]
      by_cases hi : i = id <;> simp [hi, Awaited.hear]
  | notice subscriber m | ended subscriber =>
    show c.replies[n]? = _
    rw [h]
    simp [Delivery.tells?]

/-- An execution hears of deliveries exactly what they tell its caller. -/
theorem executions_deliverAll {content : Option Execution}
    (h : c.executions[n]? = some ⟨some id, content⟩) (ds : List Delivery) :
    (c.deliverAll ds).executions[n]?
      = some ⟨some id, content.map ((told id ds).foldl Execution.hear)⟩ := by
  induction ds generalizing c content with
  | nil =>
    rw [deliverAll_nil, h]
    simp [told_nil]
  | cons d rest ih =>
    show ((c.deliver d).deliverAll rest).executions[n]? = _
    rw [ih (executions_deliver h d), told_cons]
    simp [Function.comp_def]

/-- An awaited reply hears of deliveries exactly what they tell its caller. -/
theorem replies_deliverAll {content : Option (Awaited Settlement)}
    (h : c.replies[n]? = some ⟨some id, content⟩) (ds : List Delivery) :
    (c.deliverAll ds).replies[n]?
      = some ⟨some id, content.map ((told id ds).foldl Awaited.hear)⟩ := by
  induction ds generalizing c content with
  | nil =>
    rw [deliverAll_nil, h]
    simp [told_nil]
  | cons d rest ih =>
    show ((c.deliver d).deliverAll rest).replies[n]? = _
    rw [ih (replies_deliver h d), told_cons]
    simp [Function.comp_def]

theorem executions_consume (m : Nat) {content : Option Execution}
    (h : c.executions[n]? = some ⟨some id, content⟩) :
    (c.consume m fun _ => ()).2.executions[n]?
      = some ⟨some id, if m = n then none else content⟩ := by
  unfold consume execution?
  by_cases hmn : m = n
  · subst hmn
    rw [h, if_pos rfl]
    cases content with
    | none => exact h
    | some x =>
      show (c.executions.modify m ({ · with content := none }))[m]? = _
      rw [List.getElem?_modify_eq, h]
      rfl
  · rw [if_neg hmn]
    split
    · exact h
    · show (c.executions.modify m ({ · with content := none }))[n]? = _
      rw [List.getElem?_modify_ne _ _ hmn, h]

theorem replies_consume (m : Nat) : (c.consume m fun _ => ()).2.replies = c.replies := by
  unfold consume
  split <;> rfl

end Callers

namespace Course

/-- The caller of an operation holds what it was told, unless it gave its execution up. -/
def Holds (c : Course) (consumed : List Nat) (id : Nat) : Ask → Prop
  | .statement => ∃ (n : Nat) (content : Option Execution),
      c.desk.callers.executions[n]? = some ⟨some id, content⟩ ∧
      (n ∈ consumed ∨ content = some ((told id c.given).foldl Execution.hear {}))
  | .single => ∃ n : Nat, c.desk.callers.replies[n]?
      = some ⟨some id, some ((told id c.given).foldl Awaited.hear .pending)⟩

theorem Holds.ask {c : Course} {consumed : List Nat} {id : Nat} {what : Ask}
    (h : c.Holds consumed id what) (hclosed : c.desk.queue.closed = none) (other : Ask) :
    (c.step (.ask other)).Holds consumed id what := by
  have hcallers : (c.step (.ask other)).desk.callers = _ := ask_callers hclosed other
  have hkeep {α : Type} {l : List α} {n : Nat} {a : α} (b : α) (hn : l[n]? = some a) :
      (l ++ [b])[n]? = some a := by
    rw [List.getElem?_append_left (List.getElem?_eq_some_iff.mp hn).1]
    exact hn
  cases what with
  | statement =>
    obtain ⟨n, content, hn, hcontent⟩ := h
    refine ⟨n, content, ?_, hcontent⟩
    rw [hcallers]
    cases other with
    | statement => exact hkeep _ hn
    | single => exact hn
  | single =>
    obtain ⟨n, hn⟩ := h
    refine ⟨n, ?_⟩
    rw [hcallers]
    cases other with
    | statement => exact hn
    | single => exact hkeep _ hn

theorem Holds.route {c : Course} {consumed : List Nat} {id : Nat} {what : Ask}
    (h : c.Holds consumed id what) (frame : Frame) :
    (c.step (.route frame)).Holds consumed id what := by
  have hgiven : told id (c.step (.route frame)).given
      = told id c.given ++ told id (c.desk.queue.route frame).deliveries := told_append _ _ _
  cases what with
  | statement =>
    obtain ⟨n, content, hn, hcontent⟩ := h
    refine ⟨n, _, Callers.executions_deliverAll hn _, ?_⟩
    rcases hcontent with hgone | rfl
    · exact Or.inl hgone
    · right
      rw [hgiven, List.foldl_append]
      rfl
  | single =>
    obtain ⟨n, hn⟩ := h
    refine ⟨n, ?_⟩
    rw [hgiven, List.foldl_append]
    exact Callers.replies_deliverAll hn _

theorem Holds.consume {c : Course} {consumed : List Nat} {id : Nat} {what : Ask}
    (h : c.Holds consumed id what) (m : Nat) :
    (c.step (.consume m)).Holds (consumed ++ [m]) id what := by
  cases what with
  | statement =>
    obtain ⟨n, content, hn, hcontent⟩ := h
    refine ⟨n, _, Callers.executions_consume m hn, ?_⟩
    by_cases hmn : m = n
    · left
      rw [hmn]
      exact List.mem_append_right _ (List.mem_singleton_self n)
    · rw [if_neg hmn]
      exact hcontent.imp (List.mem_append_left _) (fun he => he)
  | single =>
    obtain ⟨n, hn⟩ := h
    refine ⟨n, ?_⟩
    show (c.desk.callers.consume m fun _ => ()).2.replies[n]? = _
    rw [Callers.replies_consume]
    exact hn

/-- Who asks holds something of which nothing has come. -/
theorem holds_new {c : Course} {steps : List DeskStep} (h : c.Numbered steps)
    (consumed : List Nat) (what : Ask) :
    (c.step (.ask what)).Holds consumed (DeskStep.asked steps).length what := by
  have hcallers : (c.step (.ask what)).desk.callers = _ := ask_callers h.closed what
  have hnone : told (DeskStep.asked steps).length (c.step (.ask what)).given = [] :=
    h.given _ (Nat.le_of_eq h.nextId)
  cases what with
  | statement =>
    refine ⟨c.desk.callers.executions.length, some {}, ?_, Or.inr ?_⟩
    · rw [hcallers, h.nextId]
      exact List.getElem?_concat_length
    · rw [hnone]
      rfl
  | single =>
    refine ⟨c.desk.callers.replies.length, ?_⟩
    rw [hcallers, h.nextId, hnone]
    exact List.getElem?_concat_length

/-- **A caller holds what it was told.** -/
theorem holds_of_asked (steps : List DeskStep) {id : Nat} {what : Ask}
    (h : (DeskStep.asked steps)[id]? = some what) :
    (after steps).Holds (DeskStep.consumed steps) id what := by
  induction steps using List.reverseRecOn with
  | nil => exact absurd h (by simp [DeskStep.asked])
  | append_singleton steps s ih =>
    have hnum := numbered steps
    rw [after_concat, DeskStep.consumed_append]
    rw [DeskStep.asked_append] at h
    cases s with
    | route frame =>
      rw [show DeskStep.asked [.route frame] = [] from rfl, List.append_nil] at h
      rw [show DeskStep.consumed [.route frame] = [] from rfl, List.append_nil]
      exact (ih h).route frame
    | consume n =>
      rw [show DeskStep.asked [.consume n] = [] from rfl, List.append_nil] at h
      exact (ih h).consume n
    | ask other =>
      rw [show DeskStep.asked [.ask other] = [other] from rfl] at h
      rw [show DeskStep.consumed [.ask other] = [] from rfl, List.append_nil]
      by_cases hold : id < (DeskStep.asked steps).length
      · rw [List.getElem?_append_left hold] at h
        exact (ih h).ask hnum.closed other
      · have hid : id = (DeskStep.asked steps).length := by
          have := (List.getElem?_eq_some_iff.mp h).1
          rw [List.length_append, List.length_singleton] at this
          omega
        rw [hid, List.getElem?_concat_length] at h
        rw [hid, Option.some.inj h]
        exact holds_new hnum _ what

end Course

end DocWire
