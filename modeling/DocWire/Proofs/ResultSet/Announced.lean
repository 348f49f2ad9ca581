import DocWire.Proofs.Queue.Answers
import DocWire.Proofs.ResultSet.Layouts
import Mathlib.Data.List.DropRight
import Mathlib.Data.List.Induction

/-!
# Announcing the columns of rows

A builder of result sets is called in any order, and calls may fail.  The columns are told with the
first row, or with the end of the result set.  A first row that cannot be decoded fixes them but
tells nothing, so they are not told any more.

* `BuilderCall`, `BuilderTurn`, `ResultSetBuilder.turns`   calls, and what comes of them;
* `ResultSetBuilder.call_moves`      one call;
* `ResultSetBuilder.standing`        where a builder stands after any calls;
* `ResultSetBuilder.row_columns`     the columns of a row are those that were added for it;
* `ResultSetBuilder.lossless_iff`    which failed calls lose something;
* `ResultSetBuilder.announces_iff`   when every row is announced and nothing is lost.
-/

namespace DocWire

/-! ## Calls and what they tell -/

inductive BuilderCall
  | column (c : Column)
  | row (fields : List (List UInt8))
  | finish (hasMore : Bool)

/-- whether a call is the end of a result set -/
def BuilderCall.isFinish : BuilderCall → Bool
  | finish _ => true
  | _ => false

/-- A call, the builder before it, and what it tells or why it fails. -/
structure BuilderTurn where
  before : ResultSetBuilder
  call : BuilderCall
  answer : Except ConnectionError (List ResultEvent)

namespace ResultSetBuilder

def call (b : ResultSetBuilder) :
    BuilderCall → Except ConnectionError (List ResultEvent) × ResultSetBuilder
  | .column c =>
    match b.column c with
    | .ok next => (.ok [], next)
    | .error e => (.error e, b)
  | .row fields => b.row fields
  | .finish hasMore => (.ok (b.finish hasMore).1, (b.finish hasMore).2)

def turns (b : ResultSetBuilder) : List BuilderCall → List BuilderTurn
  | [] => []
  | c :: rest => ⟨b, c, (b.call c).1⟩ :: (b.call c).2.turns rest

def after (b : ResultSetBuilder) (calls : List BuilderCall) : ResultSetBuilder :=
  calls.foldl (fun b c => (b.call c).2) b

def succeeding (b : ResultSetBuilder) (calls : List BuilderCall) : List BuilderCall :=
  ((b.turns calls).filter fun t => t.answer.isOk).map BuilderTurn.call

end ResultSetBuilder

namespace ResultEvent

def isSetEnd : ResultEvent → Bool
  | setEnd _ => true
  | _ => false

def columns? : ResultEvent → Option (List Column)
  | metadata columns => some columns
  | _ => none

/-- the announcements since the last end of a result set -/
def announcements (events : List ResultEvent) : List (List Column) :=
  (events.rtakeWhile (!·.isSetEnd)).filterMap columns?

end ResultEvent

namespace BuilderTurn

/-- What a call tells.  One that fails tells nothing. -/
def told (t : BuilderTurn) : List ResultEvent := t.answer.toOption.getD []

def allTold (turns : List BuilderTurn) : List ResultEvent := turns.flatMap told

def added? (t : BuilderTurn) : Option Column :=
  match t.call, t.answer with
  | .column c, .ok _ => some c
  | _, _ => none

/-- the columns added since the last end of a result set -/
def added (turns : List BuilderTurn) : List Column :=
  (turns.rtakeWhile fun t => !t.call.isFinish).filterMap added?

/-- Since the last end of a result set, every row comes behind one announcement, which is of the
columns of the row, and they are the columns that were added. -/
def RowsAnnounced (turns : List BuilderTurn) : Prop :=
  ∀ earlier t later before r after, turns = earlier ++ t :: later →
    t.told = before ++ .row r :: after →
      ResultEvent.announcements (allTold earlier ++ before) = [r.columns] ∧
        added earlier = r.columns

/-- A first row that cannot be decoded: columns are announced and not yet fixed, and the call
fails. -/
def Spoils (t : BuilderTurn) : Prop :=
  t.before.columns = none ∧ t.before.announced ≠ [] ∧ (∃ fields, t.call = .row fields) ∧
    ∃ e, t.answer = .error e

end BuilderTurn

/-- **Rows are announced**: every row comes behind one announcement of its columns, and once the
last result set is finished as well, the calls that failed have taken nothing from what is told. -/
structure ResultSetBuilder.Announces (calls : List BuilderCall) : Prop where
  rows : BuilderTurn.RowsAnnounced (turns {} calls)
  lossless : ∀ hasMore, BuilderTurn.allTold (turns {} (calls ++ [.finish hasMore]))
    = BuilderTurn.allTold (turns {} (succeeding {} calls ++ [.finish hasMore]))

open ResultSetBuilder (arriving)
open ResultEvent (announce announcements)
open BuilderTurn (allTold added)

/-! ## What is told -/

section
variable (events more : List ResultEvent)

theorem announcements_append (h : ∀ e ∈ more, e.isSetEnd = false) :
    announcements (events ++ more)
      = announcements events ++ more.filterMap ResultEvent.columns? := by
  unfold announcements
  induction more using List.reverseRecOn with
  | nil => simp
  | append_singleton more e ih =>
    rw [← List.append_assoc, List.rtakeWhile_concat_pos _ _ _ (by rw [h e (by simp)]; rfl),
      List.filterMap_append, ih fun e he => h e (by simp [he]), List.filterMap_append,
      List.append_assoc]

theorem announcements_setEnd (hasMore : Bool) :
    announcements (events ++ [.setEnd hasMore]) = [] := by
  unfold announcements
  rw [List.rtakeWhile_concat_neg _ _ _ (by simp [ResultEvent.isSetEnd])]
  rfl

end

namespace ResultEvent

theorem isSetEnd_announce {columns : List Column} {fixed : Bool} :
    ∀ e ∈ announce columns fixed, e.isSetEnd = false := by
  cases columns <;> cases fixed <;> simp [announce, isSetEnd]

theorem columns?_announce {columns : List Column} (h : columns ≠ []) :
    (announce columns false).filterMap columns? = [columns] := by
  cases columns with
  | nil => exact absurd rfl h
  | cons c rest => rfl

theorem announce_fixed (columns : List Column) : announce columns true = [] := by
  cases columns <;> rfl

end ResultEvent

namespace BuilderTurn

variable (turns : List BuilderTurn) {t : BuilderTurn}

theorem allTold_concat : allTold (turns ++ [t]) = allTold turns ++ t.told := by
  simp [allTold]

theorem added_concat {turns : List BuilderTurn} (h : t.call.isFinish = false) :
    added (turns ++ [t]) = added turns ++ t.added?.toList := by
  unfold added
  rw [List.rtakeWhile_concat_pos _ _ _ (by rw [h]; rfl), List.filterMap_append]
  cases ht : t.added? <;> simp [ht]

theorem added_finish (h : t.call.isFinish = true) : added (turns ++ [t]) = [] := by
  unfold added
  rw [List.rtakeWhile_concat_neg _ _ _ (by simp [h])]
  rfl

end BuilderTurn

/-! ## One call -/

namespace ResultSetBuilder

/-- What a call does where `columns` are announced and `fixed` tells whether a row of them has
come. -/
inductive Moves (columns : List Column) (fixed : Bool) :
    BuilderCall → Except ConnectionError (List ResultEvent) → List Column → Bool → Prop
  | column {c} (h : fixed = false) : Moves columns fixed (.column c) (.ok []) (columns ++ [c]) false
  | lateColumn {c e} (h : fixed = true) : Moves columns fixed (.column c) (.error e) columns true
  | row {fields r} (hcolumns : columns ≠ []) (hdecode : Row.decode columns fields = .ok r) :
      Moves columns fixed (.row fields) (.ok (announce columns fixed ++ [.row r])) columns true
  | undecodable {fields e} (hcolumns : columns ≠ []) :
      Moves columns fixed (.row fields) (.error e) columns true
  | unannounced {fields e} (hcolumns : columns = []) :
      Moves columns fixed (.row fields) (.error e) columns fixed
  | finish {hasMore} : Moves columns fixed (.finish hasMore)
      (.ok (announce columns fixed ++ [.setEnd hasMore])) [] false

section
variable {columns : List Column} {fixed : Bool}

theorem call_moves (h : fixed = true → columns ≠ []) (c : BuilderCall) :
    ∃ columns' fixed', ((arriving columns fixed).call c).2 = arriving columns' fixed' ∧
      (fixed' = true → columns' ≠ []) ∧
      Moves columns fixed c ((arriving columns fixed).call c).1 columns' fixed' := by
  cases c with
  | column c =>
    cases fixed with
    | false => exact ⟨columns ++ [c], false, rfl, nofun, .column rfl⟩
    | true => exact ⟨columns, true, rfl, h, .lateColumn rfl⟩
  | row fields =>
    by_cases hcolumns : columns = []
    · cases fixed with
      | false =>
        subst hcolumns
        exact ⟨[], false, rfl, nofun, .unannounced rfl⟩
      | true => exact absurd hcolumns (h rfl)
    · refine ⟨columns, true, ?_, fun _ => hcolumns, ?_⟩
      · show ((arriving columns fixed).row fields).2 = _
        rw [row_arriving hcolumns]
      · show Moves _ _ _ ((arriving columns fixed).row fields).1 _ _
        rw [row_arriving hcolumns]
        cases hdecode : Row.decode columns fields with
        | error e => exact .undecodable hcolumns
        | ok r => exact .row hcolumns hdecode
  | finish hasMore =>
    refine ⟨[], false, ?_, nofun, ?_⟩
    · show ((arriving columns fixed).finish hasMore).2 = _
      rw [finish_arriving]
    · show Moves _ _ _ (.ok ((arriving columns fixed).finish hasMore).1) _ _
      rw [finish_arriving]
      exact .finish

end

/-! ## Runs -/

theorem turns_concat (b : ResultSetBuilder) (calls : List BuilderCall) (c : BuilderCall) :
    b.turns (calls ++ [c])
      = b.turns calls ++ [⟨b.after calls, c, ((b.after calls).call c).1⟩] := by
  induction calls generalizing b with
  | nil => rfl
  | cons first rest ih => exact congrArg (_ :: ·) (ih (b.call first).2)

theorem after_concat (b : ResultSetBuilder) (calls : List BuilderCall) (c : BuilderCall) :
    b.after (calls ++ [c]) = ((b.after calls).call c).2 := by
  unfold after
  rw [List.foldl_append]
  rfl

/-- What stands before a turn are the turns of the calls before it. -/
theorem turns_split {b : ResultSetBuilder} {calls : List BuilderCall}
    {earlier later : List BuilderTurn}
    {t : BuilderTurn} (h : b.turns calls = earlier ++ t :: later) :
    ∃ before c, earlier = b.turns before ∧
      t = ⟨b.after before, c, ((b.after before).call c).1⟩ := by
  induction earlier generalizing b calls with
  | nil =>
    cases calls with
    | nil => cases h
    | cons c rest => exact ⟨[], c, rfl, (List.cons.inj h).1.symm⟩
  | cons first earlier ih =>
    cases calls with
    | nil => cases h
    | cons c rest =>
      obtain ⟨rfl, hrest⟩ := List.cons.inj h
      obtain ⟨before, last, rfl, ht⟩ := ih hrest
      exact ⟨c :: before, last, rfl, ht⟩

/-- Where a builder stands after turns: the columns that were added are announced with the row that
fixes them, unless it is one that spoils the announcement. -/
structure Standing (turns : List BuilderTurn) (fixed : Bool) (b : ResultSetBuilder) : Prop where
  builder : b = arriving (added turns) fixed
  some_added : fixed = true → added turns ≠ []
  announced : announcements (allTold turns) = (if fixed then [added turns] else []) ∨
    announcements (allTold turns) = [] ∧ ∃ t ∈ turns, t.Spoils

namespace Standing

variable {turns : List BuilderTurn} {fixed : Bool} {b : ResultSetBuilder}

theorem announcements_unfixed (h : Standing turns false b) : announcements (allTold turns) = [] :=
  h.announced.elim id And.left

/-- A call that tells nothing and adds no column leaves the builder standing where it stood. -/
theorem quiet (h : Standing turns fixed b) {t : BuilderTurn} (htold : t.told = [])
    (hfinish : t.call.isFinish = false) (hadded : t.added? = none) :
    Standing (turns ++ [t]) fixed b := by
  have hall : allTold (turns ++ [t]) = allTold turns := by
    rw [BuilderTurn.allTold_concat, htold, List.append_nil]
  have hsame : added (turns ++ [t]) = added turns := by
    rw [BuilderTurn.added_concat hfinish, hadded]
    exact List.append_nil _
  refine ⟨?_, ?_, ?_⟩
  · rw [hsame]
    exact h.builder
  · rw [hsame]
    exact h.some_added
  · rw [hall, hsame]
    exact h.announced.imp id fun ⟨hnone, s, hs, hspoils⟩ =>
      ⟨hnone, s, List.mem_append_left _ hs, hspoils⟩

theorem next (h : Standing turns fixed b) (c : BuilderCall) :
    ∃ fixed', Standing (turns ++ [⟨b, c, (b.call c).1⟩]) fixed' (b.call c).2 := by
  obtain ⟨columns', fixed', hafter, -, hmoves⟩ := call_moves h.some_added c
  rw [← h.builder] at hafter hmoves
  rw [hafter]
  generalize (b.call c).1 = answer at hmoves ⊢
  cases hmoves with
  | @column c hfixed =>
    subst hfixed
    have hadded : added (turns ++ [⟨b, .column c, .ok []⟩]) = added turns ++ [c] :=
      BuilderTurn.added_concat rfl
    refine ⟨false, ?_, nofun, .inl ?_⟩
    · rw [hadded]
    · rw [BuilderTurn.allTold_concat]
      exact (congrArg _ (List.append_nil _)).trans h.announcements_unfixed
  | lateColumn hfixed =>
    subst hfixed
    rw [← h.builder]
    exact ⟨true, h.quiet rfl rfl rfl⟩
  | @row fields r hcolumns hdecode =>
    have hadded :
        added (turns ++ [⟨b, .row fields, .ok (announce (added turns) fixed ++ [.row r])⟩])
        = added turns := (BuilderTurn.added_concat rfl).trans (List.append_nil _)
    have htold := announcements_append (allTold turns) (announce (added turns) fixed ++ [.row r])
      (List.forall_mem_append.mpr ⟨ResultEvent.isSetEnd_announce, by simp [ResultEvent.isSetEnd]⟩)
    refine ⟨true, by rw [hadded], fun _ => by rw [hadded]; exact hcolumns, ?_⟩
    rw [BuilderTurn.allTold_concat, hadded]
    show announcements (allTold turns ++ (announce (added turns) fixed ++ [.row r])) = _ ∨
      announcements (allTold turns ++ (announce (added turns) fixed ++ [.row r])) = _ ∧ _
    rw [htold, List.filterMap_append]
    cases fixed with
    | false =>
      rw [h.announcements_unfixed, ResultEvent.columns?_announce hcolumns]
      exact .inl rfl
    | true =>
      rw [ResultEvent.announce_fixed]
      show announcements _ ++ [] = _ ∨ announcements _ ++ [] = _ ∧ _
      rw [List.append_nil]
      exact h.announced.imp id fun ⟨hnone, s, hs, hspoils⟩ =>
        ⟨hnone, s, List.mem_append_left _ hs, hspoils⟩
  | @undecodable fields e hcolumns =>
    have hquiet := h.quiet (t := ⟨b, .row fields, .error e⟩) rfl rfl rfl
    cases fixed with
    | true =>
      rw [← h.builder]
      exact ⟨true, hquiet⟩
    | false =>
      have hadded : added (turns ++ [⟨b, .row fields, .error e⟩]) = added turns :=
        (BuilderTurn.added_concat rfl).trans (List.append_nil _)
      have hspoils : BuilderTurn.Spoils ⟨b, .row fields, .error e⟩ := by
        refine ⟨?_, ?_, ⟨fields, rfl⟩, e, rfl⟩
        · rw [h.builder]
          rfl
        · rw [h.builder]
          exact hcolumns
      exact ⟨true, by rw [hadded], fun _ => hadded ▸ hcolumns,
        .inr ⟨hquiet.announcements_unfixed, _, List.mem_append_right _ (List.mem_singleton_self _),
          hspoils⟩⟩
  | unannounced hcolumns =>
    rw [← h.builder]
    exact ⟨fixed, h.quiet rfl rfl rfl⟩
  | @finish hasMore =>
    have hadded : added (turns
        ++ [⟨b, .finish hasMore, .ok (announce (added turns) fixed ++ [.setEnd hasMore])⟩]) = [] :=
      BuilderTurn.added_finish turns rfl
    refine ⟨false, by rw [hadded], nofun, .inl ?_⟩
    rw [BuilderTurn.allTold_concat]
    show announcements (allTold turns ++ (announce (added turns) fixed ++ [.setEnd hasMore])) = []
    rw [← List.append_assoc]
    exact announcements_setEnd _ hasMore

end Standing

theorem standing (calls : List BuilderCall) :
    ∃ fixed, Standing (turns {} calls) fixed (after {} calls) := by
  induction calls using List.reverseRecOn with
  | nil => exact ⟨false, rfl, nofun, .inl rfl⟩
  | append_singleton calls c ih =>
    obtain ⟨fixed, h⟩ := ih
    rw [turns_concat, after_concat]
    exact h.next c

/-! ## Rows -/

theorem row_notMem_announce (columns : List Column) (fixed : Bool) (r : Row) :
    ResultEvent.row r ∉ announce columns fixed := by
  cases columns <;> cases fixed <;> simp [announce]

/-- A row is told behind the announcement of its columns, if that is still to come. -/
theorem announce_row_eq {columns : List Column} {fixed : Bool} {r r' : Row}
    {before after : List ResultEvent}
    (h : announce columns fixed ++ [.row r'] = before ++ .row r :: after) :
    before = announce columns fixed ∧ r' = r := by
  rcases List.append_eq_append_iff.mp h with ⟨more, hbefore, hrest⟩ | ⟨more, hannounce, hrest⟩
  · cases more with
    | nil => exact ⟨by rw [hbefore, List.append_nil], ResultEvent.row.inj (List.cons.inj hrest).1⟩
    | cons e more => simp at hrest
  · cases more with
    | nil =>
      exact ⟨by rw [hannounce, List.append_nil],
        (ResultEvent.row.inj (List.cons.inj hrest).1).symm⟩
    | cons e more =>
      obtain ⟨rfl, -⟩ := List.cons.inj hrest
      exact absurd (hannounce ▸ by simp) (row_notMem_announce columns fixed r)

/-- **The columns of a row are those that were added for it**, and since the last end of a result
set they were announced just once before the row, unless a row before spoiled that. -/
theorem row_columns {calls : List BuilderCall} {earlier later : List BuilderTurn} {t : BuilderTurn}
    {before after : List ResultEvent} {r : Row} (h : turns {} calls = earlier ++ t :: later)
    (htold : t.told = before ++ .row r :: after) :
    added earlier = r.columns ∧
      (announcements (allTold earlier ++ before) = [r.columns] ∨
        announcements (allTold earlier ++ before) = [] ∧ ∃ s ∈ earlier, s.Spoils) := by
  obtain ⟨calls, c, rfl, rfl⟩ := turns_split h
  obtain ⟨fixed, hstanding⟩ := standing calls
  obtain ⟨columns', fixed', -, -, hmoves⟩ := call_moves hstanding.some_added c
  rw [← hstanding.builder] at hmoves
  unfold BuilderTurn.told at htold
  dsimp only at htold
  generalize (call _ c).1 = answer at hmoves htold
  cases hmoves with
  | column _ => simp [Except.toOption] at htold
  | lateColumn _ | undecodable _ | unannounced _ => simp [Except.toOption] at htold
  | @finish hasMore =>
    have hmem : ResultEvent.row r ∈ before ++ .row r :: after := by simp
    rw [← htold] at hmem
    rcases List.mem_append.mp hmem with hmem | hmem
    · exact absurd hmem (row_notMem_announce _ _ r)
    · simp at hmem
  | @row fields r' hcolumns hdecode =>
    obtain ⟨rfl, rfl⟩ := announce_row_eq htold
    have hr : r'.columns = added (turns {} calls) := (Row.decode_eq_ok_iff.mp hdecode).2.1
    rw [hr, announcements_append _ _ ResultEvent.isSetEnd_announce]
    refine ⟨rfl, ?_⟩
    cases fixed with
    | false =>
      rw [hstanding.announcements_unfixed, ResultEvent.columns?_announce hcolumns]
      exact .inl rfl
    | true =>
      rw [ResultEvent.announce_fixed]
      show announcements _ ++ [] = _ ∨ announcements _ ++ [] = _ ∧ _
      rw [List.append_nil]
      exact hstanding.announced

/-! ## What failed calls take away -/

section
variable {b next : ResultSetBuilder} {c : BuilderCall} (rest : List BuilderCall)

theorem allTold_ok {events : List ResultEvent} (h : b.call c = (.ok events, next)) :
    allTold (b.turns (c :: rest)) = events ++ allTold (next.turns rest) := by
  rw [turns, h]
  rfl

theorem allTold_error {e : ConnectionError} (h : b.call c = (.error e, next)) :
    allTold (b.turns (c :: rest)) = allTold (next.turns rest) := by
  rw [turns, h]
  rfl

theorem succeeding_ok {events : List ResultEvent} (h : b.call c = (.ok events, next)) :
    b.succeeding (c :: rest) = c :: next.succeeding rest := by
  rw [succeeding, turns, h]
  rfl

theorem succeeding_error {e : ConnectionError} (h : b.call c = (.error e, next)) :
    b.succeeding (c :: rest) = next.succeeding rest := by
  rw [succeeding, turns, h]
  rfl

end

variable {columns : List Column}

theorem call_row (h : columns ≠ []) (fixed : Bool) (fields : List (List UInt8)) :
    (arriving columns fixed).call (.row fields)
      = ((Row.decode columns fields).map fun r => announce columns fixed ++ [.row r],
          arriving columns true) :=
  row_arriving h fixed fields

theorem call_finish (columns : List Column) (fixed hasMore : Bool) :
    (arriving columns fixed).call (.finish hasMore)
      = (.ok (announce columns fixed ++ [.setEnd hasMore]), arriving [] false) := by
  show (Except.ok ((arriving columns fixed).finish hasMore).1, _) = _
  rw [finish_arriving]

/-- Once an announcement is spoiled, whatever is told first should have come behind it. -/
theorem spoiled_ne (h : columns ≠ []) (calls : List BuilderCall) (hasMore : Bool) :
    allTold ((arriving columns true).turns (calls ++ [.finish hasMore]))
      ≠ allTold ((arriving columns false).turns
          ((arriving columns true).succeeding calls ++ [.finish hasMore])) := by
  obtain ⟨first, others, rfl⟩ := List.exists_cons_of_ne_nil h
  induction calls with
  | nil =>
    have hfixed := call_finish (first :: others) true hasMore
    have hsame := call_finish (first :: others) false hasMore
    rw [List.nil_append, allTold_ok [] hfixed]
    show _ ≠ allTold (turns _ [.finish hasMore])
    rw [allTold_ok [] hsame]
    simp [announce]
  | cons c rest ih =>
    cases c with
    | column c =>
      have hcall : (arriving (first :: others) true).call (.column c)
        = (.error (.violation .lateColumn), arriving (first :: others) true) := rfl
      rw [List.cons_append, allTold_error _ hcall, succeeding_error rest hcall]
      exact ih
    | row fields =>
      have hfixed := call_row h true fields
      have hsame := call_row h false fields
      cases hdecode : Row.decode (first :: others) fields with
      | error e =>
        rw [hdecode] at hfixed
        rw [List.cons_append, allTold_error _ hfixed, succeeding_error rest hfixed]
        exact ih
      | ok r =>
        rw [hdecode] at hfixed hsame
        rw [List.cons_append, allTold_ok _ hfixed, succeeding_ok rest hfixed, List.cons_append,
          allTold_ok _ hsame]
        simp [announce]
    | finish more =>
      have hfixed := call_finish (first :: others) true more
      have hsame := call_finish (first :: others) false more
      rw [List.cons_append, allTold_ok _ hfixed, succeeding_ok rest hfixed, List.cons_append,
        allTold_ok _ hsame]
      simp [announce]

/-- A call that fails leaves the builder as it was, unless it spoils an announcement. -/
theorem Moves.same {columns' : List Column} {fixed fixed' : Bool} {c : BuilderCall}
    {e : ConnectionError} (h : Moves columns fixed c (.error e) columns' fixed')
    (hspoils : ¬BuilderTurn.Spoils ⟨arriving columns fixed, c, .error e⟩) :
    columns' = columns ∧ fixed' = fixed := by
  cases h with
  | lateColumn hfixed => exact ⟨rfl, hfixed.symm⟩
  | @undecodable fields e hcolumns =>
    cases fixed with
    | true => exact ⟨rfl, rfl⟩
    | false => exact absurd ⟨rfl, hcolumns, ⟨fields, rfl⟩, e, rfl⟩ hspoils
  | unannounced _ => exact ⟨rfl, rfl⟩

/-- The calls that fail take nothing from what is told just where none of them spoils an
announcement. -/
theorem lossless_iff {fixed : Bool} (h : fixed = true → columns ≠ []) (calls : List BuilderCall)
    (hasMore : Bool) :
    allTold ((arriving columns fixed).turns (calls ++ [.finish hasMore]))
        = allTold ((arriving columns fixed).turns
            ((arriving columns fixed).succeeding calls ++ [.finish hasMore])) ↔
      ∀ t ∈ (arriving columns fixed).turns calls, ¬t.Spoils := by
  induction calls generalizing columns fixed with
  | nil => exact iff_of_true rfl (List.forall_mem_nil _)
  | cons c rest ih =>
    obtain ⟨columns', fixed', hafter, hsome, hmoves⟩ := call_moves h c
    have hcall : (arriving columns fixed).call c
        = (((arriving columns fixed).call c).1, arriving columns' fixed') := Prod.ext rfl hafter
    rw [show (arriving columns fixed).turns (c :: rest) = _ :: _ from rfl, hafter,
      List.forall_mem_cons]
    generalize ((arriving columns fixed).call c).1 = answer at hmoves hcall ⊢
    cases answer with
    | ok events =>
      have hspoils : ¬BuilderTurn.Spoils ⟨arriving columns fixed, c, .ok events⟩ :=
        fun ⟨_, _, _, e, he⟩ => by cases he
      rw [and_iff_right hspoils, ← ih hsome, succeeding_ok rest hcall, List.cons_append,
        List.cons_append, allTold_ok _ hcall, allTold_ok _ hcall, List.append_right_inj]
    | error e =>
      rw [succeeding_error rest hcall, List.cons_append, allTold_error _ hcall]
      by_cases hspoils : BuilderTurn.Spoils ⟨arriving columns fixed, c, .error e⟩
      · obtain ⟨hnone, hne, ⟨fields, rfl⟩, -⟩ := id hspoils
        refine iff_of_false ?_ fun h => h.1 hspoils
        cases fixed with
        | true => cases hnone
        | false =>
          cases hmoves with
          | undecodable hcolumns => exact spoiled_ne hcolumns rest hasMore
          | unannounced hcolumns => exact absurd hcolumns hne
      · obtain ⟨rfl, rfl⟩ := hmoves.same hspoils
        rw [and_iff_right hspoils, ih hsome]

/-- **When rows are announced.**  They are, and no call that fails takes anything from what is told,
exactly where no first row fails to be decoded. -/
theorem announces_iff (calls : List BuilderCall) :
    Announces calls ↔ ∀ t ∈ turns {} calls, ¬t.Spoils := by
  have hlossless := @lossless_iff [] false nofun calls
  refine ⟨fun h => (hlossless false).mp (h.lossless false), fun h => ⟨?_, ?_⟩⟩
  · intro earlier t later before r after hturns htold
    obtain ⟨hadded, hannounced | ⟨-, s, hs, hspoils⟩⟩ := row_columns hturns htold
    · exact ⟨hannounced, hadded⟩
    · exact absurd hspoils (h s (hturns ▸ List.mem_append_left _ hs))
  · exact fun hasMore => (hlossless hasMore).mpr h

/-- A row with a field too many fails, and the row behind it is not announced. -/
theorem not_announces_wide :
    ¬Announces [.column { type := .uint }, .row [[1], [2]], .row [[1]]] := by
  intro h
  have hturns := turns_concat {} [.column { type := .uint }, .row [[1], [2]]] (.row [[1]])
  have hrow := h.rows _ _ _ [] ⟨[{ type := .uint }], [.uint 1]⟩ [] hturns rfl
  cases hrow.1

end ResultSetBuilder

end DocWire
