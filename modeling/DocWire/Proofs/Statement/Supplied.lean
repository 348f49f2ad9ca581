import DocWire.Proofs.Message.Numbering
import DocWire.Proofs.Statement.Arguments
import Mathlib.Data.List.Perm.Basic

/-!
# The values of a query

A query is given values for its positions and values for names.  Its request takes as many values as
there are positions and one for each name.  A name that no clause mentions is an error, but values
that no position is left for are not noticed.

* `Query.marks`, `Query.mentions`   the placeholders of all clauses;
* `Query.NamesMatch`                the names that are bound are those that are mentioned;
* `Query.build_isOk_iff`            which queries are built;
* `Query.args_perm`                 which values their requests carry;
* `Query.ServedAsSupplied`          a query is built just where the values match its placeholders,
                                    and none of them is lost;
* `Query.servedAsSupplied_iff`      that is so but for surplus values.
-/

namespace DocWire

/-! ## Bindings -/

/-- A name that is bound again keeps its place. -/
theorem map_fst_rebind (name : String) (value : Scalar) (bindings : List (String × Scalar)) :
    (Query.rebind name value bindings).map Prod.fst = addName (bindings.map Prod.fst) name := by
  induction bindings with
  | nil => rfl
  | cons b rest ih =>
    obtain ⟨n, v⟩ := b
    unfold Query.rebind
    split
    · rename_i hn
      subst hn
      exact (addName_of_mem List.mem_cons_self).symm
    · rename_i hn
      have hne : ¬ name = n := fun h => hn h.symm
      rw [List.map_cons, ih, List.map_cons]
      by_cases hmem : name ∈ rest.map Prod.fst
      · rw [addName_of_mem hmem, addName_of_mem (List.mem_cons_of_mem _ hmem)]
      · rw [addName_of_not_mem hmem,
          addName_of_not_mem (List.not_mem_cons_of_ne_of_not_mem hne hmem)]
        rfl

/-- No name is bound twice. -/
theorem Query.nodup_bindings {q q' : Query} {steps : List QueryStep}
    (h : q.assemble steps = .ok q') (hq : (q.bindings.map Prod.fst).Nodup) :
    (q'.bindings.map Prod.fst).Nodup := by
  unfold assemble at h
  induction steps generalizing q with
  | nil =>
    cases h
    exact hq
  | cons step rest ih =>
    rw [List.foldlM_cons] at h
    cases hstep : step.apply q with
    | error e =>
      rw [hstep] at h
      cases h
    | ok next =>
      rw [hstep] at h
      refine ih h ?_
      rw [(QueryStep.apply_cases hstep).2.2]
      cases step.binding? with
      | none => exact hq
      | some b =>
        show ((Query.rebind b.1 b.2 q.bindings).map Prod.fst).Nodup
        rw [map_fst_rebind]
        exact nodup_addName hq b.1

section
variable {bindings : List (String × Scalar)}

theorem exists_lookup_iff {name : String} :
    (∃ value, bindings.lookup name = some value) ↔ name ∈ bindings.map Prod.fst := by
  rw [← Option.isSome_iff_exists, List.lookup_isSome_iff, List.mem_map]
  exact ⟨fun ⟨b, hb, h⟩ => ⟨b, hb, (beq_iff_eq.mp h).symm⟩,
    fun ⟨b, hb, h⟩ => ⟨b, hb, beq_iff_eq.mpr h.symm⟩⟩

theorem map_lookup_of_forall₂ {names : List String} {values : List Scalar}
    (h : List.Forall₂ (fun name value => bindings.lookup name = some value) names values) :
    names.map (fun name => bindings.lookup name) = values.map some := by
  induction h with
  | nil => rfl
  | cons hvalue _ ih => rw [List.map_cons, List.map_cons, hvalue, ih]

/-- Where no name is bound twice, what is bound to it is found. -/
theorem map_lookup_fst (h : (bindings.map Prod.fst).Nodup) :
    (bindings.map Prod.fst).map (fun name => bindings.lookup name)
      = (bindings.map Prod.snd).map some := by
  rw [List.map_map, List.map_map]
  refine List.map_congr_left fun b hb => ?_
  obtain ⟨before, after, rfl⟩ := List.append_of_mem hb
  rw [List.map_append, List.nodup_append] at h
  refine List.lookup_eq_some_iff.mpr ⟨before, after, rfl, fun other hother => ?_⟩
  exact bne_iff_ne.mpr (h.2.2 _ (List.mem_map_of_mem hother) _ List.mem_cons_self).symm

/-- One value for each name, where the names are those that are bound: all values that are bound. -/
theorem perm_of_forall₂_lookup {names : List String} {values : List Scalar} (hnames : names.Nodup)
    (hbindings : (bindings.map Prod.fst).Nodup)
    (hsame : ∀ name, name ∈ names ↔ name ∈ bindings.map Prod.fst)
    (h : List.Forall₂ (fun name value => bindings.lookup name = some value) names values) :
    values.Perm (bindings.map Prod.snd) := by
  have hperm : names.Perm (bindings.map Prod.fst) :=
    (List.perm_ext_iff_of_nodup hnames hbindings).mpr hsame
  have hvalues := hperm.map fun name => bindings.lookup name
  rw [map_lookup_of_forall₂ h, map_lookup_fst hbindings] at hvalues
  exact (List.map_perm_map_iff (Option.some_injective _)).mp hvalues

end

/-! ## Building -/

namespace Query

/-- the number of the `?` in all clauses -/
def marks (q : Query) : Nat := (q.exprs.flatMap Expr.indices).length

/-- the names in all clauses, each as often as it appears -/
def mentions (q : Query) : List String := q.exprs.flatMap Expr.mentions

/-- The names that are bound are those that some clause mentions. -/
def NamesMatch (q : Query) : Prop := ∀ name, name ∈ q.bindings.map Prod.fst ↔ name ∈ q.mentions

variable {q : Query}

theorem positional_assign (horder : ∀ e ∈ q.exprs, e.InOrder) :
    (Placeholders.assign q.exprs).2.positional = q.marks := by
  rw [Placeholders.assign, Placeholders.positional_assignFrom, marks, List.length_flatMap,
    List.map_congr_left fun e he => (horder e he).positionalCount]
  exact Nat.zero_add _

theorem names_assign (q : Query) :
    (Placeholders.assign q.exprs).2.names = q.mentions.foldl addName [] :=
  Placeholders.names_assignFrom {} q.exprs

theorem mem_names_assign {name : String} :
    name ∈ (Placeholders.assign q.exprs).2.names ↔ name ∈ q.mentions := by
  rw [names_assign, mem_foldl_addName]
  exact or_iff_right List.not_mem_nil

theorem namedArg_isOk_iff {name : String} :
    (∃ value, q.namedArg name = .ok value) ↔ name ∈ q.bindings.map Prod.fst := by
  rw [← exists_lookup_iff]
  unfold namedArg
  cases q.bindings.lookup name <;> simp

theorem args_isOk_iff {p : Placeholders} : (∃ args, q.args p = .ok args) ↔
    p.positional ≤ q.values.length ∧ ∀ name ∈ p.names, name ∈ q.bindings.map Prod.fst := by
  simp only [← namedArg_isOk_iff]
  rw [← mapM_isOk_iff]
  constructor
  · rintro ⟨args, hargs⟩
    refine ⟨(args_eq_ok hargs).1, ?_⟩
    unfold Query.args at hargs
    cases hback : p.names.mapM q.namedArg with
    | ok back => exact ⟨back, rfl⟩
    | error e =>
      rw [hback] at hargs
      cases hfront : positionalArgs 0 p.positional q.values <;> rw [hfront] at hargs <;> cases hargs
  · rintro ⟨hcount, back, hback⟩
    unfold Query.args
    rw [positionalArgs_of_le 0 hcount, hback]
    exact ⟨_, rfl⟩

theorem build_isOk_iff_args : (∃ find, q.build = .ok (.find find)) ↔
    (∀ name ∈ q.bindings.map Prod.fst, name ∈ q.mentions) ∧
      ∃ args, q.args (Placeholders.assign q.exprs).2 = .ok args := by
  unfold build
  dsimp only
  split
  · rename_i name value hfound
    have hbound : name ∈ q.bindings.map Prod.fst :=
      List.mem_map_of_mem (List.mem_of_find?_eq_some hfound)
    have hunused : name ∉ q.mentions := by
      simpa [mem_names_assign] using List.find?_some hfound
    exact ⟨fun ⟨_, h⟩ => (nomatch h), fun ⟨hused, _⟩ => absurd (hused name hbound) hunused⟩
  · rename_i hnone
    have hused : ∀ name ∈ q.bindings.map Prod.fst, name ∈ q.mentions := by
      refine List.forall_mem_map.mpr fun b hb => ?_
      simpa [mem_names_assign] using List.find?_eq_none.mp hnone b hb
    rw [and_iff_right hused]
    cases q.args (Placeholders.assign q.exprs).2 <;> simp [Except.map]

/-- A query is built just where there are enough values for the positions and the names match. -/
theorem build_isOk_iff (horder : ∀ e ∈ q.exprs, e.InOrder) :
    (∃ find, q.build = .ok (.find find)) ↔ q.marks ≤ q.values.length ∧ q.NamesMatch := by
  rw [build_isOk_iff_args, args_isOk_iff, positional_assign horder]
  simp only [mem_names_assign]
  exact ⟨fun ⟨hused, hcount, hbound⟩ => ⟨hcount, fun name => ⟨hused name, hbound name⟩⟩,
    fun ⟨hcount, hmatch⟩ => ⟨fun name => (hmatch name).mp, hcount, fun name => (hmatch name).mpr⟩⟩

/-- A request carries a value for each position and all values that are bound. -/
theorem args_perm (horder : ∀ e ∈ q.exprs, e.InOrder) (hnodup : (q.bindings.map Prod.fst).Nodup)
    {find : Find} (h : q.build = .ok (.find find)) :
    find.args.Perm (q.values.take q.marks ++ q.bindings.map Prod.snd) := by
  obtain ⟨-, hmatch⟩ := (build_isOk_iff horder).mp ⟨find, h⟩
  obtain ⟨exprs, p, args, hassign, hargs, rfl⟩ := build_eq_ok h
  have hp : p = (Placeholders.assign q.exprs).2 := (congrArg Prod.snd hassign).symm
  obtain ⟨-, back, rfl, hback⟩ := args_eq_ok hargs
  have hnames : p.names.Nodup := by
    rw [hp, names_assign]
    exact nodup_foldl_addName List.nodup_nil _
  have hsame (name : String) : name ∈ p.names ↔ name ∈ q.bindings.map Prod.fst := by
    rw [hp, mem_names_assign]
    exact (hmatch name).symm
  rw [hp, positional_assign horder]
  exact (perm_of_forall₂_lookup hnames hnodup hsame hback).append_left _

/-! ## Surplus values -/

/-- The values of a query match its placeholders: one for each `?`, and one for each name. -/
structure Supplied (q : Query) : Prop where
  values : q.values.length = q.marks
  names : q.NamesMatch

/-- A query is built just where its values match its placeholders, and no value is lost. -/
structure ServedAsSupplied (q : Query) : Prop where
  builds : (∃ find, q.build = .ok (.find find)) ↔ q.Supplied
  keeps : ∀ find, q.build = .ok (.find find) →
    find.args.Perm (q.values ++ q.bindings.map Prod.snd)

/-- **Surplus values.**  However a query has been put together, it is served as it is supplied
unless its names match and there are more values than positions.  It is built then, and the values
behind the last position are left out. -/
theorem servedAsSupplied_iff {target : String} {schema : Option String} {mode : Mode}
    {steps : List QueryStep} {q : Query}
    (hq : assemble { target, schema, mode } steps = .ok q) :
    (q.ServedAsSupplied ↔ ¬ (q.marks < q.values.length ∧ q.NamesMatch)) ∧
      ((∃ find, q.build = .ok (.find find)) ↔ q.marks ≤ q.values.length ∧ q.NamesMatch) ∧
      ∀ find, q.build = .ok (.find find) →
        find.args.Perm (q.values.take q.marks ++ q.bindings.map Prod.snd) := by
  obtain ⟨horder, -⟩ := assemble_cases hq fun e he => absurd he List.not_mem_nil
  have hnodup := nodup_bindings hq List.nodup_nil
  have hbuilds := build_isOk_iff horder
  refine ⟨⟨?_, ?_⟩, hbuilds, fun find => args_perm horder hnodup⟩
  · rintro ⟨hserved, -⟩ ⟨hsurplus, hnames⟩
    have hsupplied := hserved.mp (hbuilds.mpr ⟨hsurplus.le, hnames⟩)
    exact absurd hsupplied.values hsurplus.ne'
  · intro hsurplus
    have hcount (h : q.marks ≤ q.values.length ∧ q.NamesMatch) : q.values.length = q.marks :=
      Nat.le_antisymm (Nat.not_lt.mp fun hlt => hsurplus ⟨hlt, h.2⟩) h.1
    refine ⟨hbuilds.trans ⟨fun h => ⟨hcount h, h.2⟩, fun h => ⟨h.values.ge, h.names⟩⟩,
      fun find hfind => ?_⟩
    have hperm := args_perm horder hnodup hfind
    rwa [List.take_of_length_le (hcount (hbuilds.mp ⟨find, hfind⟩)).le] at hperm

theorem servedAsSupplied_iff_sample :
    assemble { target := "users" } sampleQuerySteps = .ok sampleQuery ∧
      sampleQuery.ServedAsSupplied ∧ ∃ find, sampleQuery.build = .ok (.find find) ∧
        find.args.Perm ([.uint 18, .uint 5, .null] ++ [.str "b"]) := by
  have hq : assemble { target := "users" } sampleQuerySteps = .ok sampleQuery := rfl
  obtain ⟨find, hfind⟩ : ∃ find, sampleQuery.build = .ok (.find find) := ⟨_, rfl⟩
  have hserved := (servedAsSupplied_iff hq).1.mpr fun h => absurd h.1 (by decide)
  exact ⟨hq, hserved, find, hfind, hserved.keeps find hfind⟩

/-- The second value is given for no position, and it is left out. -/
theorem not_servedAsSupplied_surplus :
    ∃ q find, assemble { target := "t", mode := .table }
        [.filter "a = ?", .arg (.uint 1), .arg (.uint 2)] = .ok q ∧
      q.build = .ok (.find find) ∧ find.args = [.uint 1] ∧ ¬ q.ServedAsSupplied := by
  refine ⟨_, _, rfl, rfl, rfl, fun h => ?_⟩
  exact absurd (h.builds.mp ⟨_, rfl⟩).values (by decide)

end Query

end DocWire
