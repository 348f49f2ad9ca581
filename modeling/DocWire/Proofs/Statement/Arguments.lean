import DocWire.Proofs.Expr.Numbering
import DocWire.Proofs.Fallible
import DocWire.Proofs.Message.Numbering
import DocWire.Proofs.Message.Positions
import DocWire.Statement.Query

/-!
# The arguments of a query

A query is put together call by call, and each clause that is added has been compiled by itself,
its placeholders numbered from zero.  `build` moves the numbers of each clause past those of the
clauses before it, and puts the values for the positions in front of the values for the names.

* `QueryStep`, `Query.assemble`   the calls that put a query together;
* `Placeholders.assignFrom_numbers`   the numbers of all clauses are those from zero on, in order;
* `Find.SameClauses`              a request has the clauses of its query, renumbered;
* `Find.Numbered`                 the placeholders of a request are numbered by its table;
* `Aligned`                       every placeholder of a message carries the position of its value;
* `Query.arguments_aligned`       the messages of all queries are so.
-/

namespace DocWire

open Protobuf

/-! ## Putting a query together -/

/-- A call on a query that is being put together. -/
inductive QueryStep
  | filter (text : String)
  | fields (texts : List String)
  | sort (texts : List String)
  | groupBy (texts : List String)
  | having (text : String)
  | limit (rows : UInt64)
  | offset (rows : UInt64)
  /-- the value of the next positional placeholder -/
  | arg (value : Scalar)
  /-- the value of a named placeholder -/
  | bind (name : String) (value : Scalar)

namespace QueryStep

def apply (q : Query) : QueryStep → Except StatementError Query
  | filter text => q.setFilter text
  | fields texts => q.addFields texts
  | sort texts => q.addOrder texts
  | groupBy texts => q.addGrouping texts
  | having text => q.setHaving text
  | limit rows => .ok { q with limit := some rows }
  | offset rows => .ok { q with offset := some rows }
  | arg value => .ok (q.addValue value)
  | bind name value => .ok (q.bind name value)

def value? : QueryStep → Option Scalar
  | arg value => some value
  | _ => none

/-- the value that a call gives for a name, with that name -/
def binding? : QueryStep → Option (String × Scalar)
  | bind name value => some (name, value)
  | _ => none

end QueryStep

/-- The query after some calls. -/
def Query.assemble (q : Query) (steps : List QueryStep) : Except StatementError Query :=
  steps.foldlM QueryStep.apply q

/-- the values that calls give for positions, in turn -/
def givenValues (steps : List QueryStep) : List Scalar := steps.filterMap QueryStep.value?

/-- the value that calls gave last for a name -/
def lastBound (steps : List QueryStep) (name : String) : Option Scalar :=
  (steps.filterMap QueryStep.binding?).reverse.lookup name

/-- Each of some texts compiles to something in order. -/
theorem inOrder_of_mapM {α : Type} {f : String → Except SyntaxError α} (exprOf : α → Expr)
    (hf : ∀ text x, f text = .ok x → (exprOf x).InOrder) {texts : List String} {xs : List α}
    (h : texts.mapM f = .ok xs) : ∀ e ∈ xs.map exprOf, e.InOrder := by
  have hall := mapM_eq_ok h
  clear h
  induction hall with
  | nil => exact fun e he => absurd he List.not_mem_nil
  | cons hx _ ih => exact List.forall_mem_cons.mpr ⟨hf _ _ hx, ih⟩

theorem compiled_bind_eq_ok {α : Type} {r : Except SyntaxError α} {f : α → Except StatementError Query}
    {q : Query} (h : Query.compiled r >>= f = .ok q) : ∃ x, r = .ok x ∧ f x = .ok q := by
  cases r with
  | error e => cases h
  | ok x => exact ⟨x, rfl, h⟩

theorem Query.mem_exprs {q : Query} {e : Expr} :
    e ∈ q.exprs ↔ q.filter = some e ∨ e ∈ q.fields.map Projection.source
      ∨ e ∈ q.order.map Sorting.expr ∨ e ∈ q.grouping ∨ q.having = some e := by
  simp only [exprs, List.mem_append, Option.mem_toList, or_assoc]

/-- What a call changes: the expressions that it adds are in order, a value for a position comes
after the others, and a value for a name takes the place of the old one. -/
theorem QueryStep.apply_cases {q q' : Query} {step : QueryStep} (h : step.apply q = .ok q') :
    (∀ e ∈ q'.exprs, e ∈ q.exprs ∨ e.InOrder) ∧ q'.values = q.values ++ step.value?.toList ∧
      q'.bindings = step.binding?.elim q.bindings fun (name, value) =>
        Query.rebind name value q.bindings := by
  have kept : q.values = q.values ++ [] := (List.append_nil _).symm
  cases step with
  | filter text =>
    obtain ⟨x, hx, h⟩ := compiled_bind_eq_ok h
    cases h
    have hx := compileExpr_inOrder hx
    exact ⟨by simp only [Query.mem_exprs]; grind, kept, rfl⟩
  | fields texts =>
    obtain ⟨xs, hxs, h⟩ := compiled_bind_eq_ok h
    cases h
    have hxs := inOrder_of_mapM Projection.source (fun _ _ => compileProjection_inOrder) hxs
    exact ⟨by simp only [Query.mem_exprs, List.map_append, List.mem_append]; grind, kept, rfl⟩
  | sort texts =>
    obtain ⟨xs, hxs, h⟩ := compiled_bind_eq_ok h
    cases h
    have hxs := inOrder_of_mapM Sorting.expr (fun _ _ => compileSorting_inOrder) hxs
    exact ⟨by simp only [Query.mem_exprs, List.map_append, List.mem_append]; grind, kept, rfl⟩
  | groupBy texts =>
    obtain ⟨xs, hxs, h⟩ := compiled_bind_eq_ok h
    cases h
    have hxs := inOrder_of_mapM id (fun _ _ => compileExpr_inOrder) hxs
    rw [List.map_id] at hxs
    exact ⟨by simp only [Query.mem_exprs, List.mem_append]; grind, kept, rfl⟩
  | having text =>
    obtain ⟨x, hx, h⟩ := compiled_bind_eq_ok h
    cases h
    have hx := compileExpr_inOrder hx
    exact ⟨by simp only [Query.mem_exprs]; grind, kept, rfl⟩
  | limit rows | offset rows =>
    cases h
    exact ⟨fun e he => .inl he, kept, rfl⟩
  | arg value =>
    cases h
    exact ⟨fun e he => .inl he, rfl, rfl⟩
  | bind name value =>
    cases h
    exact ⟨fun e he => .inl he, kept, rfl⟩

/-! ## Values -/

theorem lookup_rebind_of_ne {name other : String} (h : other ≠ name) (value : Scalar)
    (bindings : List (String × Scalar)) :
    (Query.rebind name value bindings).lookup other = bindings.lookup other := by
  induction bindings with
  | nil =>
    have hbeq : (other == name) = false := beq_false_of_ne h
    simp [Query.rebind, List.lookup_cons, hbeq]
  | cons b rest ih =>
    obtain ⟨n, v⟩ := b
    unfold Query.rebind
    split
    · rename_i hn
      have hbeq : (other == n) = false := beq_false_of_ne (hn ▸ h)
      rw [List.lookup_cons, List.lookup_cons, hbeq]
    · rw [List.lookup_cons, List.lookup_cons, ih]

theorem lastBound_cons (step : QueryStep) (rest : List QueryStep) (name : String) :
    lastBound (step :: rest) name
      = (lastBound rest name).or (step.binding?.toList.lookup name) := by
  unfold lastBound
  rw [List.filterMap_cons]
  cases step.binding? with
  | none => simp
  | some b => simp [List.lookup_append]

/-- What has been put together: the expressions are in order, the values are those given, and the
value of a name is the one that it was bound to last. -/
theorem Query.assemble_cases {q q' : Query} {steps : List QueryStep}
    (h : q.assemble steps = .ok q') (hq : ∀ e ∈ q.exprs, e.InOrder) :
    (∀ e ∈ q'.exprs, e.InOrder) ∧ q'.values = q.values ++ givenValues steps ∧
      ∀ name, q'.bindings.lookup name = (lastBound steps name).or (q.bindings.lookup name) := by
  unfold assemble at h
  induction steps generalizing q with
  | nil =>
    cases h
    exact ⟨hq, (List.append_nil _).symm, fun name => rfl⟩
  | cons step rest ih =>
    rw [List.foldlM_cons] at h
    cases hstep : step.apply q with
    | error e =>
      rw [hstep] at h
      cases h
    | ok next =>
      rw [hstep] at h
      obtain ⟨hexprs, hvalues, hbindings⟩ := QueryStep.apply_cases hstep
      obtain ⟨horder, hgiven, hlookup⟩ := ih h fun e he => (hexprs e he).elim (hq e) id
      refine ⟨horder, ?_, fun name => ?_⟩
      · rw [hgiven, hvalues, List.append_assoc]
        unfold givenValues
        rw [List.filterMap_cons]
        cases step.value? <;> rfl
      · rw [hlookup, lastBound_cons, Option.or_assoc]
        congr 1
        rw [hbindings]
        cases hb : step.binding? with
        | none => rfl
        | some b =>
          obtain ⟨other, value⟩ := b
          by_cases hn : name = other
          · subst hn
            simp [lookup_rebind]
          · have hbeq : (name == other) = false := beq_false_of_ne hn
            simp [lookup_rebind_of_ne hn, List.lookup_cons, hbeq]

/-! ## One numbering for all clauses -/

/-- Trees that are in order one by one are in order together once they are moved. -/
theorem Placeholders.counted_assignFrom (p : Placeholders) {exprs : List Expr}
    (hexprs : ∀ e ∈ exprs, e.InOrder) :
    Counted p.positional ((p.assignFrom exprs).1.flatMap Expr.indices)
      (p.assignFrom exprs).2.positional := by
  induction exprs generalizing p with
  | nil => exact .nothing _
  | cons e rest ih =>
    obtain ⟨he, hrest⟩ := List.forall_mem_cons.mp hexprs
    have hfirst : Counted p.positional (e.shift p.positional).indices
        (p.positional + e.positionalCount) := by
      refine ⟨e.positionalCount, ?_, rfl⟩
      rw [Expr.indices_shift, he, ← he.positionalCount, List.range'_eq_map_range]
      exact List.map_congr_left fun n _ => Nat.add_comm n p.positional
    rw [assignFrom_cons, counting_shift, List.flatMap_cons]
    exact hfirst.trans (ih _ hrest)

/-- Trees that are in order one by one are in order together once they are renumbered, and the
names are those mentioned in any of them. -/
theorem Placeholders.assignFrom_numbers {p q : Placeholders} {exprs shifted : List Expr}
    (hexprs : ∀ e ∈ exprs, e.InOrder) (h : p.assignFrom exprs = (shifted, q)) :
    shifted.map Expr.bare = exprs.map Expr.bare ∧
      Counted p.positional (shifted.flatMap Expr.indices) q.positional ∧
      q.names = (shifted.flatMap Expr.mentions).foldl addName p.names := by
  obtain ⟨rfl, rfl⟩ := Prod.mk.inj h
  refine ⟨bare_assignFrom p exprs, counted_assignFrom p hexprs, ?_⟩
  rw [mentions_assignFrom, names_assignFrom]

/-! ## The request -/

/-- the expressions of each clause, in the order in which placeholders are numbered -/
def Query.clauses (q : Query) : List (List Expr) :=
  [q.filter.toList, q.fields.map Projection.source, q.order.map Sorting.expr, q.grouping,
    q.having.toList]

namespace Find

/-- The expressions of a request, in the order in which placeholders are numbered. -/
def exprs (f : Find) : List Expr :=
  f.criteria.toList ++ f.fields.map Projection.source ++ f.order.map Sorting.expr ++ f.grouping
    ++ f.groupingCriteria.toList

/-- The placeholders of a request, in order of appearance. -/
def holes (f : Find) : List Expr := f.exprs.flatMap Expr.holes

/-- A request has the clauses of a query, but for the numbers of their placeholders. -/
structure SameClauses (f : Find) (q : Query) : Prop where
  criteria : f.criteria.map Expr.bare = q.filter.map Expr.bare
  fields : f.fields.map (fun p => (p.source.bare, p.«alias»))
    = q.fields.map fun p => (p.source.bare, p.«alias»)
  order : f.order.map (fun s => (s.expr.bare, s.direction))
    = q.order.map fun s => (s.expr.bare, s.direction)
  grouping : f.grouping.map Expr.bare = q.grouping.map Expr.bare
  groupingCriteria : f.groupingCriteria.map Expr.bare = q.having.map Expr.bare

end Find

/-- Things of which each holds a tree, with the trees replaced by renumbered ones. -/
theorem map_zipWith_set {α β : Type} (tree : α → Expr) (set : α → Expr → α) (other : α → β)
    (htree : ∀ x e, tree (set x e) = e) (hother : ∀ x e, other (set x e) = other x)
    {xs : List α} {es : List Expr} (h : es.map Expr.bare = (xs.map tree).map Expr.bare) :
    (List.zipWith set xs es).map tree = es ∧
      (List.zipWith set xs es).map (fun x => ((tree x).bare, other x))
        = xs.map fun x => ((tree x).bare, other x) := by
  induction xs generalizing es with
  | nil =>
    obtain rfl : es = [] := List.map_eq_nil_iff.mp h
    exact ⟨rfl, rfl⟩
  | cons x rest ih =>
    cases es with
    | nil => cases h
    | cons e more =>
      rw [List.map_cons, List.map_cons, List.map_cons, List.cons.injEq] at h
      obtain ⟨htrees, hpairs⟩ := ih h.2
      rw [List.zipWith_cons_cons]
      constructor
      · rw [List.map_cons, htree, htrees]
      · rw [List.map_cons, List.map_cons, htree, hother, h.1, hpairs]

theorem head?_of_map_bare {es : List Expr} {e? : Option Expr}
    (h : es.map Expr.bare = e?.toList.map Expr.bare) :
    es.head?.toList = es ∧ es.head?.map Expr.bare = e?.map Expr.bare := by
  cases e? with
  | none =>
    obtain rfl : es = [] := List.map_eq_nil_iff.mp h
    exact ⟨rfl, rfl⟩
  | some e =>
    obtain ⟨x, rest, rfl, hx, hrest⟩ := List.map_eq_cons_iff.mp h
    obtain rfl : rest = [] := List.map_eq_nil_iff.mp hrest
    exact ⟨rfl, congrArg some hx⟩

/-- The request of a query has the trees that it is made from, and the clauses of the query if they
are those of the query renumbered. -/
theorem Query.exprs_toFind {q : Query} {exprs : List Expr} (p : Placeholders) (args : List Scalar)
    (h : exprs.map Expr.bare = q.exprs.map Expr.bare) :
    (q.toFind exprs p args).exprs = exprs ∧ (q.toFind exprs p args).SameClauses q := by
  unfold Query.exprs at h
  rw [List.map_append, List.map_append, List.map_append, List.map_append] at h
  obtain ⟨es, having, rfl, h, hhaving⟩ := List.map_eq_append_iff.mp h
  obtain ⟨es, grouping, rfl, h, hgrouping⟩ := List.map_eq_append_iff.mp h
  obtain ⟨es, order, rfl, h, horder⟩ := List.map_eq_append_iff.mp h
  obtain ⟨filter, fields, rfl, hfilter, hfields⟩ := List.map_eq_append_iff.mp h
  have split {front back : List Expr} {fs : List Expr} (n : Nat)
      (h : front.map Expr.bare = fs.map Expr.bare) (hn : fs.length = n) :
      (front ++ back).splitAt n = (front, back) := by
    have hlength : front.length = n := by
      rw [← hn, ← List.length_map Expr.bare, h, List.length_map]
    rw [List.splitAt_eq, List.take_left' hlength, List.drop_left' hlength]
  have hfind : q.toFind (filter ++ fields ++ order ++ grouping ++ having) p args =
      { target := q.target, schema := q.schema, mode := q.mode,
        fields := List.zipWith (fun f source => { f with source }) q.fields fields,
        criteria := filter.head?, limit := q.window,
        order := List.zipWith (fun s expr => { s with expr }) q.order order, grouping,
        groupingCriteria := having.head?, args, placeholders := p } := by
    unfold toFind
    simp only [List.append_assoc]
    rw [split _ hfilter rfl]
    dsimp only
    rw [split _ hfields (List.length_map _)]
    dsimp only
    rw [split _ horder (List.length_map _)]
    dsimp only
    rw [split _ hgrouping rfl]
  rw [hfind]
  obtain ⟨hcriteria, hcriteria'⟩ := head?_of_map_bare hfilter
  obtain ⟨hgroups, hgroups'⟩ := head?_of_map_bare hhaving
  obtain ⟨hsources, hsources'⟩ := map_zipWith_set Projection.source
    (fun f source => { f with source }) Projection.alias (fun _ _ => rfl) (fun _ _ => rfl) hfields
  obtain ⟨hkeys, hkeys'⟩ := map_zipWith_set Sorting.expr
    (fun s expr => { s with expr }) Sorting.direction (fun _ _ => rfl) (fun _ _ => rfl) horder
  refine ⟨?_, hcriteria', hsources', hkeys', hgrouping, hgroups'⟩
  unfold Find.exprs
  rw [hcriteria, hsources, hkeys, hgroups]

theorem positionalArgs_eq_ok {index count : Nat} {values front : List Scalar}
    (h : Query.positionalArgs index count values = .ok front) :
    count ≤ values.length ∧ front = values.take count := by
  induction count generalizing index values front with
  | zero =>
    cases h
    exact ⟨Nat.zero_le _, List.take_zero.symm⟩
  | succ count ih =>
    cases values with
    | nil => cases h
    | cons v rest =>
      unfold Query.positionalArgs at h
      cases hrest : Query.positionalArgs (index + 1) count rest with
      | error e =>
        rw [hrest] at h
        cases h
      | ok more =>
        rw [hrest] at h
        cases h
        obtain ⟨hcount, rfl⟩ := ih hrest
        exact ⟨Nat.succ_le_succ hcount, List.take_succ_cons.symm⟩

/-- The arguments are the values for the positions and behind them one value for each name. -/
theorem Query.args_eq_ok {q : Query} {p : Placeholders} {args : List Scalar}
    (h : q.args p = .ok args) :
    p.positional ≤ q.values.length ∧ ∃ back, args = q.values.take p.positional ++ back ∧
      List.Forall₂ (fun name value => q.bindings.lookup name = some value) p.names back := by
  unfold Query.args at h
  cases hfront : positionalArgs 0 p.positional q.values with
  | error e =>
    rw [hfront] at h
    cases h
  | ok front =>
    rw [hfront] at h
    obtain ⟨hcount, rfl⟩ := positionalArgs_eq_ok hfront
    cases hback : p.names.mapM q.namedArg with
    | error e =>
      rw [hback] at h
      cases h
    | ok back =>
      rw [hback] at h
      cases h
      refine ⟨hcount, back, rfl, (mapM_eq_ok hback).imp fun name value hvalue => ?_⟩
      unfold namedArg at hvalue
      cases hlookup : q.bindings.lookup name with
      | none =>
        rw [hlookup] at hvalue
        cases hvalue
      | some found =>
        rw [hlookup] at hvalue
        cases hvalue
        rfl

theorem Query.build_eq_ok {q : Query} {find : Find} (h : q.build = .ok (.find find)) :
    ∃ exprs p args, Placeholders.assign q.exprs = (exprs, p) ∧ q.args p = .ok args ∧
      find = q.toFind exprs p args := by
  unfold build at h
  cases hassign : Placeholders.assign q.exprs with
  | mk exprs p =>
  rw [hassign] at h
  dsimp only at h
  split at h
  · cases h
  · cases hargs : q.args p with
    | error e =>
      rw [hargs] at h
      cases h
    | ok args =>
      rw [hargs] at h
      cases h
      exact ⟨exprs, p, args, rfl, hargs, rfl⟩

/-! ## Positions -/

/-- The placeholders of a message line up with its arguments: `marks` are the placeholders in turn
with the positions that the message carries for them, `values` are the values for the `?` in turn,
and `valueOf` is the value for a name.  A position is a word of 32 bits, which is the place of the
argument for the first `2 ^ 32` of them. -/
structure Aligned (marks : List (Option String × UInt32)) (args : List (List Field))
    (values : List Scalar) (valueOf : String → Option Scalar) : Prop where
  /-- there is one argument for each `?`, and one for each name -/
  count : args.length = (marks.filter (·.1.isNone)).length
    + (marks.filterMap Prod.fst).dedup.length
  /-- no placeholder points past the arguments -/
  within : ∀ mark ∈ marks, mark.2.toNat < args.length
  /-- the `?` in turn point at the values in turn -/
  positional : ∀ (i : Nat) (position : UInt32),
    ((marks.filter (·.1.isNone)).map Prod.snd)[i]? = some position →
    position = .ofNat i ∧ ∃ value : Scalar, values[i]? = some value ∧ args[i]? = some value.fields
  /-- a name points at its value wherever it appears -/
  named : ∀ (name : String) (position : UInt32), (some name, position) ∈ marks →
    ∃ i, position = .ofNat i ∧
      ∃ value : Scalar, valueOf name = some value ∧ args[i]? = some value.fields

/-- The placeholders of a request are numbered by its table: the `?` from zero on, and behind them
the names, each once, in the order in which they first appear. -/
structure Find.Numbered (f : Find) : Prop where
  indices : f.holes.filterMap Expr.index? = List.range f.placeholders.positional
  names : f.placeholders.names = (f.holes.filterMap Expr.name?).foldl addName []

namespace Find

variable {f : Find}

/-- the placeholders of a request, each with its position -/
def marks (f : Find) : List (Option String × UInt32) :=
  f.clauses.flatten.flatMap (Expr.marks f.placeholders)

theorem marks_eq (f : Find) : f.marks = f.holes.filterMap fun hole =>
    (f.placeholders.position? hole).map fun n => (hole.name?, n) := by
  have hexprs : f.clauses.flatten = f.exprs := by simp [clauses, exprs]
  unfold marks holes
  rw [hexprs, List.filterMap_flatMap]
  rfl

theorem filterMap_fst_marks (f : Find) :
    f.marks.filterMap Prod.fst = f.holes.filterMap Expr.name? := by
  rw [marks_eq, List.filterMap_filterMap]
  refine List.filterMap_congr fun hole _ => ?_
  cases hole <;> rfl

theorem filter_marks (f : Find) : f.marks.filter (·.1.isNone)
    = (f.holes.filterMap Expr.index?).map fun i => (none, UInt32.ofNat i) := by
  rw [marks_eq, List.filter_filterMap, List.map_filterMap]
  refine List.filterMap_congr fun hole _ => ?_
  cases hole <;> rfl

namespace Numbered

variable (h : f.Numbered)
include h

theorem hasPlace {hole : Expr} (hhole : hole ∈ f.holes) :
    ∃ n, f.placeholders.HasPlace hole n := by
  obtain ⟨e, -, he⟩ := List.mem_flatMap.mp hhole
  rcases Expr.isHole_of_mem_holes e hole he with ⟨name, rfl⟩ | ⟨i, rfl⟩
  · refine ⟨_, .named ?_⟩
    rw [h.names]
    exact mem_foldl_addName.mpr (.inr (List.mem_filterMap.mpr ⟨_, hhole, rfl⟩))
  · refine ⟨_, .positional (List.mem_range.mp ?_)⟩
    rw [← h.indices]
    exact List.mem_filterMap.mpr ⟨_, hhole, rfl⟩

/-- What a placeholder is sent with is the word of its place. -/
theorem exists_place {mark : Option String × UInt32} (hmark : mark ∈ f.marks) :
    ∃ hole n, f.placeholders.HasPlace hole n ∧ mark = (hole.name?, .ofNat n) := by
  rw [marks_eq] at hmark
  obtain ⟨hole, hhole, hmark⟩ := List.mem_filterMap.mp hmark
  obtain ⟨n, hn⟩ := h.hasPlace hhole
  rw [hn.position?_eq] at hmark
  exact ⟨hole, n, hn, (Option.some.inj hmark).symm⟩

theorem count : f.placeholders.count
    = (f.marks.filter (·.1.isNone)).length + (f.marks.filterMap Prod.fst).dedup.length := by
  rw [filter_marks, List.length_map, filterMap_fst_marks, h.indices, List.length_range,
    ← length_foldl_addName, ← h.names, Placeholders.count]

/-- The position of a placeholder is smaller than the number of arguments. -/
theorem toNat_lt {mark : Option String × UInt32} (hmark : mark ∈ f.marks) :
    mark.2.toNat < f.placeholders.count := by
  obtain ⟨hole, n, hn, rfl⟩ := h.exists_place hmark
  exact Nat.lt_of_le_of_lt (Nat.mod_le n _) hn.lt_count

theorem positional_eq {i : Nat} {position : UInt32}
    (hi : ((f.marks.filter (·.1.isNone)).map Prod.snd)[i]? = some position) :
    i < f.placeholders.positional ∧ position = .ofNat i := by
  rw [filter_marks, h.indices, List.map_map, List.getElem?_map] at hi
  obtain ⟨k, hk, rfl⟩ := Option.map_eq_some_iff.mp hi
  obtain ⟨hlt, rfl⟩ := List.getElem?_eq_some_iff.mp hk
  rw [List.length_range] at hlt
  exact ⟨hlt, by rw [List.getElem_range]; rfl⟩

theorem named_eq {name : String} {position : UInt32} (hmark : (some name, position) ∈ f.marks) :
    name ∈ f.placeholders.names ∧
      position = .ofNat (f.placeholders.positional + f.placeholders.names.idxOf name) := by
  obtain ⟨hole, n, hn, hplace⟩ := h.exists_place hmark
  obtain ⟨hname, rfl⟩ := Prod.mk.inj hplace
  cases hn with
  | named known =>
    obtain rfl := Option.some.inj hname
    exact ⟨known, rfl⟩
  | positional => cases hname

end Numbered

end Find

/-- What is built from expressions in order: a request with the clauses of the query, the arguments
of which are the values for the positions and behind them one value for each name. -/
theorem Query.build_numbered {q : Query} {find : Find} (horder : ∀ e ∈ q.exprs, e.InOrder)
    (hfind : q.build = .ok (.find find)) :
    find.SameClauses q ∧ find.Numbered ∧ find.placeholders.positional ≤ q.values.length ∧
      ∃ back, find.args = q.values.take find.placeholders.positional ++ back ∧
        List.Forall₂ (fun name value => q.bindings.lookup name = some value)
          find.placeholders.names back := by
  obtain ⟨exprs, p, args, hassign, hargs, rfl⟩ := build_eq_ok hfind
  obtain ⟨hbare, ⟨n, hindices, hn⟩, hnames⟩ := Placeholders.assignFrom_numbers horder hassign
  obtain ⟨hexprs, hclauses⟩ := exprs_toFind p args hbare
  have hpositional : p.positional = n := hn.trans (Nat.zero_add n)
  refine ⟨hclauses, ⟨?_, ?_⟩, args_eq_ok hargs⟩
  · unfold Find.holes
    rw [hexprs, List.filterMap_flatMap, List.range_eq_range',
      show (q.toFind exprs p args).placeholders.positional = n from hpositional]
    exact hindices
  · unfold Find.holes
    rw [hexprs, List.filterMap_flatMap]
    exact hnames

theorem Find.SameClauses.labels {f : Find} {q : Query} (h : f.SameClauses q) :
    f.clauses.map (·.map Expr.labels) = q.clauses.map (·.map Expr.labels) := by
  have hfields := congrArg (List.map fun x => x.1.labels) h.fields
  have horder := congrArg (List.map fun x => x.1.labels) h.order
  have hgrouping := congrArg (List.map Expr.labels) h.grouping
  have htree {x y : Option Expr} (h : x.map Expr.bare = y.map Expr.bare) :
      x.toList.map Expr.labels = y.toList.map Expr.labels := by
    have hlabels := congrArg (fun z => z.toList.map Expr.labels) h
    simpa only [Option.toList_map, List.map_map, Function.comp_def, Expr.labels_bare] using hlabels
  simp only [List.map_map, Function.comp_def, Expr.labels_bare] at hfields horder hgrouping
  simp only [clauses, Query.clauses, List.map_cons, List.map_nil, List.map_map, Function.comp_def,
    htree h.criteria, hfields, horder, hgrouping, htree h.groupingCriteria]

/-- The message of a request lines up with its arguments, however its query has been put together:
clause by clause it has the trees of the query with a position for each placeholder in them, and
these positions point at the values that were given. -/
theorem Query.arguments_aligned {target : String} {schema : Option String} {mode : Mode}
    {steps : List QueryStep} {q : Query} {find : Find}
    (hq : assemble { target, schema, mode } steps = .ok q)
    (hfind : q.build = .ok (.find find)) :
    find.SameClauses q ∧ ∃ (m : FindMessage) (marks : List (Option String × UInt32)),
      (Request.find find).fields = m.fields ∧ m.Marks (q.clauses.map (·.map Expr.labels)) marks ∧
        Aligned marks m.args (givenValues steps) (lastBound steps) := by
  obtain ⟨horder, hvalues, hlookup⟩ := assemble_cases hq fun e he => absurd he List.not_mem_nil
  obtain ⟨hclauses, hnumbered, hcount, back, hargs, hbound⟩ := build_numbered horder hfind
  have hfront : (q.values.take find.placeholders.positional).length
      = find.placeholders.positional := by
    rw [List.length_take, Nat.min_eq_left hcount]
  have hlength : find.parts.args.length = find.placeholders.count := by
    show (find.args.map Scalar.fields).length = _
    rw [List.length_map, hargs, List.length_append, hfront, hbound.length_eq.symm]
    rfl
  have harg {i : Nat} {value : Scalar} (h : find.args[i]? = some value) :
      find.parts.args[i]? = some value.fields := by
    show (find.args.map Scalar.fields)[i]? = _
    rw [List.getElem?_map, h]
    rfl
  refine ⟨hclauses, find.parts, find.marks, find.toFields_eq, hclauses.labels ▸ find.parts_marks,
    hlength.trans hnumbered.count, fun mark h => hlength ▸ hnumbered.toNat_lt h,
    fun i position h => ?_, fun name position h => ?_⟩
  · obtain ⟨hi, rfl⟩ := hnumbered.positional_eq h
    have hgiven : i < q.values.length := Nat.lt_of_lt_of_le hi hcount
    refine ⟨rfl, q.values[i], ?_, harg ?_⟩
    · rw [← List.getElem?_eq_getElem hgiven, hvalues]
      rfl
    · rw [hargs, List.getElem?_append_left (hfront.symm ▸ hi), List.getElem?_take, if_pos hi,
        List.getElem?_eq_getElem hgiven]
  · obtain ⟨known, rfl⟩ := hnumbered.named_eq h
    have hidx := List.idxOf_lt_length_of_mem known
    have hidx' : find.placeholders.names.idxOf name < back.length := hbound.length_eq ▸ hidx
    refine ⟨_, rfl, back[find.placeholders.names.idxOf name], ?_, harg ?_⟩
    · have hvalue := hbound.get hidx hidx'
      rw [List.get_eq_getElem, List.getElem_idxOf, hlookup] at hvalue
      simpa using hvalue
    · rw [hargs, List.getElem?_append_right (by omega), hfront, Nat.add_sub_cancel_left,
        List.getElem?_eq_getElem hidx']

/-- the calls for a query with both kinds of placeholders in three clauses -/
def sampleQuerySteps : List QueryStep :=
  [.having ":who != ?", .filter "age > ? && name = :who", .arg (.uint 18), .sort ["age DESC"],
    .fields ["age + ? AS later", "name"], .bind "who" (.str "a"), .arg (.uint 5),
    .bind "who" (.str "b"), .arg .null, .limit 3]

def sampleQuery : Query where
  target := "users"
  filter := some (.op "&&" [.op ">" [.field [.member "age"], .positional 0],
    .op "==" [.field [.member "name"], .named "who"]])
  fields := [⟨.op "+" [.field [.member "age"], .positional 0], some "later"⟩,
    ⟨.field [.member "name"], none⟩]
  order := [⟨.field [.member "age"], .descending⟩]
  having := some (.op "!=" [.named "who", .positional 0])
  limit := some 3
  values := [.uint 18, .uint 5, .null]
  bindings := [("who", .str "b")]

theorem Query.arguments_aligned_sample :
    assemble { target := "users" } sampleQuerySteps = .ok sampleQuery ∧
      ∃ find, sampleQuery.build = .ok (.find find) ∧ find.SameClauses sampleQuery ∧
        ∃ (m : FindMessage) (marks : List (Option String × UInt32)),
          (Request.find find).fields = m.fields ∧
            m.Marks (sampleQuery.clauses.map (·.map Expr.labels)) marks ∧
            Aligned marks m.args [.uint 18, .uint 5, .null] (lastBound sampleQuerySteps) := by
  have hq : assemble { target := "users" } sampleQuerySteps = .ok sampleQuery := rfl
  obtain ⟨find, hfind⟩ : ∃ find, sampleQuery.build = .ok (.find find) := ⟨_, rfl⟩
  exact ⟨hq, find, hfind, arguments_aligned hq hfind⟩

end DocWire
