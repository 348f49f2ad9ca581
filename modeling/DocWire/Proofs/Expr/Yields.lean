import DocWire.Expr.Compile

/-!
# What readers give

Whatever is proved of everything that a production can give holds of what a text is compiled to.

* `Yields`              what holds of everything that a reader can give;
* `exists_of_compile`   what is compiled was given by the production.
-/

namespace DocWire

variable {α β : Type}

/-- What a reader gives, if it gives something, satisfies `post`. -/
def Yields (r : Except SyntaxError (α × Source)) (post : α → Source → Prop) : Prop :=
  ∀ x t, r = .ok (x, t) → post x t

namespace Yields

variable {post : α → Source → Prop} {post' : β → Source → Prop}

theorem ok {x : α} {t : Source} (h : post x t) : Yields (.ok (x, t)) post := by
  intro y u hyu
  cases hyu
  exact h

theorem error (e : SyntaxError) : Yields (.error e) post := by
  intro y u hyu
  cases hyu

theorem fail (s : Source) (what : Complaint) : Yields (s.fail what) post := error _

theorem bind {r : Except SyntaxError (α × Source)}
    {f : α × Source → Except SyntaxError (β × Source)} (hr : Yields r post)
    (hf : ∀ x t, post x t → Yields (f (x, t)) post') : Yields (r >>= f) post' := by
  cases r with
  | error e => exact error e
  | ok xt => exact hf xt.1 xt.2 (hr xt.1 xt.2 rfl)

theorem map {r : Except SyntaxError (α × Source)} {f : α × Source → β × Source}
    (hr : Yields r post) (hf : ∀ x t, post x t → post' (f (x, t)).1 (f (x, t)).2) :
    Yields (r.map f) post' := by
  cases r with
  | error e => exact error e
  | ok xt => exact ok (hf xt.1 xt.2 (hr xt.1 xt.2 rfl))

end Yields

theorem yields_true (r : Except SyntaxError (α × Source)) : Yields r fun _ _ => True :=
  fun _ _ _ => trivial

/-- What follows a character that has to follow. -/
theorem Yields.behind {s : Source} {c : Char} {what : String}
    {f : Source → Except SyntaxError (α × Source)} {post : α → Source → Prop}
    (h : ∀ t, Yields (f t) post) : Yields (s.expect c what >>= f) post := by
  cases s.expect c what with
  | error e => exact .error e
  | ok t => exact h t

/-! ## Compiling -/

/-- What is compiled was given by the production, and nothing but blanks was left. -/
theorem exists_end_of_compile {text : String} {mode : Mode} {entry : Entry} {compiled : Compiled}
    (h : compile text mode entry = .ok compiled) :
    ∃ t, production mode text.toList.length entry (.ofList text.toList) = .ok (compiled, t) ∧
      t.skipBlanks.rest = [] := by
  unfold compile at h
  dsimp only at h
  cases hp : production mode text.toList.length entry (.ofList text.toList) with
  | error e =>
    rw [show (Source.ofList text.toList).rest.length = text.toList.length from rfl, hp] at h
    cases h
  | ok x =>
    rw [show (Source.ofList text.toList).rest.length = text.toList.length from rfl, hp] at h
    change (if x.2.skipBlanks.rest.isEmpty then Except.ok x.1 else _) = _ at h
    split at h
    · rename_i hend
      obtain rfl := Except.ok.inj h
      exact ⟨x.2, rfl, List.isEmpty_iff.mp hend⟩
    · cases h

theorem exists_of_compile {text : String} {mode : Mode} {entry : Entry} {compiled : Compiled}
    (h : compile text mode entry = .ok compiled) :
    ∃ t, production mode text.toList.length entry (.ofList text.toList) = .ok (compiled, t) := by
  obtain ⟨t, ht, -⟩ := exists_end_of_compile h
  exact ⟨t, ht⟩

theorem exists_of_compileExpr {text : String} {mode : Mode} {e : Expr}
    (h : compileExpr text mode = .ok e) :
    ∃ compiled, compile text mode .expr = .ok compiled ∧ compiled.toExpr = e := by
  unfold compileExpr at h
  cases hc : compile text mode .expr with
  | error err =>
    rw [hc] at h
    cases h
  | ok compiled =>
    rw [hc] at h
    exact ⟨compiled, rfl, Except.ok.inj h⟩

/-- What is compiled as an expression was read as one up to the end. -/
theorem exists_read_of_compileExpr {text : String} {mode : Mode} {e : Expr}
    (h : compileExpr text mode = .ok e) :
    ∃ t, exprWithin mode text.toList.length (.ofList text.toList) = .ok (e, t) ∧
      t.skipBlanks.rest = [] := by
  obtain ⟨compiled, hcompile, rfl⟩ := exists_of_compileExpr h
  obtain ⟨t, ht, hend⟩ := exists_end_of_compile hcompile
  refine ⟨t, ?_, hend⟩
  dsimp only [production] at ht
  cases hread : exprWithin mode text.toList.length (.ofList text.toList) with
  | error err =>
    rw [hread] at ht
    cases ht
  | ok x =>
    rw [hread] at ht
    cases ht
    rfl

end DocWire
