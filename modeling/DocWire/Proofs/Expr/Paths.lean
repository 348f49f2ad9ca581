import DocWire.Proofs.Expr.Yields
import Mathlib.Data.List.Chain

/-!
# The paths that are read

Which steps a path can have next to each other and at its end.  While the steps are read one by
one, the last one that has been read says which characters may come next: a `.*` is read only where
no further star follows it.

* `PathItem.MayStandBefore`, `ProperPath`   where a `**` may stand;
* `segments_proper`     the steps behind a root or a first member;
* `rootedPath_proper`, `arrowPath_proper`   a path into a column.
-/

namespace DocWire

/-- Whether a step may stand right before another one: neither a `**` nor a `.*` before a `**`. -/
def PathItem.MayStandBefore : PathItem → PathItem → Prop
  | anyMember, descendants | descendants, descendants => False
  | _, _ => True

/-- A path in which every `**` is at its place. -/
structure ProperPath (path : List PathItem) : Prop where
  connected : path.IsChain PathItem.MayStandBefore
  /-- a path does not end in `**` -/
  ended : path.getLast? ≠ some .descendants

namespace ProperPath

theorem nil : ProperPath [] := ⟨.nil, by simp⟩

theorem singleton {item : PathItem} (h : item ≠ .descendants) : ProperPath [item] :=
  ⟨.singleton item, by simpa using h⟩

theorem cons {item next : PathItem} {rest : List PathItem} (h : item.MayStandBefore next)
    (hrest : ProperPath (next :: rest)) : ProperPath (item :: next :: rest) :=
  ⟨.cons_cons h hrest.connected, by rw [List.getLast?_cons_cons]; exact hrest.ended⟩

end ProperPath

theorem PathItem.mayStandBefore_of_ne {item next : PathItem} (h : next ≠ descendants) :
    item.MayStandBefore next := by
  cases next with
  | descendants => exact absurd rfl h
  | _ => cases item <;> trivial

/-! ## Step by step -/

/-- A member is no `**`, and a wildcard is read only where no further star follows. -/
theorem memberStep_yields (s : Source) : Yields (memberStep s) fun item t =>
    item ≠ .descendants ∧ (item = .anyMember → t.peek ≠ some '*') := by
  have named (name : String) (t : Source) : PathItem.member name ≠ .descendants ∧
      (PathItem.member name = .anyMember → t.peek ≠ some '*') :=
    ⟨PathItem.noConfusion, PathItem.noConfusion⟩
  unfold memberStep
  split
  · exact .fail s _
  · split
    · exact .fail s _
    · rename_i hstar
      refine .ok ⟨PathItem.noConfusion, fun _ => ?_⟩
      show (s.rest.drop 1).head? ≠ some '*'
      rw [List.drop_one]
      exact hstar
  · split
    · refine .bind (yields_true _) fun name t _ => ?_
      dsimp only
      split
      · exact .fail t _
      · exact .ok (named name t)
    · split
      · exact .ok (named _ _)
      · exact .fail s _
  · exact .fail s _

/-- What stands in brackets is neither a `**` nor a `.*`. -/
theorem indexStep_yields (s : Source) : Yields (indexStep s) fun item _ =>
    item ≠ .descendants ∧ item ≠ .anyMember := by
  have closed {item : PathItem} (h : item ≠ .descendants ∧ item ≠ .anyMember) (t : Source) :
      Yields (t.expect ']' "']'" >>= fun t => .ok (item, t)) fun item _ =>
        item ≠ .descendants ∧ item ≠ .anyMember :=
    .behind fun _ => .ok h
  unfold indexStep
  dsimp only
  split
  · exact closed ⟨PathItem.noConfusion, PathItem.noConfusion⟩ _
  · split
    · exact .error _
    · split
      · exact closed ⟨PathItem.noConfusion, PathItem.noConfusion⟩ _
      · exact .error _

theorem peek_of_eatText {s t : Source} {text : String} {c : Char} {cs : List Char}
    (htext : text.toList = c :: cs) (h : s.eatText text = some t) : s.peek = some c := by
  unfold Source.eatText at h
  rw [Option.ite_none_right_eq_some] at h
  obtain ⟨before, hbefore⟩ := List.isPrefixOf_iff_prefix.mp h.1
  show s.rest.head? = some c
  rw [← hbefore, htext]
  rfl

/-- The steps that are read behind a step go on from it properly, if it is no wildcard with a star
behind it. -/
theorem segments_proper (bound : Nat) {previous : Option PathItem} {s : Source}
    (hs : previous = some .anyMember → s.peek ≠ some '*') :
    Yields (segments bound previous s) fun path _ => ProperPath (previous.toList ++ path) := by
  have ended {previous : Option PathItem} {s : Source} :
      Yields (endOfPath previous s) fun path _ => ProperPath (previous.toList ++ path) := by
    unfold endOfPath
    split
    · exact .fail s _
    · rename_i hprevious
      refine .ok ?_
      cases previous with
      | none => exact .nil
      | some item => exact .singleton fun h => hprevious (congrArg some h)
  induction bound generalizing previous s with
  | zero => exact ended
  | succ bound ih =>
    -- one more step, and the others behind it
    have andThen {step : Except SyntaxError (PathItem × Source)}
        (hstep : Yields step fun item t => (∀ last ∈ previous, last.MayStandBefore item) ∧
          (item = .anyMember → t.peek ≠ some '*')) :
        Yields (step >>= fun x => segments bound (some x.1) x.2 >>= fun y => .ok (x.1 :: y.1, y.2))
          fun path _ => ProperPath (previous.toList ++ path) := by
      refine .bind hstep fun item t ⟨hbefore, hstar⟩ =>
        .bind (ih fun h => hstar (Option.some.inj h)) fun path u hpath => .ok ?_
      cases previous with
      | none => exact hpath
      | some last => exact .cons (hbefore last rfl) hpath
    unfold segments
    dsimp only
    split
    · rename_i t ht
      split
      · exact .fail s _
      · rename_i hdoubled
        refine andThen (.ok ⟨fun last hlast => ?_, PathItem.noConfusion⟩)
        obtain rfl : previous = some last := hlast
        cases last with
        | anyMember => exact hs rfl (peek_of_eatText rfl ht)
        | descendants => exact hdoubled rfl
        | _ => trivial
    · split
      · exact andThen fun item t h =>
          have hitem := memberStep_yields _ item t h
          ⟨fun _ _ => PathItem.mayStandBefore_of_ne hitem.1, hitem.2⟩
      · exact andThen fun item t h =>
          have hitem := indexStep_yields _ item t h
          ⟨fun _ _ => PathItem.mayStandBefore_of_ne hitem.1, fun h => absurd h hitem.2⟩
      · exact ended

/-! ## Paths into columns -/

theorem rootedPath_proper {text : List Char} {path : List PathItem}
    (h : rootedPath text = .ok path) : ProperPath path := by
  unfold rootedPath at h
  dsimp only at h
  split at h
  · cases h
  · rename_i s _
    have hroot : (none : Option PathItem) = some .anyMember → s.peek ≠ some '*' :=
      fun h => nomatch h
    cases hsegments : segments text.length none s with
    | error e =>
      rw [hsegments] at h
      cases h
    | ok found =>
      rw [hsegments] at h
      change (if found.2.skipBlanks.rest.isEmpty then Except.ok found.1 else _) = _ at h
      split at h
      · obtain rfl := Except.ok.inj h
        exact segments_proper text.length hroot found.1 found.2 hsegments
      · cases h

theorem arrowPath_proper (s : Source) : Yields (arrowPath s) fun path _ => ProperPath path := by
  unfold arrowPath
  dsimp only
  split
  · refine .bind (yields_true _) fun text t _ => ?_
    dsimp only
    split
    · rename_i hpath
      exact .ok (rootedPath_proper hpath)
    · exact .error _
  · exact .fail _ _

end DocWire
