import DocWire.Proofs.Expr.Formed
import DocWire.Proofs.Expr.Readable.Atoms
import Mathlib.Data.Set.List

/-!
# The wording of a path

The steps of a path are worded one behind the other with nothing between them.  The wording is read
as the same steps again where the names of members are words, and just where every `**` is at its
place.

* `exists_rootedPath`     a path whose members are words, as a phrase has it;
* `RootedPath.rootedPath_chars`, `RootedPath.compileExpr_chars`   its wording is read;
* `pathText_read_iff`     which paths are read again from their wordings.
-/

namespace DocWire

/-! ## Steps whose members are words -/

theorem toList_pathText (path : List PathItem) :
    (pathText path).toList = '$' :: path.flatMap fun item => item.text.toList := by
  unfold pathText
  rw [String.toList_append, String.toList_join, List.flatMap_map]
  rfl

theorem PathStep.toList_text_item (step : PathStep) : step.item.text.toList = step.chars := by
  cases step with
  | member name => simp [item, PathItem.text, Word.text, chars]
  | index n => simp [item, PathItem.text, chars, Number.digitsOf]
  | anyMember | anyIndex | descendants => rfl

theorem RootedPath.toList_pathText_items (p : RootedPath) :
    (pathText (p.steps.map PathStep.item)).toList = p.chars := by
  rw [toList_pathText, List.flatMap_map]
  simp only [PathStep.toList_text_item]
  rfl

theorem exists_word_of_name {name : String} (hstart : name.toList.head?.any isWordStart = true)
    (hchars : name.toList.all isWordChar = true) : ∃ w : Word, w.text = name := by
  obtain ⟨w, hw⟩ := exists_word hstart hchars
  refine ⟨w, ?_⟩
  unfold Word.text
  rw [hw, String.ofList_toList]

theorem exists_pathStep (item : PathItem)
    (hword : ∀ name, .member name = item → ∃ w : Word, w.text = name) :
    ∃ step : PathStep, step.item = item := by
  cases item with
  | member name =>
    obtain ⟨w, rfl⟩ := hword name rfl
    exact ⟨.member w, rfl⟩
  | anyMember => exact ⟨.anyMember, rfl⟩
  | index n => exact ⟨.index n, rfl⟩
  | anyIndex => exact ⟨.anyIndex, rfl⟩
  | descendants => exact ⟨.descendants, rfl⟩

theorem PathStep.mayFollow_of_mayStandBefore {step next : PathStep}
    (h : step.item.MayStandBefore next.item) : step.MayFollow next := by
  cases step <;> cases next <;> exact h

/-- A path whose members are words is a phrase if every `**` is at its place. -/
theorem exists_rootedPath {path : List PathItem}
    (hwords : ∀ name, .member name ∈ path → ∃ w : Word, w.text = name) (hproper : ProperPath path) :
    ∃ p : RootedPath, p.steps.map PathStep.item = path := by
  have hsteps : path ∈ Set.range (List.map PathStep.item) := by
    rw [Set.range_list_map]
    rintro item hitem
    exact exists_pathStep item fun name hname => hwords name (hname ▸ hitem)
  obtain ⟨steps, rfl⟩ := hsteps
  refine ⟨⟨steps, ?_, fun h => hproper.ended ?_⟩, rfl⟩
  · exact ((List.isChain_map _).mp hproper.connected).imp
      fun _ _ => PathStep.mayFollow_of_mayStandBefore
  · rw [List.getLast?_map, h]
    rfl

/-! ## Reading the wording -/

namespace RootedPath

variable (p : RootedPath)

theorem rootedPath_chars : rootedPath p.chars = .ok (p.steps.map PathStep.item) := by
  obtain ⟨pos, hsteps⟩ := segments_append .done p.steps none p.connected p.ended
    p.length_steps 1 0
  rw [List.append_nil] at hsteps
  unfold rootedPath
  dsimp only
  rw [show (Source.ofList p.chars).skipBlanks.eat '$'
    = some ⟨p.steps.flatMap PathStep.chars, 1, 0⟩ from rfl]
  dsimp only
  rw [show segments p.chars.length none _ = _ from hsteps]
  rfl

theorem compileExpr_chars :
    compileExpr (String.ofList p.chars) .document = .ok (.field (p.steps.map PathStep.item)) :=
  compileExpr_of_reads (p.readable p.length_steps [] .done)

end RootedPath

theorem properPath_of_compileExpr {text : String} {path : List PathItem} {mode : Mode}
    (h : compileExpr text mode = .ok (.field path)) : ProperPath path := by
  cases compileExpr_formedIn h with
  | field _ hproper => exact hproper

/-- **Paths and their wordings.**  A path whose members are words is read from its wording, as a
path and as an expression on documents, exactly where it neither ends in `**` nor has a `**` or a
`.*` right before a `**`. -/
theorem pathText_read_iff (path : List PathItem)
    (hwords : ∀ name, .member name ∈ path → ∃ w : Word, w.text = name) :
    (rootedPath (pathText path).toList = .ok path ↔ ProperPath path) ∧
      (compileExpr (pathText path) .document = .ok (.field path) ↔ ProperPath path) := by
  refine ⟨⟨rootedPath_proper, fun hproper => ?_⟩, ⟨properPath_of_compileExpr, fun hproper => ?_⟩⟩
  · obtain ⟨p, rfl⟩ := exists_rootedPath hwords hproper
    rw [p.toList_pathText_items]
    exact p.rootedPath_chars
  · obtain ⟨p, rfl⟩ := exists_rootedPath hwords hproper
    rw [← String.ofList_toList (s := pathText _), p.toList_pathText_items]
    exact p.compileExpr_chars

/-- Steps of all kinds, with the greatest index, a `$` inside a word and a `.*` behind a `**`. -/
theorem pathText_read_iff_mixed :
    let path := [PathItem.member "a$1", .descendants, .anyMember, .index 4294967295, .anyIndex,
      .descendants, .member "é"]
    pathText path = "$.a$1**.*[4294967295][*]**.é" ∧
      (∀ name, .member name ∈ path → ∃ w : Word, w.text = name) ∧ ProperPath path ∧
      rootedPath (pathText path).toList = .ok path ∧
      compileExpr (pathText path) .document = .ok (.field path) := by
  intro path
  have hwords : ∀ name, .member name ∈ path → ∃ w : Word, w.text = name := by
    intro name hname
    have hname : name = "a$1" ∨ name = "é" := by simpa [path] using hname
    rcases hname with rfl | rfl
    · exact exists_word_of_name (by decide) (by decide)
    · exact exists_word_of_name (by decide) (by decide)
  have hproper : ProperPath path :=
    ⟨by simp [path, PathItem.MayStandBefore], by simp [path]⟩
  obtain ⟨hrooted, hcompiled⟩ := pathText_read_iff path hwords
  exact ⟨by decide, hwords, hproper, hrooted.mpr hproper, hcompiled.mpr hproper⟩

end DocWire
