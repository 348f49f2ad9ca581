import Mathlib.Data.List.Basic
import Mathlib.Data.List.Forall2

/-!
# Lists of steps that may fail

A step is taken for each member of a list, up to the first one that fails.

* `mapM_eq_some_iff`   all of them give a value;
* `mapM_eq_ok_iff`     the same where a failure has a cause;
* `mapM_fails_iff`     some of them fails;
* `mapM_isOk_iff`      none of them fails.
-/

namespace DocWire

section
variable {α β : Type}

theorem mapM_eq_some_iff {f : α → Option β} {xs : List α} {ys : List β} :
    xs.mapM f = some ys ↔ List.Forall₂ (fun x y => f x = some y) xs ys := by
  induction xs generalizing ys with
  | nil => cases ys <;> simp
  | cons x xs ih =>
    rw [List.mapM_cons]
    cases hx : f x with
    | none => cases ys <;> simp [hx]
    | some y => cases ys <;> simp [hx, Option.bind_eq_some_iff, ih, and_comm]

end

section
variable {α β ε : Type} {f : α → Except ε β} {xs : List α}

theorem mapM_eq_ok {ys : List β} (h : xs.mapM f = .ok ys) :
    List.Forall₂ (fun x y => f x = .ok y) xs ys := by
  induction xs generalizing ys with
  | nil =>
    cases h
    exact .nil
  | cons x rest ih =>
    rw [List.mapM_cons] at h
    cases hx : f x with
    | error e =>
      rw [hx] at h
      cases h
    | ok y =>
      rw [hx] at h
      cases hrest : rest.mapM f with
      | error e =>
        rw [hrest] at h
        cases h
      | ok more =>
        rw [hrest] at h
        cases h
        exact .cons hx (ih hrest)

theorem mapM_eq_ok_iff {ys : List β} :
    xs.mapM f = .ok ys ↔ List.Forall₂ (fun x y => f x = .ok y) xs ys := by
  refine ⟨mapM_eq_ok, fun h => ?_⟩
  induction h with
  | nil => rfl
  | cons hx _ ih =>
    rw [List.mapM_cons, hx, ih]
    rfl

theorem mapM_fails_iff : (∃ e, xs.mapM f = .error e) ↔ ∃ x ∈ xs, ∃ e, f x = .error e := by
  induction xs with
  | nil =>
    constructor
    · rintro ⟨e, he⟩
      cases he
    · rintro ⟨x, hx, -⟩
      cases hx
  | cons x rest ih =>
    rw [List.mapM_cons, List.exists_mem_cons_iff, ← ih]
    cases hx : f x with
    | error e => exact ⟨fun _ => .inl ⟨e, rfl⟩, fun _ => ⟨e, rfl⟩⟩
    | ok y =>
      cases hrest : rest.mapM f with
      | error e => exact ⟨fun _ => .inr ⟨e, rfl⟩, fun _ => ⟨e, rfl⟩⟩
      | ok more =>
        constructor
        · rintro ⟨e, he⟩
          cases he
        · rintro (⟨e, he⟩ | ⟨e, he⟩) <;> cases he

theorem mapM_isOk_iff : (∃ ys, xs.mapM f = .ok ys) ↔ ∀ x ∈ xs, ∃ y, f x = .ok y := by
  have isOk_iff {γ : Type} (r : Except ε γ) : (∃ y, r = .ok y) ↔ ¬ ∃ e, r = .error e := by
    cases r <;> simp
  rw [isOk_iff, mapM_fails_iff]
  simp only [isOk_iff, not_exists, not_and]

end

end DocWire
