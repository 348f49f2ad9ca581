import DocWire.Expr.Ladder
import Mathlib.Data.List.DropRight

/-!
# Readers and the texts that they read

A reader reads a text if it gives what the text stands for wherever the text is followed by a given
rest, and leaves that rest.  Most readers pass blanks before they look at anything, so where a
source stands is said up to blanks.

* `Source.At`   the source stands at a text, blanks before it apart;
* `Reads`       the reader reads a text, with a number of `?` in it, and stops at the rest.
-/

namespace DocWire

variable {α : Type}

/-- A reader goes on with what was read. -/
theorem ok_bind {ε β : Type} (x : α) (f : α → Except ε β) :
    ((Except.ok x : Except ε α) >>= f) = f x := rfl

/-! ## Where a source stands -/

namespace Source

/-- The source stands at a text, blanks before it apart, with `m` placeholders met so far. -/
def At (s : Source) (cs : List Char) (m : Nat) : Prop :=
  s.rest.dropWhile Text.isBlank = cs.dropWhile Text.isBlank ∧ s.marks = m

/-- what comes next in a text, behind blanks -/
def nextIn (cs : List Char) (pos m : Nat) : Source := ⟨cs.dropWhile Text.isBlank, pos, m⟩

theorem nextIn_blank {c : Char} (hc : Text.isBlank c = true) (cs : List Char) (pos m : Nat) :
    nextIn (c :: cs) pos m = nextIn cs pos m := by
  unfold nextIn
  rw [List.dropWhile_cons_of_pos hc]

theorem nextIn_solid {c : Char} (hc : Text.isBlank c = false) (cs : List Char) (pos m : Nat) :
    nextIn (c :: cs) pos m = ⟨c :: cs, pos, m⟩ := by
  unfold nextIn
  rw [List.dropWhile_cons_of_neg (by rw [hc]; exact Bool.false_ne_true)]

theorem drop_length_takeWhile (p : Char → Bool) (cs : List Char) :
    cs.drop (cs.takeWhile p).length = cs.dropWhile p := by
  have h : (cs.takeWhile p ++ cs.dropWhile p).drop (cs.takeWhile p).length = cs.dropWhile p :=
    List.drop_left
  rw [List.takeWhile_append_dropWhile] at h
  exact h

theorem skip_append (cs T : List Char) (pos m : Nat) :
    (⟨cs ++ T, pos, m⟩ : Source).skip cs.length = ⟨T, pos + byteLength cs, m⟩ := by
  simp only [skip, List.drop_left, List.take_left]

namespace At

variable {s : Source} {cs : List Char} {m : Nat}

theorem refl (cs : List Char) (pos m : Nat) : At ⟨cs, pos, m⟩ cs m := ⟨rfl, rfl⟩

theorem skipBlanks_eq (h : s.At cs m) : ∃ pos, s.skipBlanks = nextIn cs pos m := by
  unfold Source.skipBlanks skipWhile skip
  rw [drop_length_takeWhile, h.1, h.2]
  exact ⟨_, rfl⟩

/-- Where a text begins with something other than a blank, that is what comes next. -/
theorem solid {c : Char} (h : s.At (c :: cs) m) (hc : Text.isBlank c = false) :
    ∃ pos, s.skipBlanks = ⟨c :: cs, pos, m⟩ := by
  obtain ⟨pos, hs⟩ := h.skipBlanks_eq
  exact ⟨pos, hs.trans (nextIn_solid hc cs pos m)⟩

theorem skipBlanks (h : s.At cs m) : s.skipBlanks.At cs m := by
  obtain ⟨pos, hs⟩ := h.skipBlanks_eq
  rw [hs]
  exact ⟨List.dropWhile_idempotent _ _, rfl⟩

/-- A blank more or less before a text makes no difference. -/
theorem blank_iff {c : Char} (hc : Text.isBlank c = true) : s.At (c :: cs) m ↔ s.At cs m := by
  unfold At
  rw [List.dropWhile_cons_of_pos hc]

theorem blank (cs : List Char) (pos m : Nat) : At ⟨' ' :: cs, pos, m⟩ cs m :=
  (blank_iff rfl).mp (refl _ pos m)

end At

end Source

/-- The reader reads the text `cs`, in which `n` placeholders are met, where `T` comes next, and
stops there.  What it gives may depend on the placeholders met before. -/
def Reads (r : Source → Except SyntaxError (α × Source)) (cs : List Char) (n : Nat) (x : Nat → α)
    (T : List Char) : Prop :=
  ∀ s m, s.At (cs ++ T) m → ∃ t, r s = .ok (x m, t) ∧ t.At T (m + n)

end DocWire
