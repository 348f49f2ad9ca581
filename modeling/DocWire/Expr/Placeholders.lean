import DocWire.Expr.Basic

/-!
# Placeholders of expressions

The values that an expression waits for, and their places in the argument list of a request: the
positional ones keep their own numbers, the named ones follow in order of first appearance.

* `Expr.names`, `Expr.positionalCount`   what one tree waits for;
* `Expr.shift`                           a tree whose positional numbers start further on;
* `Placeholders.assign`                  one numbering for trees that were compiled apart;
* `Placeholders.ofExprs`                 the numbering that trees already have;
* `Placeholders.position?`               the position of a placeholder.
-/

namespace DocWire

/-- adds a name to the end of a list that lacks it -/
def addName (names : List String) (name : String) : List String :=
  if names.contains name then names else names ++ [name]

namespace Expr

mutual

/-- `names` followed by the placeholder names of a tree that it lacks, in order of appearance. -/
def addNames (names : List String) : Expr → List String
  | named name => addName names name
  | call _ _ args => addNamesList names args
  | op _ args => addNamesList names args
  | unary _ arg => addNames names arg
  | object fields => addNamesFields names fields
  | array items => addNamesList names items
  | literal _ | field _ | column _ | positional _ => names

@[inherit_doc addNames]
def addNamesList (names : List String) : List Expr → List String
  | [] => names
  | e :: rest => addNamesList (addNames names e) rest

@[inherit_doc addNames]
def addNamesFields (names : List String) : List (String × Expr) → List String
  | [] => names
  | (_, e) :: rest => addNamesFields (addNames names e) rest

end

/-- The placeholder names of a tree, each once, in order of first appearance. -/
def names (e : Expr) : List String := addNames [] e

mutual

/-- One more than the greatest positional number of a tree, zero if there is none. -/
def positionalCount : Expr → Nat
  | positional index => index + 1
  | call _ _ args => positionalCountList args
  | op _ args => positionalCountList args
  | unary _ arg => positionalCount arg
  | object fields => positionalCountFields fields
  | array items => positionalCountList items
  | literal _ | field _ | column _ | named _ => 0

@[inherit_doc positionalCount]
def positionalCountList : List Expr → Nat
  | [] => 0
  | e :: rest => max (positionalCount e) (positionalCountList rest)

@[inherit_doc positionalCount]
def positionalCountFields : List (String × Expr) → Nat
  | [] => 0
  | (_, e) :: rest => max (positionalCount e) (positionalCountFields rest)

end

mutual

/-- The tree with `base` added to its positional numbers. -/
def shift (base : Nat) : Expr → Expr
  | positional index => positional (index + base)
  | call schema name args => call schema name (shiftList base args)
  | op name args => op name (shiftList base args)
  | unary name arg => unary name (shift base arg)
  | object fields => object (shiftFields base fields)
  | array items => array (shiftList base items)
  | literal value => literal value
  | field path => field path
  | column ref => column ref
  | named name => named name

@[inherit_doc shift]
def shiftList (base : Nat) : List Expr → List Expr
  | [] => []
  | e :: rest => shift base e :: shiftList base rest

@[inherit_doc shift]
def shiftFields (base : Nat) : List (String × Expr) → List (String × Expr)
  | [] => []
  | (key, e) :: rest => (key, shift base e) :: shiftFields base rest

end

end Expr

/-- The arguments that a request has to carry. -/
structure Placeholders where
  positional : Nat := 0
  names : List String := []
deriving DecidableEq

namespace Placeholders

/-- One numbering for trees that were compiled apart: the positional numbers of each tree are
moved past those of the trees before it. Gives the renumbered trees as well. -/
def assignFrom (p : Placeholders) : List Expr → List Expr × Placeholders
  | [] => ([], p)
  | e :: rest =>
    let shifted := e.shift p.positional
    let next : Placeholders :=
      ⟨p.positional + e.positionalCount, shifted.addNames p.names⟩
    let (exprs, q) := assignFrom next rest
    (shifted :: exprs, q)

@[inherit_doc assignFrom]
def assign (exprs : List Expr) : List Expr × Placeholders := assignFrom {} exprs

/-- The numbering of trees that are numbered together already. -/
def ofExprs (exprs : List Expr) : Placeholders :=
  exprs.foldl (fun p e => ⟨max p.positional e.positionalCount, e.addNames p.names⟩) {}

def count (p : Placeholders) : Nat := p.positional + p.names.length

/-- The position of a placeholder among the arguments; other trees have none. A name that is not
known comes after all arguments. Positions are words of 32 bits, and their sum may wrap around. -/
def position? (p : Placeholders) : Expr → Option UInt32
  | .positional index => some (.ofNat index)
  | .named name => some (.ofNat p.positional + .ofNat (p.names.idxOf name))
  | _ => none

theorem assignFrom_nil (p : Placeholders) : p.assignFrom [] = ([], p) := rfl

theorem ofExprs_nil : ofExprs [] = {} := rfl

end Placeholders

end DocWire
