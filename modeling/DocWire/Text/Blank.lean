import DocWire.Text.Ranges

/-!
# Blank characters

The characters with the Unicode property `White_Space`, and trimming by them.

* `isBlank`       membership;
* `trim`          a text without blanks at either end;
* `trim_nil`, `trimStart_cons`   the equations of trimming.
-/

namespace DocWire.Text

def blankBounds : List Nat :=
  [
    0x9, 0xe, 0x20, 0x21, 0x85, 0x86, 0xa0, 0xa1, 0x1680, 0x1681, 0x2000, 0x200b, 0x2028, 0x202a,
    0x202f, 0x2030, 0x205f, 0x2060, 0x3000, 0x3001]

def isBlank (c : Char) : Bool := inRanges blankBounds c.toNat

def trimStart (cs : List Char) : List Char := cs.dropWhile isBlank

def trimEnd (cs : List Char) : List Char := (cs.reverse.dropWhile isBlank).reverse

def trim (cs : List Char) : List Char := trimEnd (trimStart cs)

theorem trimStart_cons (c : Char) (cs : List Char) :
    trimStart (c :: cs) = if isBlank c then trimStart cs else c :: cs := by
  simp only [trimStart, List.dropWhile_cons]

theorem trim_nil : trim [] = [] := rfl

end DocWire.Text
