/-!
# Powers and sums of numbers

The programs are built on the core library alone, the theory about them on a larger one that brings
powers and sums of its own.  Those of the core library are meant throughout.
-/

namespace DocWire

@[default_instance 20000]
instance (priority := 2000) Natural.power : Pow Nat Nat := instPowNat

instance (priority := 2000) Natural.zero : Zero Nat := Zero.ofOfNat0

-- after the one on natural numbers, for numerals whose type nothing else determines
@[default_instance 15000]
instance (priority := 2000) Integer.power : Pow Int Nat := instPowNat

end DocWire
