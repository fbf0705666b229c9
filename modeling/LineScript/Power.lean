/-
Powers of natural numbers, under a name.

Which instance stands behind a power operator depends on what a module
imports; a function under a name means the same everywhere. What holds of
powers holds of it by definition.
-/

set_option autoImplicit false

namespace LineScript

/-- A natural number to the power of another. -/
def power (base exponent : Nat) : Nat := Nat.pow base exponent

end LineScript
