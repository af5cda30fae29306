/-!
# Ranges of characters

A class of characters given by the inclusive ranges of code points that belong to it.
-/

set_option autoImplicit false

namespace Sequencer.Text

def within (ranges : List (Nat × Nat)) (c : Char) : Bool :=
  ranges.any fun r => r.1 ≤ c.toNat && c.toNat ≤ r.2

end Sequencer.Text
