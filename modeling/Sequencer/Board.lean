import Sequencer.Table

/-!
# The barrier board

Named counters of arrivals. A counter only grows and stops at the largest 32-bit word, so a
barrier name serves one round of arrivals and every later arrival finds it open.
-/

set_option autoImplicit false

namespace Sequencer

structure Board where
  counters : Table String UInt32 := {}

namespace Board

def bump (n : UInt32) : UInt32 := if n = 4294967295 then n else n + 1

def count (b : Board) (name : String) : UInt32 := (b.counters.get? name).getD 0

def arrive (b : Board) (name : String) : Board := ⟨b.counters.put name (bump (b.count name))⟩

theorem count_arrive_self (b : Board) (name : String) :
    (b.arrive name).count name = bump (b.count name) := by
  simp [count, arrive, Table.get?_put_self]

theorem count_arrive_ne (b : Board) {name other : String} (h : other ≠ name) :
    (b.arrive name).count other = b.count other := by
  simp [count, arrive, Table.get?_put_ne _ _ h]

theorem toNat_bump (n : UInt32) : (bump n).toNat = min (n.toNat + 1) 4294967295 := by
  have := n.toNat_lt
  unfold bump
  split
  · next h => subst h; rfl
  · next h =>
    have : n.toNat ≠ 4294967295 := fun e => h (UInt32.toNat_inj.1 e)
    rw [UInt32.toNat_add]
    simp
    omega

theorem bump_le (n : UInt32) : n ≤ bump n := by
  rw [UInt32.le_iff_toNat_le, toNat_bump]
  have := n.toNat_lt
  omega

end Board

end Sequencer
