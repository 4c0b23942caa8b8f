/-!
Counting in 64 bits: the greatest word is its own successor.
-/

namespace LinkedViews.Word

def next (n : UInt64) : UInt64 := if n + 1 = 0 then n else n + 1

theorem toNat_next (n : UInt64) : (next n).toNat = min (n.toNat + 1) (UInt64.size - 1) := by
  have hn := n.toNat_lt_size
  have hs : UInt64.size = 18446744073709551616 := rfl
  rw [next]
  split
  · rename_i h
    have := congrArg UInt64.toNat h
    simp only [UInt64.toNat_add, UInt64.toNat_one, UInt64.toNat_zero] at this
    omega
  · rename_i h
    have : n.toNat + 1 ≠ UInt64.size := fun e => h (UInt64.toNat_inj.1 (by simp [e, UInt64.size]))
    simp only [UInt64.toNat_add, UInt64.toNat_one]
    omega

theorem le_next (n : UInt64) : n ≤ next n := by
  have hn := n.toNat_lt_size
  rw [UInt64.le_iff_toNat_le, toNat_next]
  omega

end LinkedViews.Word
