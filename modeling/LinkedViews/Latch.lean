import LinkedViews.Word

/-!
Echo latches.

An editor reports the selections that are written to it like those of its user. A latch
counts the writes and the echoes that came back: it is armed before a write, and the next
report that finds it armed is taken for the echo.
-/

namespace LinkedViews

structure Latch where
  /-- The writes so far, without those taken back. -/
  writes : UInt64
  /-- The echoes of them that were seen. -/
  echoes : UInt64
  echoes_le : echoes ≤ writes
  deriving DecidableEq, Repr

namespace Latch

def idle : Latch := ⟨0, 0, UInt64.le_refl 0⟩

instance : Inhabited Latch := ⟨idle⟩

def isArmed (l : Latch) : Bool := l.echoes < l.writes

/-- How many reports the latch would take for echoes. -/
def pending (l : Latch) : Nat := l.writes.toNat - l.echoes.toNat

theorem isArmed_iff_pending_pos {l : Latch} : l.isArmed ↔ 0 < l.pending := by
  simp only [isArmed, pending, decide_eq_true_eq, UInt64.lt_iff_toNat_lt]
  omega

theorem toNat_pred_writes {l : Latch} (h : l.isArmed) :
    (l.writes - 1).toNat = l.writes.toNat - 1 := by
  have hlt : l.echoes < l.writes := of_decide_eq_true h
  rw [UInt64.toNat_sub_of_le _ _ (UInt64.le_iff_toNat_le.2 ?_), UInt64.toNat_one]
  rw [UInt64.lt_iff_toNat_lt] at hlt
  rw [UInt64.toNat_one]
  omega

theorem toNat_succ_echoes {l : Latch} (h : l.isArmed) :
    (l.echoes + 1).toNat = l.echoes.toNat + 1 := by
  have hlt : l.echoes < l.writes := of_decide_eq_true h
  have hw := l.writes.toNat_lt_size
  rw [UInt64.lt_iff_toNat_lt] at hlt
  rw [UInt64.toNat_add, UInt64.toNat_one]
  exact Nat.mod_eq_of_lt (Nat.lt_of_le_of_lt hlt hw)

def arm (l : Latch) : Latch :=
  { l with
    writes := Word.next l.writes
    echoes_le := UInt64.le_trans l.echoes_le (Word.le_next _) }

/-- Takes back the last write, if its echo is still awaited. -/
def disarm (l : Latch) : Latch :=
  if h : l.isArmed then
    { l with
      writes := l.writes - 1
      echoes_le := by
        have hpos := isArmed_iff_pending_pos.1 h
        rw [UInt64.le_iff_toNat_le, toNat_pred_writes h]
        exact Nat.le_sub_one_of_lt (Nat.lt_of_sub_pos hpos) }
  else l

/-- Whether a report is an echo, and the latch after it. -/
def absorb (l : Latch) : Bool × Latch :=
  if h : l.isArmed then
    (true,
      { l with
        echoes := l.echoes + 1
        echoes_le := by
          have hpos := isArmed_iff_pending_pos.1 h
          rw [UInt64.le_iff_toNat_le, toNat_succ_echoes h]
          exact Nat.lt_of_sub_pos hpos })
  else (false, l)

theorem absorb_fst (l : Latch) : l.absorb.1 = l.isArmed := by
  unfold absorb
  split <;> simp_all

theorem pending_absorb (l : Latch) : l.absorb.2.pending = l.pending - 1 := by
  unfold absorb
  split
  · rename_i h
    simp only [pending, toNat_succ_echoes h]
    omega
  · rename_i h
    rw [isArmed_iff_pending_pos] at h
    exact (by omega : l.pending = l.pending - 1)

theorem pending_disarm (l : Latch) : l.disarm.pending = l.pending - 1 := by
  unfold disarm
  split
  · rename_i h
    simp only [pending, toNat_pred_writes h]
    omega
  · rename_i h
    rw [isArmed_iff_pending_pos] at h
    omega

/-- A latch whose writes can still be counted. -/
def HasRoom (l : Latch) : Prop := l.writes.toNat + 1 < UInt64.size

theorem pending_arm {l : Latch} (h : l.HasRoom) : l.arm.pending = l.pending + 1 := by
  have hle := UInt64.le_iff_toNat_le.1 l.echoes_le
  simp only [pending, arm, Word.toNat_next]
  unfold HasRoom at h
  omega

theorem pending_arm_le (l : Latch) : l.arm.pending ≤ l.pending + 1 := by
  have hle := UInt64.le_iff_toNat_le.1 l.echoes_le
  simp only [pending, arm, Word.toNat_next]
  omega

end Latch

/-- The latches of one target. -/
structure Latches where
  /-- For writes to the views of the product. -/
  view : Latch
  /-- For writes to the editor of the source. -/
  source : Latch
  deriving DecidableEq, Repr

def Latches.idle : Latches := ⟨.idle, .idle⟩

instance : Inhabited Latches := ⟨Latches.idle⟩

end LinkedViews
