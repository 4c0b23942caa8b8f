import Mathlib.Data.Nat.Find
import Mathlib.Data.Set.Function
import Mathlib.Order.Monotone.Basic
import Mathlib.Tactic.Choose
import LinkedViews.Latch

/-!
A latch as a counter.

However a latch is used, it answers like a number that counts the echoes awaited: an arming
adds one, and a disarming or an echo takes one away. The two words of the latch also tell the
writes apart, by what the latch counted when it was armed for them. So each report that is
taken for an echo has a write of its own, which came before it and is never taken back.
-/

namespace LinkedViews.Latch

/-! ### Single uses -/

lemma toNat_writes_arm_le (l : Latch) : l.arm.writes.toNat ≤ l.writes.toNat + 1 := by
  have hnext := Word.toNat_next l.writes
  simp only [arm]
  omega

lemma toNat_writes_disarm_le (l : Latch) : l.disarm.writes.toNat ≤ l.writes.toNat := by
  unfold disarm
  split
  · rename_i h
    have hpred := toNat_pred_writes h
    simp only
    omega
  · exact Nat.le_refl _

lemma writes_absorb (l : Latch) : l.absorb.2.writes = l.writes := by
  unfold absorb
  split <;> rfl

lemma echoes_disarm (l : Latch) : l.disarm.echoes = l.echoes := by
  unfold disarm
  split <;> rfl

lemma toNat_echoes_absorb (l : Latch) :
    l.absorb.2.echoes.toNat = l.echoes.toNat + if l.isArmed then 1 else 0 := by
  unfold absorb
  split
  · exact toNat_succ_echoes ‹_›
  · rfl

/-- A write that is taken back at once leaves no trace. -/
lemma disarm_arm {l : Latch} (h : l.HasRoom) : l.arm.disarm = l := by
  have harmed : l.arm.isArmed := by
    rw [isArmed_iff_pending_pos, pending_arm h]
    exact Nat.succ_pos _
  have hwrites : l.arm.writes - 1 = l.writes := by
    have hnext : l.arm.writes.toNat = min (l.writes.toNat + 1) (UInt64.size - 1) :=
      Word.toNat_next l.writes
    unfold HasRoom at h
    rw [← UInt64.toNat_inj, toNat_pred_writes harmed]
    omega
  obtain ⟨writes, echoes, hle⟩ := l
  rw [disarm, dif_pos harmed, mk.injEq]
  exact ⟨hwrites, rfl⟩

/-! ### Sequences of uses -/

/-- What is done to a latch. -/
inductive Use where
  /-- Something is about to be written. -/
  | arm
  /-- The write will have no echo. -/
  | disarm
  /-- A report comes in. -/
  | absorb
  deriving DecidableEq, Repr

/-- What a latch answers to a use, and the latch after it. -/
def respond (l : Latch) : Use → Option Bool × Latch
  | .arm => (none, l.arm)
  | .disarm => (none, l.disarm)
  | .absorb => (some l.absorb.1, l.absorb.2)

/-- The same of a number of echoes that are awaited. -/
def tally : ℕ → Use → Option Bool × ℕ
  | n, .arm => (none, n + 1)
  | 0, .disarm => (none, 0)
  | n + 1, .disarm => (none, n)
  | 0, .absorb => (some false, 0)
  | n + 1, .absorb => (some true, n)

section Run

variable {σ : Type} (step : σ → Use → Option Bool × σ)

def run (s : σ) (uses : List Use) : σ := uses.foldl (fun s u => (step s u).2) s

def answers (s : σ) : List Use → List (Option Bool)
  | [] => []
  | u :: uses => (step s u).1 :: answers (step s u).2 uses

lemma run_append (s : σ) (us vs : List Use) :
    run step s (us ++ vs) = run step (run step s us) vs := List.foldl_append

lemma getElem?_answers (s : σ) (uses : List Use) (k : ℕ) :
    (answers step s uses)[k]? = uses[k]?.map fun u => (step (run step s (uses.take k)) u).1 := by
  induction uses generalizing s k with
  | nil => rfl
  | cons u uses ih =>
    cases k with
    | zero => rfl
    | succ k => exact ih (step s u).2 k

end Run

variable {l : Latch} {u : Use} {uses : List Use} {k w : ℕ}

/-! ### The count -/

lemma tally_disarm (n : ℕ) : tally n .disarm = (none, n - 1) := by
  cases n <;> rfl

lemma tally_absorb (n : ℕ) : tally n .absorb = (some (decide (0 < n)), n - 1) := by
  cases n <;> rfl

/-- One use: the latch and the count answer the same and stay together. -/
lemma respond_tally (h : u = .arm → l.HasRoom) :
    (respond l u).1 = (tally l.pending u).1 ∧
      (respond l u).2.pending = (tally l.pending u).2 := by
  cases u with
  | arm => exact ⟨rfl, pending_arm (h rfl)⟩
  | disarm =>
    rw [tally_disarm]
    exact ⟨rfl, pending_disarm l⟩
  | absorb =>
    have hanswer : l.absorb.1 = decide (0 < l.pending) := by
      rw [absorb_fst, Bool.eq_iff_iff, decide_eq_true_iff]
      exact isArmed_iff_pending_pos
    rw [tally_absorb]
    exact ⟨congrArg some hanswer, pending_absorb l⟩

lemma toNat_writes_respond_le (l : Latch) (u : Use) :
    (respond l u).2.writes.toNat ≤ l.writes.toNat + if u = .arm then 1 else 0 := by
  cases u with
  | arm => exact toNat_writes_arm_le l
  | disarm => exact toNat_writes_disarm_le l
  | absorb => exact Nat.le_of_eq (congrArg UInt64.toNat (writes_absorb l))

lemma toNat_echoes_respond (l : Latch) (u : Use) :
    (respond l u).2.echoes.toNat =
      l.echoes.toNat + if (respond l u).1 = some true then 1 else 0 := by
  cases u with
  | arm => rfl
  | disarm => exact congrArg UInt64.toNat (echoes_disarm l)
  | absorb =>
    simp only [respond, toNat_echoes_absorb, Option.some.injEq, absorb_fst]

/-- A run: the two stay together as long as the latch can count its writes. -/
lemma run_tally (h : l.writes.toNat + uses.count .arm + 1 < UInt64.size) :
    answers respond l uses = answers tally l.pending uses ∧
      (run respond l uses).pending = run tally l.pending uses ∧
      (run respond l uses).HasRoom := by
  induction uses generalizing l with
  | nil => exact ⟨rfl, rfl, h⟩
  | cons u uses ih =>
    have hwrites := toNat_writes_respond_le l u
    simp only [List.count_cons, beq_iff_eq] at h
    have hroom : u = .arm → l.HasRoom := by
      rintro rfl
      unfold HasRoom
      omega
    obtain ⟨hanswer, hpending⟩ := respond_tally hroom
    obtain ⟨hanswers, hrun⟩ := ih (l := (respond l u).2) (by omega)
    rw [hpending] at hanswers hrun
    rw [answers, answers, hanswer, hanswers]
    exact ⟨rfl, hrun⟩

/-! ### Places in a sequence -/

/-- The latch before the use at place `k`. -/
def before (uses : List Use) (k : ℕ) : Latch := run respond idle (uses.take k)

/-- The report at place `k` is taken for an echo. -/
def Echoed (uses : List Use) (k : ℕ) : Prop := (answers respond idle uses)[k]? = some (some true)

lemma before_succ (h : uses[k]? = some u) :
    before uses (k + 1) = (respond (before uses k) u).2 := by
  rw [before, List.take_add_one, h, run_append]; rfl

lemma before_succ_of_none (h : uses[k]? = none) : before uses (k + 1) = before uses k := by
  rw [before, List.take_add_one, h, Option.toList_none, List.append_nil, before]

lemma toNat_writes_before_succ_le (uses : List Use) (k : ℕ) :
    (before uses (k + 1)).writes.toNat ≤
      (before uses k).writes.toNat + if uses[k]? = some .arm then 1 else 0 := by
  cases hu : uses[k]? with
  | none =>
    rw [before_succ_of_none hu]
    exact Nat.le_add_right _ _
  | some u =>
    rw [before_succ hu]
    simpa only [Option.some.injEq] using toNat_writes_respond_le (before uses k) u

lemma echoes_monotone (uses : List Use) : Monotone fun k => (before uses k).echoes.toNat := by
  refine monotone_nat_of_le_succ fun k => ?_
  cases hu : uses[k]? with
  | none => rw [before_succ_of_none hu]
  | some u =>
    rw [before_succ hu, toNat_echoes_respond]
    exact Nat.le_add_right _ _

lemma echoed_iff :
    Echoed uses k ↔ uses[k]? = some .absorb ∧ (before uses k).isArmed = true := by
  rw [Echoed, getElem?_answers, Option.map_eq_some_iff]
  constructor
  · rintro ⟨u, hu, hanswer⟩
    cases u with
    | arm => cases hanswer
    | disarm => cases hanswer
    | absorb => exact ⟨hu, (absorb_fst _).symm.trans (Option.some.inj hanswer)⟩
  · rintro ⟨hu, harmed⟩
    exact ⟨.absorb, hu, congrArg some ((absorb_fst _).trans harmed)⟩

lemma toNat_echoes_lt_writes (h : l.isArmed) : l.echoes.toNat < l.writes.toNat :=
  UInt64.lt_iff_toNat_lt.mp (of_decide_eq_true h)

lemma Echoed.toNat_echoes_succ (h : Echoed uses k) :
    (before uses (k + 1)).echoes.toNat = (before uses k).echoes.toNat + 1 := by
  obtain ⟨hu, harmed⟩ := echoed_iff.mp h
  rw [before_succ hu, respond, toNat_echoes_absorb, if_pos harmed]

/-! ### Writes and what becomes of them -/

/-- Of the writes before place `k` that brought the count of writes to `g`, the last one stands
at place `w`. -/
structure Brought (uses : List Use) (g k w : ℕ) : Prop where
  lt : w < k
  below : (before uses w).writes.toNat < g
  since : ∀ m, w < m → m ≤ k → g ≤ (before uses m).writes.toNat

/-- The disarming at place `k` takes back the write at place `w`: of those that the latch
counts, the most recent. -/
def TakesBack (uses : List Use) (k w : ℕ) : Prop :=
  uses[k]? = some .disarm ∧ (before uses k).isArmed ∧
    Brought uses (before uses k).writes.toNat k w

/-- Some disarming takes back the write at place `w`. -/
def TakenBack (uses : List Use) (w : ℕ) : Prop := ∃ k, TakesBack uses k w

namespace Brought

variable {g i j : ℕ}

lemma arm_and_writes (h : Brought uses g k w) :
    uses[w]? = some .arm ∧ (before uses (w + 1)).writes.toNat = g := by
  have hnext := h.since (w + 1) (Nat.lt_succ_self w) h.lt
  have hstep := toNat_writes_before_succ_le uses w
  have hbelow := h.below
  split at hstep
  · exact ⟨‹_›, by omega⟩
  · omega

lemma unique (hi : Brought uses g k i) (hj : Brought uses g k j) : i = j := by
  rcases Nat.lt_trichotomy i j with hlt | heq | hlt
  · exact absurd (hi.since j hlt (Nat.le_of_lt hj.lt)) (Nat.not_le_of_lt hj.below)
  · exact heq
  · exact absurd (hj.since i hlt (Nat.le_of_lt hi.lt)) (Nat.not_le_of_lt hi.below)

end Brought

/-- Each number that the count of writes has reached was brought about by a write. -/
lemma exists_brought (uses : List Use) {g : ℕ} (hpos : 0 < g)
    (hg : g ≤ (before uses k).writes.toNat) : ∃ w, Brought uses g k w := by
  -- It stands at the last place up to which there are fewer writes.
  let P (m : ℕ) : Prop := (before uses m).writes.toNat < g
  have hbelow : P (Nat.findGreatest P k) := Nat.findGreatest_spec (Nat.zero_le k) hpos
  refine ⟨Nat.findGreatest P k, ?_, hbelow, fun m hm hmk =>
    Nat.le_of_not_lt (Nat.findGreatest_is_greatest (P := P) hm hmk)⟩
  refine Nat.lt_of_le_of_ne (Nat.findGreatest_le k) fun heq => ?_
  rw [heq] at hbelow
  exact absurd hg (Nat.not_le_of_lt hbelow)

/-- A disarming takes back one write, if the latch is armed. -/
lemma existsUnique_takesBack (hu : uses[k]? = some .disarm) (h : (before uses k).isArmed) :
    ∃! w, TakesBack uses k w := by
  have harmed := toNat_echoes_lt_writes h
  obtain ⟨w, hw⟩ := exists_brought uses (by omega) (Nat.le_refl (before uses k).writes.toNat)
  exact ⟨w, ⟨hu, h, hw⟩, fun v hv => hv.2.2.unique hw⟩

lemma toNat_writes_succ_of_disarm (hu : uses[k]? = some .disarm) (h : (before uses k).isArmed) :
    (before uses (k + 1)).writes.toNat = (before uses k).writes.toNat - 1 := by
  rw [before_succ hu, respond, disarm, dif_pos h]
  exact toNat_pred_writes h

namespace Echoed

/-- An echo belongs to the write that brought the count of writes to that of echoes. -/
lemma exists_brought (h : Echoed uses k) :
    ∃ w, Brought uses (before uses (k + 1)).echoes.toNat k w := by
  have hechoes := h.toNat_echoes_succ
  have harmed := toNat_echoes_lt_writes (echoed_iff.mp h).2
  exact Latch.exists_brought uses (by omega) (by omega)

/-- The write of an echo is not taken back: the echo keeps the count of writes up. -/
lemma not_takenBack (h : Echoed uses k)
    (hw : Brought uses (before uses (k + 1)).echoes.toNat k w) : ¬ TakenBack uses w := by
  rintro ⟨m, hdisarm, harmed, hm⟩
  have hnumber := hw.arm_and_writes.2.symm.trans hm.arm_and_writes.2
  rcases Nat.lt_trichotomy m k with hmk | rfl | hkm
  · -- A disarming before the report leaves fewer writes than the echo needs.
    have hsince := hw.since (m + 1) (Nat.lt_succ_of_lt hm.lt) hmk
    have hpos := toNat_echoes_lt_writes harmed
    rw [toNat_writes_succ_of_disarm hdisarm harmed] at hsince
    omega
  · rw [(echoed_iff.mp h).1] at hdisarm
    cases hdisarm
  · -- One behind it finds no echo of the write awaited.
    have hmono : (before uses (k + 1)).echoes.toNat ≤ (before uses m).echoes.toNat :=
      echoes_monotone uses hkm
    have hlt := toNat_echoes_lt_writes harmed
    omega

lemma toNat_echoes_lt {j : ℕ} (h : Echoed uses k) (hjk : j < k) :
    (before uses (j + 1)).echoes.toNat < (before uses (k + 1)).echoes.toNat := by
  rw [h.toNat_echoes_succ, Nat.lt_succ_iff]
  exact echoes_monotone uses hjk

/-- No write has two echoes. -/
lemma unique {j : ℕ} (hk : Echoed uses k) (hj : Echoed uses j)
    (hwk : Brought uses (before uses (k + 1)).echoes.toNat k w)
    (hwj : Brought uses (before uses (j + 1)).echoes.toNat j w) : k = j := by
  have hnumber := hwk.arm_and_writes.2.symm.trans hwj.arm_and_writes.2
  rcases Nat.lt_trichotomy k j with hlt | heq | hlt
  · exact absurd hnumber (Nat.ne_of_lt (hj.toNat_echoes_lt hlt))
  · exact heq
  · exact absurd hnumber.symm (Nat.ne_of_lt (hk.toNat_echoes_lt hlt))

end Echoed

/-! ### The latch as a counter -/

/-- **A latch is a counter.** With no more writes than it can count, a latch answers all reports
like the number of the echoes awaited, which is that of the writes without that of the echoes.
A write that is taken back at once leaves no trace. A disarming takes back one write, if the
latch is armed, and each report that is taken for an echo has a write of its own, which came
before it and is not taken back. -/
theorem refines_tally (uses : List Use) (h : uses.count .arm < UInt64.size - 1) :
    (run respond idle uses).echoes ≤ (run respond idle uses).writes ∧
    (run respond idle uses).writes.toNat =
      (run respond idle uses).echoes.toNat + run tally 0 uses ∧
    answers respond idle uses = answers tally 0 uses ∧
    ((run respond idle uses).isArmed ↔ 0 < run tally 0 uses) ∧
    (run respond idle uses).arm.disarm = run respond idle uses ∧
    (∀ k, uses[k]? = some .disarm → (before uses k).isArmed → ∃! w, TakesBack uses k w) ∧
    ∃ writeOf : ℕ → ℕ, Set.InjOn writeOf {k | Echoed uses k} ∧
      ∀ k, Echoed uses k →
        writeOf k < k ∧ uses[writeOf k]? = some .arm ∧ ¬ TakenBack uses (writeOf k) := by
  have hfits : idle.writes.toNat + uses.count .arm + 1 < UInt64.size := by
    have hwrites : idle.writes.toNat = 0 := rfl
    omega
  obtain ⟨hanswers, hpending, hroom⟩ := run_tally hfits
  have hidle : idle.pending = 0 := rfl
  rw [hidle] at hanswers hpending
  have hle := (run respond idle uses).echoes_le
  have hbrought : ∀ k, Echoed uses k →
      ∃ w, Brought uses (before uses (k + 1)).echoes.toNat k w := fun k hk => hk.exists_brought
  choose! writeOf hwriteOf using hbrought
  refine ⟨hle, ?_, hanswers, ?_, disarm_arm hroom, fun k => existsUnique_takesBack, writeOf,
    fun k hk j hj heq => ?_, fun k hk => ?_⟩
  · rw [UInt64.le_iff_toNat_le] at hle
    rw [← hpending, pending]
    omega
  · rw [isArmed_iff_pending_pos, hpending]
  · exact hk.unique hj (hwriteOf k hk) (heq ▸ hwriteOf j hj)
  · have hw := hwriteOf k hk
    exact ⟨hw.lt, hw.arm_and_writes.1, hk.not_takenBack hw⟩

/-- Of two writes the second one is taken back, so only one of the reports that follow is taken
for an echo. Then nothing is left to take back, and a third write has its echo again. -/
theorem refines_tally_mixed :
    let uses : List Use := [.arm, .arm, .disarm, .absorb, .absorb, .disarm, .arm, .absorb]
    uses.count .arm < UInt64.size - 1 ∧
    answers respond idle uses =
      [none, none, none, some true, some false, none, none, some true] ∧
    answers respond idle uses = answers tally 0 uses ∧
    (run respond idle uses).arm.disarm = run respond idle uses ∧
    (uses[2]? = some .disarm ∧ (before uses 2).isArmed ∧ ∃! w, TakesBack uses 2 w) ∧
    (Echoed uses 3 ∧ ∃ w < 3, uses[w]? = some .arm ∧ ¬ TakenBack uses w) := by
  intro uses
  have hcount : uses.count .arm < UInt64.size - 1 := by decide
  have hanswers : answers respond idle uses =
      [none, none, none, some true, some false, none, none, some true] := by decide
  have hechoed : Echoed uses 3 := by rw [Echoed, hanswers]; rfl
  have harmed : (before uses 2).isArmed := by decide
  obtain ⟨-, -, hsame, -, htrace, htaken, writeOf, -, hwriteOf⟩ := refines_tally uses hcount
  exact ⟨hcount, hanswers, hsame, htrace, ⟨rfl, harmed, htaken 2 rfl harmed⟩,
    hechoed, writeOf 3, hwriteOf 3 hechoed⟩

end LinkedViews.Latch
