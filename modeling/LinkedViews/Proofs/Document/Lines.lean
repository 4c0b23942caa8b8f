import Mathlib.Tactic.Lemma
import LinkedViews.Document

/-!
Offsets and positions over lines.

Each line starts where the one before it ends. The position of an offset is in the last line
that starts at or before it, and there is only one such; so positions are in the order of their
offsets. A position in its line, or at the end of it, is that of its offset. Any other one has
the offset of such a position.
-/

namespace LinkedViews

namespace Position

instance : LE Position := leOfOrd

lemma le_iff {p q : Position} :
    p ≤ q ↔ p.line < q.line ∨ p.line = q.line ∧ p.column ≤ q.column := by
  have hle : p ≤ q ↔ ((compare p.line q.line).then (compare p.column q.column)).isLE := Iff.rfl
  rw [hle, Ordering.isLE_then_iff_and, Nat.isLE_compare, Nat.compare_eq_lt, Nat.isLE_compare]
  omega

lemma le_antisymm {p q : Position} (hpq : p ≤ q) (hqp : q ≤ p) : p = q := by
  rw [le_iff] at hpq hqp
  obtain ⟨line, column⟩ := p
  obtain ⟨line', column'⟩ := q
  simp only [mk.injEq] at hpq hqp ⊢
  omega

end Position

namespace Line

variable {ls : List Line} {l : Line} {n m o a b column : Nat} {p q : Position}

/-! ### Where lines start -/

/-- The lines before a line take up all the offsets before it. -/
def start (ls : List Line) (n : Nat) : Nat := (ls.take n).foldr (fun l o => l.size + o) 0

@[simp] lemma start_zero (ls : List Line) : start ls 0 = 0 := rfl

@[simp] lemma start_cons_succ (l : Line) (ls : List Line) (n : Nat) :
    start (l :: ls) (n + 1) = l.size + start ls n := rfl

lemma start_succ (hl : ls[n]? = some l) : start ls (n + 1) = start ls n + l.size := by
  induction ls generalizing n with
  | nil => cases hl
  | cons l' ls ih =>
    cases n with
    | zero =>
      obtain rfl : l' = l := Option.some.inj hl
      exact Nat.add_comm _ _
    | succ n => rw [start_cons_succ, ih hl, start_cons_succ, Nat.add_assoc]

lemma start_mono (h : m ≤ n) : start ls m ≤ start ls n := by
  induction h with
  | refl => exact Nat.le_refl _
  | @step n _ ih =>
    refine Nat.le_trans ih ?_
    cases hl : ls[n]? with
    | some l => exact start_succ hl ▸ Nat.le_add_right _ _
    | none => simp [start, List.take_add_one, hl]

lemma start_length_ofText (cs : List Char) : start (ofText cs) (ofText cs).length = cs.length := by
  rw [start, List.take_length, foldr_size_ofText]

/-! ### The position of an offset -/

lemma locate_cons (hne : ls ≠ []) (l : Line) (o : Nat) :
    locate (l :: ls) o = if o < l.size then ⟨0, o⟩
      else ⟨(locate ls (o - l.size)).line + 1, (locate ls (o - l.size)).column⟩ := by
  cases ls with
  | nil => exact absurd rfl hne
  | cons l' ls => rfl

/-- The line of a position starts at or before the offset, and the next one behind it. -/
structure Located (ls : List Line) (o : Nat) (p : Position) : Prop where
  line_lt : p.line < ls.length
  start_add : start ls p.line + p.column = o
  lt_next : p.line + 1 < ls.length → o < start ls (p.line + 1)

lemma located_locate (hne : ls ≠ []) (o : Nat) : Located ls o (locate ls o) := by
  induction ls generalizing o with
  | nil => exact absurd rfl hne
  | cons l ls ih =>
    rcases ls with _ | ⟨l', ls⟩
    · exact ⟨Nat.one_pos, Nat.zero_add o, fun h => absurd h (Nat.lt_irrefl 1)⟩
    · rw [locate_cons (List.cons_ne_nil l' ls)]
      split
      · rename_i hlt
        exact ⟨Nat.zero_lt_succ _, Nat.zero_add o, fun _ => by simpa using hlt⟩
      · rename_i hge
        obtain ⟨hline, hadd, hnext⟩ := ih (List.cons_ne_nil l' ls) (o - l.size)
        refine ⟨Nat.succ_lt_succ hline, ?_, fun h => ?_⟩
        · simp only [start_cons_succ]
          omega
        · have hlt := hnext (Nat.lt_of_succ_lt_succ h)
          simp only [start_cons_succ] at hlt ⊢
          omega

/-- **The order of offsets is that of their positions.** -/
lemma Located.mono (ha : Located ls a p) (hb : Located ls b q) (hab : a ≤ b) : p ≤ q := by
  have hline : p.line ≤ q.line := by
    refine Nat.le_of_not_lt fun hlt => ?_
    have hnext := hb.lt_next (Nat.lt_of_le_of_lt hlt ha.line_lt)
    have hstart : start ls (q.line + 1) ≤ start ls p.line := start_mono hlt
    have hadd := ha.start_add
    omega
  rw [Position.le_iff]
  rcases Nat.lt_or_eq_of_le hline with hlt | heq
  · exact .inl hlt
  · refine .inr ⟨heq, ?_⟩
    have hpa := ha.start_add
    have hqb := hb.start_add
    rw [heq] at hpa
    omega

lemma Located.unique (hp : Located ls o p) (hq : Located ls o q) : p = q :=
  Position.le_antisymm (hp.mono hq (Nat.le_refl o)) (hq.mono hp (Nat.le_refl o))

/-! ### The offset of a position -/

lemma offset_of_getElem? (hl : ls[n]? = some l) :
    offset ls n column = start ls n + min column l.length := by
  induction ls generalizing n with
  | nil => cases hl
  | cons l' ls ih =>
    cases n with
    | zero =>
      obtain rfl : l' = l := Option.some.inj hl
      exact (Nat.zero_add _).symm
    | succ n =>
      rw [offset, ih hl, start_cons_succ, Nat.add_assoc]

lemma offset_of_length_le (h : ls.length ≤ n) : offset ls n column = start ls ls.length := by
  induction ls generalizing n with
  | nil => rfl
  | cons l ls ih =>
    cases n with
    | zero => cases h
    | succ n => rw [offset, ih (Nat.le_of_succ_le_succ h), List.length_cons, start_cons_succ]

lemma offset_le_start_succ (hn : n < ls.length) : offset ls n column ≤ start ls (n + 1) := by
  have hl := List.getElem?_eq_getElem hn
  rw [offset_of_getElem? hl, start_succ hl, size]
  omega

lemma offset_le (ls : List Line) (n column : Nat) :
    offset ls n column ≤ start ls ls.length := by
  rcases Nat.lt_or_ge n ls.length with hn | hn
  · exact Nat.le_trans (offset_le_start_succ hn) (start_mono hn)
  · exact Nat.le_of_eq (offset_of_length_le hn)

/-- **The order of positions is that of their offsets.** -/
lemma offset_mono (ls : List Line) (h : p ≤ q) :
    offset ls p.line p.column ≤ offset ls q.line q.column := by
  rw [Position.le_iff] at h
  rcases Nat.lt_or_ge q.line ls.length with hq | hq
  · have hl := List.getElem?_eq_getElem hq
    rw [offset_of_getElem? hl]
    rcases h with hlt | ⟨heq, hcolumn⟩
    · calc offset ls p.line p.column
          ≤ start ls (p.line + 1) := offset_le_start_succ (Nat.lt_trans hlt hq)
        _ ≤ start ls q.line := start_mono hlt
        _ ≤ start ls q.line + min q.column ls[q.line].length := Nat.le_add_right _ _
    · rw [heq, offset_of_getElem? hl]
      omega
  · rw [offset_of_length_le hq]
    exact offset_le ls p.line p.column

/-! ### Positions in their lines -/

/-- All lines end with a break but the last one. -/
structure Terminated (ls : List Line) : Prop where
  ne_nil : ls ≠ []
  break_pos_iff : ∀ n l, ls[n]? = some l → (0 < l.breakLength ↔ n + 1 < ls.length)

/-- The line is there, and the column is not behind its break. -/
def Within (ls : List Line) (p : Position) : Prop :=
  ∃ l, ls[p.line]? = some l ∧ p.column ≤ l.length

lemma Terminated.located_offset (ht : Terminated ls) (hp : Within ls p) :
    Located ls (offset ls p.line p.column) p := by
  obtain ⟨l, hl, hcolumn⟩ := hp
  have hline := (List.getElem?_eq_some_iff.mp hl).1
  rw [offset_of_getElem? hl, Nat.min_eq_left hcolumn]
  refine ⟨hline, rfl, fun hnext => ?_⟩
  have hbreak := (ht.break_pos_iff p.line l hl).mpr hnext
  rw [start_succ hl, size]
  omega

lemma Terminated.locate_offset (ht : Terminated ls) (hp : Within ls p) :
    locate ls (offset ls p.line p.column) = p :=
  (located_locate ht.ne_nil _).unique (ht.located_offset hp)

/-- What is behind the end of a line, or of all lines, has the offset of the end. -/
lemma Terminated.exists_within (ht : Terminated ls) (p : Position) :
    ∃ q, Within ls q ∧ offset ls q.line q.column = offset ls p.line p.column := by
  rcases Nat.lt_or_ge p.line ls.length with hp | hp
  · have hl := List.getElem?_eq_getElem hp
    refine ⟨⟨p.line, min p.column ls[p.line].length⟩, ⟨_, hl, Nat.min_le_right _ _⟩, ?_⟩
    rw [offset_of_getElem? hl, offset_of_getElem? hl, Nat.min_assoc, Nat.min_self]
  · have hlength := List.length_pos_iff.mpr ht.ne_nil
    have hlast : ls.length - 1 < ls.length := Nat.sub_one_lt_of_lt hlength
    have hl := List.getElem?_eq_getElem hlast
    have hbreak := ht.break_pos_iff _ _ hl
    have hend := start_succ hl
    refine ⟨⟨ls.length - 1, ls[ls.length - 1].length⟩, ⟨_, hl, Nat.le_refl _⟩, ?_⟩
    rw [Nat.sub_add_cancel hlength] at hbreak hend
    simp only [offset_of_getElem? hl, offset_of_length_le hp, hend, Nat.min_self, size]
    omega

/-- **The positions that come back from their offsets are those in their lines.** -/
lemma Terminated.locate_offset_eq_iff (ht : Terminated ls) (p : Position) :
    locate ls (offset ls p.line p.column) = p ↔ Within ls p := by
  refine ⟨fun h => ?_, ht.locate_offset⟩
  obtain ⟨q, hq, hoffset⟩ := ht.exists_within p
  have hback := ht.locate_offset hq
  rw [hoffset, h] at hback
  exact hback ▸ hq

lemma Terminated.within_locate_offset (ht : Terminated ls) (p : Position) :
    Within ls (locate ls (offset ls p.line p.column)) := by
  obtain ⟨q, hq, hoffset⟩ := ht.exists_within p
  rw [← hoffset, ht.locate_offset hq]
  exact hq

lemma Terminated.offset_locate_offset (ht : Terminated ls) (p : Position) :
    offset ls (locate ls (offset ls p.line p.column)).line
      (locate ls (offset ls p.line p.column)).column = offset ls p.line p.column := by
  obtain ⟨q, hq, hoffset⟩ := ht.exists_within p
  rw [← hoffset, ht.locate_offset hq]

end Line

end LinkedViews
