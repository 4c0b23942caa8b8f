import Mathlib.Data.Nat.Count
import Mathlib.Data.Nat.Find
import LinkedViews.Proofs.Document.Lines

/-!
The breaks of a text and its lines.

A text falls into lines, each without a break but for the one that ends it. So the line of an
offset tells how many breaks end at or before it, and the column how far behind the last of
them it is. An offset behind the end of its line is between the two characters of a break.
-/

namespace LinkedViews.Line

variable {cs body brk rest : List Char} {ls : List Line} {l : Line} {c : Char} {i j n o : Nat}

/-! ### Breaks at offsets -/

/-- Line feed, carriage return, vertical tab, form feed, next line, and the separators of lines
and of paragraphs. -/
def breakers : List Char := ['\n', '\r', '\u000b', '\u000c', '\u0085', '\u2028', '\u2029']

lemma isBreak_iff : isBreak c ↔ c ∈ breakers := by
  simp only [isBreak, breakers, decide_eq_true_eq, List.mem_cons, List.not_mem_nil, or_false]
  grind

/-- The offset is between the two characters of one break. -/
def SplitsBreak (cs : List Char) : Nat → Prop
  | 0 => False
  | i + 1 => cs[i]? = some '\r' ∧ cs[i + 1]? = some '\n'

/-- A break ends at the offset: the character before it breaks lines, and the break does not
go on. -/
def BreakEnds (cs : List Char) : Nat → Prop
  | 0 => False
  | i + 1 => cs[i]?.any (· ∈ breakers) ∧ ¬ SplitsBreak cs (i + 1)

instance (cs : List Char) : DecidablePred (SplitsBreak cs)
  | 0 => inferInstanceAs (Decidable False)
  | _ + 1 => inferInstanceAs (Decidable (_ ∧ _))

instance (cs : List Char) : DecidablePred (BreakEnds cs)
  | 0 => inferInstanceAs (Decidable False)
  | _ + 1 => inferInstanceAs (Decidable (_ ∧ _))

/-- The characters of a whole break, with what follows them. -/
def IsWhole (brk rest : List Char) : Prop :=
  brk = ['\r', '\n'] ∨ ∃ c, brk = [c] ∧ isBreak c ∧ ¬ (c = '\r' ∧ rest.head? = some '\n')

lemma SplitsBreak.pos (h : SplitsBreak cs i) : 0 < i := by
  cases i with
  | zero => cases h
  | succ i => exact Nat.succ_pos i

lemma splitsBreak_cons (hc : ¬ isBreak c) (i : Nat) :
    SplitsBreak (c :: cs) (i + 1) ↔ SplitsBreak cs i := by
  cases i with
  | zero =>
    have hne : c ≠ '\r' := by rintro rfl; exact hc rfl
    simp [SplitsBreak, hne]
  | succ i => simp [SplitsBreak]

lemma breakEnds_cons (hc : ¬ isBreak c) (i : Nat) :
    BreakEnds (c :: cs) (i + 1) ↔ BreakEnds cs i := by
  cases i with
  | zero => simp [BreakEnds, ← isBreak_iff, hc]
  | succ i => simp only [BreakEnds, splitsBreak_cons hc, List.getElem?_cons_succ]

lemma IsWhole.length_le (h : IsWhole brk rest) : brk.length ≤ 2 := by
  rcases h with rfl | ⟨c, rfl, -⟩ <;> simp

lemma IsWhole.length_pos (h : IsWhole brk rest) : 0 < brk.length := by
  rcases h with rfl | ⟨c, rfl, -⟩ <;> simp

lemma IsWhole.splitsBreak_iff (h : IsWhole brk rest) (hi : i < brk.length) :
    SplitsBreak (brk ++ rest) i ↔ 0 < i := by
  rcases h with rfl | ⟨c, rfl, -⟩
  · have hcases : i = 0 ∨ i = 1 := by
      rw [List.length_cons, List.length_singleton] at hi
      omega
    rcases hcases with rfl | rfl <;> simp [SplitsBreak]
  · obtain rfl : i = 0 := by simpa using hi
    simp [SplitsBreak]

lemma IsWhole.splitsBreak_add (h : IsWhole brk rest) (j : Nat) :
    SplitsBreak (brk ++ rest) (brk.length + j) ↔ SplitsBreak rest j := by
  rw [Nat.add_comm]
  rcases h with rfl | ⟨c, rfl, -, hwhole⟩
  · cases j <;> simp [SplitsBreak]
  · cases j with
    | zero => simpa [SplitsBreak, List.head?_eq_getElem?] using hwhole
    | succ j => simp [SplitsBreak]

lemma IsWhole.not_breakEnds (h : IsWhole brk rest) (hi : i < brk.length) :
    ¬ BreakEnds (brk ++ rest) i := by
  cases i with
  | zero => exact id
  | succ i => exact fun hends => hends.2 ((h.splitsBreak_iff hi).mpr (Nat.succ_pos i))

lemma IsWhole.breakEnds_add (h : IsWhole brk rest) (j : Nat) :
    BreakEnds (brk ++ rest) (brk.length + j) ↔ j = 0 ∨ BreakEnds rest j := by
  have hsplits := h.splitsBreak_add j
  rw [Nat.add_comm] at hsplits ⊢
  rcases h with rfl | ⟨c, rfl, hc, -⟩
  · cases j <;> simp_all [BreakEnds, SplitsBreak, breakers]
  · rw [isBreak_iff] at hc
    cases j <;> simp_all [BreakEnds, SplitsBreak]

/-! ### Breaks behind the text of a line -/

section Body

variable (hbody : ∀ c ∈ body, ¬ isBreak c)

include hbody

lemma not_splitsBreak_of_le (cs : List Char) (hi : i ≤ body.length) :
    ¬ SplitsBreak (body ++ cs) i := by
  induction body generalizing i with
  | nil => simp_all [SplitsBreak]
  | cons c body ih =>
    rw [List.forall_mem_cons] at hbody
    cases i with
    | zero => exact id
    | succ i =>
      rw [List.cons_append, splitsBreak_cons hbody.1]
      exact ih hbody.2 (Nat.le_of_succ_le_succ hi)

lemma not_splitsBreak_body (hi : i ≤ body.length) : ¬ SplitsBreak body i := by
  simpa using not_splitsBreak_of_le hbody [] hi

lemma splitsBreak_append (i : Nat) :
    SplitsBreak (body ++ cs) (body.length + i) ↔ SplitsBreak cs i := by
  induction body with
  | nil => simp
  | cons c body ih =>
    rw [List.forall_mem_cons] at hbody
    rw [List.cons_append, List.length_cons, Nat.add_right_comm, splitsBreak_cons hbody.1,
      ih hbody.2]

lemma not_breakEnds_of_le (cs : List Char) (hi : i ≤ body.length) :
    ¬ BreakEnds (body ++ cs) i := by
  induction body generalizing i with
  | nil => simp_all [BreakEnds]
  | cons c body ih =>
    rw [List.forall_mem_cons] at hbody
    cases i with
    | zero => exact id
    | succ i =>
      rw [List.cons_append, breakEnds_cons hbody.1]
      exact ih hbody.2 (Nat.le_of_succ_le_succ hi)

lemma not_breakEnds_body (hi : i ≤ body.length) : ¬ BreakEnds body i := by
  simpa using not_breakEnds_of_le hbody [] hi

lemma breakEnds_append (i : Nat) :
    BreakEnds (body ++ cs) (body.length + i) ↔ BreakEnds cs i := by
  induction body with
  | nil => simp
  | cons c body ih =>
    rw [List.forall_mem_cons] at hbody
    rw [List.cons_append, List.length_cons, Nat.add_right_comm, breakEnds_cons hbody.1,
      ih hbody.2]

variable (hbrk : IsWhole brk rest)

include hbrk

/-- Within a line and its break, only the offset behind the first of two characters splits. -/
lemma splitsBreak_line (hi : i < body.length + brk.length) :
    SplitsBreak (body ++ (brk ++ rest)) i ↔ body.length < i := by
  rcases Nat.le_total i body.length with hle | hle
  · exact iff_of_false (not_splitsBreak_of_le hbody _ hle) (Nat.not_lt_of_le hle)
  · obtain ⟨k, rfl⟩ := Nat.exists_eq_add_of_le hle
    rw [splitsBreak_append hbody, hbrk.splitsBreak_iff (Nat.lt_of_add_lt_add_left hi)]
    omega

lemma splitsBreak_next_line (j : Nat) :
    SplitsBreak (body ++ (brk ++ rest)) (body.length + brk.length + j) ↔ SplitsBreak rest j := by
  rw [Nat.add_assoc, splitsBreak_append hbody, hbrk.splitsBreak_add]

lemma not_breakEnds_line (hi : i < body.length + brk.length) :
    ¬ BreakEnds (body ++ (brk ++ rest)) i := by
  rcases Nat.le_total i body.length with hle | hle
  · exact not_breakEnds_of_le hbody _ hle
  · obtain ⟨k, rfl⟩ := Nat.exists_eq_add_of_le hle
    rw [breakEnds_append hbody]
    exact hbrk.not_breakEnds (Nat.lt_of_add_lt_add_left hi)

lemma breakEnds_next_line (j : Nat) :
    BreakEnds (body ++ (brk ++ rest)) (body.length + brk.length + j) ↔
      j = 0 ∨ BreakEnds rest j := by
  rw [Nat.add_assoc, breakEnds_append hbody, hbrk.breakEnds_add]

end Body

/-! ### The text as lines -/

/-- The text falls into lines. -/
inductive Lined : List Char → List Line → Prop
  | last {body : List Char} : (∀ c ∈ body, ¬ isBreak c) → Lined body [⟨body.length, 0⟩]
  | line {body brk rest : List Char} {ls : List Line} :
      (∀ c ∈ body, ¬ isBreak c) → IsWhole brk rest → Lined rest ls →
      Lined (body ++ (brk ++ rest)) (⟨body.length, brk.length⟩ :: ls)

lemma Lined.grow (hc : ¬ isBreak c) (h : Lined cs ls) : Lined (c :: cs) (grow ls) := by
  cases h with
  | last hbody => exact .last (List.forall_mem_cons.mpr ⟨hc, hbody⟩)
  | line hbody hbrk hrest => exact .line (List.forall_mem_cons.mpr ⟨hc, hbody⟩) hbrk hrest

/-- **The lines of a text are those that it falls into.** -/
theorem lined_ofText (cs : List Char) : Lined cs (ofText cs) := by
  fun_induction ofText cs with
  | case1 => exact .last (List.forall_mem_nil _)
  | case2 rest ih => exact .line (List.forall_mem_nil _) (.inl rfl) ih
  | case3 c rest hcrlf hc ih =>
    refine .line (List.forall_mem_nil _) (.inr ⟨c, rfl, hc, ?_⟩) ih
    rintro ⟨hcr, hhead⟩
    obtain ⟨rest', rfl⟩ := List.head?_eq_some_iff.mp hhead
    exact hcrlf rest' hcr rfl
  | case4 c rest _ hc ih => exact ih.grow hc

/-! ### Counting breaks -/

section Count

variable {s : Nat} {p q : Nat → Prop} [DecidablePred p] [DecidablePred q]
  (hnext : ∀ j, p (s + j) ↔ j = 0 ∨ q j)

include hnext

lemma count_next (hbefore : ∀ i < s, ¬ p i) (hzero : ¬ q 0) (j : Nat) :
    Nat.count p (s + j + 1) = Nat.count q (j + 1) + 1 := by
  induction j with
  | zero =>
    have hnone := Nat.count_iff_forall_not.mpr fun i hi => hbefore i hi
    have hs : p s := (hnext 0).mpr (.inl rfl)
    simp [Nat.count_succ, hnone, hs, hzero]
  | succ j ih =>
    have hj : p (s + j + 1) ↔ q (j + 1) := by rw [Nat.add_assoc, hnext]; simp
    rw [← Nat.add_assoc, Nat.count_succ p (s + j + 1), ih, Nat.count_succ q (j + 1)]
    simp only [hj]
    omega

lemma findGreatest_next (j : Nat) :
    Nat.findGreatest p (s + j) = s + Nat.findGreatest q j := by
  induction j with
  | zero => exact Nat.findGreatest_eq ((hnext 0).mpr (.inl rfl))
  | succ j ih =>
    have hj : p (s + j + 1) ↔ q (j + 1) := by rw [Nat.add_assoc, hnext]; simp
    rw [← Nat.add_assoc, Nat.findGreatest_succ, Nat.findGreatest_succ, ih]
    simp only [hj]
    split <;> rfl

end Count

/-- An offset is in the first line, or where it is in what follows that line. -/
lemma locate_line (hne : ls ≠ []) (a b o : Nat) :
    (o < a + b ∧ locate (⟨a, b⟩ :: ls) o = ⟨0, o⟩) ∨
      ∃ j, o = a + b + j ∧
        locate (⟨a, b⟩ :: ls) o = ⟨(locate ls j).line + 1, (locate ls j).column⟩ := by
  rw [locate_cons hne, size]
  rcases Nat.lt_or_ge o (a + b) with hlt | hge
  · exact .inl ⟨hlt, if_pos hlt⟩
  · exact .inr ⟨o - (a + b), (Nat.add_sub_cancel' hge).symm, if_neg (Nat.not_lt_of_le hge)⟩

namespace Lined

lemma ne_nil (h : Lined cs ls) : ls ≠ [] := by
  cases h <;> exact List.cons_ne_nil _ _

lemma terminated (h : Lined cs ls) : Terminated ls := by
  refine ⟨h.ne_nil, ?_⟩
  induction h with
  | last =>
    intro n l hl
    cases n with
    | zero => obtain rfl := Option.some.inj hl; simp
    | succ n => cases hl
  | line _ hbrk hrest ih =>
    intro n l hl
    cases n with
    | zero =>
      obtain rfl := Option.some.inj hl
      have hpos := List.length_pos_iff.mpr hrest.ne_nil
      simpa using iff_of_true hbrk.length_pos hpos
    | succ n => simpa using ih n l hl

/-- A line has the characters up to its break, and then those of its break. -/
lemma exists_text (h : Lined cs ls) (hl : ls[n]? = some l) :
    ∃ body brk after, cs.drop (start ls n) = body ++ (brk ++ after) ∧
      body.length = l.length ∧ brk.length = l.breakLength ∧ (∀ c ∈ body, ¬ isBreak c) ∧
      (brk = [] ∧ after = [] ∨ IsWhole brk after) := by
  induction h generalizing n with
  | @last body hbody =>
    cases n with
    | zero =>
      obtain rfl := Option.some.inj hl
      exact ⟨body, [], [], by simp, rfl, rfl, hbody, .inl ⟨rfl, rfl⟩⟩
    | succ n => cases hl
  | @line body brk rest ls hbody hbrk hrest ih =>
    cases n with
    | zero =>
      obtain rfl := Option.some.inj hl
      exact ⟨body, brk, rest, rfl, rfl, rfl, hbody, .inr hbrk⟩
    | succ n =>
      obtain ⟨body', brk', after, hdrop, htext⟩ := ih hl
      refine ⟨body', brk', after, ?_, htext⟩
      rw [start_cons_succ, size, ← List.append_assoc, ← List.drop_drop, ← List.length_append,
        List.drop_left, hdrop]

/-- **The position of an offset counts the breaks up to it**, and the characters behind the
last of them. -/
lemma locate_eq (h : Lined cs ls) (o : Nat) (ho : o ≤ cs.length) :
    locate ls o = ⟨Nat.count (BreakEnds cs) (o + 1), o - Nat.findGreatest (BreakEnds cs) o⟩ := by
  induction h generalizing o with
  | @last body hbody =>
    have hnone : ∀ i ≤ o, ¬ BreakEnds body i := fun i hi =>
      not_breakEnds_body hbody (Nat.le_trans hi ho)
    have hcount : Nat.count (BreakEnds body) (o + 1) = 0 :=
      Nat.count_iff_forall_not.mpr fun i hi => hnone i (Nat.le_of_lt_succ hi)
    have hlast : Nat.findGreatest (BreakEnds body) o = 0 :=
      Nat.findGreatest_eq_zero_iff.mpr fun _ _ hi => hnone _ hi
    rw [hcount, hlast]
    rfl
  | @line body brk rest ls hbody hbrk hrest ih =>
    have hbefore := fun i => not_breakEnds_line (i := i) hbody hbrk
    rcases locate_line hrest.ne_nil body.length brk.length o with ⟨hlt, hloc⟩ | ⟨j, rfl, hloc⟩
    · have hcount : Nat.count (BreakEnds (body ++ (brk ++ rest))) (o + 1) = 0 :=
        Nat.count_iff_forall_not.mpr fun i hi => hbefore i (by omega)
      have hlast : Nat.findGreatest (BreakEnds (body ++ (brk ++ rest))) o = 0 :=
        Nat.findGreatest_eq_zero_iff.mpr fun i _ hi => hbefore i (by omega)
      rw [hloc, hcount, hlast]
      rfl
    · have hnext := breakEnds_next_line hbody hbrk
      simp only [List.length_append] at ho
      rw [hloc, ih j (by omega), count_next hnext hbefore id, findGreatest_next hnext,
        Nat.add_sub_add_left]

/-- There is a line more than breaks. -/
lemma length_eq (h : Lined cs ls) : ls.length = Nat.count (BreakEnds cs) (cs.length + 1) + 1 := by
  induction h with
  | @last body hbody =>
    have hcount : Nat.count (BreakEnds body) (body.length + 1) = 0 :=
      Nat.count_iff_forall_not.mpr fun i hi =>
        not_breakEnds_body hbody (Nat.le_of_lt_succ hi)
    rw [hcount, List.length_singleton]
  | @line body brk rest ls hbody hbrk hrest ih =>
    have hcount := count_next (breakEnds_next_line hbody hbrk)
      (fun i => not_breakEnds_line hbody hbrk) id rest.length
    simp only [List.length_append, List.length_cons, ← Nat.add_assoc, hcount, ih]

/-- **An offset is behind the end of its line exactly if it splits a break.** -/
lemma within_locate_iff (h : Lined cs ls) (o : Nat) (ho : o ≤ cs.length) :
    Within ls (locate ls o) ↔ ¬ SplitsBreak cs o := by
  induction h generalizing o with
  | @last body hbody =>
    exact iff_of_true ⟨_, rfl, ho⟩ (not_splitsBreak_body hbody ho)
  | @line body brk rest ls hbody hbrk hrest ih =>
    rcases locate_line hrest.ne_nil body.length brk.length o with ⟨hlt, hloc⟩ | ⟨j, rfl, hloc⟩
    · rw [hloc, splitsBreak_line hbody hbrk hlt, Nat.not_lt]
      simp [Within]
    · simp only [List.length_append] at ho
      rw [hloc, splitsBreak_next_line hbody hbrk, ← ih j (by omega)]
      rfl

/-- **An offset comes back from its position**, or the one before it does if it splits a
break. -/
lemma offset_locate (h : Lined cs ls) (o : Nat) (ho : o ≤ cs.length) :
    offset ls (locate ls o).line (locate ls o).column =
      if SplitsBreak cs o then o - 1 else o := by
  induction h generalizing o with
  | @last body hbody =>
    rw [if_neg (not_splitsBreak_body hbody ho)]
    exact Nat.min_eq_left ho
  | @line body brk rest ls hbody hbrk hrest ih =>
    rcases locate_line hrest.ne_nil body.length brk.length o with ⟨hlt, hloc⟩ | ⟨j, rfl, hloc⟩
    · -- a break has two characters at most, so there is one offset that splits it
      have hle := hbrk.length_le
      simp only [hloc, splitsBreak_line hbody hbrk hlt, offset]
      split <;> omega
    · simp only [List.length_append] at ho
      simp only [hloc, splitsBreak_next_line hbody hbrk, offset, ih j (by omega), size]
      split
      · rename_i hsplits
        have hpos := hsplits.pos
        omega
      · rfl

end Lined

end LinkedViews.Line
