import Mathlib.Tactic.Lemma
import LinkedViews.Span

/-!
What a look-up in a table of links depends on.

Where no offset is in the sources of two links, a look-up finds the one link that contains the
offset, wherever it is in the table. In any table the first link that contains the offset is
found, so links behind it do not matter, and those before it that do not contain the offset.
-/

namespace LinkedViews.Link

variable {xs ys : List Link} {l : Link} {o : Nat}

/-- No offset is in the sources of two links. -/
def Disjoint (links : List Link) : Prop :=
  links.Pairwise fun a b => ∀ o, ¬ (a.source.Contains o ∧ b.source.Contains o)

/-- One table from another by changes of order, and by links of no offsets that come and go. -/
inductive Rearranged : List Link → List Link → Prop
  | perm {xs ys : List Link} : List.Perm xs ys → Rearranged xs ys
  | insert (before after : List Link) {l : Link} :
      l.source.isEmpty → Rearranged (before ++ after) (before ++ l :: after)
  | delete (before after : List Link) {l : Link} :
      l.source.isEmpty → Rearranged (before ++ l :: after) (before ++ after)
  | trans {xs ys zs : List Link} : Rearranged xs ys → Rearranged ys zs → Rearranged xs zs

/-! ### The link that is found -/

lemma containing?_eq_none_iff :
    containing? xs o = none ↔ ∀ l ∈ xs, ¬ l.source.Contains o := by
  simp [containing?, List.find?_eq_none]

/-- **The link that is found is the first one that contains the offset.** -/
lemma containing?_eq_some_iff :
    containing? xs o = some l ↔
      l.source.Contains o ∧ ∃ before after, xs = before ++ l :: after ∧
        ∀ k ∈ before, ¬ k.source.Contains o := by
  simp [containing?, List.find?_eq_some_iff_append]

lemma resolve_congr (h : containing? xs o = containing? ys o) : resolve xs o = resolve ys o := by
  rw [resolve, resolve, h]

lemma containing?_append (hl : ∃ l ∈ xs, l.source.Contains o) :
    containing? (xs ++ ys) o = containing? xs o := by
  obtain ⟨l, hmem, hcontains⟩ := hl
  have hsome : (containing? xs o).isSome := by
    rw [containing?, List.find?_isSome]
    exact ⟨l, hmem, decide_eq_true hcontains⟩
  rw [containing?, List.find?_append]
  exact Option.or_of_isSome hsome

lemma containing?_cons (hl : ¬ l.source.Contains o) :
    containing? (l :: xs) o = containing? xs o :=
  List.find?_cons_of_neg (by simpa using hl)

/-! ### Tables without overlaps -/

lemma disjoint_perm (h : List.Perm xs ys) : Disjoint xs ↔ Disjoint ys :=
  h.pairwise_iff fun hab o hba => hab o hba.symm

lemma disjoint_cons_of_isEmpty (hl : l.source.isEmpty) : Disjoint (l :: xs) ↔ Disjoint xs := by
  rw [Disjoint, List.pairwise_cons]
  refine and_iff_right fun k _ o hboth => ?_
  exact Span.not_contains_of_isEmpty hl o hboth.1

/-- Where there is no overlap, the place in the table does not matter. -/
lemma Disjoint.containing?_eq_some_iff (hd : Disjoint xs) :
    containing? xs o = some l ↔ l ∈ xs ∧ l.source.Contains o := by
  induction xs with
  | nil => simp [containing?]
  | cons k xs ih =>
    obtain ⟨hk, hxs⟩ := List.pairwise_cons.mp hd
    by_cases hcontains : k.source.Contains o
    · have hfound : containing? (k :: xs) o = some k :=
        List.find?_cons_of_pos (by simpa using hcontains)
      have hother : ∀ l ∈ xs, ¬ l.source.Contains o := fun l hl hlo => hk l hl o ⟨hcontains, hlo⟩
      rw [hfound, Option.some.injEq, List.mem_cons]
      constructor
      · rintro rfl
        exact ⟨.inl rfl, hcontains⟩
      · rintro ⟨rfl | hl, hlo⟩
        · rfl
        · exact absurd hlo (hother l hl)
    · rw [containing?_cons hcontains, ih hxs, List.mem_cons]
      constructor
      · rintro ⟨hl, hlo⟩
        exact ⟨.inr hl, hlo⟩
      · rintro ⟨rfl | hl, hlo⟩
        · exact absurd hlo hcontains
        · exact ⟨hl, hlo⟩

/-- What two tables have in common in which the same link is found at each offset. -/
structure Alike (xs ys : List Link) : Prop where
  disjoint : Disjoint xs ↔ Disjoint ys
  mem_iff : ∀ l o, l.source.Contains o → (l ∈ xs ↔ l ∈ ys)

lemma Alike.symm (h : Alike xs ys) : Alike ys xs :=
  ⟨h.disjoint.symm, fun l o hl => (h.mem_iff l o hl).symm⟩

/-- A link of no offsets makes no difference, wherever it is. -/
lemma alike_insert (before after : List Link) (hl : l.source.isEmpty) :
    Alike (before ++ after) (before ++ l :: after) where
  disjoint := by
    rw [disjoint_perm List.perm_middle, disjoint_cons_of_isEmpty hl]
  mem_iff k o hk := by
    have hne : k ≠ l := by
      rintro rfl
      exact Span.not_contains_of_isEmpty hl o hk
    simp [hne]

lemma Rearranged.alike (h : Rearranged xs ys) : Alike xs ys := by
  induction h with
  | perm hperm => exact ⟨disjoint_perm hperm, fun _ _ _ => hperm.mem_iff⟩
  | insert before after hl => exact alike_insert before after hl
  | delete before after hl => exact (alike_insert before after hl).symm
  | trans _ _ ih ih' =>
    exact ⟨ih.disjoint.trans ih'.disjoint,
      fun l o hl => (ih.mem_iff l o hl).trans (ih'.mem_iff l o hl)⟩

lemma Alike.containing?_eq (h : Alike xs ys) (hd : Disjoint xs) (o : Nat) :
    containing? ys o = containing? xs o := by
  refine Option.ext fun l => ?_
  rw [(h.disjoint.mp hd).containing?_eq_some_iff, hd.containing?_eq_some_iff]
  exact and_congr_left fun hl => (h.mem_iff l o hl).symm

/-- **Look-ups do not depend on the order of a table without overlaps**, nor on links of no
offsets in it. In any table a look-up of an offset that some link contains does not depend on
what is put behind, and one of an offset that a link does not contain not on that link in
front. -/
theorem resolve_rearranged :
    (∀ xs ys, Disjoint xs → Rearranged xs ys → ∀ o, resolve ys o = resolve xs o) ∧
    (∀ xs ys o, (∃ l ∈ xs, l.source.Contains o) → resolve (xs ++ ys) o = resolve xs o) ∧
    ∀ l xs o, ¬ l.source.Contains o → resolve (l :: xs) o = resolve xs o :=
  ⟨fun _ _ hd hr o => resolve_congr (hr.alike.containing?_eq hd o),
    fun _ _ _ hl => resolve_congr (containing?_append hl),
    fun _ _ _ hl => resolve_congr (containing?_cons hl)⟩

/-- Two spans that meet. -/
def meeting : List Link := [⟨⟨0, 4⟩, [⟨1, 2⟩]⟩, ⟨⟨4, 9⟩, [⟨5, 8⟩, ⟨0, 1⟩]⟩]

/-- The other way round, with a reversed span between them. -/
def meetingApart : List Link :=
  [⟨⟨4, 9⟩, [⟨5, 8⟩, ⟨0, 1⟩]⟩, ⟨⟨7, 3⟩, [⟨0, 9⟩]⟩, ⟨⟨0, 4⟩, [⟨1, 2⟩]⟩]

/-- The offset at which the spans meet is looked up in both orders, then in longer tables. -/
theorem resolve_rearranged_meeting :
    (Disjoint meeting ∧ Rearranged meeting meetingApart ∧
      ∀ o, resolve meetingApart o = resolve meeting o) ∧
    resolve meeting 4 = [⟨5, 8⟩, ⟨0, 1⟩] ∧
    ((∃ l ∈ meeting, l.source.Contains 4) ∧
      resolve (meeting ++ [⟨⟨0, 9⟩, []⟩]) 4 = resolve meeting 4) ∧
    (¬ (Span.mk 0 4).Contains 4 ∧ resolve (⟨⟨0, 4⟩, []⟩ :: meeting) 4 = resolve meeting 4) := by
  obtain ⟨hrearranged, happend, hcons⟩ := resolve_rearranged
  have hdisjoint : Disjoint meeting := by
    simp only [Disjoint, meeting, Span.Contains, List.pairwise_cons, List.mem_singleton,
      forall_eq, List.not_mem_nil, false_implies, implies_true, List.Pairwise.nil, and_true]
    intro o hboth
    have hstop : (4 : UInt64).toNat = 4 := rfl
    omega
  have hswap : Rearranged meeting meetingApart :=
    .trans (.perm (.swap ..)) (.insert [_] [_] (by decide))
  have hfound : ∃ l ∈ meeting, l.source.Contains 4 := by decide
  exact ⟨⟨hdisjoint, hswap, hrearranged _ _ hdisjoint hswap⟩, by decide,
    ⟨hfound, happend _ _ 4 hfound⟩, by decide, hcons _ _ 4 (by decide)⟩

end LinkedViews.Link
