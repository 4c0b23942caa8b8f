import Mathlib.Data.List.TakeWhile
import LinkedViews.Text.Cut

/-!
Where texts are cut, and how they are put together again.

Up to its first cut a text is the longest beginning without the character. Its pieces, with the
character between them, are the text again. So no two texts have the same pieces.
-/

namespace LinkedViews.Text

/-- At a separator with as many others before it, a list is cut in one way only. -/
lemma append_cons_inj_of_count {α : Type} [DecidableEq α] {c : α} {xs ys us vs : List α}
    (h : xs ++ c :: us = ys ++ c :: vs) (hcount : xs.count c = ys.count c) :
    xs = ys ∧ us = vs := by
  induction xs generalizing ys with
  | nil =>
    cases ys with
    | nil => exact ⟨rfl, (List.cons.inj h).2⟩
    | cons y ys =>
      rw [List.nil_append, List.cons_append, List.cons.injEq] at h
      rw [← h.1, List.count_cons_self, List.count_nil] at hcount
      omega
  | cons x xs ih =>
    cases ys with
    | nil =>
      rw [List.nil_append, List.cons_append, List.cons.injEq] at h
      rw [h.1, List.count_cons_self, List.count_nil] at hcount
      omega
    | cons y ys =>
      rw [List.cons_append, List.cons_append, List.cons.injEq] at h
      obtain ⟨rfl, h⟩ := h
      rw [List.count_cons, List.count_cons, Nat.add_right_cancel_iff] at hcount
      obtain ⟨rfl, rest⟩ := ih h hcount
      exact ⟨rfl, rest⟩

/-! ### Up to the first cut -/

lemma toList_upTo (c : Char) (s : String) :
    (upTo c s).toList = s.toList.takeWhile (· != c) := String.toList_ofList ..

lemma upTo_append_cons {c : Char} {s t : String} {rest : List Char}
    (h : t.toList = s.toList ++ c :: rest) : upTo c t = upTo c s := by
  rw [upTo, upTo, h, List.takeWhile_append]
  split
  · rename_i hall
    rw [List.takeWhile_cons_of_neg (by simp), List.append_nil]
    exact congrArg String.ofList ((List.takeWhile_prefix _).eq_of_length hall).symm
  · rfl

lemma upTo_eq_self_iff {c : Char} {s : String} : upTo c s = s ↔ c ∉ s.toList := by
  rw [← String.toList_inj, toList_upTo, List.takeWhile_eq_self_iff]
  simp only [bne_iff_ne, ne_eq]
  exact ⟨fun h hc => h c hc rfl, fun h x hx hxc => h (hxc ▸ hx)⟩

/-- What is before the first cut has no cut, and nothing or a cut behind it. -/
lemma upTo_eq_iff {c : Char} {s t : String} :
    upTo c s = t ↔ c ∉ t.toList ∧ (s = t ∨ ∃ rest, s = t ++ String.singleton c ++ rest) := by
  constructor
  · rintro rfl
    refine ⟨fun hc => ?_, ?_⟩
    · rw [toList_upTo] at hc
      simpa using List.mem_takeWhile_imp hc
    · by_cases hc : c ∈ s.toList
      · obtain ⟨before, after, hs, hbefore⟩ := List.eq_append_cons_of_mem hc
        have hcut : upTo c s = String.ofList before := by
          have hb : s.toList = (String.ofList before).toList ++ c :: after := by
            rw [String.toList_ofList, hs]
          rw [upTo_append_cons hb, upTo_eq_self_iff, String.toList_ofList]
          exact hbefore
        refine .inr ⟨String.ofList after, String.toList_inj.mp ?_⟩
        simp [hcut, hs]
      · exact .inl (upTo_eq_self_iff.mpr hc).symm
  · rintro ⟨hc, rfl | ⟨rest, rfl⟩⟩
    · exact upTo_eq_self_iff.mpr hc
    · have hcut : (t ++ String.singleton c ++ rest).toList = t.toList ++ c :: rest.toList := by
        simp
      rw [upTo_append_cons hcut, upTo_eq_self_iff]
      exact hc

/-! ### Pieces -/

lemma pieces_ne_nil (c : Char) (s : String) : pieces c s ≠ [] := by
  rw [pieces, ne_eq, List.map_eq_nil_iff]
  exact List.splitOn_ne_nil c s.toList

lemma toList_intercalate_pieces (c d : Char) (s : String) :
    ((String.singleton d).intercalate (pieces c s)).toList =
      [d].intercalate (s.toList.splitOn c) := by
  have hid : String.toList ∘ String.ofList = id := funext fun cs => String.toList_ofList
  rw [String.toList_intercalate, pieces, List.map_map, hid, List.map_id, String.toList_singleton]

/-- Put together again, the pieces are the text. -/
lemma intercalate_pieces (c : Char) (s : String) :
    (String.singleton c).intercalate (pieces c s) = s := by
  rw [← String.toList_inj, toList_intercalate_pieces, List.intercalate_splitOn]

/-- The first piece ends where the text is first cut. -/
lemma head?_pieces (c : Char) (s : String) : (pieces c s).head? = some (upTo c s) := by
  have hcut : ∀ cs : List Char, (cs.splitOn c).head? = some (cs.takeWhile (· != c)) := by
    intro cs
    induction cs with
    | nil => rw [List.splitOn_nil]; rfl
    | cons x cs ih =>
      rw [List.splitOn_cons_eq_if_modifyHead]
      by_cases hx : x = c
      · rw [if_pos (beq_iff_eq.mpr hx), List.takeWhile_cons_of_neg (by simp [hx])]; rfl
      · rw [if_neg (by simp [hx]), List.head?_modifyHead, ih,
          List.takeWhile_cons_of_pos (by simp [hx])]; rfl
  rw [pieces, List.head?_map, hcut]; rfl

lemma two_le_length_pieces {c : Char} {s : String} (h : c ∈ s.toList) :
    2 ≤ (pieces c s).length := by
  obtain ⟨before, after, hs⟩ := List.append_of_mem h
  have hbefore := List.length_pos_iff.mpr (List.splitOn_ne_nil c before)
  have hafter := List.length_pos_iff.mpr (List.splitOn_ne_nil c after)
  rw [pieces, List.length_map, hs, List.splitOn_append_cons_self, List.length_append]
  omega

lemma pieces_inj {c : Char} {s s' : String} (h : pieces c s = pieces c s') : s = s' := by
  rw [← intercalate_pieces c s, h, intercalate_pieces]

end LinkedViews.Text
