import Mathlib.Data.List.Sort
import LinkedViews.Tree.Basic

/-!
Siblings in order.

The order of labels is total and tells any two labels apart, so a list of siblings with
distinct labels has one arrangement in ascending order. Adding a sibling finds it.
-/

namespace LinkedViews

namespace Label

instance : Std.TransCmp Label.compare :=
  inferInstanceAs (Std.TransCmp (compareLex (compareOn fun a => Text.lower (stem a))
    (compareLex (compareOn Text.lower) (compareOn id))))

end Label

namespace Node

/-- The labels ascend. -/
def Ordered (ns : List Node) : Prop :=
  (ns.map label).Pairwise fun a b => Label.compare a b = .lt

lemma Ordered.nodup {ns : List Node} (h : Ordered ns) : (ns.map label).Nodup := by
  refine List.Pairwise.imp (fun {a b} hab => ?_) h
  rintro rfl
  rw [Label.compare_self] at hab
  cases hab

lemma Ordered.tail {n : Node} {ns : List Node} (h : Ordered (n :: ns)) : Ordered ns :=
  List.Pairwise.tail h

/-- Two siblings of one label are one. -/
lemma Ordered.eq_of_label {ns : List Node} (h : Ordered ns) {a b : Node} (ha : a ∈ ns)
    (hb : b ∈ ns) (hab : a.label = b.label) : a = b :=
  List.inj_on_of_nodup_map h.nodup ha hb hab

lemma insertSibling_perm (n : Node) (ns : List Node) :
    List.Perm (insertSibling n ns) (n :: ns) := by
  induction ns with
  | nil => exact .refl _
  | cons m ns ih =>
    unfold insertSibling
    split
    · exact (ih.cons m).trans (.swap n m ns)
    · exact .refl _

lemma sortSiblings_perm (ns : List Node) : List.Perm (sortSiblings ns) ns := by
  induction ns with
  | nil => exact .refl _
  | cons n ns ih => exact (insertSibling_perm n _).trans (ih.cons n)

lemma ordered_insertSibling {n : Node} {ns : List Node} (h : Ordered ns)
    (hn : n.label ∉ ns.map label) : Ordered (insertSibling n ns) := by
  induction ns with
  | nil => exact List.pairwise_singleton _ _
  | cons m ns ih =>
    obtain ⟨hm, hns⟩ := List.pairwise_cons.mp h
    rw [List.map_cons, List.mem_cons, not_or] at hn
    unfold insertSibling
    split
    · rename_i hgt
      refine List.pairwise_cons.mpr ⟨fun l hl => ?_, ih hns hn.2⟩
      have hl' := ((insertSibling_perm n ns).map label).mem_iff.mp hl
      rcases List.mem_cons.mp hl' with rfl | hl'
      · exact Std.OrientedCmp.gt_iff_lt.mp hgt
      · exact hm l hl'
    · rename_i hgt
      -- The labels differ, so the new one is before the first.
      have hlt : Label.compare n.label m.label = .lt := by
        rcases hc : Label.compare n.label m.label with _ | _ | _
        · rfl
        · exact absurd (Label.eq_of_compare hc) hn.1
        · exact absurd hc hgt
      refine List.pairwise_cons.mpr ⟨fun l hl => ?_, h⟩
      rcases List.mem_cons.mp hl with rfl | hl
      · exact hlt
      · exact Std.TransCmp.lt_trans hlt (hm l hl)

lemma ordered_sortSiblings {ns : List Node} (h : (ns.map label).Nodup) :
    Ordered (sortSiblings ns) := by
  induction ns with
  | nil => exact .nil
  | cons n ns ih =>
    obtain ⟨hn, hns⟩ := List.nodup_cons.mp h
    refine ordered_insertSibling (ih hns) fun hmem => hn ?_
    exact ((sortSiblings_perm ns).map label).mem_iff.mp hmem

lemma mem_addSibling {n m : Node} {ns : List Node} :
    m ∈ addSibling n ns ↔ m = n ∨ m ∈ ns := by
  rw [addSibling, (sortSiblings_perm _).mem_iff, List.mem_append, List.mem_singleton, or_comm]

lemma ordered_addSibling {n : Node} {ns : List Node} (h : Ordered ns)
    (hn : n.label ∉ ns.map label) : Ordered (addSibling n ns) := by
  refine ordered_sortSiblings ?_
  rw [List.map_append, List.nodup_append]
  refine ⟨h.nodup, List.nodup_singleton _, fun a ha b hb hab => hn ?_⟩
  rw [List.map_singleton, List.mem_singleton] at hb
  exact hb ▸ hab ▸ ha

/-- Siblings in order are determined by which there are. -/
lemma Ordered.ext {as bs : List Node} (ha : Ordered as) (hb : Ordered bs)
    (h : ∀ n, n ∈ as ↔ n ∈ bs) : as = bs := by
  have hperm : List.Perm as bs :=
    (List.perm_ext_iff_of_nodup (List.Nodup.of_map _ ha.nodup) (List.Nodup.of_map _ hb.nodup)).mpr h
  have hanti : ∀ a b, a ∈ as → b ∈ bs → Label.compare a.label b.label = .lt →
      Label.compare b.label a.label = .lt → a = b := fun a b _ _ hab hba =>
    absurd hba (Std.OrientedCmp.not_lt_of_lt hab)
  exact hperm.eq_of_pairwise hanti (List.pairwise_map.mp ha) (List.pairwise_map.mp hb)

end Node

end LinkedViews
