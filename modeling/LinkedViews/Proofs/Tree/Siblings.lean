import Mathlib.Order.Defs.Unbundled
import LinkedViews.Proofs.Text.ByteOrder
import LinkedViews.Proofs.Tree.Insertion

/-!
The place of a node among its siblings.

The order of labels is linear, so siblings with distinct labels have one arrangement. The
place where a label is found is then the place of its node, and a node that was put there can
be grown there: it makes no difference whether what hangs below a node is added to it before
or after it comes to its siblings.
-/

namespace LinkedViews

namespace Label

lemma isLinearOrder : IsLinearOrder String fun a b => Label.compare a b ≠ .gt where
  refl a := by
    rw [compare_self]
    exact nofun
  trans a b c hab hbc :=
    Ordering.ne_gt_iff_isLE.mpr (Std.TransCmp.isLE_trans (Ordering.ne_gt_iff_isLE.mp hab)
      (Ordering.ne_gt_iff_isLE.mp hbc))
  antisymm a b hab hba :=
    eq_of_compare (Std.OrientedCmp.isLE_antisymm (Ordering.ne_gt_iff_isLE.mp hab)
      (Ordering.ne_gt_iff_isLE.mp hba))
  total a b := by
    by_cases h : Label.compare a b = .gt
    · refine .inr ?_
      rw [Std.OrientedCmp.gt_iff_lt.mp h]
      exact nofun
    · exact .inl h

end Label

namespace Node

variable {n : Node} {ns ms : List Node} {key : String} {f : Node → Node} {i : Nat}

/-- Where the first node with a label stands. -/
def position? (key : String) (ns : List Node) : Option Nat :=
  ns.findIdx? fun n => n.label = key

lemma child?_eq_position? (n : Node) (key : String) :
    n.child? key = (position? key n.children).bind fun i => n.children[i]? :=
  List.find?_eq_bind_findIdx?_getElem?

lemma updateFirst_eq_modify (f : Node → Node) (h : position? key ns = some i) :
    updateFirst key f ns = ns.modify i f := by
  induction ns generalizing i with
  | nil => cases h
  | cons m ns ih =>
    rw [position?, List.findIdx?_cons] at h
    unfold updateFirst
    split
    · rename_i hm
      rw [if_pos (decide_eq_true hm)] at h
      rw [← Option.some.inj h]
      rfl
    · rename_i hm
      rw [if_neg (by simpa using hm)] at h
      obtain ⟨j, hj, rfl⟩ := Option.map_eq_some_iff.mp h
      rw [ih hj]
      rfl

/-- Only one place has the label of a node. -/
lemma position?_of_mem (h : (ns.map label).Nodup) (hn : n ∈ ns) :
    ∃ i, position? n.label ns = some i ∧ ns[i]? = some n := by
  obtain ⟨i, hi, rfl⟩ := List.mem_iff_getElem.mp hn
  refine ⟨i, ?_, List.getElem?_eq_getElem hi⟩
  rw [position?, List.findIdx?_eq_some_iff_getElem]
  refine ⟨hi, by simp, fun j hji => ?_⟩
  have hne := List.pairwise_iff_getElem.mp h j i (by simp; omega) (by simpa using hi) hji
  simpa using hne

/-- Siblings with distinct labels have one arrangement in which no label is behind the next. -/
lemma eq_sortSiblings_iff (h : (ns.map label).Nodup) :
    (List.Perm ms ns ∧ (ms.map label).Pairwise fun a b => Label.compare a b ≠ .gt) ↔
      ms = sortSiblings ns := by
  have hordered := ordered_sortSiblings h
  have hperm := sortSiblings_perm ns
  have hsorted : ((sortSiblings ns).map label).Pairwise fun a b => Label.compare a b ≠ .gt :=
    hordered.imp fun hlt => by rw [hlt]; exact nofun
  constructor
  · rintro ⟨hms, hpairs⟩
    refine List.Perm.eq_of_pairwise (fun a b ha hb hab hba => ?_) (List.pairwise_map.mp hpairs)
      (List.pairwise_map.mp hsorted) (hms.trans hperm.symm)
    -- Nodes that are in neither order have one label, so they are one.
    have hlabel := Label.isLinearOrder.antisymm _ _ hab hba
    exact hordered.eq_of_label ((hms.trans hperm.symm).mem_iff.mp ha) hb hlabel
  · rintro rfl
    exact ⟨hperm, hsorted⟩

/-- A node can be grown before it comes to its siblings or behind that. -/
lemma addSibling_grown (h : ((ns ++ [n]).map label).Nodup) (hf : ∀ m, (f m).label = m.label) :
    addSibling (f n) ns = updateFirst n.label f (addSibling n ns) := by
  have hlabels : (ns ++ [f n]).map label = (ns ++ [n]).map label := by
    simp only [List.map_append, List.map_singleton, hf]
  have hordered : Ordered (addSibling n ns) := ordered_sortSiblings h
  have hgrown : Ordered (updateFirst n.label f (addSibling n ns)) := by
    rw [Ordered, map_label_updateFirst fun m hm => (hf m).trans hm]
    exact hordered
  have hnew : ∀ m ∈ ns, m.label ≠ n.label := fun m hm heq => by
    rw [List.map_append, List.nodup_append] at h
    exact h.2.2 _ (List.mem_map_of_mem hm) _ (List.mem_singleton_self _) heq
  have hn : n ∈ addSibling n ns := mem_addSibling.mpr (.inl rfl)
  refine Ordered.ext (ordered_sortSiblings (hlabels ▸ h)) hgrown fun c => ?_
  refine mem_addSibling.trans (Iff.trans ?_ (mem_updateFirst hordered).symm)
  constructor
  · rintro (rfl | hc)
    · exact .inr ⟨n, hn, rfl, rfl⟩
    · exact .inl ⟨mem_addSibling.mpr (.inr hc), hnew c hc⟩
  · rintro (⟨hc, hne⟩ | ⟨m, hm, heq, rfl⟩)
    · rcases mem_addSibling.mp hc with rfl | hc
      · exact absurd rfl hne
      · exact .inr hc
    · exact .inl (congrArg f (hordered.eq_of_label hm hn heq))

/-- **Siblings have one arrangement.** The order of labels is linear: level are equal labels
only, since what neither stems nor case tell apart, the bytes do. So siblings with distinct
labels have one arrangement in which no label is behind the next, and the labels ascend in it.
A node that comes to its siblings is found by its label in its own place, and can be grown
there as insertion does. -/
theorem siblings_arranged :
    IsLinearOrder String (fun a b => Label.compare a b ≠ .gt) ∧
    (∀ a b, Label.compare b a = (Label.compare a b).swap) ∧
    (∀ a b, Label.compare a b = .eq ↔ a = b) ∧
    (∀ a b, Label.compare a b =
      (Label.compareFolded (Label.stem a) (Label.stem b)).then
        ((Label.compareFolded a b).then
          (compare (Text.Utf8.encode a.toList) (Text.Utf8.encode b.toList)))) ∧
    ∀ (n : Node) (ns : List Node), ((ns ++ [n]).map label).Nodup →
      Ordered (addSibling n ns) ∧
      (∀ ms, (List.Perm ms (ns ++ [n]) ∧
        (ms.map label).Pairwise fun a b => Label.compare a b ≠ .gt) ↔ ms = addSibling n ns) ∧
      (∀ parent : Node, parent.children = addSibling n ns → parent.child? n.label = some n) ∧
      ∃ i, position? n.label (addSibling n ns) = some i ∧ (addSibling n ns)[i]? = some n ∧
        ∀ f : Node → Node, (∀ m, (f m).label = m.label) →
          addSibling (f n) ns = (addSibling n ns).modify i f := by
  refine ⟨Label.isLinearOrder, fun a b => Std.OrientedCmp.eq_swap,
    fun a b => ⟨Label.eq_of_compare, fun h => h ▸ Label.compare_self a⟩, fun a b => ?_,
    fun n ns h => ?_⟩
  · rw [Label.compare, Text.compare_eq_compare_encode]
  · have hordered : Ordered (addSibling n ns) := ordered_sortSiblings h
    obtain ⟨i, hi, hn⟩ := position?_of_mem hordered.nodup (mem_addSibling.mpr (.inl rfl))
    refine ⟨hordered, fun ms => eq_sortSiblings_iff h, fun parent hparent => ?_, i, hi, hn,
      fun f hf => ?_⟩
    · rw [child?_eq_position?, hparent, hi]
      exact hn
    · rw [addSibling_grown h hf, updateFirst_eq_modify f hi]

/-- A capital has two characters for its lower case, and a sign has a plain letter. Their
labels are level with others but for the extension, or but for the bytes. -/
theorem siblings_arranged_folded :
    let node (label : String) : Node := ⟨label, none, none, []⟩
    let ns := [node "\u212A.c", node "i\u0307.h", node "\u0130.c"]
    let arranged := [node "\u0130.c", node "i\u0307.h", node "k.c", node "\u212A.c"]
    let grow (m : Node) : Node := { m with children := [node "ast.text"] }
    ((ns ++ [node "k.c"]).map label).Nodup ∧ addSibling (node "k.c") ns = arranged ∧
    position? "k.c" arranged = some 2 ∧
    addSibling (grow (node "k.c")) ns = arranged.modify 2 grow := by
  intro node ns arranged grow
  have hnodup : ((ns ++ [node "k.c"]).map label).Nodup := by decide
  have hperm : List.Perm arranged (ns ++ [node "k.c"]) := by decide
  have hpairs : (arranged.map label).Pairwise fun a b => Label.compare a b ≠ .gt := by
    decide +kernel
  have hposition : position? "k.c" arranged = some 2 := by decide
  obtain ⟨-, -, -, -, hsiblings⟩ := siblings_arranged
  obtain ⟨-, hunique, -, i, hi, -, hgrow⟩ := hsiblings (node "k.c") ns hnodup
  have harranged := (hunique arranged).mp ⟨hperm, hpairs⟩
  rw [← harranged] at hi hgrow
  obtain rfl : i = 2 := Option.some.inj (hi.symm.trans hposition)
  exact ⟨hnodup, harranged.symm, hposition, hgrow grow fun _ => rfl⟩

end Node

end LinkedViews
