import Mathlib.Data.List.Induction
import Mathlib.Data.Set.Basic
import LinkedViews.Proofs.Tree.Canonical

/-!
The leaves of a tree of products.

The leaves of a sound tree are its targets, each once. A tree that is built of products has
the targets of those products, and is determined by which they are.
-/

namespace LinkedViews

namespace Node

variable {n : Node} {keys : List String} {t : Target}

lemma leavesAll_eq_flatMap (ns : List Node) : leavesAll ns = ns.flatMap leaves := by
  induction ns with
  | nil => rfl
  | cons n ns ih => rw [leavesAll, ih, List.flatMap_cons]

lemma leaves_eq (n : Node) : n.leaves = n.product.toList ++ n.children.flatMap leaves := by
  cases n
  rw [leaves, leavesAll_eq_flatMap]

lemma Sound.mem_leaves_iff (h : Sound keys n) :
    t ∈ n.leaves ↔ ∃ ks, n.targetAt? ks = some t := by
  induction h with
  | @mk keys n _ _ _ ordered _ _ ih =>
    rw [leaves_eq, List.mem_append, Option.mem_toList, List.mem_flatMap]
    constructor
    · rintro (ht | ⟨c, hc, ht⟩)
      · exact ⟨[], ht⟩
      · obtain ⟨ks, hks⟩ := (ih c hc).mp ht
        refine ⟨c.label :: ks, ?_⟩
        rw [targetAt?_cons, (child?_eq_some_iff ordered).mpr ⟨hc, rfl⟩]
        exact hks
    · rintro ⟨_ | ⟨key, ks⟩, ht⟩
      · exact .inl ht
      · rw [targetAt?_cons] at ht
        obtain ⟨c, hc, ht⟩ := Option.bind_eq_some_iff.mp ht
        have hmem := ((child?_eq_some_iff ordered).mp hc).1
        exact .inr ⟨c, hmem, (ih c hmem).mpr ⟨ks, ht⟩⟩

/-- The keys of a leaf go through every node above it. -/
lemma Sound.keys_of_mem_leaves (h : Sound keys n) (ht : t ∈ n.leaves) :
    ∃ ks, t.keys = keys ++ ks := by
  obtain ⟨ks, hks⟩ := h.mem_leaves_iff.mp ht
  exact ⟨ks, h.keys_of_targetAt? hks⟩

theorem Sound.nodup_leaves (h : Sound keys n) : n.leaves.Nodup := by
  induction h with
  | @mk keys n label path product ordered children needed ih =>
    have hbelow : ∀ c ∈ n.children, ∀ t ∈ c.leaves, ∃ ks, t.keys = keys ++ c.label :: ks := by
      intro c hc t ht
      obtain ⟨ks, hks⟩ := (children c hc).keys_of_mem_leaves ht
      exact ⟨ks, by rw [hks, List.append_assoc, List.singleton_append]⟩
    rw [leaves_eq, List.nodup_append]
    refine ⟨?_, List.nodup_flatMap.mpr ⟨ih, ?_⟩, ?_⟩
    · cases n.product <;> simp
    · -- The labels of two siblings differ, and so do the keys below them.
      refine (List.pairwise_map.mp ordered.nodup).imp_of_mem fun {a b} ha hb hab t hta htb => ?_
      obtain ⟨ks, hks⟩ := hbelow a ha t hta
      obtain ⟨ls, hls⟩ := hbelow b hb t htb
      exact hab (List.cons.inj (List.append_cancel_left (hks.symm.trans hls))).1
    · intro t ht u hu htu
      subst htu
      obtain ⟨c, hc, htc⟩ := List.mem_flatMap.mp hu
      obtain ⟨ks, hks⟩ := hbelow c hc t htc
      have hkeys := product t (Option.mem_toList.mp ht)
      rw [hkeys] at hks
      exact absurd hks (by simp)

end Node

namespace Tree

/-- The root and all below it are as insertions leave them. -/
def Sound (t : Tree) : Prop := Node.Sound [] t.root

lemma sound_empty : Sound empty := .mk rfl rfl nofun .nil nofun nofun

lemma sound_insert {t : Tree} (h : t.Sound) (p : Product) : (t.insert p).Sound :=
  Node.sound_insert h (List.nil_append _).symm p.target.keys_ne_nil

lemma targetAt?_insert {t : Tree} (h : t.Sound) (p : Product) (ks : List String) :
    (t.insert p).root.targetAt? ks =
      if ks = p.target.keys then some p.target else t.root.targetAt? ks :=
  Node.targetAt?_insert h (List.nil_append _).symm p.target.keys_ne_nil ks

lemma sound_ofProducts (ps : List Product) : (ofProducts ps).Sound := by
  induction ps using List.reverseRecOn with
  | nil => exact sound_empty
  | append_singleton ps p ih =>
    rw [ofProducts_append_singleton]
    exact sound_insert ih p

lemma targetAt?_ofProducts {ps : List Product} {ks : List String} {t : Target} :
    (ofProducts ps).root.targetAt? ks = some t ↔ t.keys = ks ∧ ∃ p ∈ ps, p.target = t := by
  induction ps using List.reverseRecOn with
  | nil =>
    have hnone : empty.root.targetAt? ks = none := by cases ks <;> rfl
    simp [hnone]
  | append_singleton ps p ih =>
    rw [ofProducts_append_singleton, targetAt?_insert (sound_ofProducts ps)]
    split
    · rename_i hks
      subst hks
      constructor
      · intro he
        exact ⟨Option.some.inj he ▸ rfl, p, by simp, Option.some.inj he⟩
      · rintro ⟨hkeys, -⟩
        rw [Target.keys_inj hkeys]
    · rename_i hks
      rw [ih]
      refine and_congr_right fun hkeys => ?_
      have hne : p.target ≠ t := fun he => hks (he ▸ hkeys.symm)
      simp [or_and_right, exists_or, hne]

/-- The order and the number of insertions of a product leave no trace. -/
theorem ofProducts_congr {ps qs : List Product}
    (h : ∀ t, (∃ p ∈ ps, p.target = t) ↔ ∃ q ∈ qs, q.target = t) :
    ofProducts ps = ofProducts qs := by
  have hroot : (ofProducts ps).root = (ofProducts qs).root := by
    refine (sound_ofProducts ps).ext (sound_ofProducts qs) fun ks => Option.ext fun t => ?_
    rw [targetAt?_ofProducts, targetAt?_ofProducts, h]
  exact congrArg Tree.mk hroot

lemma mem_leaves_ofProducts {ps : List Product} {t : Target} :
    t ∈ (ofProducts ps).leaves ↔ ∃ p ∈ ps, p.target = t := by
  rw [leaves, (sound_ofProducts ps).mem_leaves_iff]
  simp [targetAt?_ofProducts]

/-- What hangs in a tree tells the targets of the products that it was built of. -/
lemma ofProducts_eq_iff {ps qs : List Product} : ofProducts ps = ofProducts qs ↔
    ∀ t, (∃ p ∈ ps, p.target = t) ↔ ∃ q ∈ qs, q.target = t := by
  constructor
  · intro heq t
    rw [← mem_leaves_ofProducts, heq, mem_leaves_ofProducts]
  · exact ofProducts_congr

lemma find?_ofProducts {ps : List Product} {t : Target} :
    (∃ n, (ofProducts ps).find? t.keys = some n ∧ n.product = some t) ↔
      ∃ p ∈ ps, p.target = t := by
  rw [← Option.bind_eq_some_iff]
  refine targetAt?_ofProducts.trans ?_
  rw [and_iff_right rfl]

/-- **The tree is canonical.** Two lists of products build the same tree exactly if they have
the same targets. So one more insertion leads to the tree that all the products build, in
whichever order, also where a product hangs below the leaf of another. -/
theorem canonical :
    (∀ xs ys : List Product, ofProducts xs = ofProducts ys ↔
      {t | ∃ p ∈ xs, p.target = t} = {t | ∃ p ∈ ys, p.target = t}) ∧
    ∀ (xs ys : List Product) (p : Product), List.Perm ys (p :: xs) →
      (ofProducts xs).insert p = ofProducts ys := by
  refine ⟨fun xs ys => ?_, fun xs ys p hperm => ?_⟩
  · rw [ofProducts_eq_iff, Set.ext_iff]
    rfl
  · have hall : List.Perm (xs ++ [p]) ys := (List.perm_append_singleton p xs).trans hperm.symm
    rw [← ofProducts_append_singleton]
    refine ofProducts_congr fun t => ?_
    constructor
    · rintro ⟨q, hq, ht⟩
      exact ⟨q, hall.mem_iff.mp hq, ht⟩
    · rintro ⟨q, hq, ht⟩
      exact ⟨q, hall.mem_iff.mpr hq, ht⟩

/-- A product below the leaf of another: either may come first, and between them a third. -/
theorem canonical_nested :
    let outer : Product :=
      { Product.empty with source := .ofPath "/a.c", name := "n", language := "t" }
    let inner : Product := { outer with name := "n.t|m", language := "x" }
    let other : Product := { outer with name := "k" }
    (outer.target.keys <+: inner.target.keys ∧ outer.target.keys ≠ inner.target.keys) ∧
    List.Perm [other, outer, inner] (outer :: [inner, other]) ∧
    (ofProducts [inner, other]).insert outer = ofProducts [other, outer, inner] ∧
    List.Perm [inner, outer, other] (inner :: [other, outer]) ∧
    (ofProducts [other, outer]).insert inner = ofProducts [inner, outer, other] := by
  intro outer inner other
  have hnested : outer.target.keys <+: inner.target.keys ∧
      outer.target.keys ≠ inner.target.keys := by decide
  have hleaf : List.Perm [other, outer, inner] (outer :: [inner, other]) :=
    (List.Perm.swap outer other [inner]).trans ((List.Perm.swap inner other []).cons outer)
  have hbelow : List.Perm [inner, outer, other] (inner :: [other, outer]) :=
    (List.Perm.swap other outer []).cons inner
  exact ⟨hnested, hleaf, canonical.2 _ _ outer hleaf, hbelow, canonical.2 _ _ inner hbelow⟩

end Tree

end LinkedViews
