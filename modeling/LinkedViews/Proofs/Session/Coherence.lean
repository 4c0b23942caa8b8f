import LinkedViews.Proofs.Session.Reached
import LinkedViews.Proofs.Tree.Leaves

/-!
Store and tree of a session.

Every product is stored at its target, and the tree is the one that the stored products
build, whether it grew by one product or was built anew. So its leaves are the stored
targets, and each is found by its keys.
-/

namespace LinkedViews

namespace SortedMap

variable {α β : Type} [Ord α] [Std.TransOrd α] [Std.LawfulEqOrd α] [DecidableEq α]

lemma mem_entries_insert {m : SortedMap α β} {k : α} {v : β} {e : α × β} :
    e ∈ (m.insert k v).entries ↔ e = (k, v) ∨ (e ∈ m.entries ∧ e.1 ≠ k) := by
  obtain ⟨a, b⟩ := e
  rw [← get?_eq_some_iff, get?_insert, ← get?_eq_some_iff]
  split
  · rename_i h
    simp [h, eq_comm]
  · rename_i h
    simp [h]

lemma mem_values_insert {m : SortedMap α β} {k : α} {v w : β} :
    w ∈ (m.insert k v).values ↔ w = v ∨ ∃ e ∈ m.entries, e.1 ≠ k ∧ e.2 = w := by
  simp only [values, List.mem_map, mem_entries_insert]
  constructor
  · rintro ⟨e, rfl | ⟨he, hne⟩, rfl⟩
    · exact .inl rfl
    · exact .inr ⟨e, he, hne, rfl⟩
  · rintro (rfl | ⟨e, he, hne, rfl⟩)
    · exact ⟨_, .inl rfl, rfl⟩
    · exact ⟨e, .inr ⟨he, hne⟩, rfl⟩

end SortedMap

namespace Session

/-- The store and the tree of a session fit each other. -/
structure Coherent (s : Session) : Prop where
  /-- Each product is stored at its target. -/
  keyed : ∀ e ∈ s.store.products.entries, e.1 = e.2.target
  /-- The stored products build the tree. -/
  mirrored : s.tree = .ofProducts s.store.products.values

lemma Coherent.contains_iff {s : Session} (h : s.Coherent) (t : Target) :
    s.store.contains t ↔ ∃ p ∈ s.store.products.values, p.target = t := by
  rw [Store.contains, Store.find?, Option.isSome_iff_exists]
  constructor
  · rintro ⟨p, hp⟩
    have hmem := SortedMap.get?_eq_some_iff.mp hp
    exact ⟨p, List.mem_map_of_mem hmem, (h.keyed _ hmem).symm⟩
  · rintro ⟨p, hp, rfl⟩
    obtain ⟨e, he, rfl⟩ := List.mem_map.mp hp
    exact ⟨e.2, SortedMap.get?_eq_some_iff.mpr (h.keyed e he ▸ he)⟩

lemma coherent_new (settings : Settings) : (Session.new settings).Coherent := ⟨nofun, rfl⟩

lemma Coherent.of_sameProducts {s s' : Session} (h : s.Coherent) (hs : SameProducts s s') :
    s'.Coherent := by
  obtain ⟨hstore, htree⟩ := hs
  exact ⟨hstore ▸ h.keyed, by rw [htree, hstore]; exact h.mirrored⟩

/-- The version that a save stores is stored at its target, and added to the tree. -/
lemma Coherent.save {s : Session} (h : s.Coherent) (p : Product) : (s.save p).session.Coherent := by
  let v := p.after (s.store.find? p.target)
  have hv : v.target = p.target := Product.target_after _ _
  have hget : (s.store.save p).2.get p.target = v := by
    rw [Store.get, Store.find?_save, if_pos rfl]; rfl
  refine ⟨fun e he => ?_, ?_⟩
  · rcases SortedMap.mem_entries_insert.mp he with rfl | ⟨he, -⟩
    · exact hv.symm
    · exact h.keyed e he
  · have htree : (s.save p).session.tree = s.tree.insert v := congrArg s.tree.insert hget
    rw [htree, h.mirrored, ← Tree.ofProducts_append_singleton]
    refine Tree.ofProducts_congr fun t => ?_
    constructor
    · rintro ⟨q, hq, rfl⟩
      rcases List.mem_append.mp hq with hq | hq
      · obtain ⟨e, he, rfl⟩ := List.mem_map.mp hq
        by_cases hk : e.1 = p.target
        · exact ⟨v, SortedMap.mem_values_insert.mpr (.inl rfl), by rw [hv, ← hk, h.keyed e he]⟩
        · exact ⟨e.2, SortedMap.mem_values_insert.mpr (.inr ⟨e, he, hk, rfl⟩), rfl⟩
      · rw [List.mem_singleton] at hq
        exact ⟨v, SortedMap.mem_values_insert.mpr (.inl rfl), by rw [hq]⟩
    · rintro ⟨q, hq, rfl⟩
      rcases SortedMap.mem_values_insert.mp hq with rfl | ⟨e, he, -, rfl⟩
      · exact ⟨v, List.mem_append_right _ (List.mem_singleton_self v), rfl⟩
      · exact ⟨e.2, List.mem_append_left _ (List.mem_map_of_mem he), rfl⟩

lemma Coherent.drop {s : Session} (h : s.Coherent) (source : Source) :
    (s.drop source).session.Coherent :=
  ⟨fun e he => h.keyed e (List.mem_filter.mp he).1, rfl⟩

lemma Coherent.step {s s' : Session} (h : s.Coherent) (hs : Step s s') : s'.Coherent := by
  rcases hs.cases with hs | ⟨p, rfl⟩ | ⟨source, rfl⟩
  · exact h.of_sameProducts hs
  · exact h.save p
  · exact h.drop source

lemma Reached.coherent {s : Session} (h : Reached s) : s.Coherent := by
  induction h with
  | new settings => exact coherent_new settings
  | next _ step ih => exact ih.step step

lemma Reached.sound_tree {s : Session} (h : Reached s) : s.tree.Sound :=
  h.coherent.mirrored ▸ Tree.sound_ofProducts _

/-- **The tree mirrors the store**: products are stored at their targets, the tree is the one
that they build, its leaves are the stored targets, each once, and the keys of a target lead
to its node exactly if it is stored. -/
theorem tree_mirrors_store {s : Session} (h : Reached s) :
    (∀ e ∈ s.store.products.entries, e.1 = e.2.target) ∧
    s.tree = .ofProducts s.store.products.values ∧
    (s.tree.leaves.Nodup ∧ ∀ t, t ∈ s.tree.leaves ↔ t ∈ s.store.targets) ∧
    ∀ t : Target, (∃ n, s.tree.find? t.keys = some n ∧ n.product = some t) ↔ s.store.contains t := by
  have hc := h.coherent
  refine ⟨hc.keyed, hc.mirrored, ⟨?_, fun t => ?_⟩, fun t => ?_⟩
  · rw [hc.mirrored]
    exact (Tree.sound_ofProducts _).nodup_leaves
  · rw [hc.mirrored, Tree.mem_leaves_ofProducts, ← hc.contains_iff, Store.contains,
      Option.isSome_iff_exists]
    simp [Store.find?, SortedMap.get?_eq_some_iff, Store.targets, SortedMap.keys]
  · rw [hc.contains_iff, hc.mirrored]
    exact Tree.find?_ofProducts

/-- A product, one that hangs below its leaf, and the loss of a document without any. -/
def nested : Session :=
  let outer : Product := { Product.empty with source := .ofPath "/a.c", name := "n", language := "t" }
  let inner : Product := { outer with name := "n.t|m", language := "x" }
  ((((new .initial).save inner).session.save outer).session.drop (.ofPath "/b.c")).session

/-- The tree of a product below the leaf of another mirrors the store. -/
theorem tree_mirrors_nested : nested.Reached ∧
    (∀ e ∈ nested.store.products.entries, e.1 = e.2.target) ∧
    nested.tree = .ofProducts nested.store.products.values ∧
    (nested.tree.leaves.Nodup ∧ ∀ t, t ∈ nested.tree.leaves ↔ t ∈ nested.store.targets) ∧
    ∀ t : Target, (∃ n, nested.tree.find? t.keys = some n ∧ n.product = some t) ↔
      nested.store.contains t :=
  have h : nested.Reached := .next (.next (.next (.new _) (.save _)) (.save _)) (.drop _)
  ⟨h, tree_mirrors_store h⟩

end Session

end LinkedViews
