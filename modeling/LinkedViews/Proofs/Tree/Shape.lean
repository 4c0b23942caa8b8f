import LinkedViews.Proofs.Tree.Leaves

/-!
The shape of the tree of products.

Every node that labels lead to from the root is as insertions leave it. So its place alone
tells its path and the only product that it can stand for, its children ascend, and below it
there is a product unless it stands for one itself.
-/

namespace LinkedViews

namespace Node

/-- From a node, some labels lead down to another one. -/
inductive LeadsTo : Node → List String → Node → Prop where
  | here {n : Node} : LeadsTo n [] n
  | down {n c m : Node} {ks : List String} :
      c ∈ n.children → LeadsTo c ks m → LeadsTo n (c.label :: ks) m

variable {n m : Node} {keys ks : List String} {t : Target}

/-- What is looked up is there. -/
lemma leadsTo_of_find? (h : n.find? ks = some m) : LeadsTo n ks m := by
  induction ks generalizing n with
  | nil =>
    cases h
    exact .here
  | cons key ks ih =>
    rw [find?] at h
    obtain ⟨c, hc, hm⟩ := Option.bind_eq_some_iff.mp h
    have hmem : c ∈ n.children := List.mem_of_find?_eq_some hc
    rw [← label_of_child? hc]
    exact .down hmem (ih hm)

lemma Sound.leadsTo (h : Sound keys n) (hm : LeadsTo n ks m) : Sound (keys ++ ks) m := by
  induction hm generalizing keys with
  | here => rwa [List.append_nil]
  | down hc _ ih =>
    rw [List.append_cons]
    exact ih (h.child hc)

/-- A node that is not the one it is reached from stands for a product, or is above one. -/
lemma Sound.isLeaf_of_leadsTo (h : Sound keys n) (hm : LeadsTo n ks m) (hks : ks ≠ [])
    (hnil : m.children = []) : m.isLeaf := by
  induction hm generalizing keys with
  | here => exact absurd rfl hks
  | @down n c m ks hc hm ih =>
    cases hm with
    | here => exact h.needed hc hnil
    | down hc' hm => exact ih (h.child hc) (List.cons_ne_nil _ _) hnil

end Node

namespace Tree

/-- **Every node of a tree has the shape of its place.** Its children ascend, so their labels
differ. The root has neither a path nor a product. Any other node has the labels on the way to
it for its path, with blanks between them, and is a leaf if nothing is below it. The product
of a node has these labels for its name, with bars between them. -/
theorem nodes_shaped (ps : List Product) :
    ((ofProducts ps).root.path = none ∧ (ofProducts ps).root.product = none) ∧
    ∀ ks n, (ofProducts ps).root.LeadsTo ks n →
      (n.children.Pairwise fun a b => Label.compare a.label b.label = .lt) ∧
      (n.children.map Node.label).Nodup ∧
      (ks ≠ [] → n.path = some (" ".intercalate ks) ∧ (n.children = [] → n.isLeaf)) ∧
      ∀ t, n.product = some t → t.name = "|".intercalate ks := by
  have hroot := sound_ofProducts ps
  refine ⟨⟨hroot.path_eq, ?_⟩, fun ks n hn => ?_⟩
  · rw [Option.eq_none_iff_forall_ne_some]
    intro t ht
    exact t.keys_ne_nil (hroot.keys_of_product ht)
  · have hsound : Node.Sound ks n := hroot.leadsTo hn
    refine ⟨List.pairwise_map.mp hsound.ordered, hsound.ordered.nodup, fun hks => ⟨?_, ?_⟩,
      fun t ht => ?_⟩
    · rw [hsound.path_eq, Node.pathOf, if_neg hks]
    · exact hroot.isLeaf_of_leadsTo hn hks
    · rw [← hsound.keys_of_product ht, Target.intercalate_keys]

/-- A product below another one, which has a third beside it, and one whose keys are empty. -/
theorem nodes_shaped_nested :
    let outer : Product :=
      { Product.empty with source := .ofPath "/a.c", name := "n", language := "t" }
    let inner : Product := { outer with name := "n.t|m", language := "x" }
    let beside : Product := { outer with name := "N", language := "u" }
    let bare : Product := { Product.empty with name := "|", language := "" }
    let tree := ofProducts [inner, beside, bare, outer]
    let leaf : Node := ⟨"m.x", some "/a.c n.t m.x", some inner.target, []⟩
    (tree.root.LeadsTo ["/a.c", "n.t", "m.x"] leaf ∧ leaf.children = [] ∧
      leaf.product = some inner.target) ∧
    (leaf.path = some (" ".intercalate ["/a.c", "n.t", "m.x"]) ∧ leaf.isLeaf ∧
      inner.target.name = "|".intercalate ["/a.c", "n.t", "m.x"]) ∧
    ∃ file, tree.root.LeadsTo ["/a.c"] file ∧ file.children.map Node.label = ["n.t", "N.u"] ∧
      file.children.Pairwise fun a b => Label.compare a.label b.label = .lt := by
  intro outer inner beside bare tree leaf
  have hleaf : tree.root.LeadsTo ["/a.c", "n.t", "m.x"] leaf :=
    Node.leadsTo_of_find? (by decide +kernel)
  have hlabels : (tree.find? ["/a.c"]).map (fun n => n.children.map Node.label) =
      some ["n.t", "N.u"] := by decide +kernel
  obtain ⟨file, hfind, hchildren⟩ := Option.map_eq_some_iff.mp hlabels
  have hfile : tree.root.LeadsTo ["/a.c"] file := Node.leadsTo_of_find? hfind
  obtain ⟨-, -, hplace, hname⟩ := (nodes_shaped _).2 _ _ hleaf
  obtain ⟨hpath, hend⟩ := hplace (List.cons_ne_nil _ _)
  exact ⟨⟨hleaf, rfl, rfl⟩, ⟨hpath, hend rfl, hname _ rfl⟩, file, hfile, hchildren,
    ((nodes_shaped _).2 _ _ hfile).1⟩

end Tree

end LinkedViews
