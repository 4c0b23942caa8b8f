import LinkedViews.Proofs.Session.Identity
import LinkedViews.Proofs.Tree.Shape

/-!
What opens from the tree of a session.

A node that stands for no product opens the document that its path names. At the first level
the path is that of the source of every product below. Deeper nodes come from further bars in
the names of targets. Their paths go on behind that of the source, so they open a document
that no product below is derived from.
-/

namespace LinkedViews

namespace Source

/-- A path that goes on is that of another document. -/
lemma ofPath_append_eq_iff {path more : String} :
    ofPath (path ++ more) = ofPath path ↔ more = "" := by
  constructor
  · intro h
    have hpath := congrArg (fun s : Source => s.path.toList.length) h
    have hlength : ∀ p : String, (ofPath p).path.toList.length =
        p.toList.length + if p.toList.head?.all (· == '/') then 0 else 1 := by
      intro p
      rw [ofPath]
      split <;> simp [*, Nat.add_comm]
    simp only [hlength, String.toList_append, List.length_append] at hpath
    refine String.toList_inj.mp (List.eq_nil_of_length_eq_zero ?_)
    cases hchars : path.toList with
    | nil =>
      rw [hchars] at hpath
      simp only [List.nil_append, List.head?_nil, Option.all_none, if_true, List.length_nil] at hpath
      omega
    | cons c cs =>
      -- both paths start alike, so both are rooted as they are, or neither is
      simp only [hchars, List.cons_append, List.head?_cons] at hpath
      omega
  · rintro rfl
    rw [String.append_empty]

end Source

namespace Node

variable {n : Node} {keys : List String} {source : Source} {t : Target}

/-- What opens a document stands for no product, and its place tells which one it opens. -/
lemma Sound.source_of_action (h : Sound keys n) (haction : n.action = some (.source source)) :
    n.product = none ∧ keys ≠ [] ∧ source = .ofPath (" ".intercalate keys) := by
  unfold action at haction
  split at haction
  · cases haction
  · rename_i path hproduct hpath
    rw [h.path_eq, pathOf] at hpath
    split at hpath
    · cases hpath
    · rename_i hkeys
      cases hpath
      cases haction
      exact ⟨hproduct, hkeys, rfl⟩
  · cases haction

/-- The keys of a leaf go on below a node that stands for no product. -/
lemma Sound.keys_of_mem_leaves_of_none (h : Sound keys n) (hnone : n.product = none)
    (ht : t ∈ n.leaves) : ∃ key rest, t.keys = keys ++ key :: rest := by
  obtain ⟨ks, hks⟩ := h.mem_leaves_iff.mp ht
  cases ks with
  | nil =>
    rw [targetAt?_nil, hnone] at hks
    cases hks
  | cons key rest => exact ⟨key, rest, h.keys_of_targetAt? hks⟩

end Node

namespace Session

/-- **What opens a document opens the source of all products below it, at the first level, and
of none of them, at any deeper one.** There are products below it in either case, and each of
them has further bars in its name, if the level is a deeper one. -/
theorem opens_source {s : Session} (hs : s.Reached) {ks : List String} {n : Node} {source : Source}
    (hn : s.tree.root.LeadsTo ks n) (haction : n.action = some (.source source)) :
    (∃ t, t ∈ n.leaves) ∧
    ∀ t ∈ n.leaves, (t.source = source ↔ ks.length = 1) ∧ (t.keys.length = 2 → ks.length = 1) := by
  have hroot := hs.sound_tree
  have hsound : Node.Sound ks n := hroot.leadsTo hn
  obtain ⟨hnone, hkeys, rfl⟩ := hsound.source_of_action haction
  refine ⟨?_, fun t ht => ?_⟩
  · obtain ⟨ls, t, ht⟩ := hsound.exists_target (hroot.isLeaf_of_leadsTo hn hkeys)
    exact ⟨t, hsound.mem_leaves_iff.mpr ⟨ls, ht⟩⟩
  · obtain ⟨last, rest, htarget⟩ := hsound.keys_of_mem_leaves_of_none hnone ht
    obtain ⟨key, ks, rfl⟩ := List.exists_cons_of_ne_nil hkeys
    have hpath : t.sourcePath = key := by
      have hhead := t.head?_keys
      rw [htarget] at hhead
      exact (Option.some.inj hhead).symm
    constructor
    · rw [Target.source, hpath]
      cases ks with
      | nil => simp
      | cons next ks =>
        have hmore : " ".intercalate (key :: next :: ks) =
            key ++ (" " ++ " ".intercalate (next :: ks)) := by
          rw [String.intercalate_cons_cons, String.append_assoc]
        rw [hmore, eq_comm, Source.ofPath_append_eq_iff]
        simp
    · rw [htarget, List.length_append, List.length_cons, List.length_cons]
      omega

/-- The file has a product below it, and another one below that. -/
theorem opens_source_nested :
    let t : Target := .of (.ofPath "/a.c") "n.t|m" "x"
    ∃ n, (nested.Reached ∧ nested.tree.root.LeadsTo ["/a.c"] n ∧
        n.action = some (.source (.ofPath "/a.c"))) ∧
      t ∈ n.leaves ∧ t.source = .ofPath "/a.c" := by
  intro t
  have hreached : nested.Reached := .next (.next (.next (.new _) (.save _)) (.save _)) (.drop _)
  have hfile : (nested.tree.find? ["/a.c"]).any (fun n =>
      n.action = some (.source (.ofPath "/a.c")) ∧ t ∈ n.leaves) := by decide +kernel
  obtain ⟨n, hfind, hn⟩ := (Option.any_eq_true _ _).mp hfile
  obtain ⟨haction, ht⟩ := of_decide_eq_true hn
  have hlead : nested.tree.root.LeadsTo ["/a.c"] n := Node.leadsTo_of_find? hfind
  exact ⟨n, ⟨hreached, hlead, haction⟩, ht,
    ((opens_source hreached hlead haction).2 t ht).1.mpr rfl⟩

/-- A bar in the name of a product puts a node between the file and the product. It opens
another document than the source of the product. -/
theorem opens_astray :
    let p := Product.plain "/a.c" "n|m" "t" ""
    let s := ((new .initial).save p).session
    s.Reached ∧ ∃ n, s.tree.root.LeadsTo ["/a.c", "n"] n ∧
      n.action = some (.source (.ofPath "/a.c n")) ∧ p.target ∈ n.leaves ∧
      p.target.source ≠ .ofPath "/a.c n" := by
  intro p s
  have hnode : (s.tree.find? ["/a.c", "n"]).any (fun n =>
      n.action = some (.source (.ofPath "/a.c n")) ∧ p.target ∈ n.leaves) := by decide +kernel
  obtain ⟨n, hfind, hn⟩ := (Option.any_eq_true _ _).mp hnode
  obtain ⟨haction, ht⟩ := of_decide_eq_true hn
  exact ⟨.next (.new _) (.save p), n, Node.leadsTo_of_find? hfind, haction, ht, by decide⟩

end Session

end LinkedViews
