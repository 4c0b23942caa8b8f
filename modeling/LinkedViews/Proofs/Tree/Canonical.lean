import LinkedViews.Proofs.Target
import LinkedViews.Proofs.Tree.Insertion

/-!
The tree as a function of its targets.

In a sound node every label, path and product fits the keys that lead to it, siblings are in
order, and each node below it is there for some product. Insertion keeps a node sound and
adds one target to it. A sound node is determined by the targets below it, so the order of
insertions leaves no trace.
-/

namespace LinkedViews

namespace Node

/-- The path of a node: the keys that lead to it, with blanks between them. -/
def pathOf (keys : List String) : Option String :=
  if keys = [] then none else some (" ".intercalate keys)

/-- The target of the node that some keys lead to. -/
def targetAt? (n : Node) (keys : List String) : Option Target :=
  (n.find? keys).bind product

/-- The node that `keys` lead to, with all below it, is as insertions leave it. -/
inductive Sound : List String → Node → Prop where
  | mk {keys : List String} {n : Node}
    (label : n.label = keys.getLast?.getD root.label)
    (path : n.path = pathOf keys)
    (product : ∀ t, n.product = some t → t.keys = keys)
    (ordered : Ordered n.children)
    (children : ∀ c ∈ n.children, Sound (keys ++ [c.label]) c)
    (needed : ∀ c ∈ n.children, c.children = [] → c.isLeaf) : Sound keys n

variable {n c : Node} {keys ks : List String} {key : String} {t : Target}

namespace Sound

lemma label_eq (h : Sound keys n) : n.label = keys.getLast?.getD root.label :=
  match h with | .mk x _ _ _ _ _ => x

lemma path_eq (h : Sound keys n) : n.path = pathOf keys :=
  match h with | .mk _ x _ _ _ _ => x

lemma keys_of_product (h : Sound keys n) (ht : n.product = some t) : t.keys = keys :=
  match h with | .mk _ _ x _ _ _ => x t ht

lemma ordered (h : Sound keys n) : Ordered n.children :=
  match h with | .mk _ _ _ x _ _ => x

lemma child (h : Sound keys n) (hc : c ∈ n.children) : Sound (keys ++ [c.label]) c :=
  match h with | .mk _ _ _ _ x _ => x c hc

lemma needed (h : Sound keys n) (hc : c ∈ n.children) (hnil : c.children = []) : c.isLeaf :=
  match h with | .mk _ _ _ _ _ x => x c hc hnil

end Sound

lemma pathOf_append_singleton (keys : List String) (key : String) :
    pathOf (keys ++ [key]) =
      some (match pathOf keys with
        | some path => path ++ " " ++ key
        | none => key) := by
  rcases keys with _ | ⟨k, ks⟩
  · rfl
  · have hjoin := String.intercalate_append_of_ne_nil (s := " ") (l := k :: ks) (m := [key])
      (List.cons_ne_nil k ks) (List.cons_ne_nil key [])
    rw [String.intercalate_singleton] at hjoin
    simpa [pathOf] using hjoin

/-! ### Look-ups -/

@[simp] lemma targetAt?_nil (n : Node) : n.targetAt? [] = n.product := rfl

lemma targetAt?_cons (n : Node) (key : String) (ks : List String) :
    n.targetAt? (key :: ks) = (n.child? key).bind fun c => c.targetAt? ks := by
  unfold targetAt?
  rw [find?, Option.bind_assoc]

lemma Sound.of_child? (h : Sound keys n) (hc : n.child? key = some c) :
    c ∈ n.children ∧ Sound (keys ++ [key]) c := by
  obtain ⟨hmem, rfl⟩ := (child?_eq_some_iff h.ordered).mp hc
  exact ⟨hmem, h.child hmem⟩

/-- A target is found where its keys lead. -/
lemma Sound.keys_of_targetAt? (h : Sound keys n) (ht : n.targetAt? ks = some t) :
    t.keys = keys ++ ks := by
  induction ks generalizing keys n with
  | nil => rw [List.append_nil]; exact h.keys_of_product ht
  | cons key ks ih =>
    rw [targetAt?_cons] at ht
    obtain ⟨c, hc, ht⟩ := Option.bind_eq_some_iff.mp ht
    rw [ih (h.of_child? hc).2 ht, List.append_assoc, List.singleton_append]

lemma sound_newChild (h : Sound keys n) (key : String) :
    Sound (keys ++ [key]) (n.newChild key none) := by
  refine .mk ?_ ?_ nofun .nil nofun nofun
  · rw [List.getLast?_concat]; rfl
  · rw [pathOf_append_singleton, ← h.path_eq]; rfl

lemma Sound.child_or_new (h : Sound keys n) (key : String) :
    Sound (keys ++ [key]) ((n.child? key).getD (n.newChild key none)) := by
  cases hc : n.child? key with
  | none => exact sound_newChild h key
  | some c => exact (h.of_child? hc).2

lemma children_insert_ne_nil (t : Target) (key : String) (ks : List String)
    (h : Ordered n.children) : (insert t (key :: ks) n).children ≠ [] := by
  have hmem : grown t n key ks (n.child? key) ∈ (insert t (key :: ks) n).children :=
    (mem_children_insert h).mpr (.inr rfl)
  exact List.ne_nil_of_mem hmem

/-- The last key leads to a leaf, which takes over what was below its place. -/
lemma sound_leaf (h : Sound keys n) (ht : t.keys = keys ++ [key]) :
    Sound (keys ++ [key]) (grown t n key [] (n.child? key)) := by
  have hpath : (n.newChild key (some t)).path = pathOf (keys ++ [key]) := by
    rw [pathOf_append_singleton, ← h.path_eq]; rfl
  have hlabel : key = (keys ++ [key]).getLast?.getD root.label := by
    rw [List.getLast?_concat]; rfl
  have hproduct : ∀ u, some t = some u → u.keys = keys ++ [key] := fun u hu =>
    Option.some.inj hu ▸ ht
  cases hc : n.child? key with
  | none => exact .mk hlabel hpath hproduct .nil nofun nofun
  | some c =>
    have hold := (h.of_child? hc).2
    exact .mk hlabel hpath hproduct hold.ordered (fun d hd => hold.child hd)
      fun d hd => hold.needed hd

/-- Insertion below the keys of its target keeps a node sound. -/
lemma sound_insert (h : Sound keys n) (ht : t.keys = keys ++ ks) (hne : ks ≠ []) :
    Sound keys (insert t ks n) := by
  induction ks generalizing keys n with
  | nil => exact absurd rfl hne
  | cons key ks ih =>
    have hlabel : (grown t n key ks (n.child? key)).label = key :=
      label_grown fun d hd => label_of_child? hd
    have hgrown : Sound (keys ++ [key]) (grown t n key ks (n.child? key)) ∧
        ((grown t n key ks (n.child? key)).children = [] →
          (grown t n key ks (n.child? key)).isLeaf) := by
      cases ks with
      | nil => exact ⟨sound_leaf h ht, fun _ => rfl⟩
      | cons next ks =>
        have hold := h.child_or_new key
        refine ⟨ih hold (by rw [ht, List.append_assoc]; rfl) (List.cons_ne_nil _ _), fun hnil => ?_⟩
        exact absurd hnil (children_insert_ne_nil t next ks hold.ordered)
    refine .mk ?_ ?_ ?_ (ordered_insert h.ordered) (fun c hc => ?_) (fun c hc hnil => ?_)
    · rw [label_insert, h.label_eq]
    · rw [path_insert, h.path_eq]
    · intro u hu
      rw [product_insert] at hu
      exact h.keys_of_product hu
    · rcases (mem_children_insert h.ordered).mp hc with ⟨hc, -⟩ | rfl
      · exact h.child hc
      · rw [hlabel]; exact hgrown.1
    · rcases (mem_children_insert h.ordered).mp hc with ⟨hc, -⟩ | rfl
      · exact h.needed hc hnil
      · exact hgrown.2 hnil

/-- Insertion adds its target and no other. -/
lemma targetAt?_insert (h : Sound keys n) (ht : t.keys = keys ++ ks) (hne : ks ≠ [])
    (ls : List String) :
    (insert t ks n).targetAt? ls = if ls = ks then some t else n.targetAt? ls := by
  induction ks generalizing keys n ls with
  | nil => exact absurd rfl hne
  | cons key ks ih =>
    cases ls with
    | nil =>
      rw [if_neg (List.cons_ne_nil key ks).symm, targetAt?_nil, targetAt?_nil, product_insert]
    | cons k rest =>
      rw [targetAt?_cons, targetAt?_cons, child?_insert h.ordered]
      by_cases hk : k = key
      swap
      · rw [if_neg hk, if_neg fun he => hk (List.cons.inj he).1]
      subst hk
      rw [if_pos rfl, Option.bind_some]
      cases ks with
      | nil =>
        cases rest with
        | nil => rw [if_pos rfl]; rfl
        | cons l rest =>
          rw [if_neg (by simp), targetAt?_cons]
          cases hc : n.child? k with
          | none => rfl
          | some c => rw [Option.bind_some, targetAt?_cons]; rfl
      | cons next ks =>
        have hold := h.child_or_new k
        rw [grown, ih hold (by rw [ht, List.append_assoc]; rfl) (List.cons_ne_nil _ _)]
        simp only [List.cons.injEq, true_and]
        congr 1
        cases hc : n.child? k with
        | some c => rfl
        | none => cases rest <;> rfl

/-! ### Determination by targets -/

/-- No node is there for nothing. -/
lemma Sound.exists_target (h : Sound keys n) (hleaf : n.children = [] → n.isLeaf) :
    ∃ ks t, n.targetAt? ks = some t := by
  induction h with
  | @mk keys n _ _ _ ordered _ needed ih =>
    cases hcs : n.children with
    | nil =>
      obtain ⟨t, ht⟩ := Option.isSome_iff_exists.mp (hleaf hcs)
      exact ⟨[], t, ht⟩
    | cons c cs =>
      have hc : c ∈ n.children := hcs ▸ List.mem_cons_self
      obtain ⟨ks, t, ht⟩ := ih c hc (needed c hc)
      refine ⟨c.label :: ks, t, ?_⟩
      rw [targetAt?_cons, (child?_eq_some_iff ordered).mpr ⟨hc, rfl⟩]
      exact ht

lemma Sound.child?_isSome_iff (h : Sound keys n) :
    (n.child? key).isSome ↔ ∃ ks t, n.targetAt? (key :: ks) = some t := by
  constructor
  · intro hsome
    obtain ⟨c, hc⟩ := Option.isSome_iff_exists.mp hsome
    obtain ⟨hmem, hsound⟩ := h.of_child? hc
    obtain ⟨ks, t, ht⟩ := hsound.exists_target (h.needed hmem)
    exact ⟨ks, t, by rw [targetAt?_cons, hc]; exact ht⟩
  · rintro ⟨ks, t, ht⟩
    rw [targetAt?_cons] at ht
    obtain ⟨c, hc, -⟩ := Option.bind_eq_some_iff.mp ht
    rw [hc]; rfl

/-- Sound nodes with the same targets at the same places are the same. -/
theorem Sound.ext {m : Node} (hm : Sound keys m) (hn : Sound keys n)
    (h : ∀ ks, m.targetAt? ks = n.targetAt? ks) : m = n := by
  induction hm generalizing n with
  | @mk keys m label path product ordered children needed ih =>
    have hm : Sound keys m := .mk label path product ordered children needed
    -- A child of either is a child of the other.
    have hchild : ∀ key, m.child? key = n.child? key := by
      intro key
      have hsome : (m.child? key).isSome ↔ (n.child? key).isSome := by
        rw [hm.child?_isSome_iff, hn.child?_isSome_iff]
        simp only [h]
      cases hc : m.child? key with
      | none =>
        rw [hc] at hsome
        exact (Option.isNone_iff_eq_none.mp (by simpa using hsome)).symm
      | some c =>
        obtain ⟨d, hd⟩ := Option.isSome_iff_exists.mp (hsome.mp (hc ▸ rfl))
        obtain ⟨hcmem, rfl⟩ := (child?_eq_some_iff ordered).mp hc
        have heq : c = d := ih c hcmem (hn.of_child? hd).2 fun ks => by
          have hks := h (c.label :: ks)
          rwa [targetAt?_cons, targetAt?_cons, hc, hd] at hks
        rw [hd, heq]
    have hcs : m.children = n.children := by
      refine ordered.ext hn.ordered fun c => ?_
      constructor
      · intro hc
        have := (child?_eq_some_iff ordered).mpr ⟨hc, rfl⟩
        exact ((child?_eq_some_iff hn.ordered).mp (hchild _ ▸ this)).1
      · intro hc
        have := (child?_eq_some_iff hn.ordered).mpr ⟨hc, rfl⟩
        exact ((child?_eq_some_iff ordered).mp (hchild _ ▸ this)).1
    have hlabel : m.label = n.label := label.trans hn.label_eq.symm
    have hpath : m.path = n.path := path.trans hn.path_eq.symm
    have hproduct : m.product = n.product := h []
    cases m; cases n
    simp_all

end Node

end LinkedViews
