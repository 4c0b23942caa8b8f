import LinkedViews.Proofs.Tree.Order

/-!
Insertion into the tree, one level at a time.

Insertion below a node changes the child that the first key leads to, or adds one with that
label, and leaves the other children alone.
-/

namespace LinkedViews.Node

variable {n c : Node} {ks : List String} {key : String} {t : Target}

/-! ### Children by label -/

lemma label_of_child? (h : n.child? key = some c) : c.label = key := by
  have hlabel := List.find?_some h
  simpa using hlabel

lemma child?_eq_some_iff (h : Ordered n.children) :
    n.child? key = some c ↔ c ∈ n.children ∧ c.label = key := by
  constructor
  · intro hc
    exact ⟨List.mem_of_find?_eq_some hc, label_of_child? hc⟩
  · rintro ⟨hmem, rfl⟩
    cases hf : n.child? c.label with
    | none => exact absurd (List.find?_eq_none.mp hf c hmem) (by simp)
    | some d => rw [h.eq_of_label (List.mem_of_find?_eq_some hf) hmem (label_of_child? hf)]

lemma child?_eq_none_iff : n.child? key = none ↔ ∀ c ∈ n.children, c.label ≠ key := by
  simp [child?, List.find?_eq_none]

lemma map_label_updateFirst {f : Node → Node} {ns : List Node}
    (hf : ∀ m, m.label = key → (f m).label = key) :
    (updateFirst key f ns).map label = ns.map label := by
  induction ns with
  | nil => rfl
  | cons m ns ih =>
    unfold updateFirst
    split
    · rename_i hm
      rw [List.map_cons, List.map_cons, hf m hm, hm]
    · rw [List.map_cons, List.map_cons, ih]

lemma mem_updateFirst {f : Node → Node} {ns : List Node} (h : Ordered ns) :
    c ∈ updateFirst key f ns ↔ (c ∈ ns ∧ c.label ≠ key) ∨ ∃ m ∈ ns, m.label = key ∧ c = f m := by
  induction ns with
  | nil => simp [updateFirst]
  | cons m ns ih =>
    have hm : ∀ a ∈ ns, a.label ≠ m.label := fun a ha ham =>
      (List.nodup_cons.mp h.nodup).1 (ham ▸ List.mem_map_of_mem ha)
    unfold updateFirst
    split
    · rename_i hkey
      subst hkey
      constructor
      · intro hc
        rcases List.mem_cons.mp hc with rfl | hc
        · exact .inr ⟨m, List.mem_cons_self, rfl, rfl⟩
        · exact .inl ⟨List.mem_cons_of_mem m hc, hm c hc⟩
      · rintro (⟨hc, hne⟩ | ⟨a, ha, haeq, rfl⟩)
        · rcases List.mem_cons.mp hc with rfl | hc
          · exact absurd rfl hne
          · exact List.mem_cons_of_mem _ hc
        · rcases List.mem_cons.mp ha with rfl | ha
          · exact List.mem_cons_self
          · exact absurd haeq (hm a ha)
    · rename_i hkey
      rw [List.mem_cons, ih h.tail]
      constructor
      · rintro (rfl | ⟨hc, hne⟩ | ⟨a, ha, haeq, rfl⟩)
        · exact .inl ⟨List.mem_cons_self, hkey⟩
        · exact .inl ⟨List.mem_cons_of_mem m hc, hne⟩
        · exact .inr ⟨a, List.mem_cons_of_mem m ha, haeq, rfl⟩
      · rintro (⟨hc, hne⟩ | ⟨a, ha, haeq, rfl⟩)
        · exact (List.mem_cons.mp hc).imp_right fun hc => .inl ⟨hc, hne⟩
        · rcases List.mem_cons.mp ha with rfl | ha
          · exact absurd haeq hkey
          · exact .inr (.inr ⟨a, ha, haeq, rfl⟩)

/-! ### Insertion -/

/-- What insertion below `n` puts in the place of the child that the first key leads to. -/
def grown (t : Target) (n : Node) (key : String) : List String → Option Node → Node
  | [], old => { n.newChild key (some t) with children := (old.map Node.children).getD [] }
  | next :: keys, old => insert t (next :: keys) (old.getD (n.newChild key none))

lemma insert_cons (t : Target) (key : String) (keys : List String) (n : Node) :
    insert t (key :: keys) n =
      { n with
        children := match n.child? key with
          | some _ => updateFirst key (fun c => grown t n key keys (some c)) n.children
          | none => addSibling (grown t n key keys none) n.children } := by
  cases keys with
  | nil =>
    simp only [insert]
    cases n.child? key <;> rfl
  | cons next keys =>
    simp only [insert]
    cases n.child? key <;> rfl

lemma label_insert (t : Target) (keys : List String) (n : Node) :
    (insert t keys n).label = n.label := by
  cases keys with
  | nil => rfl
  | cons key keys => rw [insert_cons]

lemma path_insert (t : Target) (keys : List String) (n : Node) :
    (insert t keys n).path = n.path := by
  cases keys with
  | nil => rfl
  | cons key keys => rw [insert_cons]

lemma product_insert (t : Target) (keys : List String) (n : Node) :
    (insert t keys n).product = n.product := by
  cases keys with
  | nil => rfl
  | cons key keys => rw [insert_cons]

lemma label_grown {old : Option Node} (hold : ∀ c, old = some c → c.label = key) :
    (grown t n key ks old).label = key := by
  cases ks with
  | nil => rfl
  | cons next ks =>
    rw [grown, label_insert]
    cases old with
    | none => rfl
    | some c => exact hold c rfl

lemma ordered_insert (h : Ordered n.children) : Ordered (insert t (key :: ks) n).children := by
  rw [insert_cons]
  cases hc : n.child? key with
  | some c =>
    have hlabels : (updateFirst key (fun c => grown t n key ks (some c)) n.children).map label =
        n.children.map label :=
      map_label_updateFirst fun m hm => label_grown fun d hd => Option.some.inj hd ▸ hm
    simpa only [Ordered, hlabels] using h
  | none =>
    have hnew : (grown t n key ks none).label = key := label_grown nofun
    refine ordered_addSibling h ?_
    rw [hnew]
    intro hmem
    obtain ⟨m, hm, hlabel⟩ := List.mem_map.mp hmem
    exact child?_eq_none_iff.mp hc m hm hlabel

/-- Insertion changes the child that the first key leads to, and no other. -/
lemma mem_children_insert (h : Ordered n.children) :
    c ∈ (insert t (key :: ks) n).children ↔
      (c ∈ n.children ∧ c.label ≠ key) ∨ c = grown t n key ks (n.child? key) := by
  rw [insert_cons]
  cases hc : n.child? key with
  | some d =>
    obtain ⟨hd, hlabel⟩ := (child?_eq_some_iff h).mp hc
    rw [mem_updateFirst h]
    refine or_congr_right ⟨?_, fun he => ⟨d, hd, hlabel, he⟩⟩
    rintro ⟨m, hm, hmkey, rfl⟩
    rw [h.eq_of_label hm hd (hmkey.trans hlabel.symm)]
  | none =>
    rw [mem_addSibling, or_comm]
    refine or_congr_left (iff_self_and.mpr fun hmem => child?_eq_none_iff.mp hc c hmem)

lemma child?_insert (h : Ordered n.children) (k : String) :
    (insert t (key :: ks) n).child? k =
      if k = key then some (grown t n key ks (n.child? key)) else n.child? k := by
  have hnew : (grown t n key ks (n.child? key)).label = key :=
    label_grown fun d hd => label_of_child? hd
  apply Option.ext
  intro c
  rw [child?_eq_some_iff (ordered_insert h), mem_children_insert h]
  split
  · rename_i hk
    subst hk
    constructor
    · rintro ⟨⟨-, hne⟩ | rfl, hlabel⟩
      · exact absurd hlabel hne
      · rfl
    · intro he
      exact ⟨.inr (Option.some.inj he).symm, Option.some.inj he ▸ hnew⟩
  · rename_i hk
    rw [child?_eq_some_iff h]
    constructor
    · rintro ⟨⟨hmem, -⟩ | rfl, hlabel⟩
      · exact ⟨hmem, hlabel⟩
      · exact absurd (hlabel.symm.trans hnew) hk
    · rintro ⟨hmem, rfl⟩
      exact ⟨.inl ⟨hmem, hk⟩, rfl⟩

end LinkedViews.Node
