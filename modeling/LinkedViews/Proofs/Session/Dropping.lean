import LinkedViews.Proofs.Session.Identity

/-!
What is lost when the products of a document are dropped.

The stored products of the document go, and nothing else: look-ups of them find the empty
product, the tree is the one that the others build, and whatever a session keeps beside its
products stays. So dropping them once more only counts as one more change.
-/

namespace LinkedViews

namespace SortedMap

variable {α β : Type} [Ord α] {m : SortedMap α β}

lemma ascending_keys (m : SortedMap α β) : m.keys.Pairwise fun a b => compare a b = .lt :=
  List.pairwise_map.mpr m.ascending

lemma filter_eq_self {p : α → β → Bool} (h : ∀ e ∈ m.entries, p e.1 e.2) : m.filter p = m := by
  obtain ⟨entries, ascending⟩ := m
  simp only [filter, SortedMap.mk.injEq]
  exact List.filter_eq_self.mpr h

lemma values_filter (p : β → Bool) : (m.filter fun _ v => p v).values = m.values.filter p :=
  List.filter_map.symm

lemma mem_keys_iff [Std.LawfulEqOrd α] {k : α} : k ∈ m.keys ↔ ∃ v, m.get? k = some v := by
  simp only [keys, List.mem_map, get?_eq_some_iff]
  constructor
  · rintro ⟨e, he, rfl⟩
    exact ⟨e.2, he⟩
  · rintro ⟨v, hv⟩
    exact ⟨(k, v), hv, rfl⟩

end SortedMap

lemma Target.uri_lt_uri {a b : Target} (h : compare a b = .lt) : a.uri < b.uri := by
  have hname : compareOfLessAndEq a.name b.name = .lt := h
  rw [compareOfLessAndEq_eq_lt] at hname
  have happend : productScheme.toList ++ a.name.toList < productScheme.toList ++ b.name.toList :=
    List.append_left_lt hname
  rwa [← String.toList_append, ← String.toList_append] at happend

namespace Store

variable {s : Store} {source : Source} {t : Target}

lemma ascending_targetsOf (s : Store) (source : Source) :
    (s.targetsOf source).Pairwise fun a b => a.uri < b.uri :=
  (SortedMap.ascending_keys _).imp Target.uri_lt_uri

lemma mem_targetsOf_iff :
    t ∈ s.targetsOf source ↔ ∃ p, s.find? t = some p ∧ p.source = source := by
  rw [targetsOf, SortedMap.mem_keys_iff]
  simp only [SortedMap.get?_filter, Option.filter_eq_some_iff, decide_eq_true_eq]
  rfl

lemma find?_dropSource_of_mem (h : t ∈ s.targetsOf source) :
    (s.dropSource source).find? t = none := by
  obtain ⟨p, hp, hsource⟩ := mem_targetsOf_iff.mp h
  rw [find?_dropSource, hp, Option.filter_some, if_neg (by simp [hsource])]

lemma find?_dropSource_of_notMem (h : t ∉ s.targetsOf source) :
    (s.dropSource source).find? t = s.find? t := by
  rw [find?_dropSource]
  cases hp : s.find? t with
  | none => rfl
  | some p =>
    have hsource : p.source ≠ source := fun hsource => h (mem_targetsOf_iff.mpr ⟨p, hp, hsource⟩)
    rw [Option.filter_some, if_pos (decide_eq_true hsource)]

lemma source_ne_of_mem_dropSource {e : Target × Product}
    (he : e ∈ (s.dropSource source).products.entries) : e.2.source ≠ source :=
  of_decide_eq_true (List.mem_filter.mp he).2

lemma dropSource_dropSource (s : Store) (source : Source) :
    (s.dropSource source).dropSource source = s.dropSource source :=
  congrArg Store.mk
    (SortedMap.filter_eq_self fun _ he => decide_eq_true (source_ne_of_mem_dropSource he))

lemma targetsOf_dropSource (s : Store) (source : Source) :
    (s.dropSource source).targetsOf source = [] := by
  rw [List.eq_nil_iff_forall_not_mem]
  intro t ht
  obtain ⟨p, hp, hsource⟩ := mem_targetsOf_iff.mp ht
  exact source_ne_of_mem_dropSource (SortedMap.get?_eq_some_iff.mp hp) hsource

end Store

lemma Product.spansAt_empty (d : Direction) (offset : Nat) :
    Product.empty.spansAt d offset = [.caret 0] := by
  have hnone : ¬ (Span.caret 0).Contains offset := Span.not_contains_of_isEmpty (by decide) offset
  cases d <;> simp [spansAt, links, empty, Link.resolve, Link.containing?, Link.atStart, hnone]

namespace Session

variable {s : Session} {t : Target}

lemma content_of_absent (h : s.store.find? t = none) : s.content t = " " := by
  rw [content, h]; rfl

lemma linkedSpans_of_absent (h : s.store.find? t = none) (d : Direction) (offset : Nat) :
    s.linkedSpans t d offset = [.caret 0] := by
  have hproduct : s.product t = .empty := by rw [product, Store.get, h]; rfl
  rw [linkedSpans, hproduct, Product.spansAt_empty]

/-- **Only the products of the document are dropped.** Their targets are told in ascending
order, and nothing is found under them any more. Every other look-up, the latches, the places
of documents and panels and the settings stay, and the tree is the one that the other products
build. To drop them again drops nothing, and changes nothing but the version. -/
theorem drop_scope (s : Session) (source : Source) :
    let dropped := (s.drop source).result
    let s' := (s.drop source).session
    dropped.Pairwise (fun a b => a.uri < b.uri) ∧
    (∀ t, t ∈ dropped ↔ ∃ p, s.store.find? t = some p ∧ p.source = source) ∧
    (∀ t ∈ dropped, s'.store.find? t = none ∧ s'.content t = " " ∧
      ∀ d offset, s'.linkedSpans t d offset = [.caret 0]) ∧
    (∀ t, t ∉ dropped → s'.store.find? t = s.store.find? t) ∧
    (s'.latches = s.latches ∧ s'.placement = s.placement ∧ s'.settings = s.settings ∧
      s'.subscribers = s.subscribers) ∧
    s'.tree = .ofProducts (s.store.products.values.filter fun p => p.source ≠ source) ∧
    (s'.drop source).result = [] ∧
    (s'.drop source).session = { s' with version := Word.next s'.version } := by
  intro dropped s'
  have hstore : s'.store.dropSource source = s'.store := s.store.dropSource_dropSource source
  have habsent : ∀ t ∈ dropped, s'.store.find? t = none := fun _ => Store.find?_dropSource_of_mem
  refine ⟨s.store.ascending_targetsOf source, fun _ => Store.mem_targetsOf_iff, fun t ht => ?_,
    fun _ => Store.find?_dropSource_of_notMem, ⟨rfl, rfl, rfl, rfl⟩, ?_,
    s.store.targetsOf_dropSource source, ?_⟩
  · exact ⟨habsent t ht, content_of_absent (habsent t ht), linkedSpans_of_absent (habsent t ht)⟩
  · exact congrArg Tree.ofProducts (SortedMap.values_filter _)
  · -- the store is the same, and so is the tree that is built from it
    unfold drop
    rw [hstore]; rfl

/-- Of three products the two of one document are dropped, and the third stays. -/
theorem drop_scope_two :
    let gone := Product.plain "/a.c" "ast" "text" "a"
    let kept := Product.plain "/b.c" "ast" "text" "b"
    let s := ((((new .initial).save (.plain "/a.c" "cfg" "svg" "g")).session.save kept).session.save
      gone).session
    let s' := (s.drop (.ofPath "/a.c")).session
    (gone.target ∈ (s.drop (.ofPath "/a.c")).result ∧
      kept.target ∉ (s.drop (.ofPath "/a.c")).result) ∧
    (s.drop (.ofPath "/a.c")).result.map Target.uri = ["monto:/a.c|ast.text", "monto:/a.c|cfg.svg"] ∧
    (s'.store.find? gone.target = none ∧ s'.content gone.target = " " ∧
      ∀ d offset, s'.linkedSpans gone.target d offset = [.caret 0]) ∧
    s'.store.find? kept.target = some kept := by
  intro gone kept s s'
  have hgone : gone.target ∈ (s.drop (.ofPath "/a.c")).result := by decide
  have hkept : kept.target ∉ (s.drop (.ofPath "/a.c")).result := by decide
  have hstored : s.store.find? kept.target = some kept := by decide
  obtain ⟨-, -, hlost, hframe, -⟩ := drop_scope s (.ofPath "/a.c")
  exact ⟨⟨hgone, hkept⟩, by decide, hlost _ hgone, (hframe _ hkept).trans hstored⟩

end Session

end LinkedViews
