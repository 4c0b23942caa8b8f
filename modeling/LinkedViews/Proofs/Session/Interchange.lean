import LinkedViews.Proofs.Session.Dropping

/-!
Changes of the products that may change places.

Versions of two products, a version and the drop of another document, and the drops of two
documents reach different parts of the store. So they lead to the same products in either
order. The tree grows in the one order and is built anew in the other, and is the same, as it
is determined by what is stored.
-/

namespace LinkedViews

namespace SortedMap

variable {α β : Type} [Ord α] [Std.TransOrd α] [Std.LawfulEqOrd α] [DecidableEq α]
  {m : SortedMap α β} {k k' : α} {v v' : β} {p q : α → β → Bool}

lemma insert_comm (hne : k ≠ k') :
    (m.insert k v).insert k' v' = (m.insert k' v').insert k v := by
  apply ext_get?
  intro a
  simp only [get?_insert]
  by_cases ha : a = k'
  · subst ha
    rw [if_pos rfl, if_neg hne.symm, if_pos rfl]
  · rw [if_neg ha, if_neg ha]

lemma erase_comm : (m.erase k).erase k' = (m.erase k').erase k := by
  apply ext_get?
  intro a
  simp only [get?_erase]
  by_cases ha : a = k' <;> simp [ha]

lemma filter_insert_of_pos (hv : p k v) : (m.insert k v).filter p = (m.filter p).insert k v := by
  apply ext_get?
  intro a
  rw [get?_filter, get?_insert, get?_insert, get?_filter]
  split
  · rename_i ha
    rw [ha, Option.filter_some, if_pos hv]
  · rfl

/-- An entry that a filter takes out again, in the place of none or of one that it takes out. -/
lemma filter_insert_of_neg (hv : ¬ p k v) (hold : ∀ w, m.get? k = some w → ¬ p k w) :
    (m.insert k v).filter p = m.filter p := by
  apply ext_get?
  intro a
  rw [get?_filter, get?_insert, get?_filter]
  split
  · rename_i ha
    rw [ha, Option.filter_some, if_neg hv]
    refine (Option.filter_eq_none_iff.mpr ?_).symm
    exact hold
  · rfl

end SortedMap

namespace Store

variable {s s' : Store} {p q : Product} {a b source : Source}

/-- What a save does depends on what is stored at the target. -/
lemma save_fst_congr (h : s'.find? p.target = s.find? p.target) : (s'.save p).1 = (s.save p).1 := by
  simp only [save, h]

lemma save_comm (hne : p.target ≠ q.target) :
    ((s.save p).2.save q).2 = ((s.save q).2.save p).2 := by
  have hp : (s.save q).2.find? p.target = s.find? p.target := by
    rw [find?_save, if_neg hne]
  have hq : (s.save p).2.find? q.target = s.find? q.target := by
    rw [find?_save, if_neg hne.symm]
  simp only [save] at hp hq ⊢
  rw [hp, hq]
  exact congrArg Store.mk (SortedMap.insert_comm hne)

lemma source_after (p : Product) (previous : Option Product) :
    (p.after previous).source = p.source := by
  unfold Product.after
  split
  · split <;> rfl
  · rfl

section Drop

variable (hsource : p.source ≠ source) (hkept : p.target ∉ s.targetsOf source)

include hsource hkept

lemma dropSource_save : (s.save p).2.dropSource source = ((s.dropSource source).save p).2 := by
  have hp : (s.dropSource source).find? p.target = s.find? p.target :=
    find?_dropSource_of_notMem hkept
  simp only [save, hp]
  refine congrArg Store.mk (SortedMap.filter_insert_of_pos ?_)
  rw [source_after]
  exact decide_eq_true hsource

lemma targetsOf_save : (s.save p).2.targetsOf source = s.targetsOf source := by
  refine congrArg SortedMap.keys (SortedMap.filter_insert_of_neg ?_ fun old hold hdrop => ?_)
  · rw [source_after, decide_eq_true_eq]
    exact hsource
  · exact hkept (mem_targetsOf_iff.mpr ⟨old, hold, of_decide_eq_true hdrop⟩)

end Drop

lemma dropSource_comm : (s.dropSource a).dropSource b = (s.dropSource b).dropSource a := by
  refine congrArg Store.mk (SortedMap.ext_get? fun t => ?_)
  simp only [SortedMap.get?_filter, Option.filter_filter, dropSource]
  simp only [Bool.and_comm]

lemma targetsOf_dropSource_of_ne (hne : a ≠ b) :
    (s.dropSource a).targetsOf b = s.targetsOf b := by
  refine congrArg SortedMap.keys (SortedMap.ext_get? fun t => ?_)
  simp only [dropSource, SortedMap.get?_filter, Option.filter_filter]
  congr 1
  funext p
  by_cases hp : p.source = b
  · simp [hp, hne.symm]
  · simp [hp]

end Store

namespace Session

variable {s s' : Session} {p q : Product} {a b source : Source}

/-- Where store and tree fit each other, the tree is known with all the rest. -/
lemma Coherent.ext (h : s.Coherent) (h' : s'.Coherent) (hstore : s.store = s'.store)
    (hlatches : s.latches = s'.latches)
    (hrest : s.settings = s'.settings ∧ s.placement = s'.placement ∧ s.version = s'.version ∧
      s.subscribers = s'.subscribers) : s = s' := by
  have htree : s.tree = s'.tree := by rw [h.mirrored, h'.mirrored, hstore]
  obtain ⟨hsettings, hplacement, hversion, hsubscribers⟩ := hrest
  cases s; cases s'
  simp_all

/-- Two changes in either order: they lead to the same session, and each of them has the same
result and tells the same events. -/
structure Interchange {α β : Type} (s : Session) (f : Session → Reply α)
    (g : Session → Reply β) : Prop where
  session : (g (f s).session).session = (f (g s).session).session
  result_left : (f (g s).session).result = (f s).result
  result_right : (g (f s).session).result = (g s).result
  events_left : (f (g s).session).events = (f s).events
  events_right : (g (f s).session).events = (g s).events

/-- The save of a product tells the same in sessions that have the same stored at its target,
and the same panel for it. -/
lemma events_save_congr (hstored : s'.store.find? p.target = s.store.find? p.target)
    (hplacement : s'.placement = s.placement) : (s'.save p).events = (s.save p).events := by
  have hsaved : (s'.store.save p).1 = (s.store.save p).1 := Store.save_fst_congr hstored
  simp only [save, savedEvent, hsaved, hplacement]

lemma save_save (h : s.Coherent) (hne : p.target ≠ q.target) :
    Interchange s (·.save p) (·.save q) where
  session := ((h.save p).save q).ext ((h.save q).save p) (Store.save_comm hne)
    SortedMap.erase_comm ⟨rfl, rfl, rfl, rfl⟩
  result_left := rfl
  result_right := rfl
  events_left := events_save_congr (by rw [find?_save, if_neg hne]) rfl
  events_right := events_save_congr (by rw [find?_save, if_neg hne.symm]) rfl

lemma save_drop (h : s.Coherent) (hsource : p.source ≠ source)
    (hkept : p.target ∉ s.store.targetsOf source) :
    Interchange s (·.save p) (·.drop source) where
  session := ((h.save p).drop source).ext ((h.drop source).save p)
    (Store.dropSource_save hsource hkept) rfl ⟨rfl, rfl, rfl, rfl⟩
  result_left := rfl
  result_right := Store.targetsOf_save hsource hkept
  events_left := events_save_congr (Store.find?_dropSource_of_notMem hkept) rfl
  events_right := rfl

lemma drop_drop (s : Session) (hne : a ≠ b) : Interchange s (·.drop a) (·.drop b) where
  session := by
    simp only [drop, Store.dropSource_comm (a := a) (b := b)]
  result_left := Store.targetsOf_dropSource_of_ne hne.symm
  result_right := Store.targetsOf_dropSource_of_ne hne
  events_left := rfl
  events_right := rfl

/-- Products with different targets may come in any order. -/
theorem foldl_save_perm {ps qs : List Product} (hperm : List.Perm ps qs) (h : s.Coherent)
    (hnodup : (ps.map Product.target).Nodup) :
    ps.foldl (fun s p => (s.save p).session) s = qs.foldl (fun s p => (s.save p).session) s := by
  induction hperm generalizing s with
  | nil => rfl
  | cons p _ ih => exact ih (h.save p) (List.nodup_cons.mp hnodup).2
  | swap p q ps =>
    have hne : q.target ≠ p.target := by
      rintro heq
      simp [heq] at hnodup
    exact congrArg (fun s => ps.foldl (fun s p => (s.save p).session) s) (save_save h hne).session
  | trans hfirst _ ih ih' => exact (ih h hnodup).trans (ih' h ((hfirst.map _).nodup hnodup))

/-- **Independent changes may change places.** Products with two targets may be saved in either
order, a product may be saved before or after another document is dropped, if that has no
product at the target, and documents may be dropped in either order. Store, tree, latches and
version are the same in the end, and so are the results. -/
theorem independent_interchange {s : Session} (h : s.Reached) :
    (∀ p q : Product, p.target ≠ q.target → Interchange s (·.save p) (·.save q)) ∧
    (∀ (p : Product) (source : Source), p.source ≠ source →
      (∀ old, s.store.find? p.target = some old → old.source ≠ source) →
      Interchange s (·.save p) (·.drop source)) ∧
    ∀ a b : Source, a ≠ b → Interchange s (·.drop a) (·.drop b) := by
  refine ⟨fun p q => save_save h.coherent, fun p source hsource hkept => ?_,
    fun a b => drop_drop s⟩
  refine save_drop h.coherent hsource fun hdropped => ?_
  obtain ⟨old, hold, hdrop⟩ := Store.mem_targetsOf_iff.mp hdropped
  exact hkept old hold hdrop

/-- A product and one below its leaf, of which the first goes on with a stored version, and the
drop of another document. -/
theorem independent_interchange_nested :
    let outer := Product.plain "/a.c" "n" "t" "1"
    let p := { Product.plain "/a.c" "n" "t" "2" with continues := true }
    let q := Product.plain "/a.c" "n.t|m" "x" "3"
    let s := (((new .initial).save outer).session.save (.plain "/b.c" "n" "t" "b")).session
    s.Reached ∧
    (p.target ≠ q.target ∧ Interchange s (·.save p) (·.save q)) ∧
    (p.source ≠ .ofPath "/b.c" ∧
      (∀ old, s.store.find? p.target = some old → old.source ≠ .ofPath "/b.c") ∧
      Interchange s (·.save p) (·.drop (.ofPath "/b.c"))) ∧
    (Source.ofPath "/a.c" ≠ .ofPath "/b.c" ∧
      Interchange s (·.drop (.ofPath "/a.c")) (·.drop (.ofPath "/b.c"))) := by
  intro outer p q s
  have hs : s.Reached := .next (.next (.new _) (.save outer)) (.save _)
  have hne : p.target ≠ q.target := by decide
  have hsource : p.source ≠ .ofPath "/b.c" := by decide
  have hstored : s.store.find? p.target = some outer := by decide
  have hkept : ∀ old, s.store.find? p.target = some old → old.source ≠ .ofPath "/b.c" := by
    intro old hold
    obtain rfl : outer = old := Option.some.inj (hstored.symm.trans hold)
    decide
  have hdocuments : Source.ofPath "/a.c" ≠ .ofPath "/b.c" := by decide
  obtain ⟨hsaves, hsaveDrop, hdrops⟩ := independent_interchange hs
  exact ⟨hs, ⟨hne, hsaves p q hne⟩, ⟨hsource, hkept, hsaveDrop p _ hsource hkept⟩, hdocuments,
    hdrops _ _ hdocuments⟩

end Session

end LinkedViews
