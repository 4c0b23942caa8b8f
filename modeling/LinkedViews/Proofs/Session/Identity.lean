import LinkedViews.Proofs.Product
import LinkedViews.Proofs.Session.Coherence

/-!
What a save does to the other products in the store.

Products are stored by target. Those that are cut alike share a target only as versions of one
product, so a save of another one leaves them as they are. Those that are not may share it, and
then one is lost to the other.
-/

namespace LinkedViews

/-- A product without links, whose content replaces what was there. -/
def Product.plain (path name language content : String) : Product :=
  ⟨.ofPath path, name, language, content, false, [], []⟩

namespace Session

lemma find?_save (s : Session) (p : Product) (t : Target) :
    (s.save p).session.store.find? t =
      if t = p.target then some (p.after (s.store.find? p.target)) else s.store.find? t :=
  Store.find?_save ..

/-- A stored product is found at its own target. -/
lemma Coherent.target_eq {s : Session} (h : s.Coherent) {t : Target} {p : Product}
    (hp : s.store.find? t = some p) : p.target = t :=
  (h.keyed _ (SortedMap.get?_eq_some_iff.mp hp)).symm

/-- **Targets tell apart the products that are cut alike.** Versions of one product are those
that have one target and are cut alike. So the save of another product, cut alike, neither
replaces a stored one nor adds to it, and it stays of its kind. -/
theorem save_keeps_others (p q : Product) :
    (p.SameIdentity q ↔ p.target = q.target ∧ p.CutAlike q) ∧
    ∀ (s : Session) (t : Target), s.Reached → s.store.find? t = some p →
      p.CutAlike q → ¬ p.SameIdentity q → (s.save q).session.store.find? t = some p := by
  refine ⟨Product.sameIdentity_iff, fun s t hs hp hcut hother => ?_⟩
  have htarget : p.target = t := hs.coherent.target_eq hp
  have hne : t ≠ q.target := fun h => hother (.of_target (htarget.trans h) hcut)
  rw [find?_save, if_neg hne, hp]

/-- Two names with points and bars in them, and one language. -/
theorem save_keeps_others_pointed :
    let p := Product.plain "/a.c" "x.y|z" "t" "old"
    let q := Product.plain "/a.c" "x" "t" "new"
    let s := ((new .initial).save p).session
    (s.Reached ∧ s.store.find? p.target = some p ∧ p.CutAlike q ∧ ¬ p.SameIdentity q) ∧
      (s.save q).session.store.find? p.target = some p := by
  intro p q s
  have hs : s.Reached := .next (.new _) (.save p)
  have hp : s.store.find? p.target = some p := by decide
  have hcut : p.CutAlike q := by decide
  have hother : ¬ p.SameIdentity q := by decide
  exact ⟨⟨hs, hp, hcut, hother⟩, (save_keeps_others p q).2 s p.target hs hp hcut hother⟩

/-- A text and a graphic with one target, and two sources with one target. The graphic takes
the place of the text, and goes on where it ends. -/
theorem save_takes_over :
    let text := Product.plain "/a.c" "x" "y.svg" "old"
    let graphic := { Product.plain "/a.c" "x.y" "svg" "new" with continues := true }
    let s := ((new .initial).save text).session
    ¬ text.SameIdentity graphic ∧ text.target = graphic.target ∧
    (s.store.find? text.target = some text ∧ text.kind = .text) ∧
    ((s.save graphic).session.store.find? text.target =
      some { graphic with content := "oldnew" } ∧ graphic.kind = .graphic) ∧
    (Product.plain "/a|b" "x" "t" "").target = (Product.plain "/a" "b|x" "t" "").target ∧
    (Product.plain "/a|b" "x" "t" "").source ≠ (Product.plain "/a" "b|x" "t" "").source := by
  decide

end Session

end LinkedViews
