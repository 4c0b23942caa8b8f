import LinkedViews.Proofs.Desk.Frame
import LinkedViews.Session.Invalidation

/-!
The sessions that operations lead to.

An operation that works with a host may meet any host in any state, and another one each
time. What opens or links documents leaves the products alone.
-/

namespace LinkedViews.Session

/-- One operation takes a session to another. -/
inductive Step : Session → Session → Prop where
  | settings {s : Session} (settings : Settings) : Step s (s.setSettings settings)
  | subscribe {s : Session} : Step s s.subscribe
  | save {s : Session} (p : Product) : Step s (s.save p).session
  | drop {s : Session} (source : Source) : Step s (s.drop source).session
  | dropAndRefresh {H : Type} [Host H] {s : Session} (h : H) (source : Source) :
      Step s (s.dropAndRefresh h source).session
  | closed {H : Type} [Host H] {s : Session} (h : H) (uri : String) :
      Step s (s.documentClosed h uri).session
  | saved {H : Type} [Host H] {s : Session} (h : H) (uri : String) :
      Step s (s.documentSaved h uri).session
  | edited {H : Type} [Host H] {s : Session} (h : H) (uri : String) :
      Step s (s.documentEdited h uri).session
  | seen {s : Session} (editors : List VisibleEditor) : Step s (s.editorsSeen editors)
  | panelClosed {s : Session} (panel : PanelId) : Step s (s.panelClosed panel).2
  | openProduct {H : Type} [Host H] {s : Session} (h : H) (t : Target) :
      Step s (Desk.openProduct ⟨s, h⟩ t).2.session
  | openDocument {H : Type} [Host H] {s : Session} (h : H) (uri : String) :
      Step s (Desk.openDocument ⟨s, h⟩ uri).2.session
  | redrawPanel {H : Type} [Host H] {s : Session} (h : H) (t : Target) :
      Step s (Desk.redrawPanel ⟨s, h⟩ t).2.session
  | report {H : Type} [Host H] {s : Session} (h : H) (e : EditorId) (selections : List Selection)
      (o : Outcome) (d : Desk H)
      (ok : Desk.selectionReported ⟨s, h⟩ e selections = .ok (o, d)) : Step s d.session
  | selectLinked {H : Type} [Host H] {s : Session} (h : H) :
      Step s (Desk.selectLinked ⟨s, h⟩).2.session

/-- Operations lead to the session from a new one. -/
inductive Reached : Session → Prop where
  | new (settings : Settings) : Reached (.new settings)
  | next {s s' : Session} (h : Reached s) (step : Step s s') : Reached s'

/-- The products and the tree above them are the same. -/
def SameProducts (s s' : Session) : Prop := s'.store = s.store ∧ s'.tree = s.tree

lemma Undisturbed.sameProducts {s s' : Session} (h : Undisturbed s s') : SameProducts s s' :=
  ⟨h.store, h.tree⟩

variable {H : Type} [Host H]

lemma sameProducts_openProduct (s : Session) (h : H) (t : Target) :
    SameProducts s (Desk.openProduct ⟨s, h⟩ t).2.session := by
  unfold Desk.openProduct
  split
  · exact ⟨rfl, rfl⟩
  · split
    · exact (Desk.undisturbed_display ⟨s, h⟩ _ _ _).sameProducts
    · simp only [Desk.openPanel, Desk.panelOf]
      split <;> exact ⟨rfl, rfl⟩

lemma sameProducts_redrawPanel (s : Session) (h : H) (t : Target) :
    SameProducts s (Desk.redrawPanel ⟨s, h⟩ t).2.session := by
  unfold Desk.redrawPanel
  split <;> exact ⟨rfl, rfl⟩

lemma invalidate_cases (s : Session) (h : H) (uri : String) :
    (s.invalidate h uri).session = s ∨
      (s.invalidate h uri).session = (s.drop (.parse uri)).session := by
  unfold invalidate
  split
  · exact .inl rfl
  · exact .inr rfl

/-- Products change only when one is saved and when those of a document are dropped. -/
theorem Step.cases {s s' : Session} (h : Step s s') :
    SameProducts s s' ∨ (∃ p, s' = (s.save p).session) ∨
      ∃ source, s' = (s.drop source).session := by
  have hinvalid : ∀ {H : Type} [Host H] (h : H) (uri : String) (s' : Session),
      s' = (s.invalidate h uri).session →
      SameProducts s s' ∨ (∃ p, s' = (s.save p).session) ∨
        ∃ source, s' = (s.drop source).session := by
    rintro H _ h uri s' rfl
    rcases invalidate_cases s h uri with he | he
    · exact .inl (by rw [he]; exact ⟨rfl, rfl⟩)
    · exact .inr (.inr ⟨_, he⟩)
  cases h with
  | settings => exact .inl ⟨rfl, rfl⟩
  | subscribe => exact .inl ⟨rfl, rfl⟩
  | save p => exact .inr (.inl ⟨p, rfl⟩)
  | drop source => exact .inr (.inr ⟨source, rfl⟩)
  | dropAndRefresh h source => exact .inr (.inr ⟨source, rfl⟩)
  | closed h uri => exact hinvalid h uri _ rfl
  | saved h uri => exact hinvalid h uri _ rfl
  | edited h uri =>
    unfold documentEdited
    split
    · exact hinvalid h uri _ rfl
    · exact .inl ⟨rfl, rfl⟩
  | seen => exact .inl ⟨rfl, rfl⟩
  | panelClosed => exact .inl ⟨rfl, rfl⟩
  | openProduct h t => exact .inl (sameProducts_openProduct s h t)
  | openDocument h uri => exact .inl (Desk.undisturbed_display ⟨s, h⟩ _ _ _).sameProducts
  | redrawPanel h t => exact .inl (sameProducts_redrawPanel s h t)
  | report h e selections o d ok =>
    exact .inl (Desk.undisturbed_selectionReported ok).sameProducts
  | selectLinked h => exact .inl (Desk.undisturbed_selectLinked ⟨s, h⟩).sameProducts

end LinkedViews.Session
