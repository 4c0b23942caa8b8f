import LinkedViews.Proofs.Host.Memory

/-!
Hosts as they come about.

A host starts with nothing in it, and changes by its operations alone. As long as there are
numbers for the editors opened, each number in use is one that was given out, of an editor
that is open or was. An open editor has a document to show, however many were opened.
-/

namespace LinkedViews.MemoryHost

/-- What the operations of a host lead to, and the removal of the report that is next. -/
inductive Built : MemoryHost → Prop where
  | empty : Built empty
  | putDocument {h} (uri text : String) : Built h → Built (h.putDocument uri text)
  | openEditor {h} (uri : String) (column : Column) : Built h → Built (h.openEditor uri column).2
  | closeEditor {h} (e : EditorId) : Built h → Built (h.closeEditor e).2
  | focus {h} (e : EditorId) : Built h → Built (h.focus e)
  | display {h} (uri : String) (mode : DisplayMode) : Built h → Built (h.display uri mode).2
  | select {h} (e : EditorId) (selections : List Selection) :
      Built h → Built (h.select e selections)
  | write {h} (e : EditorId) (selections : List Selection) :
      Built h → Built (Host.write h e selections).2
  | scrollTo {h} (e : EditorId) (s : Selection) : Built h → Built (Host.scrollTo h e s)
  | takeReports {h} : Built h → Built h.takeReports.2
  | nextReport {h} {r : Report} {rest : List Report} (next : h.reports = r :: rest) :
      Built h → Built { h with reports := rest }
  | newPanel {h} (title : String) (column : Column) : Built h → Built (h.newPanel title column).2
  | fillPanel {h} (p : PanelId) (content : String) : Built h → Built (h.fillPanel p content)
  | raisePanel {h} (p : PanelId) : Built h → Built (h.raisePanel p)
  | closePanel {h} (p : PanelId) : Built h → Built (h.closePanel p).2

variable {h : MemoryHost}

lemma contains_of_contains_erase {e e' : EditorId} (he : (h.editors.erase e').contains e) :
    h.editors.contains e := by
  rw [SortedMap.contains, SortedMap.get?_erase] at he
  split at he
  · cases he
  · exact he

/-- **No number is in use before it is given out.** -/
theorem Built.issued (hb : h.Built) (hl : h.Lasting) : h.Issued := by
  induction hb with
  | empty => exact issued_empty
  | putDocument uri text _ ih => exact (ih hl).of_sameEditors rfl rfl rfl
  | openEditor uri column _ ih =>
    have hlast := hl.of_le (Word.le_next _)
    exact (ih hlast).openEditor hlast uri column
  | closeEditor e _ ih =>
    exact (ih hl).of_subset rfl (fun _ he => contains_of_contains_erase he) (List.Subset.refl _)
  | @focus h e _ ih =>
    have hsame : h.focus e = h ∨ h.focus e = { h with active := some e } := by
      unfold MemoryHost.focus
      split
      · exact .inr rfl
      · exact .inl rfl
    rcases hsame with hsame | hsame
    · rw [hsame] at hl ⊢
      exact ih hl
    · rw [hsame] at hl ⊢
      exact (ih hl).of_sameEditors rfl rfl rfl
  | display uri mode _ ih =>
    have hlast := hl.of_le (nextEditor_le_display _ uri mode)
    exact (ih hlast).display hlast uri mode
  | @select h e selections _ ih =>
    have hsame := sameDocuments_select h e selections
    exact (ih (hl.of_le (hsame.nextEditor ▸ UInt64.le_refl _))).select e selections
  | @write h e selections _ ih =>
    rcases write_cases h e selections with ⟨-, -, hw⟩ | ⟨-, hw⟩
    · rw [hw] at hl ⊢
      have hsame := sameDocuments_select h e selections
      exact (ih (hl.of_le (hsame.nextEditor ▸ UInt64.le_refl _))).select e selections
    · rw [hw] at hl ⊢
      exact ih hl
  | @scrollTo h e s _ ih =>
    exact (ih hl).of_sameDocuments (sameDocuments_scrollTo h e s) fun r hr => .inl hr
  | takeReports _ ih => exact (ih hl).of_subset rfl (fun _ he => he) (List.nil_subset _)
  | nextReport next _ ih =>
    exact (ih hl).of_subset rfl (fun _ he => he) (next ▸ List.subset_cons_self _ _)
  | newPanel title column _ ih => exact (ih hl).of_sameEditors rfl rfl rfl
  | fillPanel p content _ ih => exact (ih hl).of_sameEditors rfl rfl rfl
  | raisePanel p _ ih => exact (ih hl).of_sameEditors rfl rfl rfl
  | closePanel p _ ih => exact (ih hl).of_sameEditors rfl rfl rfl

/-- **No editor is open without a document.** -/
theorem Built.documented (hb : h.Built) : h.Documented := by
  induction hb with
  | empty => intro e uri he; cases he
  | putDocument uri text _ ih =>
    exact fun e shown he => contains_documents_putDocument uri text (ih e shown he)
  | openEditor uri column _ ih => exact ih.openEditor uri column
  | closeEditor e _ ih => exact ih.closeEditor e
  | focus e _ ih =>
    unfold MemoryHost.focus
    split <;> exact ih
  | display uri mode _ ih => exact ih.display uri mode
  | select e selections _ ih => exact ih.of_sameDocuments (sameDocuments_select _ e selections)
  | write e selections _ ih => exact ih.of_sameDocuments (sameDocuments_write _ e selections)
  | scrollTo e s _ ih => exact ih.of_sameDocuments (sameDocuments_scrollTo _ e s)
  | takeReports _ ih => exact ih
  | nextReport _ _ ih => exact ih
  | newPanel _ _ _ ih => exact ih
  | fillPanel _ _ _ ih => exact ih
  | raisePanel _ _ ih => exact ih
  | closePanel _ _ ih => exact ih

end LinkedViews.MemoryHost
