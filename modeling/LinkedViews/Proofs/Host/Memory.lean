import Mathlib.Tactic.Lemma
import LinkedViews.Desk.Delivery

/-!
What the operations of a memory host do to its editors and reports.

Each editor is seen through its uri and its selections. A write changes the selections of
one editor and queues one report, or changes nothing; showing a document opens an editor at
most, whose number was not given out before.
-/

namespace LinkedViews.MemoryHost

variable {h : MemoryHost} {e e' : EditorId}

lemma uri?_eq (h : MemoryHost) (e : EditorId) :
    Host.uri? h e = (h.editor? e).map OpenEditor.uri := rfl

lemma selections_eq (h : MemoryHost) (e : EditorId) :
    Host.selections h e = ((h.editor? e).map OpenEditor.selections).getD [] := rfl

lemma isSome_uri? (h : MemoryHost) (e : EditorId) :
    (Host.uri? h e).isSome = h.editors.contains e := by
  rw [uri?_eq, Option.isSome_map]; rfl

lemma isOpen_of_uri? {uri : String} (huri : Host.uri? h e = some uri) : h.editors.contains e := by
  rw [← isSome_uri?, huri]; rfl

/-! ### Selections -/

lemma editor?_select (h : MemoryHost) (e e' : EditorId) (selections : List Selection) :
    (h.select e selections).editor? e' =
      if e' = e then (h.editor? e').map fun editor => { editor with selections }
      else h.editor? e' := by
  unfold select
  split
  · exact SortedMap.get?_modify h.editors e e' _
  · rename_i hopen
    split
    · rename_i he
      subst he
      have hnone : h.editor? e' = none := by
        simpa [SortedMap.contains, editor?] using hopen
      rw [hnone]; rfl
    · rfl

lemma uri?_select (h : MemoryHost) (e e' : EditorId) (selections : List Selection) :
    Host.uri? (h.select e selections) e' = Host.uri? h e' := by
  rw [uri?_eq, editor?_select, uri?_eq]
  split
  · rw [Option.map_map]; rfl
  · rfl

lemma selections_select_self (selections : List Selection) (hopen : h.editors.contains e) :
    Host.selections (h.select e selections) e = selections := by
  obtain ⟨editor, heditor⟩ := Option.isSome_iff_exists.mp hopen
  have heditor : h.editor? e = some editor := heditor
  rw [selections_eq, editor?_select, if_pos rfl, heditor]; rfl

lemma selections_select_of_ne (selections : List Selection) (hne : e' ≠ e) :
    Host.selections (h.select e selections) e' = Host.selections h e' := by
  rw [selections_eq, editor?_select, if_neg hne]; rfl

lemma reports_select (selections : List Selection) (hopen : h.editors.contains e) :
    (h.select e selections).reports = h.reports ++ [⟨e, selections⟩] := by
  rw [select, if_pos hopen]

lemma select_of_closed (selections : List Selection) (hclosed : ¬ h.editors.contains e) :
    h.select e selections = h := if_neg hclosed

/-- A write is a selection or no change at all. -/
lemma write_cases (h : MemoryHost) (e : EditorId) (selections : List Selection) :
    (h.editors.contains e ∧ Host.selections h e ≠ selections ∧
      Host.write h e selections = (true, h.select e selections)) ∨
    ((h.editors.contains e → Host.selections h e = selections) ∧
      Host.write h e selections = (false, h)) := by
  have hwrite : Host.write h e selections = h.write e selections := rfl
  rw [hwrite]
  unfold write
  cases heditor : h.editor? e with
  | none =>
    have hclosed : h.editors.contains e = false := by
      rw [SortedMap.contains, Option.isSome_eq_false_iff]
      exact Option.isNone_iff_eq_none.mpr heditor
    exact .inr ⟨fun hopen => absurd hopen (by simp [hclosed]), rfl⟩
  | some editor =>
    have hopen : h.editors.contains e = true := Option.isSome_iff_exists.mpr ⟨editor, heditor⟩
    have hsel : Host.selections h e = editor.selections := by rw [selections_eq, heditor]; rfl
    rw [hsel]
    by_cases heq : editor.selections = selections
    · exact .inr ⟨fun _ => heq, if_pos heq⟩
    · exact .inl ⟨hopen, heq, if_neg heq⟩

/-! ### Scrolling -/

lemma editor?_scrollTo (h : MemoryHost) (e e' : EditorId) (s : Selection) :
    (h.scrollTo e s).editor? e' =
      if e' = e then (h.editor? e').map fun editor => { editor with scrolledTo := some s }
      else h.editor? e' :=
  SortedMap.get?_modify h.editors e e' _

lemma uri?_scrollTo (h : MemoryHost) (e e' : EditorId) (s : Selection) :
    Host.uri? (Host.scrollTo h e s) e' = Host.uri? h e' := by
  have hscroll : Host.uri? (Host.scrollTo h e s) e' =
      ((h.scrollTo e s).editor? e').map OpenEditor.uri := rfl
  rw [hscroll, editor?_scrollTo, uri?_eq]
  split
  · rw [Option.map_map]; rfl
  · rfl

lemma selections_scrollTo (h : MemoryHost) (e e' : EditorId) (s : Selection) :
    Host.selections (Host.scrollTo h e s) e' = Host.selections h e' := by
  have hscroll : Host.selections (Host.scrollTo h e s) e' =
      (((h.scrollTo e s).editor? e').map OpenEditor.selections).getD [] := rfl
  rw [hscroll, editor?_scrollTo, selections_eq]
  split
  · rw [Option.map_map]; rfl
  · rfl

/-! ### Documents -/

lemma contains_documents_putDocument (uri text : String) {shown : String}
    (hshown : h.documents.contains shown) :
    (h.putDocument uri text).documents.contains shown := by
  rw [putDocument, SortedMap.contains, SortedMap.get?_insert]
  split
  · rfl
  · exact hshown

/-! ### Editors opened and closed -/

/-- The editor of a document that was just opened. -/
def fresh (uri : String) (column : Column) : OpenEditor := ⟨uri, column, [.caret ⟨0, 0⟩], none⟩

lemma editor?_openEditor (h : MemoryHost) (uri : String) (column : Column) (e : EditorId) :
    (h.openEditor uri column).2.editor? e =
      if e = h.nextEditor then some (fresh uri column) else h.editor? e :=
  SortedMap.get?_insert ..

lemma uri?_openEditor {uri shown : String} {column : Column}
    (he : Host.uri? (h.openEditor uri column).2 e = some shown) :
    (e = h.nextEditor ∧ shown = uri) ∨ Host.uri? h e = some shown := by
  rw [uri?_eq, editor?_openEditor] at he
  split at he
  · rename_i hnew
    exact .inl ⟨hnew, (Option.some.inj he).symm⟩
  · exact .inr he

lemma contains_documents_openEditor (h : MemoryHost) (uri : String) (column : Column)
    {shown : String} (hshown : shown = uri ∨ h.documents.contains shown) :
    (h.openEditor uri column).2.documents.contains shown := by
  have hdocuments : (h.openEditor uri column).2.documents =
      if h.documents.contains uri then h.documents else h.documents.insert uri .empty := rfl
  rw [hdocuments]
  split
  · rename_i hthere
    rcases hshown with rfl | hold
    · exact hthere
    · exact hold
  · rw [SortedMap.contains, SortedMap.get?_insert]
    split
    · rfl
    · rename_i hne
      exact hshown.resolve_left hne

lemma editor?_closeEditor (h : MemoryHost) (e e' : EditorId) :
    (h.closeEditor e).2.editor? e' = if e' = e then none else h.editor? e' :=
  SortedMap.get?_erase ..

lemma uri?_closeEditor_of_ne (hne : e' ≠ e) :
    Host.uri? (h.closeEditor e).2 e' = Host.uri? h e' := by
  rw [uri?_eq, uri?_eq, editor?_closeEditor, if_neg hne]

lemma uri?_closeEditor_self (h : MemoryHost) (e : EditorId) :
    Host.uri? (h.closeEditor e).2 e = none := by
  rw [uri?_eq, editor?_closeEditor, if_pos rfl]; rfl

/-! ### Documents on show -/

/-- Showing a document finds an editor of it, or opens one with the next number. -/
lemma display_cases (h : MemoryHost) (uri : String) (mode : DisplayMode) :
    ((h.display uri mode).2.editors = h.editors ∧
      (h.display uri mode).2.nextEditor = h.nextEditor ∧
      ∃ editor, h.editor? (h.display uri mode).1 = some editor ∧
        editor.uri = uri ∧ editor.column = mode.column) ∨
    ((h.display uri mode).2.editors = h.editors.insert h.nextEditor (fresh uri mode.column) ∧
      (h.display uri mode).2.nextEditor = ⟨Word.next h.nextEditor.number⟩ ∧
      (h.display uri mode).1 = h.nextEditor) := by
  unfold display
  cases hfind : h.findEditor? fun editor => editor.uri = uri ∧ editor.column = mode.column with
  | some found =>
    refine .inl ?_
    obtain ⟨entry, hentry, rfl⟩ := Option.map_eq_some_iff.mp hfind
    have hmem := List.mem_of_find?_eq_some hentry
    have huri := List.find?_some hentry
    simp only [Bool.decide_and, Bool.and_eq_true, decide_eq_true_eq] at huri
    have hget : h.editor? entry.1 = some entry.2 := SortedMap.get?_eq_some_iff.mpr hmem
    simp only
    split <;> exact ⟨rfl, rfl, entry.2, hget, huri⟩
  | none =>
    refine .inr ?_
    simp only
    split <;> exact ⟨rfl, rfl, rfl⟩

lemma reports_display (h : MemoryHost) (uri : String) (mode : DisplayMode) :
    (h.display uri mode).2.reports = h.reports := by
  unfold display
  cases h.findEditor? fun editor => editor.uri = uri ∧ editor.column = mode.column with
  | some found => simp only; split <;> rfl
  | none => simp only; split <;> rfl

lemma editor?_display_of_ne {uri : String} {mode : DisplayMode} (hne : e ≠ h.nextEditor) :
    (h.display uri mode).2.editor? e = h.editor? e := by
  rcases display_cases h uri mode with ⟨heditors, -, -⟩ | ⟨heditors, -, -⟩
  · rw [editor?, heditors]; rfl
  · rw [editor?, heditors, SortedMap.get?_insert, if_neg hne]; rfl

/-- The document is in the editor that shows it, in the wanted column. -/
lemma editor?_display_fst (h : MemoryHost) (uri : String) (mode : DisplayMode) :
    ∃ editor, (h.display uri mode).2.editor? (h.display uri mode).1 = some editor ∧
      editor.uri = uri ∧ editor.column = mode.column := by
  rcases display_cases h uri mode with ⟨heditors, -, editor, hget, hshown⟩ | ⟨heditors, -, hfst⟩
  · refine ⟨editor, ?_, hshown⟩
    rw [editor?, heditors]
    exact hget
  · refine ⟨fresh uri mode.column, ?_, rfl, rfl⟩
    rw [hfst, editor?, heditors, SortedMap.get?_insert_self]

lemma uri?_display_fst (h : MemoryHost) (uri : String) (mode : DisplayMode) :
    Host.uri? (h.display uri mode).2 (h.display uri mode).1 = some uri := by
  obtain ⟨editor, hget, huri, -⟩ := editor?_display_fst h uri mode
  rw [uri?_eq, hget, ← huri]; rfl

/-- A document that is in an editor of the wanted column is shown there. -/
lemma editors_display_of_found {editor : OpenEditor} (mode : DisplayMode)
    (hget : h.editor? e = some editor) (hcolumn : editor.column = mode.column) :
    (h.display editor.uri mode).2.editors = h.editors := by
  unfold display
  cases hfind : h.findEditor? fun other =>
    other.uri = editor.uri ∧ other.column = mode.column with
  | some found => simp only; split <;> rfl
  | none =>
    have hmem : (e, editor) ∈ h.editors.entries := SortedMap.get?_eq_some_iff.mp hget
    have hmissing := List.find?_eq_none.mp (Option.map_eq_none_iff.mp hfind) _ hmem
    exact absurd (decide_eq_true ⟨rfl, hcolumn⟩) hmissing

/-- Any other editor has its document, or has the one shown. -/
lemma uri?_display (h : MemoryHost) (uri : String) (mode : DisplayMode) (e : EditorId) :
    Host.uri? (h.display uri mode).2 e = Host.uri? h e ∨
      (e = h.nextEditor ∧ Host.uri? (h.display uri mode).2 e = some uri) := by
  by_cases hne : e = h.nextEditor
  · rcases display_cases h uri mode with ⟨heditors, -, -⟩ | ⟨heditors, -, hfst⟩
    · refine .inl ?_
      rw [uri?_eq, uri?_eq, editor?, heditors]; rfl
    · exact .inr ⟨hne, by rw [hne, ← hfst]; exact uri?_display_fst h uri mode⟩
  · refine .inl ?_
    rw [uri?_eq, uri?_eq, editor?_display_of_ne hne]

lemma nextEditor_le_display (h : MemoryHost) (uri : String) (mode : DisplayMode) :
    h.nextEditor.number ≤ (h.display uri mode).2.nextEditor.number := by
  rcases display_cases h uri mode with ⟨-, hnext, -⟩ | ⟨-, hnext, -⟩
  · rw [hnext]; exact UInt64.le_refl _
  · rw [hnext]; exact Word.le_next _

/-! ### Numbers of editors -/

/-- Every number in use, of an open editor or in a report, was given out. -/
structure Issued (h : MemoryHost) : Prop where
  opened : ∀ e, h.editors.contains e → e.number < h.nextEditor.number
  reported : ∀ r ∈ h.reports, r.editor.number < h.nextEditor.number

lemma ne_nextEditor (hlt : e.number < h.nextEditor.number) : e ≠ h.nextEditor := by
  rintro rfl
  exact absurd hlt (UInt64.lt_irrefl _)

lemma issued_empty : Issued empty where
  opened _ hopen := by cases hopen
  reported _ hr := by cases hr

/-- Fewer editors and reports use fewer numbers. -/
lemma Issued.of_subset (hi : h.Issued) {h' : MemoryHost}
    (hnext : h'.nextEditor = h.nextEditor)
    (hopen : ∀ e, h'.editors.contains e → h.editors.contains e)
    (hreports : h'.reports ⊆ h.reports) : h'.Issued :=
  ⟨fun e he => hnext ▸ hi.opened e (hopen e he), fun r hr => hnext ▸ hi.reported r (hreports hr)⟩

lemma Issued.of_sameEditors (hi : h.Issued) {h' : MemoryHost}
    (hnext : h'.nextEditor = h.nextEditor)
    (heditors : h'.editors = h.editors) (hreports : h'.reports = h.reports) : h'.Issued :=
  hi.of_subset hnext (fun _ he => heditors ▸ he) (hreports ▸ List.Subset.refl _)

/-- There is a number left for the next editor. -/
def Lasting (h : MemoryHost) : Prop := h.nextEditor.number.toNat + 1 < UInt64.size

instance (h : MemoryHost) : Decidable h.Lasting := inferInstanceAs (Decidable (_ < _))

lemma Lasting.lt_next (hl : h.Lasting) : h.nextEditor.number < Word.next h.nextEditor.number := by
  unfold Lasting at hl
  rw [UInt64.lt_iff_toNat_lt, Word.toNat_next]
  omega

lemma Lasting.of_le {h' : MemoryHost} (hl : h'.Lasting)
    (hle : h.nextEditor.number ≤ h'.nextEditor.number) : h.Lasting := by
  rw [UInt64.le_iff_toNat_le] at hle
  unfold Lasting at hl ⊢
  omega

/-- An editor that is opened takes the next number. -/
lemma Issued.of_opened (hi : h.Issued) (hl : h.Lasting) {h' : MemoryHost} {editor : OpenEditor}
    (heditors : h'.editors = h.editors.insert h.nextEditor editor)
    (hnext : h'.nextEditor = ⟨Word.next h.nextEditor.number⟩)
    (hreports : h'.reports = h.reports) : h'.Issued where
  opened e hopen := by
    rw [hnext]
    rw [heditors, SortedMap.contains, SortedMap.get?_insert] at hopen
    split at hopen
    · rename_i he
      rw [he]
      exact hl.lt_next
    · exact UInt64.lt_trans (hi.opened e hopen) hl.lt_next
  reported r hr := by
    rw [hnext]
    exact UInt64.lt_trans (hi.reported r (hreports ▸ hr)) hl.lt_next

lemma Issued.openEditor (hi : h.Issued) (hl : h.Lasting) (uri : String) (column : Column) :
    (h.openEditor uri column).2.Issued :=
  hi.of_opened hl rfl rfl rfl

lemma Issued.display (hi : h.Issued) (hl : h.Lasting) (uri : String) (mode : DisplayMode) :
    (h.display uri mode).2.Issued := by
  have hreports := reports_display h uri mode
  rcases display_cases h uri mode with ⟨heditors, hnext, -⟩ | ⟨heditors, hnext, -⟩
  · exact hi.of_sameEditors hnext heditors hreports
  · exact hi.of_opened hl heditors hnext hreports

/-! ### Panels, which no work on editors touches -/

lemma panels_display (h : MemoryHost) (uri : String) (mode : DisplayMode) :
    (h.display uri mode).2.panels = h.panels ∧
      (h.display uri mode).2.nextPanel = h.nextPanel := by
  unfold display
  cases h.findEditor? fun editor => editor.uri = uri ∧ editor.column = mode.column with
  | some found => simp only; split <;> exact ⟨rfl, rfl⟩
  | none => simp only; split <;> exact ⟨rfl, rfl⟩

lemma panels_select (h : MemoryHost) (e : EditorId) (selections : List Selection) :
    (h.select e selections).panels = h.panels ∧
      (h.select e selections).nextPanel = h.nextPanel := by
  unfold select
  split <;> exact ⟨rfl, rfl⟩

lemma panels_write (h : MemoryHost) (e : EditorId) (selections : List Selection) :
    (Host.write h e selections).2.panels = h.panels ∧
      (Host.write h e selections).2.nextPanel = h.nextPanel := by
  rcases write_cases h e selections with ⟨-, -, hw⟩ | ⟨-, hw⟩
  · rw [hw]
    exact panels_select h e selections
  · rw [hw]
    exact ⟨rfl, rfl⟩

/-! ### Hosts with the same documents in sight -/

/-- The hosts show the same documents in the same editors. -/
structure SameDocuments (h h' : MemoryHost) : Prop where
  uri? : ∀ e, Host.uri? h' e = Host.uri? h e
  documents : h'.documents = h.documents
  nextEditor : h'.nextEditor = h.nextEditor

variable {h' h'' : MemoryHost}

lemma SameDocuments.refl (h : MemoryHost) : SameDocuments h h := ⟨fun _ => rfl, rfl, rfl⟩

lemma SameDocuments.trans (hs : SameDocuments h h') (hs' : SameDocuments h' h'') :
    SameDocuments h h'' where
  uri? e := (hs'.uri? e).trans (hs.uri? e)
  documents := hs'.documents.trans hs.documents
  nextEditor := hs'.nextEditor.trans hs.nextEditor

lemma sameDocuments_select (h : MemoryHost) (e : EditorId) (selections : List Selection) :
    SameDocuments h (h.select e selections) where
  uri? e' := uri?_select h e e' selections
  documents := by unfold select; split <;> rfl
  nextEditor := by unfold select; split <;> rfl

lemma sameDocuments_scrollTo (h : MemoryHost) (e : EditorId) (s : Selection) :
    SameDocuments h (Host.scrollTo h e s) :=
  ⟨fun e' => uri?_scrollTo h e e' s, rfl, rfl⟩

lemma SameDocuments.contains (hs : SameDocuments h h') (e : EditorId) :
    h'.editors.contains e = h.editors.contains e := by
  rw [← isSome_uri?, ← isSome_uri?, hs.uri?]

/-- Reports of open editors leave all numbers given out. -/
lemma Issued.of_sameDocuments (hi : h.Issued) (hs : SameDocuments h h')
    (hreports : ∀ r ∈ h'.reports, r ∈ h.reports ∨ h.editors.contains r.editor) : h'.Issued where
  opened e hopen := by
    rw [hs.nextEditor]
    exact hi.opened e ((hs.contains e).symm.trans hopen)
  reported r hr := by
    rw [hs.nextEditor]
    rcases hreports r hr with hr | hopen
    · exact hi.reported r hr
    · exact hi.opened _ hopen

lemma Issued.select (hi : h.Issued) (e : EditorId) (selections : List Selection) :
    (h.select e selections).Issued := by
  refine hi.of_sameDocuments (sameDocuments_select h e selections) fun r hr => ?_
  by_cases hopen : h.editors.contains e
  · rw [reports_select selections hopen] at hr
    rcases List.mem_append.mp hr with hr | hr
    · exact .inl hr
    · rw [List.mem_singleton.mp hr]
      exact .inr hopen
  · rw [select_of_closed selections hopen] at hr
    exact .inl hr

/-! ### What is carried between editors -/

lemma documentOf?_eq (h : MemoryHost) (e : EditorId) :
    h.documentOf? e = (Host.uri? h e).bind fun uri => h.documents.get? uri := by
  rw [uri?_eq, documentOf?, Option.bind_map]; rfl

/-- An offset in an editor depends on the document that the editor shows. -/
lemma SameDocuments.documentOf? (hs : SameDocuments h h') (e : EditorId) :
    h'.documentOf? e = h.documentOf? e := by
  rw [documentOf?_eq, documentOf?_eq, hs.uri?, hs.documents]

/-- What is carried depends on the offsets in the one editor and the positions in the other. -/
lemma carried_congr {source dest : EditorId}
    (hoffset : ∀ x, Host.offsetAt h' source x = Host.offsetAt h source x)
    (hposition : ∀ x, Host.positionAt h' dest x = Host.positionAt h dest x) (p : Product)
    (d : Direction) (selections : List Selection) :
    carried h' p d source selections dest = carried h p d source selections dest := by
  have hselection : selectionOf h' dest = selectionOf h dest := by
    funext s
    rw [selectionOf, selectionOf, hposition, hposition]
  unfold carried
  simp only [hoffset, hselection]

lemma SameDocuments.offsetAt (hs : SameDocuments h h') (e : EditorId) (x : Position) :
    Host.offsetAt h' e x = Host.offsetAt h e x := by
  have hx : h'.offsetAt e x = h.offsetAt e x := by
    rw [MemoryHost.offsetAt, MemoryHost.offsetAt, hs.documentOf?]
  exact hx

lemma SameDocuments.positionAt (hs : SameDocuments h h') (e : EditorId) (x : Nat) :
    Host.positionAt h' e x = Host.positionAt h e x := by
  have hx : h'.positionAt e x = h.positionAt e x := by
    rw [MemoryHost.positionAt, MemoryHost.positionAt, hs.documentOf?]
  exact hx

lemma SameDocuments.carried (hs : SameDocuments h h') (p : Product) (d : Direction)
    (source : EditorId) (selections : List Selection) (dest : EditorId) :
    carried h' p d source selections dest = carried h p d source selections dest :=
  carried_congr (hs.offsetAt source) (hs.positionAt dest) p d selections

/-- Showing a document keeps the others, and makes an empty one where none was. -/
lemma documentOf?_display (uri : String) (mode : DisplayMode) (hne : e ≠ h.nextEditor) :
    (h.display uri mode).2.documentOf? e = h.documentOf? e ∨
      (h.documentOf? e = none ∧ (h.display uri mode).2.documentOf? e = some .empty) := by
  have huri : Host.uri? (h.display uri mode).2 e = Host.uri? h e := by
    rw [uri?_eq, uri?_eq, editor?_display_of_ne hne]
  have hdocuments : (h.display uri mode).2.documents = h.documents ∨
      (h.documents.get? uri = none ∧
        (h.display uri mode).2.documents = h.documents.insert uri .empty) := by
    unfold display openEditor
    cases h.findEditor? fun editor => editor.uri = uri ∧ editor.column = mode.column with
    | some found => simp only; split <;> exact .inl rfl
    | none =>
      by_cases hthere : h.documents.contains uri
      · simp only [hthere, if_true]
        split <;> exact .inl rfl
      · refine .inr ⟨Option.not_isSome_iff_eq_none.mp hthere, ?_⟩
        simp only [hthere]
        split <;> rfl
  rw [documentOf?_eq, documentOf?_eq, huri]
  rcases hdocuments with hsame | ⟨hmissing, hnew⟩
  · rw [hsame]
    exact .inl rfl
  · rw [hnew]
    cases hopen : Host.uri? h e with
    | none => exact .inl rfl
    | some shown =>
      simp only [Option.bind_some, SortedMap.get?_insert]
      by_cases hshown : shown = uri
      · rw [if_pos hshown, hshown]
        exact .inr ⟨hmissing, rfl⟩
      · rw [if_neg hshown]
        exact .inl rfl

lemma offsetAt_display (uri : String) (mode : DisplayMode) (hne : e ≠ h.nextEditor)
    (x : Position) : Host.offsetAt (h.display uri mode).2 e x = Host.offsetAt h e x := by
  have hempty : Document.empty.offsetOf x = 0 := by
    obtain ⟨_ | line, column⟩ := x
    · exact Nat.min_zero column
    · rfl
  have hx : (h.display uri mode).2.offsetAt e x = h.offsetAt e x := by
    rw [offsetAt, offsetAt]
    rcases documentOf?_display uri mode hne with hsame | ⟨hnone, hnew⟩
    · rw [hsame]
    · rw [hnone, hnew]
      exact hempty
  exact hx

lemma positionAt_display (uri : String) (mode : DisplayMode) (hne : e ≠ h.nextEditor) (x : Nat) :
    Host.positionAt (h.display uri mode).2 e x = Host.positionAt h e x := by
  have hempty : Document.empty.positionAt x = ⟨0, 0⟩ :=
    congrArg (Line.locate Document.empty.lines) (Nat.min_zero x)
  have hx : (h.display uri mode).2.positionAt e x = h.positionAt e x := by
    rw [positionAt, positionAt]
    rcases documentOf?_display uri mode hne with hsame | ⟨hnone, hnew⟩
    · rw [hsame]
    · rw [hnone, hnew]
      exact hempty
  exact hx

lemma carried_display {source dest : EditorId} (uri : String) (mode : DisplayMode)
    (hsource : source ≠ h.nextEditor) (hdest : dest ≠ h.nextEditor) (p : Product) (d : Direction)
    (selections : List Selection) :
    carried (h.display uri mode).2 p d source selections dest =
      carried h p d source selections dest :=
  carried_congr (offsetAt_display uri mode hsource) (positionAt_display uri mode hdest) p d
    selections

/-! ### Open editors with documents -/

/-- The document of every open editor is there. -/
def Documented (h : MemoryHost) : Prop :=
  ∀ e uri, Host.uri? h e = some uri → h.documents.contains uri

namespace Documented

variable {h h' : MemoryHost}

lemma exists_documentOf? (hd : h.Documented) {e : EditorId} (he : h.editors.contains e) :
    ∃ d, h.documentOf? e = some d := by
  rw [← isSome_uri?] at he
  obtain ⟨uri, huri⟩ := Option.isSome_iff_exists.mp he
  rw [documentOf?_eq, huri]
  exact Option.isSome_iff_exists.mp (hd e uri huri)

lemma of_sameDocuments (hd : h.Documented) (hs : SameDocuments h h') :
    h'.Documented := by
  intro e uri he
  rw [hs.documents]
  exact hd e uri (hs.uri? e ▸ he)

lemma openEditor (hd : h.Documented) (uri : String) (column : Column) :
    (h.openEditor uri column).2.Documented := by
  intro e shown he
  refine contains_documents_openEditor h uri column ?_
  rcases uri?_openEditor he with ⟨-, hnew⟩ | hold
  · exact .inl hnew
  · exact .inr (hd e shown hold)

lemma closeEditor (hd : h.Documented) (e : EditorId) : (h.closeEditor e).2.Documented := by
  intro e' uri he'
  by_cases hne : e' = e
  · rw [hne, uri?_closeEditor_self] at he'
    cases he'
  · exact hd e' uri (uri?_closeEditor_of_ne hne ▸ he')

lemma display (hd : h.Documented) (uri : String) (mode : DisplayMode) :
    (h.display uri mode).2.Documented := by
  unfold MemoryHost.display
  cases h.findEditor? fun editor => editor.uri = uri ∧ editor.column = mode.column with
  | some found =>
    simp only
    split <;> exact hd
  | none =>
    simp only
    split <;> exact hd.openEditor uri mode.column

end Documented

/-! ### Armed writes -/

/-- The host after a write is that of the write alone, but for the scrolling. -/
lemma writeArmed_host (h : MemoryHost) (e : EditorId) (l : Latch) (selections : List Selection) :
    (writeArmed h e l selections).host = (Host.write h e selections).2 ∨
      ∃ s, (writeArmed h e l selections).host =
        Host.scrollTo (Host.write h e selections).2 e s := by
  cases selections with
  | nil => exact .inl rfl
  | cons s rest => exact .inr ⟨s, rfl⟩

lemma sameDocuments_write (h : MemoryHost) (e : EditorId) (selections : List Selection) :
    SameDocuments h (Host.write h e selections).2 := by
  rcases write_cases h e selections with ⟨-, -, hw⟩ | ⟨-, hw⟩
  · rw [hw]; exact sameDocuments_select h e selections
  · rw [hw]; exact .refl h

lemma sameDocuments_writeArmed (h : MemoryHost) (e : EditorId) (l : Latch)
    (selections : List Selection) :
    SameDocuments h (writeArmed h e l selections).host := by
  have hwrite := sameDocuments_write h e selections
  rcases writeArmed_host h e l selections with hhost | ⟨s, hhost⟩
  · rw [hhost]; exact hwrite
  · rw [hhost]; exact hwrite.trans (sameDocuments_scrollTo _ e s)

/-- After a write an editor has what was written, and every other editor what it had. -/
lemma selections_writeArmed (l : Latch) (selections : List Selection)
    (hopen : h.editors.contains e) (e' : EditorId) :
    Host.selections (writeArmed h e l selections).host e' =
      if e' = e then selections else Host.selections h e' := by
  have hwrite : Host.selections (Host.write h e selections).2 e' =
      if e' = e then selections else Host.selections h e' := by
    rcases write_cases h e selections with ⟨-, -, hw⟩ | ⟨hsame, hw⟩
    · rw [hw]
      split
      · rename_i he
        rw [he]
        exact selections_select_self selections hopen
      · rename_i hne
        exact selections_select_of_ne selections hne
    · rw [hw]
      split
      · rename_i he
        rw [he]
        exact hsame hopen
      · rfl
  rcases writeArmed_host h e l selections with hhost | ⟨s, hhost⟩
  · rw [hhost, hwrite]
  · rw [hhost, selections_scrollTo, hwrite]

variable (h e) in
/-- An armed write that changes the selections queues a report and leaves the latch armed for
it; any other does neither. -/
lemma writeArmed_changes (l : Latch) (selections : List Selection) :
    (h.editors.contains e ∧ Host.selections h e ≠ selections ∧
      (writeArmed h e l selections).latch = l.arm ∧
      (writeArmed h e l selections).host.reports = h.reports ++ [⟨e, selections⟩]) ∨
    ((h.editors.contains e → Host.selections h e = selections) ∧
      (writeArmed h e l selections).latch = l.arm.disarm ∧
      (writeArmed h e l selections).host.reports = h.reports) := by
  have hreports : (writeArmed h e l selections).host.reports =
      (Host.write h e selections).2.reports := by
    rcases writeArmed_host h e l selections with hhost | ⟨s, hhost⟩
    · rw [hhost]
    · rw [hhost]; rfl
  rw [hreports]
  rcases write_cases h e selections with ⟨hopen, hne, hw⟩ | ⟨hsame, hw⟩
  · refine .inl ⟨hopen, hne, by rw [writeArmed, hw]; rfl, ?_⟩
    rw [hw]
    exact reports_select selections hopen
  · exact .inr ⟨hsame, by rw [writeArmed, hw]; rfl, by rw [hw]⟩

variable (h e) in
/-- An armed write queues a report and leaves the latch armed for it, or does neither. -/
lemma writeArmed_cases (l : Latch) (selections : List Selection) :
    (h.editors.contains e ∧
      (writeArmed h e l selections).latch = l.arm ∧
      (writeArmed h e l selections).host.reports = h.reports ++ [⟨e, selections⟩]) ∨
    ((writeArmed h e l selections).latch = l.arm.disarm ∧
      (writeArmed h e l selections).host.reports = h.reports) := by
  rcases writeArmed_changes h e l selections with ⟨hopen, -, hwritten⟩ | ⟨-, hunwritten⟩
  · exact .inl ⟨hopen, hwritten⟩
  · exact .inr hunwritten

/-! ### Editors in sight -/

lemma uri?_of_mem_visible {v : VisibleEditor} (hv : v ∈ Host.visible h) :
    Host.uri? h v.id = some v.uri := by
  obtain ⟨entry, hentry, rfl⟩ := List.mem_map.mp (hv : v ∈ h.visible)
  have hget : h.editor? entry.1 = some entry.2 := SortedMap.get?_eq_some_iff.mpr hentry
  rw [uri?_eq, hget]; rfl

lemma exists_visible {uri : String} (huri : Host.uri? h e = some uri) :
    ∃ v ∈ Host.visible h, v.id = e ∧ v.uri = uri := by
  rw [uri?_eq] at huri
  obtain ⟨editor, heditor, rfl⟩ := Option.map_eq_some_iff.mp huri
  have hmem : (e, editor) ∈ h.editors.entries := SortedMap.get?_eq_some_iff.mp heditor
  exact ⟨_, List.mem_map_of_mem hmem, rfl, rfl⟩

/-- Editors are in sight in the order in which they were opened. -/
lemma visible_eq_append {v : VisibleEditor} (hv : v ∈ Host.visible h) :
    ∃ before after, Host.visible h = before ++ v :: after ∧
      (∀ w ∈ before, w.id.number < v.id.number) ∧ ∀ w ∈ after, v.id.number < w.id.number := by
  have hsorted : (Host.visible h).Pairwise fun v w => v.id.number < w.id.number := by
    refine List.pairwise_map.mpr (h.editors.ascending.imp fun {a b} hlt => ?_)
    exact Std.compare_eq_lt.mp hlt
  obtain ⟨before, after, hsplit⟩ := List.append_of_mem hv
  rw [hsplit, List.pairwise_append] at hsorted
  obtain ⟨-, hafter, hbefore⟩ := hsorted
  exact ⟨before, after, hsplit, fun w hw => hbefore w hw v List.mem_cons_self,
    (List.pairwise_cons.mp hafter).1⟩

lemma nodup_visible (h : MemoryHost) : ((Host.visible h).map VisibleEditor.id).Nodup := by
  have hids : (Host.visible h).map VisibleEditor.id = h.editors.entries.map (·.1) :=
    List.map_map ..
  rw [hids, List.Nodup, List.pairwise_map]
  refine h.editors.ascending.imp fun {a b} hlt heq => ?_
  have hself : compare b.1 b.1 = .eq := Std.ReflCmp.compare_self
  rw [heq, hself] at hlt
  cases hlt

/-! ### Two editors -/

/-- A document, and a view of a product of it. -/
def pair : MemoryHost :=
  ((empty.openEditor "file:///a.c" ⟨1⟩).2.openEditor "monto:/a.c|ast.t" ⟨2⟩).2

lemma issued_pair : pair.Issued := by
  have hfirst : (empty.openEditor "file:///a.c" ⟨1⟩).2.Issued :=
    issued_empty.openEditor (by decide) _ _
  exact hfirst.openEditor (by decide) _ _

end LinkedViews.MemoryHost
