import LinkedViews.Host.Basic
import LinkedViews.Word

/-!
A host that is all in memory.

Every editor that was opened is in sight until it is closed. A change of selections, by the
user or by a write, is queued as a report; writing the selections that an editor has already
is no change.
-/

namespace LinkedViews

/-- An open editor of a memory host. -/
structure OpenEditor where
  uri : String
  column : Column
  selections : List Selection
  /-- The selection that was last scrolled into sight. -/
  scrolledTo : Option Selection
  deriving DecidableEq, Repr

structure Panel where
  title : String
  column : Column
  content : String
  /-- How often the panel was brought to the front. -/
  raised : Nat
  deriving DecidableEq, Repr

/-- The report that an editor has new selections. -/
structure Report where
  editor : EditorId
  selections : List Selection
  deriving DecidableEq, Repr

structure MemoryHost where
  documents : SortedMap String Document
  editors : SortedMap EditorId OpenEditor
  nextEditor : EditorId
  active : Option EditorId
  panels : SortedMap PanelId Panel
  nextPanel : PanelId
  /-- The reports to come, the first one first. -/
  reports : List Report
  deriving DecidableEq

namespace MemoryHost

def empty : MemoryHost := ⟨.empty, .empty, ⟨0⟩, none, .empty, ⟨0⟩, []⟩

instance : Inhabited MemoryHost := ⟨empty⟩

def editor? (h : MemoryHost) (e : EditorId) : Option OpenEditor := h.editors.get? e

/-! Documents -/

def putDocument (h : MemoryHost) (uri text : String) : MemoryHost :=
  { h with documents := h.documents.insert uri ⟨text⟩ }

def documentText? (h : MemoryHost) (uri : String) : Option String :=
  (h.documents.get? uri).map Document.text

/-- The document that an editor shows. -/
def documentOf? (h : MemoryHost) (e : EditorId) : Option Document :=
  (h.editor? e).bind fun editor => h.documents.get? editor.uri

def offsetAt (h : MemoryHost) (e : EditorId) (p : Position) : Nat :=
  ((h.documentOf? e).map fun d => d.offsetOf p).getD 0

def positionAt (h : MemoryHost) (e : EditorId) (offset : Nat) : Position :=
  ((h.documentOf? e).map fun d => d.positionAt offset).getD ⟨0, 0⟩

/-! Editors -/

/-- Opens an editor and gives it the focus. A document that is not there yet is empty. -/
def openEditor (h : MemoryHost) (uri : String) (column : Column) : EditorId × MemoryHost :=
  let editor : OpenEditor := ⟨uri, column, [.caret ⟨0, 0⟩], none⟩
  (h.nextEditor,
    { h with
      documents := if h.documents.contains uri then h.documents else h.documents.insert uri .empty
      editors := h.editors.insert h.nextEditor editor
      nextEditor := ⟨Word.next h.nextEditor.number⟩
      active := some h.nextEditor })

def closeEditor (h : MemoryHost) (e : EditorId) : Bool × MemoryHost :=
  (h.editors.contains e,
    { h with
      editors := h.editors.erase e
      active := if h.active = some e then none else h.active })

def focus (h : MemoryHost) (e : EditorId) : MemoryHost :=
  if h.editors.contains e then { h with active := some e } else h

/-- The first editor that passes a test. -/
def findEditor? (h : MemoryHost) (p : OpenEditor → Bool) : Option EditorId :=
  (h.editors.entries.find? fun e => p e.2).map (·.1)

def editorFor? (h : MemoryHost) (uri : String) : Option EditorId :=
  h.findEditor? fun e => e.uri = uri

def visible (h : MemoryHost) : List VisibleEditor :=
  h.editors.entries.map fun e => ⟨e.1, e.2.uri, some e.2.column⟩

/-- Shows a document in the editor that has it in the wanted column, or in a new one. -/
def display (h : MemoryHost) (uri : String) (mode : DisplayMode) : EditorId × MemoryHost :=
  let (e, shown) :=
    match h.findEditor? fun e => e.uri = uri ∧ e.column = mode.column with
    | some e => (e, h)
    | none =>
      let (e, opened) := h.openEditor uri mode.column
      (e, { opened with active := h.active })
  (e, if ¬ mode.keepFocus ∨ shown.active = none then { shown with active := some e }
    else shown)

/-! Selections -/

def selections (h : MemoryHost) (e : EditorId) : List Selection :=
  ((h.editor? e).map OpenEditor.selections).getD []

/-- The selections as offsets of their ends. -/
def selectedOffsets (h : MemoryHost) (e : EditorId) : List (Nat × Nat) :=
  (h.selections e).map fun s => (h.offsetAt e s.start, h.offsetAt e s.stop)

/-- The user selects. -/
def select (h : MemoryHost) (e : EditorId) (selections : List Selection) : MemoryHost :=
  if h.editors.contains e then
    { h with
      editors := h.editors.modify e fun editor => { editor with selections }
      reports := h.reports ++ [⟨e, selections⟩] }
  else h

/-- The user selects the text between two offsets. -/
def selectSpan (h : MemoryHost) (e : EditorId) (start stop : Nat) : MemoryHost :=
  h.select e [⟨h.positionAt e start, h.positionAt e stop⟩]

def write (h : MemoryHost) (e : EditorId) (selections : List Selection) : Bool × MemoryHost :=
  match h.editor? e with
  | some editor =>
    if editor.selections = selections then (false, h) else (true, h.select e selections)
  | none => (false, h)

def scrollTo (h : MemoryHost) (e : EditorId) (s : Selection) : MemoryHost :=
  { h with editors := h.editors.modify e fun editor => { editor with scrolledTo := some s } }

/-- Forgets the reports to come. -/
def takeReports (h : MemoryHost) : List Report × MemoryHost :=
  (h.reports, { h with reports := [] })

/-! Panels -/

def panel? (h : MemoryHost) (p : PanelId) : Option Panel := h.panels.get? p

def newPanel (h : MemoryHost) (title : String) (column : Column) : PanelId × MemoryHost :=
  (h.nextPanel,
    { h with
      panels := h.panels.insert h.nextPanel ⟨title, column, "", 0⟩
      nextPanel := ⟨Word.next h.nextPanel.number⟩ })

def fillPanel (h : MemoryHost) (p : PanelId) (content : String) : MemoryHost :=
  { h with panels := h.panels.modify p fun panel => { panel with content } }

def raisePanel (h : MemoryHost) (p : PanelId) : MemoryHost :=
  { h with panels := h.panels.modify p fun panel => { panel with raised := panel.raised + 1 } }

/-- The user closes a panel. -/
def closePanel (h : MemoryHost) (p : PanelId) : Bool × MemoryHost :=
  (h.panels.contains p, { h with panels := h.panels.erase p })

instance : Host MemoryHost where
  visible := visible
  active := active
  uri? h e := (h.editor? e).map OpenEditor.uri
  selections := selections
  offsetAt := offsetAt
  positionAt := positionAt
  display h uri mode := ((h.display uri mode).1, (h.display uri mode).2)
  write := write
  scrollTo := scrollTo
  newPanel := newPanel
  fillPanel := fillPanel
  raisePanel := raisePanel

/-- A line that says how much is in the host. -/
def summary (h : MemoryHost) : String :=
  let active := match h.active with
    | some e => "Some(EditorId(" ++ toString e.number ++ "))"
    | none => "None"
  "HeadlessHost \x7b document_count: " ++ toString h.documents.size ++
    ", editor_count: " ++ toString h.editors.size ++
    ", panel_count: " ++ toString h.panels.size ++
    ", pending_events: " ++ toString h.reports.length ++
    ", active: " ++ active ++ " \x7d"

end MemoryHost

end LinkedViews
