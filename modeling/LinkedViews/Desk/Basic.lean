import LinkedViews.Session.Basic

/-!
A desk: a session together with the host that it works with.
-/

namespace LinkedViews

structure Desk (H : Type) where
  session : Session
  host : H

/-- How a product came into sight. -/
inductive View where
  | editor (id : EditorId)
  | panel (id : PanelId)
  deriving DecidableEq, Repr

namespace Desk

variable {H : Type} [Host H]

/-- Shows a document in its column. -/
def display (d : Desk H) (uri : String) (role : Role) (keepFocus : Bool) :
    Option EditorId × Desk H :=
  let (column, session) := d.session.place uri role
  let (editor, host) := Host.display d.host uri ⟨column, keepFocus, false⟩
  (editor, ⟨session, host⟩)

/-- Shows any document, and leaves the focus where it is. -/
def openDocument (d : Desk H) (uri : String) : Option EditorId × Desk H :=
  d.display uri (if isProductUri uri then .product else .source) true

/-- The panel of a target; one is created, if there is none. -/
def panelOf (d : Desk H) (t : Target) (column : Column) : PanelId × Desk H :=
  match d.session.placement.panel? t with
  | some panel => (panel, d)
  | none =>
    let (panel, host) := Host.newPanel d.host t.panelTitle column
    (panel, ⟨d.session.setPanel t panel, host⟩)

/-- Shows a graphic in its panel. -/
def openPanel (d : Desk H) (t : Target) (content : String) : PanelId × Desk H :=
  let (column, session) := d.session.place t.uri .product
  let (panel, d) := panelOf ⟨session, d.host⟩ t column
  (panel, { d with host := Host.raisePanel (Host.fillPanel d.host panel content) panel })

/-- Shows a stored product: a text in an editor, a graphic in its panel. -/
def openProduct (d : Desk H) (t : Target) : Option View × Desk H :=
  match d.session.store.find? t with
  | none => (none, d)
  | some p =>
    match p.kind with
    | .text =>
      let (editor, d) := d.display t.uri .product true
      (editor.map .editor, d)
    | .graphic =>
      let (panel, d) := d.openPanel t p.content
      (some (.panel panel), d)

theorem openProduct_of_none {d : Desk H} {t : Target} (hstored : d.session.store.find? t = none) :
    d.openProduct t = (none, d) := by
  simp only [openProduct, hstored]

theorem openProduct_of_text {d : Desk H} {t : Target} {p : Product}
    (hstored : d.session.store.find? t = some p) (hkind : p.kind = .text) :
    d.openProduct t =
      ((d.display t.uri .product true).1.map .editor, (d.display t.uri .product true).2) := by
  simp only [openProduct, hstored, hkind]

theorem openProduct_of_graphic {d : Desk H} {t : Target} {p : Product}
    (hstored : d.session.store.find? t = some p) (hkind : p.kind = .graphic) :
    d.openProduct t =
      (some (.panel (d.openPanel t p.content).1), (d.openPanel t p.content).2) := by
  simp only [openProduct, hstored, hkind]

/-- Brings the panel of a stored product up to date; with whether there is one. -/
def redrawPanel (d : Desk H) (t : Target) : Bool × Desk H :=
  match d.session.placement.panel? t, d.session.store.find? t with
  | some panel, some p => (true, { d with host := Host.fillPanel d.host panel p.content })
  | _, _ => (false, d)

end Desk

end LinkedViews
