import LinkedViews.Desk.Basic
import LinkedViews.Linking

/-!
How a change of selections spreads.

A change in a source document goes to all views of its products that are in sight, a change
in a product view goes back to the source. A report that is the echo of a write goes nowhere.
-/

namespace LinkedViews

variable {H : Type} [Host H]

/-- What came of a change of selections. -/
inductive Outcome where
  /-- Linked selections were written. -/
  | linked (writes : List Written)
  /-- The change was an echo. -/
  | echo
  /-- Nothing is linked to the editor. -/
  | unlinked
  deriving DecidableEq, Repr

/-- The target that an editor shows, if it is derived from a document. -/
def VisibleEditor.targetFrom? (v : VisibleEditor) (source : Source) : Option Target :=
  (Target.parse v.uri).toOption.filter fun t => t.source = source

namespace Desk

/-- A desk on the way from one view to the next. -/
structure Progress (H : Type) where
  desk : Desk H
  writes : List Written
  /-- Whether some view took the change for an echo. -/
  echoed : Bool

namespace Progress

def outcome (p : Progress H) : Outcome :=
  if ¬ p.writes.isEmpty then .linked p.writes
  else if p.echoed then .echo
  else .unlinked

/-- Takes the change for the echo of a write to the source. -/
def absorb (p : Progress H) (t : Target) : Progress H :=
  let l := p.desk.session.latchesOf t
  { p with
    desk := { p.desk with
      session := p.desk.session.setLatches t { l with source := l.source.absorb.2 } }
    echoed := true }

/-- Writes selections to a view of the target. -/
def write (p : Progress H) (t : Target) (view : VisibleEditor) (selections : List Selection) :
    Progress H :=
  let l := p.desk.session.latchesOf t
  let written := writeArmed p.desk.host view.id l.view selections
  { p with
    desk := ⟨p.desk.session.setLatches t { l with view := written.latch }, written.host⟩
    writes := p.writes ++ [⟨view.id, view.uri, selections⟩] }

/-- Gives a view the focus. -/
def focus (p : Progress H) (view : VisibleEditor) : Progress H :=
  { p with desk := (p.desk.display view.uri .product false).2 }

/-- Carries the selections of an editor of the source to one view. A command, unlike a
report, is never an echo, and gives the focus to the views that it writes to. -/
def step (source : Source) (editor : EditorId) (selections : List Selection) (isReport : Bool)
    (p : Progress H) (view : VisibleEditor) : Progress H :=
  match view.targetFrom? source with
  | none => p
  | some t =>
    if isReport ∧ (p.desk.session.latchesOf t).source.isArmed then p.absorb t
    else
      match carried p.desk.host (p.desk.session.product t) .forward editor selections view.id with
      | [] => p
      | mapped => (if isReport then p else p.focus view).write t view mapped

end Progress

/-- Carries selections to all views that are in sight at the start. -/
def spread (d : Desk H) (editor : EditorId) (uri : String) (selections : List Selection)
    (isReport : Bool) : Outcome × Desk H :=
  let p := (Host.visible d.host).foldl (Progress.step (.parse uri) editor selections isReport)
    ⟨d, [], false⟩
  (p.outcome, p.desk)

/-- Carries the selections of a product view to the editor of its source, which is brought
into sight for it even if nothing is carried. -/
def traceBack (d : Desk H) (editor : EditorId) (t : Target) (selections : List Selection) :
    Outcome × Desk H :=
  match d.display t.source.uri .source true with
  | (none, d) => (.unlinked, d)
  | (some sourceEditor, d) =>
    let l := d.session.latchesOf t
    if l.view.isArmed then
      (.echo, { d with session := d.session.setLatches t { l with view := l.view.absorb.2 } })
    else
      match carried d.host (d.session.product t) .reverse editor selections sourceEditor with
      | [] => (.unlinked, d)
      | mapped =>
        let d := (d.display t.source.uri .source false).2
        let written := writeArmed d.host sourceEditor l.source mapped
        (.linked [⟨sourceEditor, t.source.uri, mapped⟩],
          ⟨d.session.setLatches t { l with source := written.latch }, written.host⟩)

/-- An editor reports new selections. -/
def selectionReported (d : Desk H) (editor : EditorId) (selections : List Selection) :
    Except MalformedTarget (Outcome × Desk H) :=
  match Host.uri? d.host editor with
  | none => .ok (.unlinked, d)
  | some uri =>
    if isProductUri uri then
      (Target.parse uri).map fun t => d.traceBack editor t selections
    else .ok (d.spread editor uri selections true)

/-- The command to select what is linked to the selections of the active editor. -/
def selectLinked (d : Desk H) : Outcome × Desk H :=
  match Host.active d.host with
  | none => (.unlinked, d)
  | some editor =>
    match Host.uri? d.host editor with
    | none => (.unlinked, d)
    | some uri => d.spread editor uri (Host.selections d.host editor) false

end Desk

end LinkedViews
