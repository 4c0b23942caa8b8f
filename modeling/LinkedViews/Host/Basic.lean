import LinkedViews.Document
import LinkedViews.Placement

/-!
Hosts of editors.

A session sees the editors of its user through a host alone. A host that is asked to write
selections says whether it will report them as a change.
-/

namespace LinkedViews

structure EditorId where
  number : UInt64
  deriving DecidableEq, Repr

instance : Ord EditorId := ⟨compareOn EditorId.number⟩

instance : Std.TransOrd EditorId := inferInstanceAs (Std.TransCmp (compareOn EditorId.number))

instance : Std.LawfulEqOrd EditorId where
  compare_self {e} := (Std.ReflCmp.compare_self : compare e.number e.number = .eq)
  eq_of_compare {a b} h := by
    have h : a.number = b.number := Std.LawfulEqOrd.eq_of_compare h
    cases a; cases b; cases h; rfl

/-- An editor that is in sight. -/
structure VisibleEditor where
  id : EditorId
  uri : String
  column : Option Column
  deriving DecidableEq, Repr

structure DisplayMode where
  column : Column
  /-- Whether the focus stays where it is. -/
  keepFocus : Bool
  /-- Whether the editor may give way to the next document. -/
  transient : Bool
  deriving DecidableEq, Repr

class Host (H : Type) where
  visible : H → List VisibleEditor
  active : H → Option EditorId
  uri? : H → EditorId → Option String
  selections : H → EditorId → List Selection
  offsetAt : H → EditorId → Position → Nat
  positionAt : H → EditorId → Nat → Position
  /-- Shows a document; with the editor that shows it. -/
  display : H → String → DisplayMode → Option EditorId × H
  /-- Writes selections; with whether a change will be reported. -/
  write : H → EditorId → List Selection → Bool × H
  /-- Scrolls a selection into sight. -/
  scrollTo : H → EditorId → Selection → H
  newPanel : H → String → Column → PanelId × H
  fillPanel : H → PanelId → String → H
  raisePanel : H → PanelId → H

end LinkedViews
