import LinkedViews.Host.Basic
import LinkedViews.Latch
import LinkedViews.Product

/-!
Selections carried over the links of a product.

A selection is looked up by its start. Each span that the start corresponds to gives one
selection in the other document, and the results of several selections follow one another.
-/

namespace LinkedViews

variable {H : Type} [Host H]

/-- The selection of a span in the document of an editor. -/
def selectionOf (h : H) (e : EditorId) (s : Span) : Selection :=
  ⟨Host.positionAt h e s.start.toNat, Host.positionAt h e s.stop.toNat⟩

/-- Selections of the editor `source` as selections of the editor `dest`. -/
def carried (h : H) (p : Product) (d : Direction) (source : EditorId)
    (selections : List Selection) (dest : EditorId) : List Selection :=
  selections.flatMap fun s =>
    (p.spansAt d (Host.offsetAt h source s.start)).map (selectionOf h dest)

/-- What a write of selections leaves behind. -/
structure Write (H : Type) where
  /-- Whether an echo of the write will come. -/
  echoes : Bool
  latch : Latch
  host : H

/-- Writes selections with the latch armed, and scrolls to the first of them. -/
def writeArmed (h : H) (e : EditorId) (latch : Latch) (selections : List Selection) :
    Write H :=
  let (echoes, written) := Host.write h e selections
  { echoes
    latch := if echoes then latch.arm else latch.arm.disarm
    host := match selections with
      | [] => written
      | first :: _ => Host.scrollTo written e first }

/-- Selections that were written to an editor. -/
structure Written where
  editor : EditorId
  uri : String
  selections : List Selection
  deriving DecidableEq, Repr

@[simp] theorem carried_nil (h : H) (p : Product) (d : Direction) (a b : EditorId) :
    carried h p d a [] b = [] := rfl

theorem carried_append (h : H) (p : Product) (d : Direction) (a b : EditorId)
    (xs ys : List Selection) :
    carried h p d a (xs ++ ys) b = carried h p d a xs b ++ carried h p d a ys b :=
  List.flatMap_append

end LinkedViews
