import LinkedViews.SortedMap
import LinkedViews.Target

/-!
Where documents are shown: the column of each, and the panel of each graphic.
-/

namespace LinkedViews

/-- A column of editors; the first one has the number 1. -/
structure Column where
  number : UInt32
  deriving DecidableEq, Repr

structure PanelId where
  number : UInt64
  deriving DecidableEq, Repr

instance : Ord PanelId := ⟨compareOn PanelId.number⟩

instance : Std.TransOrd PanelId := inferInstanceAs (Std.TransCmp (compareOn PanelId.number))

instance : Std.LawfulEqOrd PanelId where
  compare_self {p} := (Std.ReflCmp.compare_self : compare p.number p.number = .eq)
  eq_of_compare {a b} h := by
    have h : a.number = b.number := Std.LawfulEqOrd.eq_of_compare h
    cases a; cases b; cases h; rfl

/-- What a document is shown as. -/
inductive Role where
  | source
  | product
  deriving DecidableEq, Repr

/-- Sources are first shown in the first column, and products beside them. -/
def Role.column : Role → Column
  | .source => ⟨1⟩
  | .product => ⟨2⟩

structure Placement where
  columns : SortedMap String Column
  panels : SortedMap Target PanelId
  deriving DecidableEq

namespace Placement

def empty : Placement := ⟨.empty, .empty⟩

instance : Inhabited Placement := ⟨empty⟩

def column? (p : Placement) (uri : String) : Option Column := p.columns.get? uri

def record (p : Placement) (uri : String) (column : Column) : Placement :=
  { p with columns := p.columns.insert uri column }

/-- The column of a document; one without a column is given that of its role. -/
def place (p : Placement) (uri : String) (role : Role) : Column × Placement :=
  match p.column? uri with
  | some column => (column, p)
  | none => (role.column, p.record uri role.column)

def panel? (p : Placement) (t : Target) : Option PanelId := p.panels.get? t

def setPanel (p : Placement) (t : Target) (panel : PanelId) : Placement :=
  { p with panels := p.panels.insert t panel }

/-- The target that a panel shows. -/
def shownIn? (p : Placement) (panel : PanelId) : Option Target :=
  (p.panels.entries.find? fun e => e.2 = panel).map (·.1)

def erasePanel (p : Placement) (panel : PanelId) : Placement :=
  match p.shownIn? panel with
  | some t => { p with panels := p.panels.erase t }
  | none => p

theorem place_fst (p : Placement) (uri : String) (role : Role) :
    (p.place uri role).1 = (p.column? uri).getD role.column := by
  unfold place
  cases p.column? uri <;> rfl

/-- A column that is recorded stays, and a document without one gets that of its role. -/
theorem column?_place_eq_or (p : Placement) (uri uri' : String) (role : Role) :
    (p.place uri role).2.column? uri' =
      (p.column? uri').or (if uri' = uri then some role.column else none) := by
  unfold place
  cases huri : p.column? uri with
  | some column =>
    by_cases hsame : uri' = uri
    · rw [if_pos hsame, hsame, huri]
      rfl
    · rw [if_neg hsame, Option.or_none]
  | none =>
    refine (SortedMap.get?_insert ..).trans ?_
    by_cases hsame : uri' = uri
    · rw [if_pos hsame, if_pos hsame, hsame, huri]
      rfl
    · rw [if_neg hsame, if_neg hsame, Option.or_none]
      rfl

theorem column?_place (p : Placement) (uri : String) (role : Role) :
    (p.place uri role).2.column? uri = some (p.place uri role).1 := by
  rw [column?_place_eq_or, if_pos rfl, place_fst]
  cases p.column? uri <;> rfl

/-- Placing one document leaves the column of every other one as it is. -/
theorem place_place_fst (p : Placement) (uri uri' : String) (role : Role) :
    ((p.place uri role).2.place uri' role).1 = (p.place uri' role).1 := by
  rw [place_fst, place_fst, column?_place_eq_or]
  cases p.column? uri' with
  | some column => rfl
  | none => split <;> rfl

end Placement

end LinkedViews
