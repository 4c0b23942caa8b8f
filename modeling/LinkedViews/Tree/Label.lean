import LinkedViews.Text.Cut
import LinkedViews.Text.Lowercase

/-!
The order of labels: first without what follows their last point and without regard to case,
then with it, and last by code points.
-/

namespace LinkedViews.Label

def compareFolded (a b : String) : Ordering := compare (Text.lower a) (Text.lower b)

def stem (label : String) : String := Text.beforeLast '.' label

protected def compare (a b : String) : Ordering :=
  (compareFolded (stem a) (stem b)).then ((compareFolded a b).then (compare a b))

@[simp] theorem compare_self (a : String) : Label.compare a a = .eq := by
  simp [Label.compare, compareFolded, Std.ReflCmp.compare_self]

/-- Only a label itself is level with it. -/
theorem eq_of_compare {a b : String} (h : Label.compare a b = .eq) : a = b := by
  simp only [Label.compare, Ordering.then_eq_eq] at h
  exact Std.LawfulEqOrd.eq_of_compare h.2.2

example : Label.compare "/A.c" "/a.c" = .lt ∧ Label.compare "ast.text" "cfg.svg" = .lt ∧
    Label.compare "b" "a.z" = .gt := by decide

end LinkedViews.Label
