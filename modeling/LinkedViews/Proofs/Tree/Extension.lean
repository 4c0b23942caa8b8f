import Mathlib.Data.List.TakeWhile
import LinkedViews.Proofs.Tree.Shape

/-!
Siblings without the extensions of their files.

Siblings ascend by what stands before the last point of their labels, without regard to case.
The extension of a file begins at the last point of the last segment of its path. So siblings
ascend without extensions too, if in none of them the last point stands in a directory. A label
with points in its directories alone is cut there.
-/

namespace LinkedViews

namespace Text

variable {c : Char} {s t : String}

lemma beforeLast_of_notMem (h : c ∉ s.toList) : beforeLast c s = s := if_neg h

lemma beforeLast_ne_self (h : c ∈ s.toList) : beforeLast c s ≠ s := by
  intro hs
  have hlength := congrArg (fun s : String => s.toList.length) hs
  have hdrop := (List.dropWhile_suffix (l := s.toList.reverse) (· != c)).length_le
  have hpos := List.length_pos_of_mem h
  simp only [beforeLast, if_pos h, String.toList_ofList, List.length_reverse,
    List.length_tail] at hlength hdrop
  omega

/-- The last occurrence is in the part behind, if there is one in it. -/
lemma beforeLast_append (h : c ∈ t.toList) : beforeLast c (s ++ t) = s ++ beforeLast c t := by
  have hall : c ∈ (s ++ t).toList := by
    rw [String.toList_append]
    exact List.mem_append_right _ h
  have hfound : t.toList.reverse.dropWhile (· != c) ≠ [] := by
    rw [ne_eq, List.dropWhile_eq_nil_iff]
    intro hnone
    simpa using hnone c (List.mem_reverse.mpr h)
  rw [beforeLast, if_pos hall, beforeLast, if_pos h, ← String.toList_inj]
  simp only [String.toList_ofList, String.toList_append, List.reverse_append,
    List.dropWhile_append, List.isEmpty_iff, if_neg hfound]
  rw [List.tail_append_of_ne_nil hfound, List.reverse_append, List.reverse_reverse]

end Text

namespace Label

variable {label : String}

/-- The directories of a path, with the slash behind them. -/
def directories (path : String) : String :=
  String.ofList (path.toList.reverse.dropWhile (· != '/')).reverse

/-- The path of a file without its extension: of the last segment, what stands before its last
point. -/
def withoutExtension (path : String) : String :=
  directories path ++ Text.beforeLast '.' (Text.afterLast '/' path)

lemma directories_append_afterLast (path : String) :
    directories path ++ Text.afterLast '/' path = path := by
  rw [← String.toList_inj, directories, Text.afterLast, String.toList_append,
    String.toList_ofList, String.toList_ofList, ← List.reverse_append,
    List.takeWhile_append_dropWhile, List.reverse_reverse]

/-- The last point, if there is one, is in the last segment. -/
def PointInFile (label : String) : Prop :=
  '.' ∈ label.toList → '.' ∈ (Text.afterLast '/' label).toList

instance (label : String) : Decidable (PointInFile label) :=
  inferInstanceAs (Decidable (_ → _))

/-- The stem of a label is the label without extension, but for points in directories. -/
theorem stem_eq_withoutExtension_iff :
    stem label = withoutExtension label ↔ PointInFile label := by
  have hparts := directories_append_afterLast label
  by_cases hfile : '.' ∈ (Text.afterLast '/' label).toList
  · refine ⟨fun _ _ => hfile, fun _ => ?_⟩
    have hstem := Text.beforeLast_append (s := directories label) hfile
    rwa [hparts] at hstem
  · have hwhole : withoutExtension label = label := by
      rw [withoutExtension, Text.beforeLast_of_notMem hfile, hparts]
    rw [hwhole]
    by_cases hpoint : '.' ∈ label.toList
    · refine ⟨fun hstem => absurd hstem (Text.beforeLast_ne_self hpoint), fun h => ?_⟩
      exact absurd (h hpoint) hfile
    · exact ⟨fun _ h => absurd h hpoint, fun _ => Text.beforeLast_of_notMem hpoint⟩

lemma compareFolded_stem_ne_gt {a b : String} (h : Label.compare a b = .lt) :
    compareFolded (stem a) (stem b) ≠ .gt := by
  rw [Label.compare, Ordering.then_eq_lt] at h
  rcases h with h | ⟨h, -⟩ <;> rw [h] <;> decide

end Label

namespace Tree

open Label

/-- **Siblings ascend by their stems**, without regard to case. A stem is the label without the
extension of its file, exactly if the last point of the label stands in the last segment. So
siblings of which this holds ascend without extensions. -/
theorem siblings_by_stem (ps : List Product) {ks : List String} {n : Node}
    (hn : (ofProducts ps).root.LeadsTo ks n) :
    (∀ label, stem label = withoutExtension label ↔ PointInFile label) ∧
    (n.children.map Node.label).Pairwise fun a b =>
      compareFolded (stem a) (stem b) ≠ .gt ∧
      (PointInFile a → PointInFile b →
        compareFolded (withoutExtension a) (withoutExtension b) ≠ .gt) := by
  have hsound : Node.Sound ks n := (sound_ofProducts ps).leadsTo hn
  refine ⟨fun _ => stem_eq_withoutExtension_iff, hsound.ordered.imp fun {a b} hlt => ?_⟩
  have hstem := compareFolded_stem_ne_gt hlt
  refine ⟨hstem, fun ha hb => ?_⟩
  rwa [← stem_eq_withoutExtension_iff.mpr ha, ← stem_eq_withoutExtension_iff.mpr hb]

/-- Two files in a directory that has a point in its name. -/
theorem siblings_by_stem_files :
    let product (path : String) : Product := { Product.empty with source := .ofPath path }
    let tree := ofProducts [product "/a.d/B.c", product "/a.d/a.h"]
    (tree.root.LeadsTo [] tree.root ∧ tree.root.children.map Node.label = ["/a.d/a.h", "/a.d/B.c"] ∧
      PointInFile "/a.d/a.h" ∧ PointInFile "/a.d/B.c") ∧
    compareFolded (stem "/a.d/a.h") (stem "/a.d/B.c") ≠ .gt ∧
    compareFolded (withoutExtension "/a.d/a.h") (withoutExtension "/a.d/B.c") ≠ .gt := by
  intro product tree
  have hlabels : tree.root.children.map Node.label = ["/a.d/a.h", "/a.d/B.c"] := by decide +kernel
  have ha : PointInFile "/a.d/a.h" := by decide
  have hb : PointInFile "/a.d/B.c" := by decide
  have hroot : tree.root.LeadsTo [] tree.root := .here
  have hpairs := (siblings_by_stem _ hroot).2
  rw [hlabels, List.pairwise_pair] at hpairs
  exact ⟨⟨hroot, hlabels, ha, hb⟩, hpairs.1, hpairs.2 ha hb⟩

/-- A file without extension in a directory with a point comes before another one, though it is
behind it: its label is cut in the directory. -/
theorem siblings_cut_in_directory :
    let product (path : String) : Product := { Product.empty with source := .ofPath path }
    let tree := ofProducts [product "/a.d/x", product "/a-b"]
    tree.root.children.map Node.label = ["/a.d/x", "/a-b"] ∧
    stem "/a.d/x" = "/a" ∧ withoutExtension "/a.d/x" = "/a.d/x" ∧
    withoutExtension "/a-b" = "/a-b" ∧
    compareFolded (withoutExtension "/a.d/x") (withoutExtension "/a-b") = .gt := by
  decide +kernel

end Tree

end LinkedViews
