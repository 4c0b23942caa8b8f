import LinkedViews.Proofs.Session.Interchange
import LinkedViews.Proofs.Source

/-!
Products of documents that are named by a plain path.

A plain path is decoded like a uri when it is read, and taken as it is spelled when it is that
of a file. So a product that comes with a plain path belongs to the document in the file of
that path only if the path has no escape. Otherwise it belongs to another document, and is
neither found nor dropped with the one that the path names.
-/

namespace LinkedViews

lemma Target.of_inj_source {a b : Source} {name language : String} :
    Target.of a name language = Target.of b name language ↔ a = b := by
  refine ⟨fun h => Source.ext ?_, fun h => h ▸ rfl⟩
  have hname := congrArg (fun t : Target => t.name.toList) h
  simp only [Target.of, String.toList_append, List.append_assoc] at hname
  exact String.toList_inj.mp (List.append_cancel_right hname)

namespace Session

/-- A product that was just saved is dropped exactly with its own document. -/
lemma mem_drop_save_iff {s : Session} {p : Product} {source : Source} :
    p.target ∈ ((s.save p).session.drop source).result ↔ p.source = source := by
  have hsaved : (s.save p).session.store.find? p.target =
      some (p.after (s.store.find? p.target)) := by
    rw [find?_save, if_pos rfl]
  refine Store.mem_targetsOf_iff.trans ?_
  rw [hsaved]
  simp [Store.source_after]

/-- **A plain path names the document in its file exactly if it has no escape.** A product that
comes with the path has the target, and is dropped with the document, that the file of the
path leads to under the same condition. -/
theorem plain_path_found {disk : Disk} {path : String} (hrooted : path.toList.head? = some '/')
    (hmissing : disk.resolve? (.ofText path) = none) :
    let source := Source.ofFile disk (.ofText path)
    (Source.parse path = source ↔ ¬ Text.Percent.HasEscape path.toList) ∧
    ∀ p : Product, p.source = Source.parse path →
      (Target.of source p.name p.language = p.target ↔ ¬ Text.Percent.HasEscape path.toList) ∧
      ∀ s : Session, p.target ∈ ((s.save p).session.drop source).result ↔
        ¬ Text.Percent.HasEscape path.toList := by
  intro source
  have hiff := Source.parse_eq_ofFile_iff hrooted hmissing
  refine ⟨hiff, fun p hp => ⟨?_, fun s => ?_⟩⟩
  · rw [Product.target, Target.of_inj_source, hp, eq_comm, hiff]
  · rw [mem_drop_save_iff, hp, hiff]

/-- A path with two `%` in it, and no escape. -/
theorem plain_path_found_percent :
    let path := "/100%/a%2.c"
    let source := Source.ofFile .blank (.ofText path)
    let p : Product := { Product.empty with source := .parse path, name := "ast", language := "t" }
    (path.toList.head? = some '/' ∧ Disk.blank.resolve? (.ofText path) = none ∧
      p.source = Source.parse path) ∧
    Source.parse path = source ∧ Target.of source "ast" "t" = p.target ∧
    p.target ∈ (((new .initial).save p).session.drop source).result := by
  intro path source p
  have hrooted : path.toList.head? = some '/' := by decide
  have hmissing : Disk.blank.resolve? (.ofText path) = none := rfl
  have hplain : ¬ Text.Percent.HasEscape path.toList := by decide
  have hsource : p.source = Source.parse path := by dsimp only [p]
  have hfound := plain_path_found hrooted hmissing
  exact ⟨⟨hrooted, hmissing, hsource⟩, hfound.1.mpr hplain, (hfound.2 p hsource).1.mpr hplain,
    ((hfound.2 p hsource).2 _).mpr hplain⟩

/-- A path with an escape leads to the document in another file, and the product that comes with
it stays when the one in its own file is dropped. -/
theorem plain_path_astray :
    let path := "/a%20b.c"
    let source := Source.ofFile .blank (.ofText path)
    let p : Product := { Product.empty with source := .parse path, name := "ast", language := "t" }
    (path.toList.head? = some '/' ∧ Disk.blank.resolve? (.ofText path) = none) ∧
    Source.parse path ≠ source ∧ Source.parse path = .ofFile .blank (.ofText "/a b.c") ∧
    Target.of source "ast" "t" ≠ p.target ∧
    (((new .initial).save p).session.drop source).result = [] ∧
    (((new .initial).save p).session.drop (.ofPath "/a b.c")).result = [p.target] := by
  decide

end Session

end LinkedViews
