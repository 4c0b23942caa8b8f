import LinkedViews.Product
import LinkedViews.Proofs.Text.Cut

/-!
What the target of a product says about the product.

The target's name is the path of the source, a bar, the name, a point and the language. Bars
and points may stand in the parts too, and nothing tells them from those between the parts. So
the name can be cut in several ways: it gives back the path only if the path has no bar, and
all three parts only together with the number of bars and points in them.
-/

namespace LinkedViews

namespace Source

/-- Up to a bar, a path stays rooted. -/
lemma path_ofPath_upTo (s : Source) :
    (ofPath (Text.upTo '|' s.path)).path = Text.upTo '|' s.path := by
  have hrooted : (Text.upTo '|' s.path).toList.head?.all (· == '/') := by
    have hpath := s.rooted
    rw [Text.toList_upTo]
    cases hchars : s.path.toList with
    | nil => rfl
    | cons c cs =>
      rw [hchars, List.head?_cons, Option.all_some, beq_iff_eq] at hpath
      rw [hpath]; rfl
  rw [ofPath, dif_pos hrooted]

end Source

namespace Product

lemma toList_name_target (p : Product) : p.target.name.toList =
    p.source.path.toList ++ '|' :: (p.name.toList ++ '.' :: p.language.toList) := by
  simp [target, Target.of]

/-! ### The source of a target -/

lemma path_source_target (p : Product) :
    p.target.source.path = Text.upTo '|' p.source.path := by
  have hcut : p.target.sourcePath = Text.upTo '|' p.source.path :=
    Text.upTo_append_cons (toList_name_target p)
  rw [Target.source, hcut, Source.path_ofPath_upTo]

/-- **The target of a product leads back to its source** exactly if no bar stands in the
path. -/
theorem source_target_eq_iff (p : Product) :
    p.target.source = p.source ↔ '|' ∉ p.source.path.toList := by
  rw [← Text.upTo_eq_self_iff, ← path_source_target]
  exact ⟨congrArg Source.path, Source.ext⟩

/-! ### The parts of a target -/

/-- The products are versions of the same one. -/
structure SameIdentity (p q : Product) : Prop where
  source : p.source = q.source
  name : p.name = q.name
  language : p.language = q.language

instance (p q : Product) : Decidable (p.SameIdentity q) :=
  decidable_of_iff (p.source = q.source ∧ p.name = q.name ∧ p.language = q.language)
    ⟨fun ⟨hsource, hname, hlanguage⟩ => ⟨hsource, hname, hlanguage⟩,
      fun h => ⟨h.source, h.name, h.language⟩⟩

/-- The paths of the sources have the same number of bars, and the languages the same number
of points. -/
structure CutAlike (p q : Product) : Prop where
  bars : p.source.path.toList.count '|' = q.source.path.toList.count '|'
  points : p.language.toList.count '.' = q.language.toList.count '.'

instance (p q : Product) : Decidable (p.CutAlike q) :=
  decidable_of_iff
    (p.source.path.toList.count '|' = q.source.path.toList.count '|' ∧
      p.language.toList.count '.' = q.language.toList.count '.')
    ⟨fun ⟨hbars, hpoints⟩ => ⟨hbars, hpoints⟩, fun h => ⟨h.bars, h.points⟩⟩

variable {p q : Product}

lemma SameIdentity.target (h : p.SameIdentity q) : p.target = q.target := by
  rw [Product.target, h.source, h.name, h.language]; rfl

lemma SameIdentity.cutAlike (h : p.SameIdentity q) : p.CutAlike q :=
  ⟨by rw [h.source], by rw [h.language]⟩

lemma SameIdentity.of_target (htarget : p.target = q.target) (hcut : p.CutAlike q) :
    p.SameIdentity q := by
  have hname := congrArg (fun t : Target => t.name.toList) htarget
  simp only [toList_name_target] at hname
  obtain ⟨hpath, hfile⟩ := Text.append_cons_inj_of_count hname hcut.bars
  -- the file names have as many points, and so have the languages, which leaves the names
  have hpoints : p.name.toList.count '.' = q.name.toList.count '.' := by
    have hall := congrArg (List.count '.') hfile
    have hlanguages := hcut.points
    simp only [List.count_append, List.count_cons_self] at hall
    omega
  obtain ⟨hnames, hlanguages⟩ := Text.append_cons_inj_of_count hfile hpoints
  exact ⟨Source.ext (String.toList_inj.mp hpath), String.toList_inj.mp hnames,
    String.toList_inj.mp hlanguages⟩

/-- **Versions of one product are those with one target that are cut alike.** -/
theorem sameIdentity_iff : p.SameIdentity q ↔ p.target = q.target ∧ p.CutAlike q :=
  ⟨fun h => ⟨h.target, h.cutAlike⟩, fun h => .of_target h.1 h.2⟩

end Product

end LinkedViews
