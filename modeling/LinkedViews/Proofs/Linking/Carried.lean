import LinkedViews.Proofs.Document.Positions
import LinkedViews.Proofs.Host.Built
import LinkedViews.Proofs.Linking.Tables

/-!
Selections carried between editors of a memory host.

A selection is carried to the spans of the first link that contains the offset of its start,
each cut off at the end of the document that it leads to, or to the start of that document.
Since positions are in the order of their offsets, spans in order give selections in order.
-/

namespace LinkedViews

/-- A span as a selection of a document, whose end is the end of all that is beyond it. -/
def Document.selectionOf (d : Document) (s : Span) : Selection :=
  ⟨d.positionAt (min s.start.toNat d.length), d.positionAt (min s.stop.toNat d.length)⟩

/-- The position is that of an offset in the document. -/
def Document.HasPosition (d : Document) (p : Position) : Prop := ∃ o ≤ d.length, d.positionAt o = p

lemma Document.start_le_stop_selectionOf (d : Document) {s : Span} (hs : s.start ≤ s.stop) :
    (d.selectionOf s).start ≤ (d.selectionOf s).stop := by
  rw [UInt64.le_iff_toNat_le] at hs
  exact positionAt_mono (by omega)

lemma Document.selectionOf_caret_zero (d : Document) :
    d.selectionOf (.caret 0) = .caret ⟨0, 0⟩ := by
  rw [selectionOf, Span.caret, UInt64.toNat_zero, Nat.zero_min, positionAt_zero]
  rfl

namespace MemoryHost

variable {h : MemoryHost} {source dest : EditorId} {s d : Document}

lemma offsetAt_of_documentOf? (hs : h.documentOf? source = some s) (p : Position) :
    Host.offsetAt h source p = s.offsetOf p := by
  have hoffset : h.offsetAt source p = s.offsetOf p := by rw [offsetAt, hs]; rfl
  exact hoffset

lemma positionAt_of_documentOf? (hd : h.documentOf? dest = some d) (o : Nat) :
    Host.positionAt h dest o = d.positionAt (min o d.length) := by
  have hposition : h.positionAt dest o = d.positionAt o := by rw [positionAt, hd]; rfl
  exact hposition.trans (d.positionAt_min o).symm

/-- A selection is carried to the spans that its start corresponds to. -/
lemma carried_singleton (hs : h.documentOf? source = some s) (hd : h.documentOf? dest = some d)
    (p : Product) (dir : Direction) (x : Selection) :
    carried h p dir source [x] dest = (p.spansAt dir (s.offsetOf x.start)).map d.selectionOf := by
  have hselection : selectionOf h dest = d.selectionOf := by
    funext t
    simp only [selectionOf, Document.selectionOf, positionAt_of_documentOf? hd]
  rw [carried, List.flatMap_singleton, offsetAt_of_documentOf? hs, hselection]

lemma mem_carried_iff (hs : h.documentOf? source = some s) (hd : h.documentOf? dest = some d)
    (p : Product) (dir : Direction) (xs : List Selection) (y : Selection) :
    y ∈ carried h p dir source xs dest ↔
      ∃ x ∈ xs, ∃ t ∈ p.spansAt dir (s.offsetOf x.start), d.selectionOf t = y := by
  induction xs with
  | nil => simp
  | cons x xs ih =>
    rw [← List.singleton_append, carried_append, List.mem_append, carried_singleton hs hd, ih]
    simp

end MemoryHost

/-- What a look-up leads to is a target of some link, or the start. -/
lemma Link.mem_resolve {links : List Link} {o : Nat} {t : Span} (ht : t ∈ resolve links o) :
    (∃ l ∈ links, t ∈ l.targets) ∨ t = .caret 0 := by
  rw [resolve] at ht
  cases hfound : containing? links o with
  | none =>
    rw [hfound] at ht
    exact .inr (List.mem_singleton.mp ht)
  | some l =>
    rw [hfound] at ht
    exact .inl ⟨l, List.mem_of_find?_eq_some hfound, ht⟩

/-- **Selections are carried one by one**, each to the targets of the first link that contains the
offset of its start, or to the start of the document if none does. With links whose spans are in
order the selections are in order too; their ends are positions of the document, those of the
ends of a span cut off where the document ends. -/
theorem carried_selections {h : MemoryHost} (hb : h.Built) {source dest : EditorId}
    (hsource : h.editors.contains source) (hdest : h.editors.contains dest) (p : Product)
    (dir : Direction) :
    ∃ s d, h.documentOf? source = some s ∧ h.documentOf? dest = some d ∧
      (∀ xs ys, carried h p dir source (xs ++ ys) dest =
        carried h p dir source xs dest ++ carried h p dir source ys dest) ∧
      (∀ x,
        (∀ before l after, p.links dir = before ++ l :: after →
          l.source.Contains (s.offsetOf x.start) →
          (∀ k ∈ before, ¬ k.source.Contains (s.offsetOf x.start)) →
          carried h p dir source [x] dest = l.targets.map d.selectionOf) ∧
        ((∀ l ∈ p.links dir, ¬ l.source.Contains (s.offsetOf x.start)) →
          carried h p dir source [x] dest = [.caret ⟨0, 0⟩])) ∧
      ((∀ l ∈ p.links dir, ∀ t ∈ l.targets, t.start ≤ t.stop) →
        ∀ xs, ∀ y ∈ carried h p dir source xs dest,
          y.start ≤ y.stop ∧ d.HasPosition y.start ∧ d.HasPosition y.stop ∧
          ∃ t, ((∃ l ∈ p.links dir, t ∈ l.targets) ∨ t = .caret 0) ∧ d.selectionOf t = y) := by
  obtain ⟨s, hs⟩ := hb.documented.exists_documentOf? hsource
  obtain ⟨d, hd⟩ := hb.documented.exists_documentOf? hdest
  refine ⟨s, d, hs, hd, carried_append h p dir source dest, fun x => ⟨?_, ?_⟩, ?_⟩
  · intro before l after hlinks hl hbefore
    have hfound : Link.containing? (p.links dir) (s.offsetOf x.start) = some l :=
      Link.containing?_eq_some_iff.mpr ⟨hl, before, after, hlinks, hbefore⟩
    rw [MemoryHost.carried_singleton hs hd, Product.spansAt, Link.resolve, hfound]
    rfl
  · intro hnone
    have hmissing := Link.containing?_eq_none_iff.mpr hnone
    rw [MemoryHost.carried_singleton hs hd, Product.spansAt, Link.resolve, hmissing]
    exact congrArg ([·]) d.selectionOf_caret_zero
  · intro hordered xs y hy
    obtain ⟨x, -, t, ht, rfl⟩ := (MemoryHost.mem_carried_iff hs hd p dir xs y).mp hy
    have htarget := Link.mem_resolve ht
    have ht_ordered : t.start ≤ t.stop := by
      rcases htarget with ⟨l, hl, htl⟩ | rfl
      · exact hordered l hl t htl
      · exact UInt64.le_refl 0
    exact ⟨d.start_le_stop_selectionOf ht_ordered, ⟨_, Nat.min_le_right _ _, rfl⟩,
      ⟨_, Nat.min_le_right _ _, rfl⟩, t, htarget, rfl⟩

/-- Two documents with breaks of two characters, in an editor each. -/
def sideBySide : MemoryHost :=
  let documents := (MemoryHost.empty.putDocument "file:///a.c" "ab\r\ncd").putDocument
    "monto:/a.c|ast.t" "0\r\n12"
  ((documents.openEditor "file:///a.c" ⟨1⟩).2.openEditor "monto:/a.c|ast.t" ⟨2⟩).2

/-- A reversed link, one with a target beyond the document, and one that comes too late. -/
def fanningOut : Product :=
  { Product.empty with
    forward := [⟨⟨9, 2⟩, []⟩, ⟨⟨0, 4⟩, [⟨1, 2⟩, ⟨2, 99⟩]⟩, ⟨⟨2, 6⟩, [⟨0, 0⟩]⟩] }

lemma built_sideBySide : sideBySide.Built :=
  .openEditor _ _ (.openEditor _ _ (.putDocument _ _ (.putDocument _ _ .empty)))

/-- A column behind its line is looked up at the end of the line, and an offset of the last line
that no link contains leads to the start. -/
theorem carried_selections_sideBySide :
    (sideBySide.Built ∧ sideBySide.editors.contains ⟨0⟩ ∧ sideBySide.editors.contains ⟨1⟩ ∧
      ∀ l ∈ fanningOut.links .forward, ∀ t ∈ l.targets, t.start ≤ t.stop) ∧
    let selections : List Selection := [⟨⟨0, 9⟩, ⟨0, 0⟩⟩, .caret ⟨1, 2⟩]
    carried sideBySide fanningOut .forward ⟨0⟩ selections ⟨1⟩ =
      [⟨⟨0, 1⟩, ⟨0, 2⟩⟩, ⟨⟨0, 2⟩, ⟨1, 2⟩⟩, .caret ⟨0, 0⟩] ∧
    ∀ y ∈ carried sideBySide fanningOut .forward ⟨0⟩ selections ⟨1⟩, y.start ≤ y.stop := by
  have hordered : ∀ l ∈ fanningOut.links .forward, ∀ t ∈ l.targets, t.start ≤ t.stop := by decide
  have hsource : sideBySide.editors.contains ⟨0⟩ := by decide
  have hdest : sideBySide.editors.contains ⟨1⟩ := by decide
  obtain ⟨s, d, -, -, -, -, hcarried⟩ :=
    carried_selections built_sideBySide hsource hdest fanningOut .forward
  exact ⟨⟨built_sideBySide, hsource, hdest, hordered⟩, by decide,
    fun y hy => (hcarried hordered _ y hy).1⟩

end LinkedViews
