import Mathlib.Data.List.Induction
import LinkedViews.Proofs.Desk.Accounting
import LinkedViews.Proofs.Desk.Faithful
import LinkedViews.Proofs.Desk.Outcome
import LinkedViews.Proofs.Host.Coherence

/-!
The editor that a view is linked with.

Selections go from an editor to the views of its source, however its uri spells the source.
On the way back the source is looked for under the one uri that it is written with itself. So
with all columns recorded, what is selected in a view comes to the editor that the view gets
its selections from exactly if this editor has that uri; for an editor with another spelling,
the source is opened a second time.
-/

namespace LinkedViews

/-! ### Recorded columns -/

/-- The column of the last editor that was seen with a document is recorded. -/
lemma Session.column?_editorsSeen_append (s : Session) (editors : List VisibleEditor)
    (v : VisibleEditor) {column : Column} (hv : v.column = some column) (uri : String) :
    (s.editorsSeen (editors ++ [v])).placement.column? uri =
      if uri = v.uri then some column else (s.editorsSeen editors).placement.column? uri := by
  simp only [editorsSeen, List.foldl_append, List.foldl_cons, List.foldl_nil, hv]
  exact SortedMap.get?_insert ..

namespace Desk

open MemoryHost

variable {d d₁ : Desk MemoryHost} {t : Target} {v e : EditorId} {E : VisibleEditor}
  {selections : List Selection}

/-- Of each document in sight, the column of some editor is recorded. -/
def Recorded (d : Desk MemoryHost) : Prop :=
  ∀ v ∈ Host.visible d.host, ∃ w ∈ Host.visible d.host,
    w.uri = v.uri ∧ d.session.placement.column? v.uri = w.column

lemma exists_seen (s : Session) (editors : List VisibleEditor)
    (hcolumns : ∀ v ∈ editors, v.column.isSome) :
    ∀ v ∈ editors, ∃ w ∈ editors, w.uri = v.uri ∧
      (s.editorsSeen editors).placement.column? v.uri = w.column := by
  induction editors using List.reverseRecOn with
  | nil => exact fun _ hv => by cases hv
  | append_singleton editors last ih =>
    intro v hv
    obtain ⟨column, hlast⟩ := Option.isSome_iff_exists.mp
      (hcolumns last (List.mem_append_right _ (List.mem_singleton.mpr rfl)))
    rw [s.column?_editorsSeen_append editors last hlast]
    by_cases hsame : v.uri = last.uri
    · refine ⟨last, List.mem_append_right _ (List.mem_singleton.mpr rfl), hsame.symm, ?_⟩
      rw [if_pos hsame, hlast]
    · have hbefore : v ∈ editors := by
        rcases List.mem_append.mp hv with hbefore | hlast
        · exact hbefore
        · exact absurd (congrArg VisibleEditor.uri (List.mem_singleton.mp hlast)) hsame
      obtain ⟨w, hw, huri, hcolumn⟩ :=
        ih (fun v hv => hcolumns v (List.mem_append_left _ hv)) v hbefore
      refine ⟨w, List.mem_append_left _ hw, huri, ?_⟩
      rw [if_neg hsame, hcolumn]

/-- When all editors in sight were seen, their columns are recorded. -/
lemma recorded_editorsSeen (s : Session) (h : MemoryHost) :
    Recorded ⟨s.editorsSeen (Host.visible h), h⟩ := by
  refine exists_seen s (Host.visible h) fun v hv => ?_
  obtain ⟨editor, -, hseen⟩ := exists_editor? hv
  rw [hseen]
  rfl

/-! ### The editor of a source -/

/-- The one editor in sight that shows a source. -/
def IsEditorOf (d : Desk MemoryHost) (s : Source) (E : VisibleEditor) : Prop :=
  ((Host.visible d.host).filter fun w => d.host.showsSource s w.id) = [E]

namespace IsEditorOf

variable {s : Source}

lemma mem (h : d.IsEditorOf s E) : E ∈ Host.visible d.host ∧ d.host.showsSource s E.id :=
  List.mem_filter.mp (h ▸ List.mem_singleton.mpr rfl)

lemma eq_of_uri (h : d.IsEditorOf s E) {w : VisibleEditor} (hw : w ∈ Host.visible d.host)
    (huri : w.uri = s.uri) : w = E := by
  have hshows : d.host.showsSource s w.id :=
    showsSource_of_uri (huri ▸ uri?_of_mem_visible hw)
  exact List.mem_singleton.mp (h ▸ List.mem_filter.mpr ⟨hw, hshows⟩)

/-- The source is found in its recorded column, if its editor has the uri that is looked for. -/
lemma holder?_eq (h : d.IsEditorOf s E) (hrec : d.Recorded) :
    d.host.holder? s.uri (d.session.place s.uri .source).1 =
      if E.uri = s.uri then some E.id else none := by
  have hfound : ∀ e, d.host.holder? s.uri (d.session.place s.uri .source).1 = some e →
      E.uri = s.uri ∧ e = E.id := by
    intro e he
    have hE := h.eq_of_uri (mem_visible_of_holder? he) rfl
    exact ⟨hE ▸ rfl, hE ▸ rfl⟩
  by_cases hE : E.uri = s.uri
  · rw [if_pos hE]
    obtain ⟨w, hw, huri, hcolumn⟩ := hrec E h.mem.1
    obtain rfl := h.eq_of_uri hw (huri.trans hE)
    obtain ⟨editor, hget, hseen⟩ := exists_editor? hw
    have hplace : (d.session.place s.uri .source).1 = editor.column := by
      have hrecorded : d.session.placement.column? s.uri = some editor.column := by
        rw [← hE, hcolumn, hseen]
        rfl
      rw [Session.place, Placement.place, hrecorded]
    have huriEditor : editor.uri = s.uri := by
      rw [← hE, hseen]
      rfl
    have hheld := isSome_holder? hget
    rw [huriEditor, ← hplace] at hheld
    obtain ⟨e, he⟩ := Option.isSome_iff_exists.mp hheld
    rw [he, (hfound e he).2]
  · rw [if_neg hE]
    exact Option.eq_none_iff_forall_ne_some.mpr fun e he => hE (hfound e he).1

end IsEditorOf

/-! ### The report of a view -/

/-- Whether anything is carried does not depend on where it is carried to. -/
lemma carried_eq_nil_iff {H : Type} [Host H] (h : H) (p : Product) (direction : Direction)
    (source dest : EditorId) (selections : List Selection) :
    carried h p direction source selections dest = [] ↔
      ∀ s ∈ selections, p.spansAt direction (Host.offsetAt h source s.start) = [] := by
  simp only [carried, List.flatMap_eq_nil_iff, List.map_eq_nil_iff]

/-- What is carried to the source is what is found in the document of its editor afterwards. -/
lemma traceBack_of_carried (e : EditorId) (hidle : d.session.viewEchoes t = 0)
    (hdisplay : d.display t.source.uri .source true = (some v, d₁))
    (hmapped : carried d₁.host (d.session.product t) .reverse e selections v ≠ []) :
    ∃ d', d.traceBack e t selections = (.linked [⟨v, t.source.uri,
        carried d'.host (d.session.product t) .reverse e selections v⟩], d') ∧
      SameDocuments d₁.host d'.host := by
  have hheld := d.isSome_holder?_display_again t.source.uri .source true
  have hproduct := (undisturbed_display d t.source.uri .source true).product t
  rw [hdisplay] at hheld hproduct
  have hfst := traceBack_fst e selections hdisplay
  rcases traceBack_of_display e selections hdisplay with
    ⟨hpos, -, -⟩ | ⟨-, hnil, -⟩ | ⟨-, -, hhost, -⟩
  · exact absurd hidle (Nat.ne_of_gt hpos)
  · rw [hproduct] at hnil
    exact absurd hnil hmapped
  · rw [hproduct] at hfst hhost
    rw [if_neg (Nat.not_lt.mpr (Nat.le_of_eq hidle)), if_neg hmapped] at hfst
    have hsame : SameDocuments d₁.host (d.traceBack e t selections).2.host := by
      have hagain : SameDocuments d₁.host (d₁.host.display t.source.uri
          ⟨(d₁.session.place t.source.uri .source).1, false, false⟩).2 :=
        sameDocuments_display hheld
      rw [hhost]
      exact hagain.trans (sameDocuments_writeArmed _ _ _ _)
    refine ⟨(d.traceBack e t selections).2, Prod.ext ?_ rfl, hsame⟩
    rw [hfst, hsame.carried]

/-- **Where a selection in a view goes**: to the editor that the view is linked with, and no
editor is opened, exactly if that editor has the uri that its source is written with. With any
other spelling the source is opened once more, and the editor keeps its selections. -/
theorem traced_to_editor (hn : d.host.Numbered) (hrec : d.Recorded)
    (hE : d.IsEditorOf t.source E) (hview : Host.uri? d.host v = some t.uri)
    (hidle : d.session.viewEchoes t = 0)
    (hmapped : carried d.host (d.session.product t) .reverse v selections E.id ≠ []) :
    ∃ dest d', d.selectionReported v selections = .ok (.linked [⟨dest, t.source.uri,
        carried d'.host (d.session.product t) .reverse v selections dest⟩], d') ∧
      Host.selections d'.host dest =
        carried d'.host (d.session.product t) .reverse v selections dest ∧
      ((dest = E.id ∧ d.host.OpensNone d'.host) ↔ E.uri = t.source.uri) ∧
      (E.uri ≠ t.source.uri → dest = d.host.nextEditor ∧
        Host.selections d'.host E.id = Host.selections d.host E.id) := by
  let mode : DisplayMode := ⟨(d.session.place t.source.uri .source).1, true, false⟩
  have hdisplay : d.display t.source.uri .source true =
      (some (d.host.display t.source.uri mode).1,
        (d.display t.source.uri .source true).2) := rfl
  have hhost : (d.display t.source.uri .source true).2.host =
      (d.host.display t.source.uri mode).2 := rfl
  have hviewOpen := hn v (isOpen_of_uri? hview)
  have hEOpen : d.host.editors.contains E.id := isOpen_of_uri? (uri?_of_mem_visible hE.mem.1)
  -- where the source is shown has no part in whether anything is carried to it
  have hmapped₁ : carried (d.display t.source.uri .source true).2.host (d.session.product t)
      .reverse v selections (d.host.display t.source.uri mode).1 ≠ [] := by
    rw [ne_eq, carried_eq_nil_iff] at hmapped ⊢
    simp only [hhost, offsetAt_display t.source.uri mode (ne_nextEditor hviewOpen)]
    exact hmapped
  obtain ⟨d', htraced, hsame⟩ := traceBack_of_carried v hidle hdisplay hmapped₁
  have hfaithful := (faithfulTo_traceBack hn v t selections).host
  rw [htraced] at hfaithful
  have hreported := selectionReported_of_view (d := d) (r := ⟨v, selections⟩) (shown_of_view hview)
  rw [htraced] at hreported
  have hheld := hE.holder?_eq hrec
  have hdest : E.uri ≠ t.source.uri →
      (d.host.display t.source.uri mode).1 = d.host.nextEditor := fun hne => by
    rw [display_of_not_held (hheld.trans (if_neg hne))]
  have hne : d.host.nextEditor ≠ E.id := (ne_nextEditor (hn E.id hEOpen)).symm
  refine ⟨_, d', hreported, (hfaithful.written _ (List.mem_singleton.mpr rfl)).2, ?_,
    fun huri => ⟨hdest huri, hfaithful.kept E.id hEOpen fun w hw => ?_⟩⟩
  · rw [hsame.opensNone_iff, hhost]
    by_cases huri : E.uri = t.source.uri
    · rw [if_pos huri] at hheld
      have hshown : SameDocuments d.host (d.host.display t.source.uri mode).2 :=
        sameDocuments_display (hheld ▸ rfl)
      refine iff_of_true ⟨?_, hshown.opensNone_iff.mpr fun _ he => he⟩ huri
      rw [display_of_holder? hheld]
    · exact iff_of_false (fun h => hne ((hdest huri).symm.trans h.1)) huri
  · rw [List.mem_singleton.mp hw, hdest huri]
    exact hne

/-- A document, and a view of a product of it, both seen by the session. -/
def beside (uri : String) : Desk MemoryHost :=
  let h := MemoryHost.empty.run [.openEditor uri ⟨1⟩, .openEditor "monto:/a.c|ast.t" ⟨2⟩]
  ⟨(Session.new .initial).editorsSeen (Host.visible h), h⟩

/-- The selection goes to the document. -/
theorem traced_to_editor_beside :
    let d := beside "file:///a.c"
    (d.host.Numbered ∧ d.Recorded ∧
      d.IsEditorOf (.parse "/a.c") ⟨⟨0⟩, "file:///a.c", some ⟨1⟩⟩) ∧
    ∃ mapped d', d.selectionReported ⟨1⟩ [.caret ⟨0, 0⟩] =
        .ok (.linked [⟨⟨0⟩, "file:///a.c", mapped⟩], d') ∧
      Host.selections d'.host ⟨0⟩ = mapped ∧ d.host.OpensNone d'.host := by
  intro d
  have hn : d.host.Numbered := numbered_run _ (by decide)
  have hrec : d.Recorded := recorded_editorsSeen _ _
  have hE : d.IsEditorOf (.parse "/a.c") ⟨⟨0⟩, "file:///a.c", some ⟨1⟩⟩ := by
    unfold IsEditorOf
    decide
  have hview : Host.uri? d.host ⟨1⟩ = some (Target.of (.parse "/a.c") "ast" "t").uri := by
    decide
  have hmapped : carried d.host (d.session.product (.of (.parse "/a.c") "ast" "t")) .reverse
      ⟨1⟩ [.caret ⟨0, 0⟩] ⟨0⟩ ≠ [] := by
    decide
  obtain ⟨dest, d', hreported, hselections, hiff, -⟩ := traced_to_editor
    (t := .of (.parse "/a.c") "ast" "t") hn hrec hE hview (by decide) hmapped
  obtain ⟨rfl, hopens⟩ := hiff.mpr (by decide)
  exact ⟨⟨hn, hrec, hE⟩, _, d', hreported, hselections, hopens⟩

/-- Of a document with another spelling the selection goes to a second editor. -/
theorem traced_astray :
    let d := beside "file:/a.c"
    (d.host.Numbered ∧ d.Recorded ∧
      d.IsEditorOf (.parse "/a.c") ⟨⟨0⟩, "file:/a.c", some ⟨1⟩⟩) ∧
    d.outcome? ⟨⟨1⟩, [.caret ⟨0, 0⟩]⟩ =
        some (.linked [⟨⟨2⟩, "file:///a.c", [.caret ⟨0, 0⟩]⟩]) ∧
      ¬ d.host.editors.contains ⟨2⟩ := by
  intro d
  have hE : d.IsEditorOf (.parse "/a.c") ⟨⟨0⟩, "file:/a.c", some ⟨1⟩⟩ := by
    unfold IsEditorOf
    decide
  exact ⟨⟨numbered_run _ (by decide), recorded_editorsSeen _ _, hE⟩, by decide, by decide⟩

end Desk

end LinkedViews
