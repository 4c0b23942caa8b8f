import LinkedViews.Proofs.Desk.Faithful
import LinkedViews.Proofs.Host.Coherence

/-!
Where the focus is after the command.

The command writes to the views in sight, whichever column they are in, and gives the focus to
the editor that has the document of the view in the column that is recorded for it. The two
are the same editor for a view that is the first one of its document in that column. For a
view in another column an editor is opened, unless the recorded column has one; behind a first
view the second one is written to while the first has the focus.
-/

namespace LinkedViews

namespace MemoryHost

variable {h : MemoryHost}

lemma keptByWrites_active (active : Option EditorId) :
    Host.KeptByWrites fun h : MemoryHost => h.active = active where
  write h e selections ha := by
    rcases write_cases h e selections with ⟨hopen, -, hw⟩ | ⟨-, hw⟩
    · rw [hw, select, if_pos hopen]
      exact ha
    · rw [hw]
      exact ha
  scrollTo _ _ _ ha := ha

end MemoryHost

namespace Desk

open MemoryHost

variable {d : Desk MemoryHost} {p : Progress MemoryHost} {view : VisibleEditor}

/-- The editor that the command gives the focus to for a view, if there is one yet. -/
def focused? (d : Desk MemoryHost) (uri : String) : Option EditorId :=
  d.host.holder? uri (d.session.place uri .product).1

/-- Where the focus is on the way from view to view. -/
structure Focusing (d : Desk MemoryHost) (p : Progress MemoryHost) : Prop where
  grown : Grown d.host p.desk.host
  column : ∀ uri, (p.desk.session.place uri .product).1 = (d.session.place uri .product).1
  opensNone : d.host.OpensNone p.desk.host ↔ ∀ w ∈ p.writes, (d.focused? w.uri).isSome
  active : ∀ w, p.writes.getLast? = some w →
    (p.desk.host.active = some w.editor ↔ d.focused? w.uri = some w.editor)

lemma Focusing.start (d : Desk MemoryHost) : d.Focusing ⟨d, [], false⟩ where
  grown := .refl d.host
  column _ := rfl
  opensNone := iff_of_true (fun _ he => he) fun _ hw => by cases hw
  active _ hw := by cases hw

/-- An editor that was found at the start is found on the way. -/
lemma Focusing.holder?_of_some (hf : d.Focusing p) {uri : String} {e : EditorId}
    (he : d.focused? uri = some e) :
    p.desk.host.holder? uri (p.desk.session.place uri .product).1 = some e := by
  rw [hf.column]
  exact hf.grown.holder?_of_some he

/-- Where none was found, the document gets an editor that is opened on the way. -/
lemma Focusing.le_display_fst (hf : d.Focusing p) {uri : String} {mode : DisplayMode}
    (hcolumn : mode.column = (p.desk.session.place uri .product).1)
    (hnone : d.focused? uri = none) :
    d.host.nextEditor.number ≤ (p.desk.host.display uri mode).1.number := by
  rw [display_fst_eq]
  cases hh : p.desk.host.holder? uri mode.column with
  | none => exact hf.grown.nextEditor
  | some e =>
    rw [hcolumn, hf.column] at hh
    exact hf.grown.le_of_holder? hnone hh

/-- What the focus on a view does to the host, which the write leaves as it is. -/
lemma Focusing.focus (hf : d.Focusing p) (hn : d.host.Numbered)
    (hview : d.host.editors.contains view.id) :
    (d.host.OpensNone (p.focus view).desk.host ↔
      d.host.OpensNone p.desk.host ∧ (d.focused? view.uri).isSome) ∧
    ((p.focus view).desk.host.active = some view.id ↔
      d.focused? view.uri = some view.id) := by
  let mode : DisplayMode := ⟨(p.desk.session.place view.uri .product).1, false, false⟩
  have hcontains : ∀ e, (p.focus view).desk.host.editors.contains e ↔ _ :=
    contains_display p.desk.host view.uri mode
  have hactive : (p.focus view).desk.host.active =
      some (p.desk.host.display view.uri mode).1 :=
    (active_display p.desk.host view.uri mode).trans (if_pos (.inl Bool.false_ne_true))
  cases hfocused : d.focused? view.uri with
  | some e =>
    have hheld : p.desk.host.holder? view.uri mode.column = some e :=
      hf.holder?_of_some hfocused
    refine ⟨?_, ?_⟩
    · simp only [OpensNone, hcontains, hheld, reduceCtorEq, false_and, or_false,
        Option.isSome_some, and_true]
    · rw [hactive, display_of_holder? hheld]
  | none =>
    -- the editor was opened on the way, so it is neither an old one nor the view
    have hle : d.host.nextEditor.number ≤ (p.desk.host.display view.uri mode).1.number :=
      hf.le_display_fst rfl hfocused
    have hopen : (p.focus view).desk.host.editors.contains
        (p.desk.host.display view.uri mode).1 :=
      isOpen_of_uri? (uri?_display_fst p.desk.host view.uri mode)
    refine ⟨iff_of_false (fun hnone => ?_) (fun h => by cases h.2), ?_⟩
    · exact UInt64.not_lt.mpr hle (hn _ (hnone _ hopen))
    · rw [hactive]
      refine iff_of_false (fun heq => ?_) (fun h => by cases h)
      exact UInt64.not_lt.mpr hle (Option.some.inj heq ▸ hn _ hview)

lemma Focusing.write (hf : d.Focusing p) (hn : d.host.Numbered)
    (hview : d.host.editors.contains view.id) (t : Target) (mapped : List Selection) :
    d.Focusing ((p.focus view).write t view mapped) := by
  obtain ⟨hopens, hactive⟩ := hf.focus hn hview
  have hsame := Progress.sameDocuments_write (p.focus view) t view mapped
  have hwrites : ((p.focus view).write t view mapped).writes =
      p.writes ++ [⟨view.id, view.uri, mapped⟩] := rfl
  have hfocus : ((p.focus view).write t view mapped).desk.host.active =
      (p.focus view).desk.host.active :=
    (keptByWrites_active _).written rfl t view mapped
  refine ⟨?_, fun uri => ?_, ?_, fun w hw => ?_⟩
  · exact (kept_grown hn).written ((kept_grown hn).display _ _ _ hf.grown) t view mapped
  · exact (p.desk.session.placement.place_place_fst view.uri uri .product).trans (hf.column uri)
  · rw [hsame.opensNone_iff, hopens, hf.opensNone, hwrites]
    simp only [List.mem_append, List.mem_singleton, or_imp, forall_and, forall_eq]
  · rw [hwrites, List.getLast?_concat] at hw
    rw [← Option.some.inj hw, hfocus]
    exact hactive

lemma Focusing.step (hf : d.Focusing p) (hn : d.host.Numbered)
    (hview : d.host.editors.contains view.id) (s : Source) (e : EditorId)
    (selections : List Selection) : d.Focusing (p.step s e selections false view) := by
  rcases Progress.step_cases s e selections false p view with
    ⟨-, hstep⟩ | ⟨t, -, ⟨hfalse, -, -⟩ | ⟨-, -, hstep⟩ | ⟨-, mapped, -, -, hstep⟩⟩
  · rwa [hstep]
  · cases hfalse
  · rwa [hstep]
  · rw [hstep]
    exact hf.write hn hview t mapped

lemma focusing_spread (hn : d.host.Numbered) (e : EditorId) (uri : String)
    (selections : List Selection) :
    ∃ p, d.Focusing p ∧ d.spread e uri selections false = (p.outcome, p.desk) :=
  ⟨_, List.foldlRecOn (Host.visible d.host) _ (Focusing.start d) fun _ hf _ hv =>
    hf.step hn (isOpen_of_uri? (uri?_of_mem_visible hv)) (Source.parse uri) e selections, rfl⟩

/-- **Where the command leaves the focus**: it opens no editor exactly if for each view that it
writes to there is an editor of the document in the recorded column, and the last view has the
focus exactly if it is that editor. -/
theorem selectLinked_focus (hn : d.host.Numbered) {writes : List Written} {last : Written}
    {d' : Desk MemoryHost} (hlinked : d.selectLinked = (.linked (writes ++ [last]), d')) :
    (d.host.OpensNone d'.host ↔ ∀ w ∈ writes ++ [last], (d.focused? w.uri).isSome) ∧
      (d'.host.active = some last.editor ↔ d.focused? last.uri = some last.editor) := by
  unfold selectLinked at hlinked
  split at hlinked
  · cases hlinked
  · split at hlinked
    · cases hlinked
    · rename_i e _ _ uri _
      obtain ⟨p, hf, hspread⟩ := focusing_spread hn e uri (Host.selections d.host e)
      obtain ⟨houtcome, rfl⟩ := Prod.ext_iff.mp (hspread.symm.trans hlinked)
      have hwrites : p.writes = writes ++ [last] := by
        rw [← p.writes_outcome]
        exact congrArg Outcome.writes houtcome
      rw [← hwrites]
      refine ⟨hf.opensNone, hf.active last ?_⟩
      rw [hwrites, List.getLast?_concat]

/-- A document in the first column, and two views of it in the second one. -/
def viewsBeside : Desk MemoryHost :=
  ⟨.new .initial, .run .empty
    [.openEditor "file:///a.c" ⟨1⟩, .openEditor "monto:/a.c|ast.t" ⟨2⟩,
      .openEditor "monto:/a.c|cfg.t" ⟨2⟩, .focus ⟨0⟩]⟩

/-- Of two views beside their document, the last one is focused. -/
theorem selectLinked_focus_beside :
    viewsBeside.host.Numbered ∧ ∃ first last d',
      viewsBeside.selectLinked = (.linked [first, last], d') ∧ first.editor ≠ last.editor ∧
      viewsBeside.host.OpensNone d'.host ∧ d'.host.active = some last.editor := by
  have hn : viewsBeside.host.Numbered := numbered_run _ (by decide)
  have hlinked : viewsBeside.selectLinked =
      (.linked ([⟨⟨1⟩, "monto:/a.c|ast.t", [.caret ⟨0, 0⟩]⟩] ++
        [⟨⟨2⟩, "monto:/a.c|cfg.t", [.caret ⟨0, 0⟩]⟩]), viewsBeside.selectLinked.2) :=
    Prod.ext (by decide) rfl
  obtain ⟨hopens, hactive⟩ := selectLinked_focus hn hlinked
  exact ⟨hn, _, _, _, hlinked, by decide, hopens.mpr (by decide), hactive.mpr (by decide)⟩

/-- A document in the first column, and a view of it in another one. -/
def viewIn (column : Column) : Desk MemoryHost :=
  ⟨.new .initial, .run .empty
    [.openEditor "file:///a.c" ⟨1⟩, .openEditor "monto:/a.c|ast.t" column, .focus ⟨0⟩]⟩

/-- A view further to the right is written to, but a new editor has the focus. -/
theorem selectLinked_focus_astray :
    (viewIn ⟨3⟩).selectLinked.1 = .linked [⟨⟨1⟩, "monto:/a.c|ast.t", [.caret ⟨0, 0⟩]⟩] ∧
      (viewIn ⟨3⟩).selectLinked.2.host.active = some ⟨2⟩ ∧
      ¬ (viewIn ⟨3⟩).host.editors.contains ⟨2⟩ := by
  decide

end Desk

end LinkedViews
