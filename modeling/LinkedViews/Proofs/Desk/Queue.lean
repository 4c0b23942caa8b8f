import LinkedViews.Proofs.Desk.Delivery

/-!
A delivery does not look into the queue.

What comes of a report, and what the session queues for it, is the same whatever was queued
before. So the reports of a delivery come behind those that are queued, and each delivery can
be judged with any other reports in the queue, or with none.
-/

namespace LinkedViews

/-- The host with some reports queued before its own. -/
def MemoryHost.behind (h : MemoryHost) (first : List Report) : MemoryHost :=
  { h with reports := first ++ h.reports }

namespace MemoryHost

lemma select_behind (h : MemoryHost) (first : List Report) (e : EditorId)
    (selections : List Selection) :
    (h.behind first).select e selections = (h.select e selections).behind first := by
  have hopen : (h.behind first).editors.contains e = h.editors.contains e := rfl
  unfold select
  rw [hopen]
  split
  · simp only [behind, List.append_assoc]
  · rfl

lemma write_behind (h : MemoryHost) (first : List Report) (e : EditorId)
    (selections : List Selection) :
    Host.write (h.behind first) e selections =
      ((Host.write h e selections).1, (Host.write h e selections).2.behind first) := by
  have hwrite : ∀ h : MemoryHost, Host.write h e selections = h.write e selections := fun _ => rfl
  have heditor : (h.behind first).editor? e = h.editor? e := rfl
  rw [hwrite, hwrite, write, write, heditor]
  cases h.editor? e with
  | none => rfl
  | some editor =>
    simp only
    split
    · rfl
    · rw [select_behind]

lemma writeArmed_behind (h : MemoryHost) (first : List Report) (e : EditorId) (l : Latch)
    (selections : List Selection) :
    writeArmed (h.behind first) e l selections =
      ⟨(writeArmed h e l selections).echoes, (writeArmed h e l selections).latch,
        (writeArmed h e l selections).host.behind first⟩ := by
  unfold writeArmed
  rw [write_behind]
  cases selections <;> rfl

lemma display_behind (h : MemoryHost) (first : List Report) (uri : String) (mode : DisplayMode) :
    (h.behind first).display uri mode =
      ((h.display uri mode).1, (h.display uri mode).2.behind first) := by
  have hfind : ∀ p, (h.behind first).findEditor? p = h.findEditor? p := fun _ => rfl
  unfold display
  rw [hfind]
  cases h.findEditor? fun editor => editor.uri = uri ∧ editor.column = mode.column with
  | some found =>
    have hactive : (h.behind first).active = h.active := rfl
    simp only [hactive]
    split <;> rfl
  | none =>
    have hactive : (h.behind first).active = h.active := rfl
    simp only [hactive]
    split <;> rfl

end MemoryHost

namespace Desk

open MemoryHost

/-- The desk with some reports queued before its own. -/
def behind (d : Desk MemoryHost) (first : List Report) : Desk MemoryHost :=
  { d with host := d.host.behind first }

variable (d : Desk MemoryHost) (first : List Report)

lemma display_behind (uri : String) (role : Role) (keepFocus : Bool) :
    (d.behind first).display uri role keepFocus =
      ((d.display uri role keepFocus).1, (d.display uri role keepFocus).2.behind first) := by
  have hhost : Host.display (d.host.behind first) uri =
      fun mode => ((Host.display d.host uri mode).1,
        (Host.display d.host uri mode).2.behind first) := by
    funext mode
    exact congrArg (fun shown => (some shown.1, shown.2)) (d.host.display_behind first uri mode)
  unfold display behind
  rw [hhost]

/-- A desk on the way from view to view, with some reports queued before its own. -/
def Progress.behind (p : Progress MemoryHost) (first : List Report) : Progress MemoryHost :=
  { p with desk := p.desk.behind first }

lemma Progress.write_behind (p : Progress MemoryHost) (t : Target) (view : VisibleEditor)
    (selections : List Selection) :
    (p.behind first).write t view selections = (p.write t view selections).behind first := by
  have harmed := p.desk.host.writeArmed_behind first view.id (p.desk.session.latchesOf t).view
    selections
  have hhost : (p.behind first).desk.host = p.desk.host.behind first := rfl
  have hsession : (p.behind first).desk.session = p.desk.session := rfl
  unfold Progress.write
  simp only [hhost, hsession, harmed]
  rfl

lemma Progress.focus_behind (p : Progress MemoryHost) (view : VisibleEditor) :
    (p.behind first).focus view = (p.focus view).behind first := by
  have hshown := p.desk.display_behind first view.uri .product false
  have hdesk : (p.behind first).desk = p.desk.behind first := rfl
  unfold Progress.focus
  rw [hdesk, hshown]; rfl

lemma step_behind (p : Progress MemoryHost) (s : Source) (e : EditorId)
    (selections : List Selection) (isReport : Bool) (view : VisibleEditor) :
    (p.behind first).step s e selections isReport view =
      (p.step s e selections isReport view).behind first := by
  have hsession : (p.behind first).desk.session = p.desk.session := rfl
  have hcarried : ∀ product, carried (p.behind first).desk.host product .forward e selections
      view.id = carried p.desk.host product .forward e selections view.id := fun _ => rfl
  unfold Progress.step
  cases view.targetFrom? s with
  | none => rfl
  | some t =>
    simp only [hsession, hcarried]
    split
    · rfl
    · split
      · rfl
      · cases isReport with
        | true => exact p.write_behind first t view _
        | false =>
          rw [if_neg Bool.false_ne_true, if_neg Bool.false_ne_true, Progress.focus_behind]
          exact (p.focus view).write_behind first t view _

lemma foldl_behind (s : Source) (e : EditorId) (selections : List Selection) (isReport : Bool)
    (views : List VisibleEditor) (p : Progress MemoryHost) :
    views.foldl (Progress.step s e selections isReport) (p.behind first) =
      (views.foldl (Progress.step s e selections isReport) p).behind first := by
  induction views generalizing p with
  | nil => rfl
  | cons view views ih => rw [List.foldl_cons, List.foldl_cons, step_behind, ih]

lemma spread_behind (e : EditorId) (uri : String) (selections : List Selection)
    (isReport : Bool) :
    (d.behind first).spread e uri selections isReport =
      ((d.spread e uri selections isReport).1,
        (d.spread e uri selections isReport).2.behind first) := by
  have hfold := foldl_behind first (.parse uri) e selections isReport (Host.visible d.host)
    ⟨d, [], false⟩
  have hstart : (⟨d.behind first, [], false⟩ : Progress MemoryHost) =
      Progress.behind ⟨d, [], false⟩ first := rfl
  have hvisible : Host.visible (d.behind first).host = Host.visible d.host := rfl
  unfold spread
  rw [hvisible, hstart, hfold]; rfl

lemma traceBack_behind (e : EditorId) (t : Target) (selections : List Selection) :
    (d.behind first).traceBack e t selections =
      ((d.traceBack e t selections).1, (d.traceBack e t selections).2.behind first) := by
  unfold traceBack
  rw [display_behind]
  rcases d.display t.source.uri .source true with ⟨_ | dest, d₁⟩
  · rfl
  · have hsession : (d₁.behind first).session = d₁.session := rfl
    have hcarried : ∀ product, carried (d₁.behind first).host product .reverse e selections dest =
        carried d₁.host product .reverse e selections dest := fun _ => rfl
    simp only [hsession, hcarried]
    split
    · rfl
    · split
      · rfl
      · have hhost : ∀ d : Desk MemoryHost, (d.behind first).host = d.host.behind first :=
          fun _ => rfl
        simp only [display_behind, hhost, writeArmed_behind]
        rfl

lemma selectionReported_behind (e : EditorId) (selections : List Selection) :
    (d.behind first).selectionReported e selections =
      (d.selectionReported e selections).map fun done => (done.1, done.2.behind first) := by
  have huri : Host.uri? (d.behind first).host e = Host.uri? d.host e := rfl
  unfold selectionReported
  rw [huri]
  cases Host.uri? d.host e with
  | none => rfl
  | some uri =>
    simp only
    split
    · cases Target.parse uri with
      | error err => rfl
      | ok t => exact congrArg Except.ok (d.traceBack_behind first e t selections)
    · exact congrArg Except.ok (d.spread_behind first e uri selections true)

/-- **What is queued does not matter to a delivery**: the reports that it leads to come
behind. -/
theorem deliver_behind (r : Report) :
    (d.behind first).deliver r = (d.deliver r).behind first := by
  unfold deliver
  rw [selectionReported_behind]
  cases d.selectionReported r.editor r.selections <;> rfl

lemma behind_withReports :
    (d.withReports []).behind first = d.withReports first := by
  unfold Desk.behind MemoryHost.behind withReports
  simp only [List.append_nil]

/-- Behind any queue a delivery queues the same reports. -/
lemma deliver_withReports (r : Report) :
    (d.withReports first).deliver r = ((d.withReports []).deliver r).behind first := by
  rw [← behind_withReports, deliver_behind]

end Desk

end LinkedViews
