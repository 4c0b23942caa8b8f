import Mathlib.Data.List.Nodup
import LinkedViews.Proofs.Desk.Delivery
import LinkedViews.Proofs.Host.Sight

/-!
What an outcome says of the editors.

The writes that are told are those that were made: each of them to another editor, which has
the selections written. No other editor has new selections, and a report is queued for each
write that changed what its editor had, in the order of the writes. Where no writes are told,
nothing was written.

This is of a host in which every open editor has a number that was given out, as it is in any
that was built from the empty one. With a number to be given out for the second time, showing
a document would replace an open editor.
-/

namespace LinkedViews

namespace MemoryHost

variable {h h' : MemoryHost} {e : EditorId} {writes : List Written} {uri : String}

/-- What an editor has before a write; one that is opened for it has the caret at the start. -/
def heldBy (h : MemoryHost) (e : EditorId) : List Selection :=
  ((h.editor? e).map OpenEditor.selections).getD [.caret ⟨0, 0⟩]

lemma heldBy_of_open (hopen : h.editors.contains e) : h.heldBy e = Host.selections h e := by
  obtain ⟨editor, hget⟩ := Option.isSome_iff_exists.mp hopen
  have hget : h.editor? e = some editor := hget
  rw [heldBy, selections_eq, hget]; rfl

lemma Numbered.editor?_nextEditor (hn : h.Numbered) : h.editor? h.nextEditor = none :=
  Option.not_isSome_iff_eq_none.mp fun hopen => UInt64.lt_irrefl _ (hn _ hopen)

/-- A document is shown in an editor with what it had before, if it had been open. -/
lemma selections_display_fst (hn : h.Numbered) (uri : String) (mode : DisplayMode) :
    Host.selections (h.display uri mode).2 (h.display uri mode).1 =
      h.heldBy (h.display uri mode).1 := by
  rcases display_cases h uri mode with ⟨heditors, -, editor, hget, -⟩ | ⟨heditors, -, hfst⟩
  · rw [heldBy_of_open (Option.isSome_iff_exists.mpr ⟨editor, hget⟩), selections_eq,
      selections_eq, editor?, heditors]
    rfl
  · rw [hfst, heldBy, hn.editor?_nextEditor, selections_eq, editor?, heditors,
      SortedMap.get?_insert_self]
    rfl

/-- The writes were made, and nothing else was done to selections. -/
structure Faithful (h : MemoryHost) (writes : List Written) (h' : MemoryHost) : Prop where
  distinct : (writes.map Written.editor).Nodup
  written : ∀ w ∈ writes, Host.uri? h' w.editor = some w.uri ∧
    Host.selections h' w.editor = w.selections
  shown : ∀ e, h.editors.contains e → Host.uri? h' e = Host.uri? h e
  kept : ∀ e, h.editors.contains e → (∀ w ∈ writes, w.editor ≠ e) →
    Host.selections h' e = Host.selections h e
  reports : h'.reports = h.reports ++
    (writes.filter fun w => h.heldBy w.editor ≠ w.selections).map fun w =>
      ⟨w.editor, w.selections⟩

namespace Faithful

lemma refl (h : MemoryHost) : Faithful h [] h where
  distinct := .nil
  written _ hw := by cases hw
  shown _ _ := rfl
  kept _ _ _ := rfl
  reports := (List.append_nil _).symm

/-- Showing a document touches no editor but a new one. -/
lemma display (hf : Faithful h writes h') (uri : String) (mode : DisplayMode)
    (hopen : ∀ e, h.editors.contains e → e ≠ h'.nextEditor)
    (hwrites : ∀ w ∈ writes, w.editor ≠ h'.nextEditor) :
    Faithful h writes (h'.display uri mode).2 := by
  have hsame : ∀ e, e ≠ h'.nextEditor → (h'.display uri mode).2.editor? e = h'.editor? e :=
    fun e hne => editor?_display_of_ne hne
  refine ⟨hf.distinct, fun w hw => ?_, fun e he => ?_, fun e he hne => ?_, ?_⟩
  · rw [uri?_eq, selections_eq, hsame _ (hwrites w hw)]
    exact hf.written w hw
  · rw [uri?_eq, hsame e (hopen e he)]
    exact hf.shown e he
  · rw [selections_eq, hsame e (hopen e he)]
    exact hf.kept e he hne
  · rw [reports_display]
    exact hf.reports

/-- One more write, to an editor that has what it had at the start. -/
lemma writeArmed (hf : Faithful h writes h') (huri : Host.uri? h' e = some uri)
    (hheld : Host.selections h' e = h.heldBy e) (hnew : ∀ w ∈ writes, w.editor ≠ e) (l : Latch)
    (selections : List Selection) :
    Faithful h (writes ++ [⟨e, uri, selections⟩]) (writeArmed h' e l selections).host := by
  have hs := sameDocuments_writeArmed h' e l selections
  have hselections := selections_writeArmed l selections (isOpen_of_uri? huri)
  refine ⟨?_, fun w hw => ?_, fun e' he' => ?_, fun e' he' hne => ?_, ?_⟩
  · rw [List.map_append, List.nodup_append]
    refine ⟨hf.distinct, List.nodup_singleton _, fun a ha b hb => ?_⟩
    obtain ⟨w, hw, rfl⟩ := List.mem_map.mp ha
    exact List.mem_singleton.mp hb ▸ hnew w hw
  · rw [hs.uri?, hselections]
    rcases List.mem_append.mp hw with hw | hw
    · rw [if_neg (hnew w hw)]
      exact hf.written w hw
    · rw [List.mem_singleton.mp hw, if_pos rfl]
      exact ⟨huri, rfl⟩
  · rw [hs.uri?]
    exact hf.shown e' he'
  · rw [hselections, if_neg (Ne.symm (hne ⟨e, uri, selections⟩
      (List.mem_append_right _ (List.mem_singleton.mpr rfl))))]
    exact hf.kept e' he' fun w hw => hne w (List.mem_append_left _ hw)
  · rw [List.filter_append, List.map_append, ← List.append_assoc, ← hf.reports,
      List.filter_cons, List.filter_nil, ← hheld]
    rcases writeArmed_changes h' e l selections with ⟨-, hne, -, hreports⟩ | ⟨hsame, -, hreports⟩
    · rw [hreports, decide_eq_true hne]; rfl
    · rw [hreports, decide_eq_false (not_not.mpr (hsame (isOpen_of_uri? huri)))]
      exact (List.append_nil _).symm

end Faithful

lemma kept_panels (panels : SortedMap PanelId Panel) :
    Host.Kept fun h : MemoryHost => h.panels = panels where
  write h e selections hp := (panels_write h e selections).1.trans hp
  scrollTo _ _ _ hp := hp
  display h uri mode hp := (panels_display h uri mode).1.trans hp

end MemoryHost

/-! ### Outcomes -/

def Outcome.writes : Outcome → List Written
  | .linked writes => writes
  | .echo => []
  | .unlinked => []

namespace Desk

open MemoryHost

variable {d d' : Desk MemoryHost} {h : MemoryHost} {t : Target}

namespace Progress

lemma writes_outcome {H : Type} [Host H] (p : Progress H) : p.outcome.writes = p.writes := by
  unfold outcome
  split
  · rfl
  · rename_i hempty
    have hnil : p.writes = [] := List.isEmpty_iff.mp (not_not.mp hempty)
    split <;> exact hnil.symm

lemma ne_nil_of_outcome {p : Progress MemoryHost} {writes : List Written}
    (ho : p.outcome = .linked writes) : writes ≠ [] := by
  unfold outcome at ho
  split at ho
  · rename_i hsome
    rw [← Outcome.linked.inj ho]
    exact fun hnil => hsome (List.isEmpty_iff.mpr hnil)
  · split at ho <;> cases ho

variable (s : Source) (e : EditorId) (selections : List Selection) (isReport : Bool)

/-- A step writes to its view, or nowhere. -/
lemma faithful_step {p : Progress MemoryHost} {view : VisibleEditor} (hn : h.Numbered)
    (hg : Grown h p.desk.host) (hf : Faithful h p.writes p.desk.host)
    (hopen : ∀ w ∈ p.writes, h.editors.contains w.editor)
    (hview : Host.uri? h view.id = some view.uri) (hnew : ∀ w ∈ p.writes, w.editor ≠ view.id) :
    Faithful h (p.step s e selections isReport view).writes
        (p.step s e selections isReport view).desk.host ∧
      ((p.step s e selections isReport view).writes = p.writes ∨
        ∃ mapped, (p.step s e selections isReport view).writes =
          p.writes ++ [⟨view.id, view.uri, mapped⟩]) := by
  rcases step_cases s e selections isReport p view with
    ⟨-, hstep⟩ | ⟨t, -, ⟨-, -, hstep⟩ | ⟨-, -, hstep⟩ | ⟨-, mapped, -, -, hstep⟩⟩
  · rw [hstep]
    exact ⟨hf, .inl rfl⟩
  · rw [hstep]
    exact ⟨hf, .inl rfl⟩
  · rw [hstep]
    exact ⟨hf, .inl rfl⟩
  · rw [hstep]
    have hfar : ∀ e, h.editors.contains e → e ≠ p.desk.host.nextEditor :=
      fun e he => ne_nextEditor (UInt64.lt_of_lt_of_le (hn e he) hg.nextEditor)
    -- the view may have been focused first, which may have opened another editor
    have hfocused : Faithful h p.writes (if isReport then p else p.focus view).desk.host := by
      cases isReport with
      | true => exact hf
      | false =>
        exact hf.display view.uri ⟨(p.desk.session.place view.uri .product).1, false, false⟩ hfar
          fun w hw => hfar _ (hopen w hw)
    have hwrites : (if isReport then p else p.focus view).writes = p.writes := by
      cases isReport <;> rfl
    have hviewOpen : h.editors.contains view.id := isOpen_of_uri? hview
    have hheld : Host.selections (if isReport then p else p.focus view).desk.host view.id =
        h.heldBy view.id :=
      (hfocused.kept view.id hviewOpen hnew).trans (heldBy_of_open hviewOpen).symm
    have hwritten := hfocused.writeArmed ((hfocused.shown view.id hviewOpen).trans hview) hheld
      hnew ((if isReport then p else p.focus view).desk.session.latchesOf t).view mapped
    have happend : ((if isReport then p else p.focus view).write t view mapped).writes =
        p.writes ++ [⟨view.id, view.uri, mapped⟩] := by
      rw [← hwrites]; rfl
    exact ⟨happend ▸ hwritten, .inr ⟨mapped, happend⟩⟩

lemma faithful_foldl (hn : h.Numbered) (views : List VisibleEditor)
    (hviews : ∀ v ∈ views, Host.uri? h v.id = some v.uri) {p : Progress MemoryHost}
    (hg : Grown h p.desk.host) (hf : Faithful h p.writes p.desk.host)
    (hopen : ∀ w ∈ p.writes, h.editors.contains w.editor)
    (hnodup : (p.writes.map Written.editor ++ views.map VisibleEditor.id).Nodup) :
    Faithful h (views.foldl (step s e selections isReport) p).writes
      (views.foldl (step s e selections isReport) p).desk.host := by
  -- a view that was written to is none of those to come, each of which has what it had
  induction views generalizing p with
  | nil => exact hf
  | cons view views ih =>
    have hview := hviews view List.mem_cons_self
    have hnew : ∀ w ∈ p.writes, w.editor ≠ view.id := fun w hw =>
      (List.nodup_append.mp hnodup).2.2 _ (List.mem_map_of_mem hw) _ List.mem_cons_self
    obtain ⟨hstep, hwrites⟩ :=
      faithful_step s e selections isReport hn hg hf hopen hview hnew
    refine ih (fun v hv => hviews v (List.mem_cons_of_mem _ hv))
      ((kept_grown hn).step hg s e selections isReport view) hstep ?_ ?_
    · rcases hwrites with hsame | ⟨mapped, hmore⟩
      · rwa [hsame]
      · rw [hmore]
        intro w hw
        rcases List.mem_append.mp hw with hw | hw
        · exact hopen w hw
        · rw [List.mem_singleton.mp hw]
          exact isOpen_of_uri? hview
    · rcases hwrites with hsame | ⟨mapped, hmore⟩
      · rw [hsame]
        exact hnodup.sublist (List.Sublist.append_left (List.sublist_cons_self _ _) _)
      · rw [hmore, List.map_append, List.append_assoc]
        exact hnodup

end Progress

/-- What an outcome says was done, and nothing else was done to editors, products, the tree,
settings or panels. -/
structure FaithfulTo (o : Outcome) (d d' : Desk MemoryHost) : Prop where
  linked : ∀ writes, o = .linked writes → writes ≠ []
  host : Faithful d.host o.writes d'.host
  session : Session.Undisturbed d.session d'.session
  panels : d'.host.panels = d.host.panels

lemma faithfulTo_unlinked (d : Desk MemoryHost) : FaithfulTo .unlinked d d where
  linked _ ho := by cases ho
  host := .refl d.host
  session := .refl d.session
  panels := rfl

lemma faithfulTo_spread (hn : d.host.Numbered) (e : EditorId) (uri : String)
    (selections : List Selection) (isReport : Bool) :
    FaithfulTo (d.spread e uri selections isReport).1 d
      (d.spread e uri selections isReport).2 where
  linked _ ho := Progress.ne_nil_of_outcome ho
  host := by
    have hfold := Progress.faithful_foldl (Source.parse uri) e selections isReport hn
      (Host.visible d.host) (fun _ hv => uri?_of_mem_visible hv) (p := ⟨d, [], false⟩)
      (.refl _) (.refl _) (fun _ hw => by cases hw) (nodup_visible d.host)
    rw [← Progress.writes_outcome] at hfold
    exact hfold
  session := undisturbed_spread d e uri selections isReport
  panels := (kept_panels d.host.panels).spread rfl e uri selections isReport

/-- What comes of the report of a view is an echo, nothing, or one write to the source. -/
lemma traceBack_fst {d₁ : Desk MemoryHost} {dest : EditorId} (e : EditorId)
    (selections : List Selection)
    (hdisplay : d.display t.source.uri .source true = (some dest, d₁)) :
    (d.traceBack e t selections).1 =
      if 0 < d.session.viewEchoes t then .echo
      else if carried d₁.host (d₁.session.product t) .reverse e selections dest = [] then .unlinked
      else .linked [⟨dest, t.source.uri,
        carried d₁.host (d₁.session.product t) .reverse e selections dest⟩] := by
  have hlatches : d₁.session.latchesOf = d.session.latchesOf :=
    congrArg (fun shown => shown.2.session.latchesOf) hdisplay.symm
  unfold traceBack
  rw [hdisplay]
  simp only [hlatches, Session.isArmed_view_iff]
  split
  · rfl
  · rcases carried d₁.host (d₁.session.product t) .reverse e selections dest with _ | ⟨a, rest⟩
    · rfl
    · rfl

lemma faithfulTo_traceBack (hn : d.host.Numbered) (e : EditorId) (t : Target)
    (selections : List Selection) :
    FaithfulTo (d.traceBack e t selections).1 d (d.traceBack e t selections).2 := by
  obtain ⟨dest, hdest, -⟩ := display_fst d t.source.uri .source true
  have hdisplay : d.display t.source.uri .source true =
      (some dest, (d.display t.source.uri .source true).2) := Prod.ext hdest rfl
  have hshown : Faithful d.host [] (d.display t.source.uri .source true).2.host :=
    (Faithful.refl d.host).display t.source.uri
      ⟨(d.session.place t.source.uri .source).1, true, false⟩
      (fun e he => ne_nextEditor (hn e he)) fun _ hw => by cases hw
  have hheld : Host.selections (d.display t.source.uri .source true).2.host dest =
      d.host.heldBy dest := by
    rw [← Option.some.inj hdest]
    exact selections_display_fst hn t.source.uri _
  have hnext := (showed_display d t.source.uri .source true).nextEditor
  have hfst := traceBack_fst e selections hdisplay
  have hcases := traceBack_of_display e selections hdisplay
  have hagain := selections_display_again hdisplay false dest
  have huri := uri?_display_again hdisplay false
  have hsession := undisturbed_traceBack d e t selections
  have hpanels := (kept_panels d.host.panels).traceBack rfl e t selections
  generalize (d.display t.source.uri .source true).2 = d₁ at *
  refine ⟨fun writes ho => ?_, ?_, hsession, hpanels⟩
  · rw [hfst] at ho
    split at ho
    · cases ho
    · split at ho
      · cases ho
      · rw [← Outcome.linked.inj ho]
        exact List.cons_ne_nil _ _
  · rw [hfst]
    rcases hcases with ⟨hpos, hhost, -⟩ | ⟨hzero, hnil, hsame⟩ | ⟨hzero, hcons, hhost, -⟩
    · rw [if_pos hpos, hhost]
      exact hshown
    · rw [if_neg (Nat.not_lt.mpr (Nat.le_of_eq hzero)), if_pos hnil, hsame]
      exact hshown
    · rw [if_neg (Nat.not_lt.mpr (Nat.le_of_eq hzero)), if_neg hcons, hhost]
      have hfocused : Faithful d.host [] (d₁.display t.source.uri .source false).2.host :=
        hshown.display t.source.uri ⟨(d₁.session.place t.source.uri .source).1, false, false⟩
          (fun e he => ne_nextEditor (UInt64.lt_of_lt_of_le (hn e he) hnext))
          fun _ hw => by cases hw
      exact hfocused.writeArmed huri (hagain.trans hheld) (fun _ hw => by cases hw) _ _

lemma faithfulTo_selectionReported (hn : d.host.Numbered) {e : EditorId}
    {selections : List Selection} {o : Outcome}
    (hok : d.selectionReported e selections = .ok (o, d')) : FaithfulTo o d d' := by
  cases hshown : d.host.shown e with
  | nothing =>
    rcases selectionReported_of_nothing (r := ⟨e, selections⟩) hshown with hnone | ⟨err, herr⟩
    · cases hnone.symm.trans hok
      exact faithfulTo_unlinked d
    · cases herr.symm.trans hok
  | view t =>
    have hview := selectionReported_of_view (r := ⟨e, selections⟩) hshown
    obtain ⟨rfl, rfl⟩ := Prod.ext_iff.mp (Except.ok.inj (hview.symm.trans hok))
    exact faithfulTo_traceBack hn e t selections
  | document =>
    obtain ⟨uri, huri, hproduct⟩ := shown_eq_document_iff.mp hshown
    have hdocument := selectionReported_of_document (r := ⟨e, selections⟩) huri hproduct
    obtain ⟨rfl, rfl⟩ := Prod.ext_iff.mp (Except.ok.inj (hdocument.symm.trans hok))
    exact faithfulTo_spread hn e uri selections true

lemma faithfulTo_selectLinked (hn : d.host.Numbered) :
    FaithfulTo d.selectLinked.1 d d.selectLinked.2 := by
  unfold selectLinked
  split
  · exact faithfulTo_unlinked d
  · split
    · exact faithfulTo_unlinked d
    · exact faithfulTo_spread hn _ _ _ false

/-- A report is refused exactly if its editor has a product uri without a bar. -/
lemma selectionReported_error_iff (d : Desk MemoryHost) (e : EditorId)
    (selections : List Selection) :
    (∃ err, d.selectionReported e selections = .error err) ↔
      ∃ rest, Host.uri? d.host e = some (productScheme ++ rest) ∧ '|' ∉ rest.toList := by
  unfold selectionReported
  cases huri : Host.uri? d.host e with
  | none => simp
  | some uri =>
    cases hrest : Text.rest? productScheme uri with
    | none =>
      have hno : ∀ rest, uri ≠ productScheme ++ rest := fun rest heq => by
        rw [Text.rest?_eq_some_iff.mpr heq] at hrest
        cases hrest
      simp [isProductUri, hrest, hno]
    | some name =>
      obtain rfl := Text.rest?_eq_some_iff.mp hrest
      by_cases hbar : '|' ∈ name.toList
      · simp [isProductUri, Target.parse, hrest, hbar, Except.map]
      · simp [isProductUri, Target.parse, hrest, hbar, Except.map]

/-- **An outcome tells what was written.** A report is refused exactly if its editor has a
product uri without a bar, and then nothing changes. Whatever else comes of a report, and of
the command, is told by the outcome: the editors that were written to are those listed, each
once and with the selections it has now, and a report is queued for each one of them that had
others. The numbers of the open editors have to be below the one that is given out next, as they
are in every host that was built from the empty one and has a number left
(`MemoryHost.Built.issued`). -/
theorem outcome_faithful (hn : d.host.Numbered) :
    (∀ e selections,
      ((∃ err, d.selectionReported e selections = .error err) ↔
        ∃ rest, Host.uri? d.host e = some (productScheme ++ rest) ∧ '|' ∉ rest.toList) ∧
      ((∃ err, d.selectionReported e selections = .error err) →
        d.deliver ⟨e, selections⟩ = d) ∧
      ∀ o d', d.selectionReported e selections = .ok (o, d') → FaithfulTo o d d') ∧
    FaithfulTo d.selectLinked.1 d d.selectLinked.2 := by
  refine ⟨fun e selections => ⟨selectionReported_error_iff d e selections, ?_, fun o d' hok =>
    faithfulTo_selectionReported hn hok⟩, faithfulTo_selectLinked hn⟩
  rintro ⟨err, herr⟩
  unfold deliver
  rw [herr]

/-- Two carets at the start of a document, of which a view of it had one. -/
theorem outcome_faithful_pair :
    let d : Desk MemoryHost := ⟨.new .initial, pair⟩
    pair.Numbered ∧ ∃ d', d.selectionReported ⟨0⟩ [.caret ⟨0, 0⟩, .caret ⟨0, 0⟩] =
      .ok (.linked [⟨⟨1⟩, "monto:/a.c|ast.t", [.caret ⟨0, 0⟩, .caret ⟨0, 0⟩]⟩], d') ∧
      FaithfulTo (.linked [⟨⟨1⟩, "monto:/a.c|ast.t", [.caret ⟨0, 0⟩, .caret ⟨0, 0⟩]⟩]) d d' := by
  intro d
  have hreported : d.selectionReported ⟨0⟩ [.caret ⟨0, 0⟩, .caret ⟨0, 0⟩] =
      .ok (.linked [⟨⟨1⟩, "monto:/a.c|ast.t", [.caret ⟨0, 0⟩, .caret ⟨0, 0⟩]⟩],
        (d.spread ⟨0⟩ "file:///a.c" [.caret ⟨0, 0⟩, .caret ⟨0, 0⟩] true).2) := by
    have huri : Host.uri? d.host ⟨0⟩ = some "file:///a.c" := by decide
    have hdocument := selectionReported_of_document
      (r := ⟨⟨0⟩, [.caret ⟨0, 0⟩, .caret ⟨0, 0⟩]⟩) huri (by decide)
    refine hdocument.trans (congrArg Except.ok (Prod.ext ?_ rfl))
    decide
  have hn : d.host.Numbered := issued_pair.numbered
  exact ⟨hn, _, hreported, ((outcome_faithful hn).1 _ _).2.2 _ _ hreported⟩

end Desk

end LinkedViews
