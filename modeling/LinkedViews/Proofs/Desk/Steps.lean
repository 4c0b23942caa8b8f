import Mathlib.Logic.Function.Basic
import LinkedViews.Proofs.Host.Shown

/-!
The steps in which the reports of a memory host are worked off.

For each step: what it does to the echoes that the latches await, to the reports, and to the
uris of the editors. Everything about whole runs is derived from these lemmas.
-/

namespace LinkedViews

open Function

/-! ### Awaited echoes -/

/-- An echo that is awaited and comes leaves the others awaited. -/
lemma update_pred_update_succ (echoes : Target → Nat) (t : Target) :
    update (update echoes t (echoes t + 1)) t (update echoes t (echoes t + 1) t - 1) = echoes := by
  rw [update_self, update_idem, Nat.add_sub_cancel, update_eq_self]

namespace Session

variable {s : Session} {t : Target}

/-- How many reports of its views a target takes for echoes. -/
def viewEchoes (s : Session) (t : Target) : Nat := (s.latchesOf t).view.pending

/-- How many reports of its source a target takes for echoes. -/
def sourceEchoes (s : Session) (t : Target) : Nat := (s.latchesOf t).source.pending

lemma latchesOf_setLatches (s : Session) (t : Target) (l : Latches) :
    (s.setLatches t l).latchesOf = update s.latchesOf t l := by
  funext t'
  rw [latchesOf, setLatches, SortedMap.get?_insert, update_apply]
  split <;> rfl

lemma latchesOf_new (settings : Settings) (t : Target) : (new settings).latchesOf t = .idle := rfl

variable {s' : Session} {l : Latches}

lemma viewEchoes_of_update (h : s'.latchesOf = update s.latchesOf t l) :
    s'.viewEchoes = update s.viewEchoes t l.view.pending := by
  funext t'
  rw [viewEchoes, h, update_apply, update_apply]
  split <;> rfl

lemma sourceEchoes_of_update (h : s'.latchesOf = update s.latchesOf t l) :
    s'.sourceEchoes = update s.sourceEchoes t l.source.pending := by
  funext t'
  rw [sourceEchoes, h, update_apply, update_apply]
  split <;> rfl

lemma isArmed_view_iff : (s.latchesOf t).view.isArmed ↔ 0 < s.viewEchoes t :=
  Latch.isArmed_iff_pending_pos

lemma isArmed_source_iff : (s.latchesOf t).source.isArmed ↔ 0 < s.sourceEchoes t :=
  Latch.isArmed_iff_pending_pos

/-- No latch is armed exactly if no echo is awaited. -/
lemma idle_iff : (∀ t, ¬ (s.latchesOf t).view.isArmed ∧ ¬ (s.latchesOf t).source.isArmed) ↔
    (∀ t, s.viewEchoes t = 0) ∧ ∀ t, s.sourceEchoes t = 0 := by
  simp only [isArmed_view_iff, isArmed_source_iff, Nat.pos_iff_ne_zero, not_not, forall_and]

end Session

namespace Desk

open MemoryHost

variable {d d' d'' : Desk MemoryHost} {t : Target}

/-! ### Documents on show -/

/-- Nothing happened but that documents with one uri were shown. -/
structure Showed (uri : String) (d d' : Desk MemoryHost) : Prop where
  latches : d'.session.latchesOf = d.session.latchesOf
  reports : d'.host.reports = d.host.reports
  nextEditor : d.host.nextEditor.number ≤ d'.host.nextEditor.number
  kept : ∀ e : EditorId, e.number < d.host.nextEditor.number →
    d'.host.editor? e = d.host.editor? e
  opened : ∀ e : EditorId, Host.uri? d'.host e = Host.uri? d.host e ∨
    (d.host.nextEditor.number ≤ e.number ∧ Host.uri? d'.host e = some uri)
  issued : d.host.Issued → d'.host.Lasting → d'.host.Issued

namespace Showed

variable {uri : String} {e : EditorId}

lemma refl (uri : String) (d : Desk MemoryHost) : Showed uri d d :=
  ⟨rfl, rfl, UInt64.le_refl _, fun _ _ => rfl, fun _ => .inl rfl, fun hissued _ => hissued⟩

lemma trans (h : Showed uri d d') (h' : Showed uri d' d'') : Showed uri d d'' where
  latches := h'.latches.trans h.latches
  reports := h'.reports.trans h.reports
  nextEditor := UInt64.le_trans h.nextEditor h'.nextEditor
  kept e he := (h'.kept e (UInt64.lt_of_lt_of_le he h.nextEditor)).trans (h.kept e he)
  opened e := by
    rcases h'.opened e with he' | ⟨hlt', he'⟩
    · rw [he']; exact h.opened e
    · exact .inr ⟨UInt64.le_trans h.nextEditor hlt', he'⟩
  issued hissued hlast := h'.issued (h.issued hissued (hlast.of_le h'.nextEditor)) hlast

lemma viewEchoes (h : Showed uri d d') : d'.session.viewEchoes = d.session.viewEchoes := by
  funext t
  rw [Session.viewEchoes, h.latches]; rfl

lemma sourceEchoes (h : Showed uri d d') : d'.session.sourceEchoes = d.session.sourceEchoes := by
  funext t
  rw [Session.sourceEchoes, h.latches]; rfl

lemma uri? (h : Showed uri d d') (he : e.number < d.host.nextEditor.number) :
    Host.uri? d'.host e = Host.uri? d.host e := by
  rw [uri?_eq, uri?_eq, h.kept e he]

lemma selections (h : Showed uri d d') (he : e.number < d.host.nextEditor.number) :
    Host.selections d'.host e = Host.selections d.host e := by
  rw [selections_eq, selections_eq, h.kept e he]

end Showed

lemma display_fst (d : Desk MemoryHost) (uri : String) (role : Role) (keepFocus : Bool) :
    ∃ e, (d.display uri role keepFocus).1 = some e ∧
      Host.uri? (d.display uri role keepFocus).2.host e = some uri :=
  ⟨_, rfl, uri?_display_fst _ _ _⟩

lemma showed_display (d : Desk MemoryHost) (uri : String) (role : Role) (keepFocus : Bool) :
    Showed uri d (d.display uri role keepFocus).2 where
  latches := rfl
  reports := reports_display d.host uri _
  nextEditor := nextEditor_le_display d.host uri _
  kept e he := editor?_display_of_ne (ne_nextEditor he)
  opened e := by
    rcases uri?_display d.host uri ⟨(d.session.place uri role).1, keepFocus, false⟩ e with he | he
    · exact .inl he
    · obtain ⟨rfl, he⟩ := he
      exact .inr ⟨UInt64.le_refl _, he⟩
  issued hissued hlast :=
    hissued.display (hlast.of_le (nextEditor_le_display d.host uri _)) uri _

lemma showed_of_display {uri : String} {role : Role} {keepFocus : Bool} {e : EditorId}
    (hdisplay : d.display uri role keepFocus = (some e, d')) :
    Showed uri d d' ∧ Host.uri? d'.host e = some uri := by
  have hshowed := showed_display d uri role keepFocus
  obtain ⟨e', he', huri⟩ := display_fst d uri role keepFocus
  rw [hdisplay] at hshowed he' huri
  exact ⟨hshowed, Option.some.inj he' ▸ huri⟩

/-- A document that is shown once more stays in its editor. -/
lemma selections_display_again {uri : String} {role : Role} {keepFocus : Bool} {e : EditorId}
    (hdisplay : d.display uri role keepFocus = (some e, d')) (keepFocus' : Bool) (e' : EditorId) :
    Host.selections (d'.display uri role keepFocus').2.host e' = Host.selections d'.host e' := by
  have hhost : d'.host =
      (d.host.display uri ⟨(d.session.place uri role).1, keepFocus, false⟩).2 :=
    congrArg (fun shown => shown.2.host) hdisplay.symm
  have hplacement : d'.session.placement = (d.session.placement.place uri role).2 :=
    congrArg (fun shown => shown.2.session.placement) hdisplay.symm
  obtain ⟨editor, hget, rfl, hcolumn⟩ := editor?_display_fst d.host uri
    ⟨(d.session.place uri role).1, keepFocus, false⟩
  rw [← hhost] at hget
  have hplace : (d'.session.place editor.uri role).1 = editor.column := by
    have hrecorded := d.session.placement.column?_place editor.uri role
    rw [hcolumn, Session.place, hplacement, Placement.place, hrecorded]; rfl
  have heditors := editors_display_of_found
    ⟨(d'.session.place editor.uri role).1, keepFocus', false⟩ hget hplace.symm
  rw [selections_eq, selections_eq, editor?, editor?]
  exact congrArg (fun editors => ((editors.get? e').map OpenEditor.selections).getD []) heditors

lemma uri?_display_again {uri : String} {role : Role} {keepFocus : Bool} {e : EditorId}
    (hdisplay : d.display uri role keepFocus = (some e, d')) (keepFocus' : Bool) :
    Host.uri? (d'.display uri role keepFocus').2.host e = some uri := by
  rcases (showed_display d' uri role keepFocus').opened e with hsame | ⟨-, hnew⟩
  · exact hsame.trans (showed_of_display hdisplay).2
  · exact hnew

lemma shown_of_showed (hs : Showed t.source.uri d d') (e : EditorId) :
    d'.host.shown e = d.host.shown e ∨
      (d.host.nextEditor.number ≤ e.number ∧ d'.host.shown e = .document) := by
  rcases hs.opened e with hsame | ⟨hle, hnew⟩
  · exact .inl (shown_congr hsame)
  · exact .inr ⟨hle, shown_of_document hnew t.source.not_isProductUri_uri⟩

lemma view_of_showed (hs : Showed t.source.uri d d') {e : EditorId} {t' : Target}
    (hshown : d'.host.shown e = .view t') : d.host.shown e = .view t' := by
  rcases shown_of_showed hs e with hsame | ⟨-, hnew⟩
  · rw [← hsame, hshown]
  · rw [hnew] at hshown
    cases hshown

/-- Showing a source opens no view and closes none. -/
lemma view_iff_of_showed (hs : Showed t.source.uri d d') (hissued : d.host.Issued) (e : EditorId)
    (t' : Target) : d'.host.shown e = .view t' ↔ d.host.shown e = .view t' := by
  refine ⟨view_of_showed hs, fun hshown => ?_⟩
  rw [shown_congr (hs.uri? (hissued.opened e (isOpen_of_shown hshown))), hshown]

/-! ### Queued reports -/

/-- What the queued reports are about. -/
def queue (d : Desk MemoryHost) : List Shown := d.host.reports.map fun r => d.host.shown r.editor

lemma queue_congr (hreports : d'.host.reports = d.host.reports)
    (hshown : ∀ r ∈ d.host.reports, d'.host.shown r.editor = d.host.shown r.editor) :
    d'.queue = d.queue := by
  rw [queue, hreports]
  exact List.map_congr_left hshown

lemma queue_append {r : Report} (hs : SameDocuments d.host d'.host)
    (hreports : d'.host.reports = d.host.reports ++ [r]) :
    d'.queue = d.queue ++ [d.host.shown r.editor] := by
  rw [queue, hreports, List.map_append, List.map_singleton, hs.shown]
  congr 1
  exact List.map_congr_left fun r' _ => hs.shown r'.editor

/-! ### One view of a spread -/

namespace Progress

variable (s : Source) (e : EditorId) (selections : List Selection) (isReport : Bool)
  (p : Progress MemoryHost) (view : VisibleEditor)

lemma step_cases {H : Type} [Host H] (s : Source) (e : EditorId) (selections : List Selection)
    (isReport : Bool) (p : Progress H) (view : VisibleEditor) :
    (view.targetFrom? s = none ∧ p.step s e selections isReport view = p) ∨
    ∃ t, view.targetFrom? s = some t ∧
      ((isReport ∧ 0 < p.desk.session.sourceEchoes t ∧
          p.step s e selections isReport view = p.absorb t) ∨
        (¬ (isReport ∧ 0 < p.desk.session.sourceEchoes t) ∧
          carried p.desk.host (p.desk.session.product t) .forward e selections view.id = [] ∧
          p.step s e selections isReport view = p) ∨
        (¬ (isReport ∧ 0 < p.desk.session.sourceEchoes t) ∧
          ∃ mapped, mapped ≠ [] ∧
            carried p.desk.host (p.desk.session.product t) .forward e selections view.id =
              mapped ∧
            p.step s e selections isReport view =
              (if isReport then p else p.focus view).write t view mapped)) := by
  unfold step
  cases ht : view.targetFrom? s with
  | none => exact .inl ⟨rfl, rfl⟩
  | some t =>
    refine .inr ⟨t, rfl, ?_⟩
    simp only [Session.isArmed_source_iff]
    by_cases hecho : isReport ∧ 0 < p.desk.session.sourceEchoes t
    · exact .inl ⟨hecho.1, hecho.2, if_pos hecho⟩
    · rw [if_neg hecho]
      rcases hmapped : carried p.desk.host (p.desk.session.product t) .forward e selections
        view.id with _ | ⟨a, rest⟩
      · exact .inr (.inl ⟨hecho, rfl, rfl⟩)
      · exact .inr (.inr ⟨hecho, a :: rest, List.cons_ne_nil _ _, rfl, rfl⟩)

variable {s e selections isReport p view}

lemma latchesOf_absorb (p : Progress MemoryHost) (t : Target) :
    (p.absorb t).desk.session.latchesOf = update p.desk.session.latchesOf t
      { p.desk.session.latchesOf t with
        source := (p.desk.session.latchesOf t).source.absorb.2 } :=
  Session.latchesOf_setLatches ..

lemma latchesOf_write (p : Progress MemoryHost) (t : Target) (view : VisibleEditor)
    (selections : List Selection) :
    (p.write t view selections).desk.session.latchesOf = update p.desk.session.latchesOf t
      { p.desk.session.latchesOf t with
        view := (writeArmed p.desk.host view.id (p.desk.session.latchesOf t).view
          selections).latch } :=
  Session.latchesOf_setLatches ..

lemma viewEchoes_absorb (p : Progress MemoryHost) (t : Target) :
    (p.absorb t).desk.session.viewEchoes = p.desk.session.viewEchoes :=
  (Session.viewEchoes_of_update (latchesOf_absorb p t)).trans (update_eq_self t _)

lemma sourceEchoes_absorb (p : Progress MemoryHost) (t : Target) :
    (p.absorb t).desk.session.sourceEchoes =
      update p.desk.session.sourceEchoes t (p.desk.session.sourceEchoes t - 1) := by
  rw [Session.sourceEchoes_of_update (latchesOf_absorb p t), Latch.pending_absorb]; rfl

lemma sourceEchoes_write (p : Progress MemoryHost) (t : Target) (view : VisibleEditor)
    (selections : List Selection) :
    (p.write t view selections).desk.session.sourceEchoes = p.desk.session.sourceEchoes :=
  (Session.sourceEchoes_of_update (latchesOf_write p t view selections)).trans
    (update_eq_self t _)

lemma sameDocuments_write (p : Progress MemoryHost) (t : Target) (view : VisibleEditor)
    (selections : List Selection) :
    SameDocuments p.desk.host (p.write t view selections).desk.host :=
  sameDocuments_writeArmed _ _ (p.desk.session.latchesOf t).view _

variable (t selections p view) in
/-- A write to a view queues a report and arms the latch for it, or queues none. -/
lemma write_cases :
    (p.desk.host.editors.contains view.id ∧
      (p.write t view selections).desk.host.reports =
        p.desk.host.reports ++ [⟨view.id, selections⟩] ∧
      (p.write t view selections).desk.session.viewEchoes =
        update p.desk.session.viewEchoes t (p.desk.session.latchesOf t).view.arm.pending) ∨
    ((p.write t view selections).desk.host.reports = p.desk.host.reports ∧
      (p.write t view selections).desk.session.viewEchoes =
        update p.desk.session.viewEchoes t
          (p.desk.session.latchesOf t).view.arm.disarm.pending) := by
  have hset : (p.write t view selections).desk.session.viewEchoes =
      update p.desk.session.viewEchoes t
        (writeArmed p.desk.host view.id (p.desk.session.latchesOf t).view
          selections).latch.pending :=
    Session.viewEchoes_of_update (latchesOf_write p t view selections)
  rcases writeArmed_cases p.desk.host view.id (p.desk.session.latchesOf t).view selections with
    ⟨hopen, hlatch, hreports⟩ | ⟨hlatch, hreports⟩
  · exact .inl ⟨hopen, hreports, hlatch ▸ hset⟩
  · exact .inr ⟨hreports, hlatch ▸ hset⟩

variable (selections view) in
/-- With room in the latch, exactly the echo of the report is awaited in addition. -/
lemma write_cases_of_hasRoom (hroom : (p.desk.session.latchesOf t).view.HasRoom) :
    ((p.write t view selections).desk.host.reports =
        p.desk.host.reports ++ [⟨view.id, selections⟩] ∧
      (p.write t view selections).desk.session.viewEchoes =
        update p.desk.session.viewEchoes t (p.desk.session.viewEchoes t + 1)) ∨
    ((p.write t view selections).desk.host.reports = p.desk.host.reports ∧
      (p.write t view selections).desk.session.viewEchoes = p.desk.session.viewEchoes) := by
  have harm := Latch.pending_arm hroom
  rcases write_cases t selections p view with ⟨-, hreports, hview⟩ | ⟨hreports, hview⟩
  · rw [harm] at hview
    exact .inl ⟨hreports, hview⟩
  · rw [Latch.pending_disarm, harm, Nat.add_sub_cancel] at hview
    exact .inr ⟨hreports, hview.trans (update_eq_self t _)⟩

variable (s e selections) in
/-- A report that spreads opens no editor. -/
lemma sameDocuments_step (p : Progress MemoryHost) (view : VisibleEditor) :
    SameDocuments p.desk.host (p.step s e selections true view).desk.host := by
  rcases step_cases s e selections true p view with
    ⟨-, hstep⟩ | ⟨t, -, ⟨-, -, hstep⟩ | ⟨-, -, hstep⟩ | ⟨-, mapped, -, -, hstep⟩⟩
  · rw [hstep]; exact .refl _
  · rw [hstep]; exact .refl _
  · rw [hstep]; exact .refl _
  · rw [hstep, if_pos rfl]
    exact sameDocuments_write p t view mapped

variable (s e selections) in
lemma sameDocuments_foldl (views : List VisibleEditor) (p : Progress MemoryHost) :
    SameDocuments p.desk.host (views.foldl (step s e selections true) p).desk.host := by
  induction views generalizing p with
  | nil => exact .refl _
  | cons view views ih => exact (sameDocuments_step s e selections p view).trans (ih _)

variable (s e selections) in
/-- The reports of a spread are reports of views. -/
lemma reports_step {p : Progress MemoryHost} {view : VisibleEditor}
    (hview : Host.uri? p.desk.host view.id = some view.uri) :
    ∀ r ∈ (p.step s e selections true view).desk.host.reports,
      r ∈ p.desk.host.reports ∨ ∃ t, p.desk.host.shown r.editor = .view t := by
  intro r hr
  rcases step_cases s e selections true p view with
    ⟨-, hstep⟩ | ⟨t, ht, ⟨-, -, hstep⟩ | ⟨-, -, hstep⟩ | ⟨-, mapped, -, -, hstep⟩⟩
  · exact .inl (hstep ▸ hr)
  · rw [hstep] at hr; exact .inl hr
  · exact .inl (hstep ▸ hr)
  · rw [hstep, if_pos rfl] at hr
    rcases write_cases t mapped p view with ⟨-, hreports, -⟩ | ⟨hreports, -⟩
    · rw [hreports] at hr
      rcases List.mem_append.mp hr with hr | hr
      · exact .inl hr
      · rw [List.mem_singleton.mp hr]
        exact .inr ⟨t, shown_of_targetFrom? hview ht⟩
    · exact .inl (hreports ▸ hr)

variable (s e selections) in
lemma reports_foldl (views : List VisibleEditor) (p : Progress MemoryHost)
    (hviews : ∀ view ∈ views, Host.uri? p.desk.host view.id = some view.uri) :
    ∀ r ∈ (views.foldl (step s e selections true) p).desk.host.reports,
      r ∈ p.desk.host.reports ∨ ∃ t, p.desk.host.shown r.editor = .view t := by
  induction views generalizing p with
  | nil => exact fun r hr => .inl hr
  | cons view views ih =>
    intro r hr
    have hsame := sameDocuments_step s e selections p view
    have hrest := ih (p.step s e selections true view)
      (fun v hv => (hsame.uri? v.id).trans (hviews v (List.mem_cons_of_mem _ hv))) r hr
    rcases hrest with hr | ⟨t, ht⟩
    · exact reports_step s e selections (hviews view List.mem_cons_self) r hr
    · exact .inr ⟨t, (hsame.shown r.editor).symm.trans ht⟩

end Progress

lemma sameDocuments_spread (d : Desk MemoryHost) (e : EditorId) (uri : String)
    (selections : List Selection) :
    SameDocuments d.host (d.spread e uri selections true).2.host :=
  Progress.sameDocuments_foldl _ e selections (Host.visible d.host) ⟨d, [], false⟩

lemma reports_spread (d : Desk MemoryHost) (e : EditorId) (uri : String)
    (selections : List Selection) :
    ∀ r ∈ (d.spread e uri selections true).2.host.reports,
      r ∈ d.host.reports ∨ ∃ t, d.host.shown r.editor = .view t :=
  Progress.reports_foldl _ e selections (Host.visible d.host) ⟨d, [], false⟩
    fun _ hv => uri?_of_mem_visible hv

/-! ### One report -/

/-- What comes of the report of a view, with what is carried to the editor of the source. -/
lemma traceBack_of_display {d₁ : Desk MemoryHost} {dest : EditorId} (e : EditorId)
    (selections : List Selection)
    (hdisplay : d.display t.source.uri .source true = (some dest, d₁)) :
    let l := d.session.latchesOf t
    let d₂ := (d.traceBack e t selections).2
    let mapped := carried d₁.host (d₁.session.product t) .reverse e selections dest
    let written := writeArmed (d₁.display t.source.uri .source false).2.host dest l.source mapped
    (0 < d.session.viewEchoes t ∧ d₂.host = d₁.host ∧
      d₂.session.latchesOf = update d.session.latchesOf t { l with view := l.view.absorb.2 }) ∨
    (d.session.viewEchoes t = 0 ∧ mapped = [] ∧ d₂ = d₁) ∨
    (d.session.viewEchoes t = 0 ∧ mapped ≠ [] ∧ d₂.host = written.host ∧
      d₂.session.latchesOf = update d.session.latchesOf t { l with source := written.latch }) := by
  have hlatches : d₁.session.latchesOf = d.session.latchesOf :=
    congrArg (fun shown => shown.2.session.latchesOf) hdisplay.symm
  unfold traceBack
  rw [hdisplay]
  simp only [hlatches, Session.isArmed_view_iff]
  by_cases hecho : 0 < d.session.viewEchoes t
  · refine .inl ⟨hecho, ?_⟩
    rw [if_pos hecho]
    refine ⟨rfl, ?_⟩
    rw [Session.latchesOf_setLatches, hlatches]
  · have hnone : d.session.viewEchoes t = 0 := by omega
    rw [if_neg hecho]
    rcases hmapped : carried d₁.host (d₁.session.product t) .reverse e selections dest with
      _ | ⟨a, rest⟩
    · exact .inr (.inl ⟨hnone, rfl, rfl⟩)
    · -- the source is shown once more, now with the focus
      refine .inr (.inr ⟨hnone, List.cons_ne_nil _ _, rfl, ?_⟩)
      rw [Session.latchesOf_setLatches, (showed_display d₁ t.source.uri .source false).latches,
        hlatches]

/-- What comes of the report of a view: the source comes into sight, then the report is taken
for an echo, or nothing is carried, or selections are written to an editor of the source. -/
lemma traceBack_cases (d : Desk MemoryHost) (e : EditorId) (t : Target)
    (selections : List Selection) :
    ∃ d₁, Showed t.source.uri d d₁ ∧
      let l := d.session.latchesOf t
      let d₂ := (d.traceBack e t selections).2
      (0 < d.session.viewEchoes t ∧ d₂.host = d₁.host ∧
        d₂.session.latchesOf = update d.session.latchesOf t { l with view := l.view.absorb.2 }) ∨
      (d.session.viewEchoes t = 0 ∧ d₂ = d₁) ∨
      (d.session.viewEchoes t = 0 ∧
        ∃ dest mapped, Host.uri? d₁.host dest = some t.source.uri ∧
          let written := writeArmed d₁.host dest l.source mapped
          d₂.host = written.host ∧
          d₂.session.latchesOf =
            update d.session.latchesOf t { l with source := written.latch }) := by
  obtain ⟨dest, hdest, -⟩ := display_fst d t.source.uri .source true
  have hshowed := showed_display d t.source.uri .source true
  have hdisplay : d.display t.source.uri .source true =
      (some dest, (d.display t.source.uri .source true).2) := Prod.ext hdest rfl
  rcases traceBack_of_display e selections hdisplay with
    ⟨hpos, hhost, hlatches⟩ | ⟨hzero, -, hsame⟩ | ⟨hzero, -, hhost, hlatches⟩
  · exact ⟨_, hshowed, .inl ⟨hpos, hhost, hlatches⟩⟩
  · exact ⟨_, hshowed, .inr (.inl ⟨hzero, hsame⟩)⟩
  · have hagain := showed_display (d.display t.source.uri .source true).2 t.source.uri .source
      false
    exact ⟨_, hshowed.trans hagain, .inr (.inr ⟨hzero, dest, _,
      uri?_display_again hdisplay false, hhost, hlatches⟩)⟩

variable {r : Report}

/-- The report of an editor that shows nothing is of no use, or refused. -/
lemma selectionReported_of_nothing (hshown : d.host.shown r.editor = .nothing) :
    d.selectionReported r.editor r.selections = .ok (.unlinked, d) ∨
      ∃ err, d.selectionReported r.editor r.selections = .error err := by
  unfold selectionReported
  cases huri : Host.uri? d.host r.editor with
  | none => exact .inl rfl
  | some uri =>
    cases hproduct : isProductUri uri with
    | false =>
      rw [shown_of_document huri hproduct] at hshown
      cases hshown
    | true =>
      cases hparse : Target.parse uri with
      | error err =>
        simp only [hproduct, if_true, hparse]
        exact .inr ⟨err, rfl⟩
      | ok t =>
        rw [shown_of_view (huri.trans (congrArg some (Target.uri_of_parse hparse).symm))] at hshown
        cases hshown

lemma selectionReported_of_view (hshown : d.host.shown r.editor = .view t) :
    d.selectionReported r.editor r.selections = .ok (d.traceBack r.editor t r.selections) := by
  unfold selectionReported
  rw [shown_eq_view_iff.mp hshown]
  simp only [t.isProductUri_uri, if_true, t.parse_uri]
  rfl

lemma selectionReported_of_document {uri : String} (huri : Host.uri? d.host r.editor = some uri)
    (hproduct : isProductUri uri = false) :
    d.selectionReported r.editor r.selections =
      .ok (d.spread r.editor uri r.selections true) := by
  unfold selectionReported
  rw [huri]
  simp only [hproduct, Bool.false_eq_true, if_false]

lemma deliver_of_nothing (hshown : d.host.shown r.editor = .nothing) : d.deliver r = d := by
  unfold deliver
  rcases selectionReported_of_nothing hshown with hok | ⟨err, herror⟩
  · rw [hok]
  · rw [herror]

lemma deliver_of_view (hshown : d.host.shown r.editor = .view t) :
    d.deliver r = (d.traceBack r.editor t r.selections).2 := by
  unfold deliver
  rw [selectionReported_of_view hshown]

lemma deliver_of_document {uri : String} (huri : Host.uri? d.host r.editor = some uri)
    (hproduct : isProductUri uri = false) :
    d.deliver r = (d.spread r.editor uri r.selections true).2 := by
  unfold deliver
  rw [selectionReported_of_document huri hproduct]

end Desk

end LinkedViews
