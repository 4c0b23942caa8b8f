import LinkedViews.Proofs.Desk.Accounting
import LinkedViews.Session.Invalidation

/-!
Runs of a session and its host.

A run is made of what the user, the server and the editor do, in any order. Editors are not
closed in it, and every report reaches the session in its turn. Then the latches never await
more echoes than are on the way.
-/

namespace LinkedViews.Desk

open Function MemoryHost

variable {owedViews owedSources : Target → Nat} {d d' : Desk MemoryHost} {t : Target}

/-! ### Commands -/

section Command

variable (s : Source) (e : EditorId) (selections : List Selection) {p : Progress MemoryHost}
  {view : VisibleEditor}

/-- Editors keep their documents while a command spreads, and more may be opened. -/
lemma command_frame (p : Progress MemoryHost) (view : VisibleEditor) :
    p.desk.host.nextEditor.number ≤
        (p.step s e selections false view).desk.host.nextEditor.number ∧
      ∀ e' : EditorId, e'.number < p.desk.host.nextEditor.number →
        Host.uri? (p.step s e selections false view).desk.host e' = Host.uri? p.desk.host e' := by
  rcases Progress.step_cases s e selections false p view with
    ⟨-, hstep⟩ | ⟨t, -, ⟨hfalse, -, -⟩ | ⟨-, -, hstep⟩ | ⟨-, mapped, -, -, hstep⟩⟩
  · rw [hstep]
    exact ⟨UInt64.le_refl _, fun _ _ => rfl⟩
  · cases hfalse
  · rw [hstep]
    exact ⟨UInt64.le_refl _, fun _ _ => rfl⟩
  · rw [if_neg Bool.false_ne_true] at hstep
    have hfocus : Showed view.uri p.desk (p.focus view).desk := showed_display _ _ _ _
    have hsame := Progress.sameDocuments_write (p.focus view) t view mapped
    rw [hstep, hsame.nextEditor]
    exact ⟨hfocus.nextEditor, fun e' he' => (hsame.uri? e').trans (hfocus.uri? he')⟩

/-- A command that comes to a view keeps the account. -/
lemma Ledger.command (h : Ledger owedViews owedSources p.desk)
    (hview : Host.uri? p.desk.host view.id = some view.uri)
    (hl : (p.step s e selections false view).desk.host.Lasting) :
    Ledger owedViews owedSources (p.step s e selections false view).desk := by
  rcases Progress.step_cases s e selections false p view with
    ⟨-, hstep⟩ | ⟨t, ht, ⟨hfalse, -, -⟩ | ⟨-, -, hstep⟩ | ⟨-, mapped, -, -, hstep⟩⟩
  · rw [hstep]; exact h
  · cases hfalse
  · rw [hstep]; exact h
  · rw [if_neg Bool.false_ne_true] at hstep
    rw [hstep] at hl ⊢
    have hfocus : Showed view.uri p.desk (p.focus view).desk := showed_display _ _ _ _
    have hsame := Progress.sameDocuments_write (p.focus view) t view mapped
    have hopen : p.desk.host.editors.contains view.id := isOpen_of_uri? hview
    have hview' := (hfocus.uri? (h.issued.opened _ hopen)).trans hview
    have hlast : (p.focus view).desk.host.Lasting :=
      hl.of_le (hsame.nextEditor ▸ UInt64.le_refl _)
    exact (h.showed hfocus hlast).write (shown_of_targetFrom? hview' ht) mapped

lemma nextEditor_le_commands (views : List VisibleEditor) (p : Progress MemoryHost) :
    p.desk.host.nextEditor.number ≤
      (views.foldl (Progress.step s e selections false) p).desk.host.nextEditor.number := by
  induction views generalizing p with
  | nil => exact UInt64.le_refl _
  | cons view views ih => exact UInt64.le_trans (command_frame s e selections p view).1 (ih _)

lemma Ledger.commands (views : List VisibleEditor) (h : Ledger owedViews owedSources p.desk)
    (hviews : ∀ view ∈ views, Host.uri? p.desk.host view.id = some view.uri)
    (hl : (views.foldl (Progress.step s e selections false) p).desk.host.Lasting) :
    Ledger owedViews owedSources (views.foldl (Progress.step s e selections false) p).desk := by
  induction views generalizing p with
  | nil => exact h
  | cons view views ih =>
    have hstep := h.command s e selections (hviews view List.mem_cons_self)
      (hl.of_le (nextEditor_le_commands s e selections views _))
    refine ih hstep (fun v hv => ?_) hl
    have huri := hviews v (List.mem_cons_of_mem _ hv)
    have hopen : p.desk.host.editors.contains v.id := isOpen_of_uri? huri
    exact ((command_frame s e selections p view).2 _ (h.issued.opened _ hopen)).trans huri

end Command

lemma nextEditor_le_selectLinked (d : Desk MemoryHost) :
    d.host.nextEditor.number ≤ d.selectLinked.2.host.nextEditor.number := by
  unfold selectLinked
  split
  · exact UInt64.le_refl _
  · split
    · exact UInt64.le_refl _
    · exact nextEditor_le_commands _ _ _ (Host.visible d.host) ⟨d, [], false⟩

lemma Ledger.selectLinked (h : Ledger owedViews owedSources d)
    (hl : d.selectLinked.2.host.Lasting) : Ledger owedViews owedSources d.selectLinked.2 := by
  unfold Desk.selectLinked at hl ⊢
  split at hl
  · exact h
  · split at hl
    · exact h
    · exact Ledger.commands (p := ⟨d, [], false⟩) _ _ _ (Host.visible d.host) h
        (fun _ hv => uri?_of_mem_visible hv) hl

/-! ### Actions -/

/-- What happens to a session and its host. -/
inductive Action where
  | putDocument (uri text : String)
  | openEditor (uri : String) (column : Column)
  | focus (editor : EditorId)
  | select (editor : EditorId) (selections : List Selection)
  /-- Reports are delivered, at most so many. -/
  | deliver (most : Nat)
  | selectLinked
  | save (product : Product)
  | drop (source : Source)
  | openDocument (uri : String)
  | openProduct (target : Target)

def act (d : Desk MemoryHost) : Action → Desk MemoryHost
  | .putDocument uri text => { d with host := d.host.putDocument uri text }
  | .openEditor uri column => { d with host := (d.host.openEditor uri column).2 }
  | .focus e => { d with host := d.host.focus e }
  | .select e selections => d.select e selections
  | .deliver most => (drainUpTo most d).2
  | .selectLinked => d.selectLinked.2
  | .save p => { d with session := (d.session.save p).session }
  | .drop source => { d with session := (d.session.dropAndRefresh d.host source).session }
  | .openDocument uri => (d.openDocument uri).2
  | .openProduct t => (d.openProduct t).2

def run (d : Desk MemoryHost) (actions : List Action) : Desk MemoryHost := actions.foldl act d

/-- A new session at a host with nothing in it. -/
def fresh (settings : Settings) : Desk MemoryHost := ⟨.new settings, .empty⟩

/-! ### What an action shows -/

/-- Editors, reports and latches are the same. -/
lemma showed_of_same (uri : String) (hlatches : d'.session.latchesOf = d.session.latchesOf)
    (heditors : d'.host.editors = d.host.editors)
    (hnext : d'.host.nextEditor = d.host.nextEditor) (hreports : d'.host.reports = d.host.reports) :
    Showed uri d d' where
  latches := hlatches
  reports := hreports
  nextEditor := hnext ▸ UInt64.le_refl _
  kept e _ := by rw [editor?, heditors]; rfl
  opened e := by
    refine .inl ?_
    rw [uri?_eq, uri?_eq, editor?, heditors]; rfl
  issued hissued _ := hissued.of_sameEditors hnext heditors hreports

lemma showed_openEditor (d : Desk MemoryHost) (uri : String) (column : Column) :
    Showed uri d (d.act (.openEditor uri column)) where
  latches := rfl
  reports := rfl
  nextEditor := Word.le_next _
  kept e he := (editor?_openEditor ..).trans (if_neg (ne_nextEditor he))
  opened e := by
    have huri : Host.uri? (d.act (.openEditor uri column)).host e =
        (if e = d.host.nextEditor then some (MemoryHost.fresh uri column) else d.host.editor? e).map
          OpenEditor.uri :=
      congrArg (Option.map OpenEditor.uri) (editor?_openEditor ..)
    rw [huri]
    by_cases he : e = d.host.nextEditor
    · refine .inr ⟨he ▸ UInt64.le_refl _, ?_⟩
      rw [if_pos he]; rfl
    · refine .inl ?_
      rw [if_neg he]; rfl
  issued hissued hlast := hissued.openEditor (hlast.of_le (Word.le_next _)) uri column

lemma showed_openPanel (d : Desk MemoryHost) (t : Target) (content : String) :
    Showed t.uri d (d.openPanel t content).2 := by
  unfold openPanel panelOf
  simp only
  split
  · exact showed_of_same _ rfl rfl rfl rfl
  · exact showed_of_same _ rfl rfl rfl rfl

lemma showed_openProduct (d : Desk MemoryHost) (t : Target) :
    Showed t.uri d (d.openProduct t).2 := by
  unfold openProduct
  split
  · exact .refl _ _
  · split
    · exact showed_display _ _ _ _
    · exact showed_openPanel _ _ _

/-! ### Runs -/

/-- The account is kept, as long as there are numbers for the editors opened. -/
structure Keeps (d d' : Desk MemoryHost) : Prop where
  nextEditor : d.host.nextEditor.number ≤ d'.host.nextEditor.number
  ledger : Ledger (fun _ => 0) (fun _ => 0) d → d'.host.Lasting →
    Ledger (fun _ => 0) (fun _ => 0) d'

namespace Keeps

lemma refl (d : Desk MemoryHost) : Keeps d d := ⟨UInt64.le_refl _, fun h _ => h⟩

lemma trans {d'' : Desk MemoryHost} (h : Keeps d d') (h' : Keeps d' d'') : Keeps d d'' where
  nextEditor := UInt64.le_trans h.nextEditor h'.nextEditor
  ledger hd hl := h'.ledger (h.ledger hd (hl.of_le h'.nextEditor)) hl

lemma of_showed {uri : String} (h : Showed uri d d') : Keeps d d' :=
  ⟨h.nextEditor, fun hd hl => hd.showed h hl⟩

end Keeps

lemma keeps_select (d : Desk MemoryHost) (e : EditorId) (selections : List Selection) :
    Keeps d (d.select e selections) := by
  have hsame : SameDocuments d.host (d.select e selections).host :=
    sameDocuments_select d.host e selections
  refine ⟨hsame.nextEditor ▸ UInt64.le_refl _, fun h _ => ?_⟩
  by_cases hopen : d.host.editors.contains e
  · exact h.queued (r := ⟨e, selections⟩) hsame (reports_select selections hopen) hopen
      (fun _ => Nat.le_add_right _ _) (fun _ => Nat.le_add_right _ _) h.inSight
  · exact h.unqueued hsame (congrArg reports (select_of_closed selections hopen))
      (fun _ => Nat.le_refl _) fun _ => Nat.le_refl _

lemma latchesOf_save (s : Session) (p : Product) (t : Target) :
    (s.save p).session.latchesOf t = if t = p.target then .idle else s.latchesOf t := by
  have herase : (s.save p).session.latchesOf t = ((s.latches.erase p.target).get? t).getD .idle :=
    rfl
  rw [herase, SortedMap.get?_erase]
  split <;> rfl

/-- Saving forgets the echoes of the target, and leaves its reports queued. -/
lemma keeps_save (d : Desk MemoryHost) (p : Product) : Keeps d (d.act (.save p)) := by
  refine ⟨UInt64.le_refl _, fun h _ => h.unqueued (.refl _) rfl (fun t => ?_) fun t => ?_⟩
  · have hlatches : (d.act (.save p)).session.latchesOf t = _ := latchesOf_save d.session p t
    rw [Session.viewEchoes, hlatches]
    split
    · exact Nat.zero_le _
    · exact Nat.le_refl _
  · have hlatches : (d.act (.save p)).session.latchesOf t = _ := latchesOf_save d.session p t
    rw [Session.sourceEchoes, hlatches]
    split
    · exact Nat.zero_le _
    · exact Nat.le_refl _

lemma keeps_drainUpTo (n : Nat) (d : Desk MemoryHost) : Keeps d (drainUpTo n d).2 :=
  drainUpTo_induction (P := Keeps d)
    (fun d' r rest h hreports => h.trans
      ⟨nextEditor_le_deliver (d'.withReports rest) r, fun hd hl => hd.deliver hreports hl⟩)
    n (.refl d)

/-- **Every action keeps the account.** -/
theorem keeps_act (d : Desk MemoryHost) (a : Action) : Keeps d (d.act a) := by
  cases a with
  | putDocument uri text => exact .of_showed (showed_of_same uri rfl rfl rfl rfl)
  | openEditor uri column => exact .of_showed (showed_openEditor d uri column)
  | focus e =>
    have hfocus : (d.act (.focus e)).host = d.host.focus e := rfl
    refine .of_showed (showed_of_same "" rfl ?_ ?_ ?_) <;>
      rw [hfocus, MemoryHost.focus] <;> split <;> rfl
  | select e selections => exact keeps_select d e selections
  | deliver most => exact keeps_drainUpTo most d
  | selectLinked => exact ⟨nextEditor_le_selectLinked d, fun h hl => h.selectLinked hl⟩
  | save p => exact keeps_save d p
  | drop source => exact .of_showed (showed_of_same "" rfl rfl rfl rfl)
  | openDocument uri => exact .of_showed (showed_display d uri _ true)
  | openProduct t => exact .of_showed (showed_openProduct d t)

lemma keeps_run (actions : List Action) (d : Desk MemoryHost) : Keeps d (d.run actions) := by
  induction actions generalizing d with
  | nil => exact .refl d
  | cons a actions ih => exact (keeps_act d a).trans (ih (d.act a))

lemma ledger_fresh (settings : Settings) : Ledger (fun _ => 0) (fun _ => 0) (fresh settings) where
  issued := issued_empty
  view _ := Nat.zero_le _
  source _ := Nat.zero_le _
  inSight t hpos := by
    have hzero : (fresh settings).session.sourceEchoes t = 0 := rfl
    omega

/-- **Echoes are on the way**: after every run that leaves a number for another editor, so after
every one that opens fewer than `2 ^ 64 - 1` of them, the views of a target have at least as many
reports queued as its latch awaits of them, and so have the editors of its source. So when
nothing is queued, no latch is armed. -/
theorem run_echoes_queued (settings : Settings) (actions : List Action)
    (hl : ((fresh settings).run actions).host.Lasting) :
    let d := (fresh settings).run actions
    (∀ t, d.session.viewEchoes t ≤
      d.host.reports.countP fun r => Host.uri? d.host r.editor = some t.uri) ∧
    (∀ t, d.session.sourceEchoes t ≤ d.host.reports.countP fun r =>
      (Host.uri? d.host r.editor).any fun uri => Source.parse uri = t.source) ∧
    (d.host.reports = [] → ∀ t, ¬ (d.session.latchesOf t).view.isArmed ∧
      ¬ (d.session.latchesOf t).source.isArmed) := by
  intro d
  have h : Ledger (fun _ => 0) (fun _ => 0) d :=
    (keeps_run actions (fresh settings)).ledger (ledger_fresh settings) hl
  have hview : ∀ t, d.session.viewEchoes t ≤
      d.host.reports.countP fun r => Host.uri? d.host r.editor = some t.uri := by
    intro t
    refine Nat.le_trans (h.view t) ?_
    rw [Nat.add_zero, queue, List.count, List.countP_map]
    refine List.countP_mono_left fun r _ hr => ?_
    rw [Function.comp_apply, beq_iff_eq, shown_eq_view_iff] at hr
    exact decide_eq_true hr
  have hsource : ∀ t, d.session.sourceEchoes t ≤ d.host.reports.countP fun r =>
      (Host.uri? d.host r.editor).any fun uri => Source.parse uri = t.source := by
    intro t
    refine Nat.le_trans (h.source t) (List.countP_mono_left fun r _ hr => ?_)
    obtain ⟨uri, huri, hdocument⟩ := (Option.any_eq_true _ _).mp hr
    exact (Option.any_eq_true _ _).mpr ⟨uri, huri, (Bool.and_eq_true _ _ ▸ hdocument).2⟩
  refine ⟨hview, hsource, fun hquiet t => ?_⟩
  have hviewZero := hview t
  have hsourceZero := hsource t
  rw [hquiet, List.countP_nil] at hviewZero hsourceZero
  rw [Session.isArmed_view_iff, Session.isArmed_source_iff]
  omega

/-- A selection that reached a view, whose echo is still to come. -/
def underway : List Action :=
  [.openEditor "file:///a.c" ⟨1⟩, .openEditor "monto:/a.c|ast.t" ⟨2⟩,
    .select ⟨0⟩ [.caret ⟨1, 0⟩, .caret ⟨1, 0⟩], .deliver 1]

/-- The echo that is awaited is the report that is queued. -/
theorem run_echoes_queued_underway :
    let d := (fresh .initial).run underway
    d.host.Lasting ∧ d.session.viewEchoes (.of (.parse "/a.c") "ast" "t") = 1 ∧
      (∀ t, d.session.viewEchoes t ≤
        d.host.reports.countP fun r => Host.uri? d.host r.editor = some t.uri) ∧
      ∀ t, d.session.sourceEchoes t ≤ d.host.reports.countP fun r =>
        (Host.uri? d.host r.editor).any fun uri => Source.parse uri = t.source := by
  have hl : ((fresh .initial).run underway).host.Lasting := by decide
  obtain ⟨hview, hsource, -⟩ := run_echoes_queued .initial underway hl
  exact ⟨hl, by decide, hview, hsource⟩

end LinkedViews.Desk
