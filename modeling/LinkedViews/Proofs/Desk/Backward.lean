import LinkedViews.Proofs.Desk.Forward
import LinkedViews.Proofs.Desk.Queue
import LinkedViews.Proofs.Desk.Runs

/-!
What becomes of a selection in a view.

The report goes back to the source. If the selections there change by it, their report spreads
to all views. The first view of the target, in the order in which the editors were opened,
takes it for the echo that is awaited. Every other view of the target has then what the links
make of it, also the view in which the user selected.
-/

namespace LinkedViews.Desk

open Function MemoryHost

variable {d d₁ : Desk MemoryHost} {t : Target} {v w e : EditorId}
  {selections mapped : List Selection}

/-! ### The report of the source -/

/-- The first view of a target takes the report for the echo that its source awaits. -/
lemma selections_spread_of_first (hv : Host.uri? d.host v = some t.uri)
    (hfirst : ∀ w : EditorId, w.number < v.number → Host.uri? d.host w ≠ some t.uri)
    (harmed : 0 < d.session.sourceEchoes t) :
    Host.selections (d.spread e t.source.uri mapped true).2.host v =
      Host.selections d.host v := by
  obtain ⟨view, hmem, rfl, huri⟩ := exists_visible hv
  obtain ⟨before, after, hsplit, hbefore, -⟩ := visible_eq_append hmem
  have hnodup := nodup_visible d.host
  have hviews : ∀ v ∈ Host.visible d.host, Host.uri? d.host v.id = some v.uri :=
    fun _ hv => uri?_of_mem_visible hv
  have hnone : (before.countP fun v => v.targetFrom? (.parse t.source.uri) = some t) = 0 := by
    refine List.countP_eq_zero.mpr fun w hw ht => ?_
    have hwuri := (targetFrom?_eq_some_iff.mp (of_decide_eq_true ht)).1
    refine hfirst w.id (hbefore w hw) ?_
    rw [hviews w (hsplit ▸ List.mem_append_left _ hw), hwuri]
  have ht : view.targetFrom? (.parse t.source.uri) = some t :=
    targetFrom?_eq_some_iff.mpr ⟨huri, t.source.parse_uri.symm⟩
  unfold spread
  rw [hsplit] at hnodup hviews ⊢
  exact selections_foldl_of_armed (p := ⟨d, [], false⟩) _ e mapped hnodup hviews ht
    (hnone ▸ harmed)

/-- Behind another view of the target a view gets what the links make of the report. -/
lemma selections_spread_of_later (hv : Host.uri? d.host v = some t.uri)
    (hlt : w.number < v.number) (hw : Host.uri? d.host w = some t.uri)
    (hone : d.session.sourceEchoes t ≤ 1) :
    Host.selections (d.spread e t.source.uri mapped true).2.host v =
      match carried d.host (d.session.product t) .forward e mapped v with
      | [] => Host.selections d.host v
      | back => back := by
  obtain ⟨view, hmem, rfl, huri⟩ := exists_visible hv
  obtain ⟨other, hother, rfl, hotherUri⟩ := exists_visible hw
  obtain ⟨before, after, hsplit, -, hafter⟩ := visible_eq_append hmem
  have hnodup := nodup_visible d.host
  have hviews : ∀ v ∈ Host.visible d.host, Host.uri? d.host v.id = some v.uri :=
    fun _ hv => uri?_of_mem_visible hv
  have hbefore : other ∈ before := by
    rw [hsplit, List.mem_append, List.mem_cons] at hother
    rcases hother with hbefore | rfl | hmem'
    · exact hbefore
    · exact absurd hlt (UInt64.lt_irrefl _)
    · exact absurd (UInt64.lt_trans hlt (hafter other hmem')) (UInt64.lt_irrefl _)
  have hsome : 0 < before.countP fun v => v.targetFrom? (.parse t.source.uri) = some t := by
    refine List.countP_pos_iff.mpr ⟨other, hbefore, decide_eq_true ?_⟩
    exact targetFrom?_eq_some_iff.mpr ⟨hotherUri, t.source.parse_uri.symm⟩
  have ht : view.targetFrom? (.parse t.source.uri) = some t :=
    targetFrom?_eq_some_iff.mpr ⟨huri, t.source.parse_uri.symm⟩
  have hspread : d.spreadTo (.parse t.source.uri) e mapped view =
      match carried d.host (d.session.product t) .forward e mapped view.id with
      | [] => Host.selections d.host view.id
      | back => back := by
    rcases hback : carried d.host (d.session.product t) .forward e mapped view.id with
      _ | ⟨a, rest⟩ <;> simp only [spreadTo, ht, hback]
  rw [← hspread]
  unfold spread
  rw [hsplit] at hnodup hviews ⊢
  refine selections_foldl_of_idle (p := ⟨d, [], false⟩) _ e mapped hnodup hviews fun t' ht' => ?_
  rw [ht] at ht'
  rw [← Option.some.inj ht']
  exact Nat.le_trans hone hsome

/-- The report of a write to the source is to come, and the latch of the target awaits it. -/
structure Returning (t : Target) (e : EditorId) (mapped : List Selection)
    (d : Desk MemoryHost) : Prop where
  reports : d.host.reports = [⟨e, mapped⟩]
  uri : Host.uri? d.host e = some t.source.uri
  view : ∀ t, d.session.viewEchoes t = 0
  source : d.session.sourceEchoes = update (fun _ => 0) t 1

/-- What the report leaves a view with, it has when all reports are delivered. -/
lemma Returning.settled (h : Returning t e mapped d) (hissued : d.host.Issued)
    (hroom : d.session.RoomFor d.host.viewCount) (hv : Host.uri? d.host v = some t.uri) {n : Nat}
    (hn : d.host.viewCount < n) :
    let d' := (drainUpTo n d).2
    d'.host.reports = [] ∧
    (∀ t, ¬ (d'.session.latchesOf t).view.isArmed ∧ ¬ (d'.session.latchesOf t).source.isArmed) ∧
    Host.selections d'.host v = Host.selections
      ((d.withReports []).spread e t.source.uri mapped true).2.host v := by
  obtain ⟨m, rfl⟩ : ∃ m, n = m + 1 := ⟨n - 1, by omega⟩
  have hissued₁ : (d.withReports []).host.Issued :=
    hissued.of_subset rfl (fun _ he => he) (List.nil_subset _)
  have huri : Host.uri? (d.withReports []).host e = some t.source.uri := h.uri
  have hproduct : isProductUri t.source.uri = false := t.source.not_isProductUri_uri
  obtain ⟨view, hmem, rfl, hviewUri⟩ := exists_visible (h := (d.withReports []).host) hv
  have hsource : ∀ t', (d.withReports []).session.sourceEchoes t' ≤
      (Host.visible (d.withReports []).host).countP
        fun v => v.targetFrom? (.parse t.source.uri) = some t' := by
    intro t'
    have hechoes : (d.withReports []).session.sourceEchoes t' = if t' = t then 1 else 0 :=
      (congrFun h.source t').trans (update_apply ..)
    rw [hechoes]
    split
    · rename_i ht'
      refine List.countP_pos_iff.mpr ⟨view, hmem, decide_eq_true ?_⟩
      rw [ht']
      exact targetFrom?_eq_some_iff.mpr ⟨hviewUri, t.source.parse_uri.symm⟩
    · exact Nat.zero_le _
  obtain ⟨hsettling, hlength⟩ := settling_spread mapped (confined hissued₁) rfl h.view hsource
    hroom huri hproduct
  have hviews : (d.withReports []).host.viewCount = d.host.viewCount := rfl
  obtain ⟨hsettled, hempty⟩ := hsettling.drainUpTo (n := m) (by omega)
  have hopen : (d.withReports []).host.editors.contains view.id := isOpen_of_uri? (uri?_of_mem_visible hmem)
  rw [drainUpTo_succ h.reports, deliver_of_document (r := ⟨e, mapped⟩) huri hproduct]
  exact ⟨hempty, hsettled.idle hempty, hsettled.kept view.id (hissued₁.opened _ hopen)⟩

/-- The view of the target that was opened first keeps its selections. -/
lemma Returning.selections_of_first (h : Returning t e mapped d) (hissued : d.host.Issued)
    (hroom : d.session.RoomFor d.host.viewCount) (hv : Host.uri? d.host v = some t.uri) {n : Nat}
    (hn : d.host.viewCount < n)
    (hfirst : ∀ w : EditorId, w.number < v.number → Host.uri? d.host w ≠ some t.uri) :
    Host.selections (drainUpTo n d).2.host v = Host.selections d.host v := by
  have hone : (d.withReports []).session.sourceEchoes t = 1 :=
    (congrFun h.source t).trans (update_self ..)
  obtain ⟨-, -, hsettled⟩ := h.settled hissued hroom hv hn
  exact hsettled.trans (selections_spread_of_first (d := d.withReports []) hv hfirst (by omega))

/-- Any other one has what the links make of the selections of the source. -/
lemma Returning.selections_of_later (h : Returning t e mapped d) (hissued : d.host.Issued)
    (hroom : d.session.RoomFor d.host.viewCount) (hv : Host.uri? d.host v = some t.uri) {n : Nat}
    (hn : d.host.viewCount < n) (hlt : w.number < v.number)
    (hw : Host.uri? d.host w = some t.uri) :
    Host.selections (drainUpTo n d).2.host v =
      match carried d.host (d.session.product t) .forward e mapped v with
      | [] => Host.selections d.host v
      | back => back := by
  have hone : (d.withReports []).session.sourceEchoes t = 1 :=
    (congrFun h.source t).trans (update_self ..)
  obtain ⟨-, -, hsettled⟩ := h.settled hissued hroom hv hn
  exact hsettled.trans
    (selections_spread_of_later (d := d.withReports []) hv hlt hw (Nat.le_of_eq hone))

/-! ### The report of the view -/

/-- A write to the source that changes its selections is reported and awaited. -/
lemma returning_of_write {d₂ : Desk MemoryHost} (hquiet : d.host.reports = [])
    (hview : ∀ t, d.session.viewEchoes t = 0) (hsource : ∀ t, d.session.sourceEchoes t = 0)
    (hroom : (d.session.latchesOf t).source.HasRoom) (hs : Showed t.source.uri d d₁)
    (huri : Host.uri? d₁.host e = some t.source.uri)
    (hhost : d₂.host = (writeArmed d₁.host e (d.session.latchesOf t).source mapped).host)
    (hlatches : d₂.session.latchesOf = update d.session.latchesOf t
      { d.session.latchesOf t with
        source := (writeArmed d₁.host e (d.session.latchesOf t).source mapped).latch }) :
    (Host.selections d₁.host e = mapped ∧ d₂.host.reports = [] ∧
      ∀ t, ¬ (d₂.session.latchesOf t).view.isArmed ∧
        ¬ (d₂.session.latchesOf t).source.isArmed) ∨
    (Host.selections d₁.host e ≠ mapped ∧ Returning t e mapped d₂) := by
  have hreports : d₁.host.reports = [] := hs.reports.trans hquiet
  have hopen : d₁.host.editors.contains e := isOpen_of_uri? huri
  have hsame : SameDocuments d₁.host d₂.host := hhost ▸ sameDocuments_writeArmed _ _ _ _
  have hview₂ : ∀ t, d₂.session.viewEchoes t = 0 := by
    rwa [(Session.viewEchoes_of_update hlatches).trans (update_eq_self t _)]
  have hsource₂ := Session.sourceEchoes_of_update hlatches
  have hzero : d.session.sourceEchoes = fun _ => 0 := funext hsource
  have hpending : (d.session.latchesOf t).source.arm.pending = 1 :=
    (Latch.pending_arm hroom).trans (congrArg (· + 1) (hsource t))
  rcases writeArmed_changes d₁.host e (d.session.latchesOf t).source mapped with
    ⟨-, hne, hlatch, hwritten⟩ | ⟨hkept, hlatch, hwritten⟩ <;>
    rw [hlatch, hzero] at hsource₂ <;> rw [← hhost, hreports] at hwritten
  · rw [hpending] at hsource₂
    exact .inr ⟨hne, hwritten, (hsame.uri? e).trans huri, hview₂, hsource₂⟩
  · rw [Latch.pending_disarm, hpending] at hsource₂
    refine .inl ⟨hkept hopen, hwritten, Session.idle_iff.mpr ⟨hview₂, fun t' => ?_⟩⟩
    rw [hsource₂, update_apply]
    split <;> rfl

/-- What is carried to the source is written to it, and nothing else changes. -/
lemma written_of_idleView {d₂ : Desk MemoryHost} (hissued : d.host.Issued)
    (hquiet : d.host.reports = []) (hview : ∀ t, d.session.viewEchoes t = 0)
    (hsource : ∀ t, d.session.sourceEchoes t = 0)
    (hroom : (d.session.latchesOf t).source.HasRoom) (hv : Host.uri? d.host v = some t.uri)
    (hshowed : Showed t.source.uri d d₁) (huri : Host.uri? d₁.host e = some t.source.uri)
    (hhost : d₂.host = (writeArmed (d₁.display t.source.uri .source false).2.host e
      (d.session.latchesOf t).source mapped).host)
    (hlatches : d₂.session.latchesOf = update d.session.latchesOf t
      { d.session.latchesOf t with
        source := (writeArmed (d₁.display t.source.uri .source false).2.host e
          (d.session.latchesOf t).source mapped).latch })
    (hl : d₂.host.Lasting) :
    d₂.host.Issued ∧ Host.selections d₂.host v = Host.selections d.host v ∧
    (∀ w, d₂.host.shown w = .view t ↔ d.host.shown w = .view t) ∧
    (∀ p, carried d₂.host p .forward e mapped v = carried d₁.host p .forward e mapped v) ∧
    ((Host.selections d₁.host e = mapped ∧ d₂.host.reports = [] ∧
        ∀ t, ¬ (d₂.session.latchesOf t).view.isArmed ∧
          ¬ (d₂.session.latchesOf t).source.isArmed) ∨
      (Host.selections d₁.host e ≠ mapped ∧ Returning t e mapped d₂)) := by
  have hlt : v.number < d.host.nextEditor.number :=
    hissued.opened v (isOpen_of_shown (shown_of_view hv))
  have hagain := showed_display d₁ t.source.uri .source false
  have hcarried : ∀ p, e.number < d₁.host.nextEditor.number →
      carried (d₁.display t.source.uri .source false).2.host p .forward e mapped v =
        carried d₁.host p .forward e mapped v := fun p he =>
    carried_display t.source.uri _ (ne_nextEditor he)
      (ne_nextEditor (UInt64.lt_of_lt_of_le hlt hshowed.nextEditor)) p .forward mapped
  generalize (d₁.display t.source.uri .source false).2 = d₃ at hhost hlatches hagain hcarried
  have hsame : SameDocuments d₃.host d₂.host := hhost ▸ sameDocuments_writeArmed _ _ _ _
  have hl₃ : d₃.host.Lasting := hl.of_le (hsame.nextEditor ▸ UInt64.le_refl _)
  have hissued₁ : d₁.host.Issued := hshowed.issued hissued (hl₃.of_le hagain.nextEditor)
  have he : e.number < d₁.host.nextEditor.number := hissued₁.opened e (isOpen_of_uri? huri)
  have huri₃ : Host.uri? d₃.host e = some t.source.uri := (hagain.uri? he).trans huri
  have hs := hshowed.trans hagain
  have hopen : d₃.host.editors.contains e := isOpen_of_uri? huri₃
  have hback := returning_of_write hquiet hview hsource hroom hs huri₃ hhost hlatches
  have hve : v ≠ e := by
    rintro rfl
    rw [hs.uri? hlt, hv] at huri₃
    exact absurd t.isProductUri_uri (by
      rw [Option.some.inj huri₃, t.source.not_isProductUri_uri]; exact Bool.false_ne_true)
  refine ⟨(hs.issued hissued hl₃).of_sameDocuments hsame fun r hr => .inr ?_, ?_, fun w => ?_,
    fun p => ?_, hagain.selections he ▸ hback⟩
  · -- what is queued is a report of the source
    rcases hback with ⟨-, hnone, -⟩ | ⟨-, hreturning⟩
    · rw [hnone] at hr
      cases hr
    · rw [hreturning.reports, List.mem_singleton] at hr
      rwa [hr]
  · rw [hhost, selections_writeArmed _ _ hopen, if_neg hve, hs.selections hlt]
  · rw [hsame.shown]
    exact view_iff_of_showed hs hissued w t
  · rw [hsame.carried, hcarried p he]

/-- The report of a view, with no echo awaited, changes the selections of the source and
awaits the echo of that, or changes nothing. -/
lemma deliver_of_idleView (hissued : d.host.Issued) (hquiet : d.host.reports = [])
    (hview : ∀ t, d.session.viewEchoes t = 0) (hsource : ∀ t, d.session.sourceEchoes t = 0)
    (hroom : (d.session.latchesOf t).source.HasRoom) (hv : Host.uri? d.host v = some t.uri)
    (hdisplay : d.display t.source.uri .source true = (some e, d₁))
    (hl : (d.deliver ⟨v, selections⟩).host.Lasting) :
    let d₂ := d.deliver ⟨v, selections⟩
    let mapped := carried d₁.host (d.session.product t) .reverse v selections e
    d₂.host.Issued ∧ Host.selections d₂.host v = Host.selections d.host v ∧
    (∀ w, d₂.host.shown w = .view t ↔ d.host.shown w = .view t) ∧
    (((mapped = [] ∨ Host.selections d₁.host e = mapped) ∧ d₂.host.reports = [] ∧
        ∀ t, ¬ (d₂.session.latchesOf t).view.isArmed ∧
          ¬ (d₂.session.latchesOf t).source.isArmed) ∨
      (mapped ≠ [] ∧ Host.selections d₁.host e ≠ mapped ∧ Returning t e mapped d₂ ∧
        carried d₂.host (d₂.session.product t) .forward e mapped v =
          carried d₁.host (d.session.product t) .forward e mapped v)) := by
  obtain ⟨hshowed, huri⟩ := showed_of_display hdisplay
  have hproduct := product_of_display hdisplay t
  have hproduct₂ := (undisturbed_deliver d ⟨v, selections⟩).product t
  have hcases := traceBack_of_display v selections hdisplay
  rw [deliver_of_view (r := ⟨v, selections⟩) (shown_of_view hv)] at hl hproduct₂ ⊢
  rw [hproduct] at hcases
  simp only at hl hproduct₂ ⊢
  generalize (d.traceBack v t selections).2 = d₂ at hl hproduct₂ hcases
  generalize carried d₁.host (d.session.product t) .reverse v selections e = mapped at hcases ⊢
  rcases hcases with ⟨hpos, -⟩ | ⟨-, hnil, rfl⟩ | ⟨-, hne, hhost, hlatches⟩
  · have hzero := hview t
    omega
  · have hlt : v.number < d.host.nextEditor.number :=
      hissued.opened v (isOpen_of_shown (shown_of_view hv))
    refine ⟨hshowed.issued hissued hl, hshowed.selections hlt,
      fun w => view_iff_of_showed hshowed hissued w t,
      .inl ⟨.inl hnil, hshowed.reports.trans hquiet, Session.idle_iff.mpr ⟨?_, ?_⟩⟩⟩
    · rwa [hshowed.viewEchoes]
    · rwa [hshowed.sourceEchoes]
  · obtain ⟨hissued₂, hkept, hviews, hcarried, hback⟩ := written_of_idleView hissued hquiet hview
      hsource hroom hv hshowed huri hhost hlatches hl
    refine ⟨hissued₂, hkept, hviews, ?_⟩
    rcases hback with ⟨hsame, hdone⟩ | ⟨hchanged, hreturning⟩
    · exact .inl ⟨.inr hsame, hdone⟩
    · exact .inr ⟨hne, hchanged, hreturning, by rw [hproduct₂, hcarried]⟩

/-- **A selection in a view lasts until it comes back.** It is carried to an editor of the
source. If nothing is, or the editor has these selections already, or no other view of the
target was opened before, the view keeps what the user selected. Otherwise it has in the end
what the links make of the selections of the source, if they make anything. No report is left
then, and no latch is armed. All latches are idle before, and can count the writes to come; in
the end there is still a number for another editor. -/
theorem select_view (hissued : d.host.Issued) (hquiet : d.host.reports = [])
    (hidle : ∀ t, ¬ (d.session.latchesOf t).view.isArmed ∧ ¬ (d.session.latchesOf t).source.isArmed)
    (hroom : d.session.RoomFor d.host.viewCount)
    (hsourceRoom : (d.session.latchesOf t).source.HasRoom)
    (hv : Host.uri? d.host v = some t.uri)
    (hdisplay : (d.select v selections).display t.source.uri .source true = (some e, d₁))
    {n : Nat} (hn : d.host.viewCount + 2 ≤ n)
    (hl : (drainUpTo n (d.select v selections)).2.host.Lasting) :
    let d' := (drainUpTo n (d.select v selections)).2
    let mapped := carried d₁.host (d.session.product t) .reverse v selections e
    d'.host.reports = [] ∧
    (∀ t, ¬ (d'.session.latchesOf t).view.isArmed ∧ ¬ (d'.session.latchesOf t).source.isArmed) ∧
    (mapped = [] ∨ Host.selections d₁.host e = mapped ∨
        (∀ w : EditorId, w.number < v.number → Host.uri? d.host w ≠ some t.uri) →
      Host.selections d'.host v = selections) ∧
    ∀ w : EditorId, mapped ≠ [] → Host.selections d₁.host e ≠ mapped →
      w.number < v.number → Host.uri? d.host w = some t.uri →
      Host.selections d'.host v =
        match carried d₁.host (d.session.product t) .forward e mapped v with
        | [] => selections
        | back => back := by
  obtain ⟨m, rfl⟩ : ∃ m, n = m + 1 := ⟨n - 1, by omega⟩
  have hopen : d.host.editors.contains v := isOpen_of_uri? hv
  obtain ⟨d₀, hselected⟩ := exists_selected hquiet hopen selections
  have hsession := hselected.session
  obtain ⟨hview, hsource⟩ := Session.idle_iff.mp hidle
  rw [← hsession] at hview hsource hroom hsourceRoom
  have hissued₀ := hselected.issued hissued
  have hv₀ : Host.uri? d₀.host v = some t.uri := (hselected.uri? v).trans hv
  -- the source is shown in the same editor, whatever is queued
  have hbehind : d.select v selections = d₀.behind [⟨v, selections⟩] := by
    rw [hselected.select, ← behind_withReports, ← hselected.quiet]; rfl
  rw [hbehind, display_behind] at hdisplay
  obtain ⟨hdest, rfl⟩ := Prod.mk.inj hdisplay
  have hdisplay₀ : d₀.display t.source.uri .source true =
      (some e, (d₀.display t.source.uri .source true).2) := Prod.ext hdest rfl
  have hl₀ : (d₀.deliver ⟨v, selections⟩).host.Lasting := by
    rw [hselected.drainUpTo_succ] at hl
    exact hl.of_le (keeps_drainUpTo m _).nextEditor
  have hroom₂ : (d₀.deliver ⟨v, selections⟩).session.RoomFor d.host.viewCount := by
    rw [deliver_of_view (r := ⟨v, selections⟩) (shown_of_view hv₀)]
    exact roomFor_traceBack hroom _ _ _
  have hviews₂ :=
    Nat.le_trans (viewCount_deliver_le d₀ ⟨v, selections⟩) hselected.viewCount_le
  obtain ⟨hissued₂, hkept, hviews, hcases⟩ := deliver_of_idleView hissued₀ hselected.quiet hview
    hsource hsourceRoom hv₀ hdisplay₀ hl₀
  rw [hselected.drainUpTo_succ]
  simp only at hcases ⊢
  generalize d₀.deliver ⟨v, selections⟩ = d₂ at *
  rw [hselected.self] at hkept
  rw [hsession] at hcases
  rcases hcases with ⟨hreason, hempty, hidle₂⟩ | ⟨hne, hchanged, hreturning, hback⟩
  · rw [drainUpTo_of_empty hempty]
    refine ⟨hempty, hidle₂, fun _ => hkept, fun w hne hchanged => ?_⟩
    rcases hreason with hnil | hsame'
    · exact absurd hnil hne
    · exact absurd hsame' hchanged
  · have huri₂ : ∀ w, Host.uri? d₂.host w = some t.uri ↔ Host.uri? d.host w = some t.uri := by
      intro w
      rw [← shown_eq_view_iff, ← shown_eq_view_iff, hviews, hselected.sameDocuments.shown]
    have hv₂ := (huri₂ v).mpr hv
    have hroom₂ := hroom₂.mono hviews₂
    have hm : d₂.host.viewCount < m := by omega
    obtain ⟨hempty, hidle₂, -⟩ := hreturning.settled hissued₂ hroom₂ hv₂ hm
    refine ⟨hempty, hidle₂, fun hlasts => ?_, fun w _ _ hlt hw => ?_⟩
    · rcases hlasts with hnil | hsame' | hfirst
      · exact absurd hnil hne
      · exact absurd hsame' hchanged
      · exact (hreturning.selections_of_first hissued₂ hroom₂ hv₂ hm
          fun w hlt hw => hfirst w hlt ((huri₂ w).mp hw)).trans hkept
    · rw [hreturning.selections_of_later hissued₂ hroom₂ hv₂ hm hlt ((huri₂ w).mpr hw), hback,
        hkept]
      rfl

/-- A new session with a document and two views of the same product of it. -/
def twoViews : Desk MemoryHost := atRest.act (.openEditor "monto:/a.c|ast.t" ⟨3⟩)

/-- The view that was opened first keeps two carets. -/
theorem select_view_first :
    (twoViews.host.Issued ∧ twoViews.host.reports = [] ∧
      (∀ t, ¬ (twoViews.session.latchesOf t).view.isArmed ∧
        ¬ (twoViews.session.latchesOf t).source.isArmed) ∧
      twoViews.session.RoomFor twoViews.host.viewCount ∧
      (twoViews.session.latchesOf (.of (.parse "/a.c") "ast" "t")).source.HasRoom ∧
      Host.uri? twoViews.host ⟨1⟩ = some (Target.of (.parse "/a.c") "ast" "t").uri ∧
      twoViews.host.viewCount + 2 ≤ 4 ∧
      (drainUpTo 4 (twoViews.select ⟨1⟩ [.caret ⟨1, 0⟩, .caret ⟨1, 0⟩])).2.host.Lasting) ∧
    let d := (drainUpTo 4 (twoViews.select ⟨1⟩ [.caret ⟨1, 0⟩, .caret ⟨1, 0⟩])).2
    d.host.reports = [] ∧ Host.selections d.host ⟨0⟩ = [.caret ⟨0, 0⟩, .caret ⟨0, 0⟩] ∧
    Host.selections d.host ⟨1⟩ = [.caret ⟨1, 0⟩, .caret ⟨1, 0⟩] := by
  have hissued : twoViews.host.Issued := issued_pair.openEditor (by decide) _ _
  have hroom : twoViews.session.RoomFor twoViews.host.viewCount :=
    Session.roomFor_new _ (by decide)
  have hsourceRoom :
      (twoViews.session.latchesOf (.of (.parse "/a.c") "ast" "t")).source.HasRoom := by
    unfold Latch.HasRoom
    decide
  have hv : Host.uri? twoViews.host ⟨1⟩ = some (Target.of (.parse "/a.c") "ast" "t").uri := by
    decide
  have hn : twoViews.host.viewCount + 2 ≤ 4 := by decide
  have hl : (drainUpTo 4 (twoViews.select ⟨1⟩
      [.caret ⟨1, 0⟩, .caret ⟨1, 0⟩])).2.host.Lasting := by decide
  obtain ⟨hempty, -, hkept, -⟩ := select_view hissued rfl idle_atRest hroom hsourceRoom hv
    (e := ⟨0⟩) (Prod.ext (by decide) rfl) hn hl
  refine ⟨⟨hissued, rfl, idle_atRest, hroom, hsourceRoom, hv, hn, hl⟩, hempty, by decide,
    hkept (.inr (.inr fun w hlt huri => ?_))⟩
  obtain ⟨number⟩ := w
  have hone : number.toNat < 1 := UInt64.lt_iff_toNat_lt.mp hlt
  have hzero : number = 0 := UInt64.toNat_inj.mp (Nat.lt_one_iff.mp hone)
  rw [hzero] at huri
  revert huri
  decide

/-- The other view loses them, when its report comes back over the document. -/
theorem select_view_second :
    (twoViews.host.reports = [] ∧
      ∀ t, ¬ (twoViews.session.latchesOf t).view.isArmed ∧
        ¬ (twoViews.session.latchesOf t).source.isArmed) ∧
    let d := (drainUpTo 9 (twoViews.select ⟨2⟩ [.caret ⟨1, 0⟩, .caret ⟨1, 0⟩])).2
    d.host.reports = [] ∧ Host.selections d.host ⟨2⟩ = [.caret ⟨0, 0⟩, .caret ⟨0, 0⟩] :=
  ⟨⟨rfl, idle_atRest⟩, by decide⟩

end LinkedViews.Desk
