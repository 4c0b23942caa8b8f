import LinkedViews.Proofs.Desk.Delivery
import LinkedViews.Proofs.Source

/-!
Latches and queue in balance.

No latch awaits more echoes than reports are queued that it could take for them. A report
that leaves the queue is owed to the latches until the session has dealt with it; every
other step either leaves the account as it is, or queues a report for each echo that it
arms a latch for.
-/

namespace LinkedViews

open Function

/-- How many queued reports are of editors with a source document. -/
def MemoryHost.reportsOf (h : MemoryHost) (s : Source) : Nat :=
  h.reports.countP fun r => h.showsSource s r.editor

namespace Desk

open MemoryHost

/-! ### The account -/

/-- No latch awaits more echoes than reports are queued, but for those owed. A latch of a
source is armed only while a view of its target is open, to take the echo. -/
structure Ledger (owedViews owedSources : Target → Nat) (d : Desk MemoryHost) : Prop where
  issued : d.host.Issued
  view : ∀ t, d.session.viewEchoes t ≤ d.queue.count (.view t) + owedViews t
  source : ∀ t, d.session.sourceEchoes t ≤ d.host.reportsOf t.source + owedSources t
  inSight : ∀ t, 0 < d.session.sourceEchoes t → ∃ e, d.host.shown e = .view t

variable {owedViews owedSources : Target → Nat} {d d' : Desk MemoryHost} {t : Target}
  {r : Report} {rest : List Report}

/-- What is owed to a latch that is not armed does not matter. -/
lemma Ledger.mono {owedViews' owedSources' : Target → Nat} (h : Ledger owedViews owedSources d)
    (hv : ∀ t, 0 < d.session.viewEchoes t → owedViews t ≤ owedViews' t)
    (hs : ∀ t, 0 < d.session.sourceEchoes t → owedSources t ≤ owedSources' t) :
    Ledger owedViews' owedSources' d where
  issued := h.issued
  view t := by
    have hview := h.view t
    rcases Nat.eq_zero_or_pos (d.session.viewEchoes t) with hzero | hpos
    · omega
    · have hle := hv t hpos
      omega
  source t := by
    have hsource := h.source t
    rcases Nat.eq_zero_or_pos (d.session.sourceEchoes t) with hzero | hpos
    · omega
    · have hle := hs t hpos
      omega
  inSight := h.inSight

lemma reportsOf_congr {h h' : MemoryHost} (hreports : h'.reports = h.reports)
    (huri : ∀ r ∈ h.reports, Host.uri? h' r.editor = Host.uri? h r.editor) (s : Source) :
    h'.reportsOf s = h.reportsOf s := by
  rw [reportsOf, reportsOf, hreports]
  refine List.countP_congr fun r hr => ?_
  rw [showsSource_congr (huri r hr)]

lemma reportsOf_append {h h' : MemoryHost} {r : Report} (hs : SameDocuments h h')
    (hreports : h'.reports = h.reports ++ [r]) (s : Source) :
    h'.reportsOf s = h.reportsOf s + if h.showsSource s r.editor then 1 else 0 := by
  have hshows : ∀ r : Report, h'.showsSource s r.editor = h.showsSource s r.editor :=
    fun r => showsSource_congr (hs.uri? r.editor) s
  simp only [reportsOf, hreports, hshows, List.countP_append, List.countP_singleton]

/-- The account stays as it is when a document is shown. -/
lemma Ledger.showed {uri : String} (h : Ledger owedViews owedSources d) (hs : Showed uri d d')
    (hl : d'.host.Lasting) : Ledger owedViews owedSources d' where
  issued := hs.issued h.issued hl
  view t := by
    have hqueue : d'.queue = d.queue := queue_congr hs.reports fun r hr =>
      shown_congr (hs.uri? (h.issued.reported r hr))
    rw [hs.viewEchoes, hqueue]
    exact h.view t
  source t := by
    rw [hs.sourceEchoes, reportsOf_congr hs.reports fun r hr => hs.uri? (h.issued.reported r hr)]
    exact h.source t
  inSight t hpos := by
    rw [hs.sourceEchoes] at hpos
    obtain ⟨e, he⟩ := h.inSight t hpos
    exact ⟨e, (shown_congr (hs.uri? (h.issued.opened e (isOpen_of_shown he)))).trans he⟩

/-! ### Writes -/

/-- A report is queued, and an echo more is awaited where the report is one that counts. -/
lemma Ledger.queued (h : Ledger owedViews owedSources d) (hsame : SameDocuments d.host d'.host)
    (hreports : d'.host.reports = d.host.reports ++ [r]) (hopen : d.host.editors.contains r.editor)
    (hview : ∀ t, d'.session.viewEchoes t ≤ d.session.viewEchoes t +
      if d.host.shown r.editor = .view t then 1 else 0)
    (hsource : ∀ t, d'.session.sourceEchoes t ≤ d.session.sourceEchoes t +
      if d.host.showsSource t.source r.editor then 1 else 0)
    (hsight : ∀ t, 0 < d'.session.sourceEchoes t → ∃ e, d.host.shown e = .view t) :
    Ledger owedViews owedSources d' where
  issued := by
    refine h.issued.of_sameDocuments hsame fun r' hr => ?_
    rw [hreports] at hr
    rcases List.mem_append.mp hr with hr | hr
    · exact .inl hr
    · rw [List.mem_singleton.mp hr]
      exact .inr hopen
  view t := by
    have hold := h.view t
    have hnew := hview t
    have hcount : d'.queue.count (.view t) = d.queue.count (.view t) +
        if d.host.shown r.editor = .view t then 1 else 0 := by
      rw [queue_append hsame hreports, List.count_append, List.count_singleton]
      simp only [beq_iff_eq]
    omega
  source t := by
    have hold := h.source t
    have hnew := hsource t
    rw [reportsOf_append hsame hreports]
    omega
  inSight t hpos := by
    obtain ⟨e, he⟩ := hsight t hpos
    exact ⟨e, (hsame.shown e).trans he⟩

/-- Nothing is queued, and no more echoes are awaited. -/
lemma Ledger.unqueued (h : Ledger owedViews owedSources d) (hsame : SameDocuments d.host d'.host)
    (hreports : d'.host.reports = d.host.reports)
    (hview : ∀ t, d'.session.viewEchoes t ≤ d.session.viewEchoes t)
    (hsource : ∀ t, d'.session.sourceEchoes t ≤ d.session.sourceEchoes t) :
    Ledger owedViews owedSources d' where
  issued := h.issued.of_sameDocuments hsame fun r hr => .inl (hreports ▸ hr)
  view t := by
    have hqueue : d'.queue = d.queue := queue_congr hreports fun r _ => hsame.shown r.editor
    rw [hqueue]
    exact Nat.le_trans (hview t) (h.view t)
  source t := by
    rw [reportsOf_congr hreports fun r _ => hsame.uri? r.editor]
    exact Nat.le_trans (hsource t) (h.source t)
  inSight t hpos := by
    obtain ⟨e, he⟩ := h.inSight t (Nat.lt_of_lt_of_le hpos (hsource t))
    exact ⟨e, (hsame.shown e).trans he⟩

lemma update_arm_le (echoes : Target → Nat) (t t' : Target) {l : Latch}
    (hl : l.pending = echoes t) :
    update echoes t l.arm.pending t' ≤ echoes t' + if t' = t then 1 else 0 := by
  have harm := l.pending_arm_le
  rw [update_apply]
  split
  · rename_i ht
    rw [ht, ← hl]
    exact harm
  · exact Nat.le_refl _

lemma update_arm_disarm_le (echoes : Target → Nat) (t t' : Target) {l : Latch}
    (hl : l.pending = echoes t) : update echoes t l.arm.disarm.pending t' ≤ echoes t' := by
  have harm := l.pending_arm_le
  rw [update_apply, Latch.pending_disarm]
  split
  · rename_i ht
    rw [ht, ← hl]
    omega
  · exact Nat.le_refl _

/-- A write to a view arms the latch for the report that it queues. -/
lemma Ledger.write {p : Progress MemoryHost} (h : Ledger owedViews owedSources p.desk)
    {view : VisibleEditor} (hview : p.desk.host.shown view.id = .view t)
    (selections : List Selection) :
    Ledger owedViews owedSources (p.write t view selections).desk := by
  have hsame := Progress.sameDocuments_write p t view selections
  have hsource := Progress.sourceEchoes_write p t view selections
  rcases Progress.write_cases t selections p view with
    ⟨hopen, hreports, hechoes⟩ | ⟨hreports, hechoes⟩
  · refine h.queued hsame hreports hopen (fun t' => ?_) (fun t' => ?_) fun t' hpos => ?_
    · have harm := update_arm_le p.desk.session.viewEchoes t t'
        (l := (p.desk.session.latchesOf t).view) rfl
      rw [hechoes, hview]
      simpa only [Shown.view.injEq, eq_comm] using harm
    · rw [hsource]
      exact Nat.le_add_right _ _
    · rw [hsource] at hpos
      exact h.inSight t' hpos
  · refine h.unqueued hsame hreports (fun t' => ?_) fun t' => ?_
    · rw [hechoes]
      exact update_arm_disarm_le p.desk.session.viewEchoes t t'
        (l := (p.desk.session.latchesOf t).view) rfl
    · exact Nat.le_of_eq (congrFun hsource t')

lemma showsSource_of_uri {h : MemoryHost} {e : EditorId} {s : Source}
    (huri : Host.uri? h e = some s.uri) : h.showsSource s e = true := by
  rw [showsSource, huri]
  simp only [Option.any_some, s.not_isProductUri_uri, s.parse_uri, Bool.not_false, Bool.true_and,
    decide_true]

/-- A write to an editor of the source arms the latch for the report that it queues. -/
lemma Ledger.writeSource (h : Ledger owedViews owedSources d) {dest : EditorId}
    {mapped : List Selection} (huri : Host.uri? d.host dest = some t.source.uri)
    (hsight : ∃ e, d.host.shown e = .view t)
    (hhost : d'.host = (writeArmed d.host dest (d.session.latchesOf t).source mapped).host)
    (hlatches : d'.session.latchesOf = update d.session.latchesOf t
      { d.session.latchesOf t with
        source := (writeArmed d.host dest (d.session.latchesOf t).source mapped).latch }) :
    Ledger owedViews owedSources d' := by
  have hsame : SameDocuments d.host d'.host := hhost ▸ sameDocuments_writeArmed _ _ _ _
  have hview : d'.session.viewEchoes = d.session.viewEchoes :=
    (Session.viewEchoes_of_update hlatches).trans (update_eq_self t _)
  have hsource := Session.sourceEchoes_of_update hlatches
  rcases writeArmed_cases d.host dest (d.session.latchesOf t).source mapped with
    ⟨hopen, hlatch, hreports⟩ | ⟨hlatch, hreports⟩ <;>
    rw [← hhost] at hreports <;> rw [hlatch] at hsource
  · refine h.queued hsame hreports hopen (fun t' => ?_) (fun t' => ?_) fun t' hpos => ?_
    · rw [hview]
      exact Nat.le_add_right _ _
    · have harm := update_arm_le d.session.sourceEchoes t t'
        (l := (d.session.latchesOf t).source) rfl
      rw [hsource]
      refine Nat.le_trans harm (Nat.add_le_add_left ?_ _)
      split
      · rename_i ht
        exact Nat.le_of_eq (by rw [ht, if_pos (showsSource_of_uri huri)])
      · exact Nat.zero_le _
    · by_cases ht : t' = t
      · exact ht ▸ hsight
      · rw [hsource, update_of_ne ht] at hpos
        exact h.inSight t' hpos
  · refine h.unqueued hsame hreports (fun t' => ?_) fun t' => ?_
    · exact Nat.le_of_eq (congrFun hview t')
    · rw [hsource]
      exact update_arm_disarm_le d.session.sourceEchoes t t'
        (l := (d.session.latchesOf t).source) rfl

/-! ### Deliveries -/

/-- A report that leaves the queue is owed to the latches that could take it. -/
lemma Ledger.dequeued (h : Ledger (fun _ => 0) (fun _ => 0) d)
    (hreports : d.host.reports = r :: rest) :
    Ledger (fun t => if (d.withReports rest).host.shown r.editor = .view t then 1 else 0)
      (fun t => if (d.withReports rest).host.showsSource t.source r.editor then 1 else 0)
      (d.withReports rest) where
  issued := h.issued.of_sameDocuments (sameDocuments_withReports d rest)
    fun _ hr => .inl (hreports ▸ List.mem_cons_of_mem r hr)
  view t := by
    have hview := h.view t
    rw [queue, hreports, List.map_cons, List.count_cons] at hview
    simp only [beq_iff_eq] at hview
    exact hview
  source t := by
    have hsource := h.source t
    rw [reportsOf, hreports, List.countP_cons] at hsource
    exact hsource
  inSight := h.inSight

/-- A latch that takes an echo is owed one less. -/
lemma Ledger.absorbView (h : Ledger owedViews owedSources d) (hhost : d'.host = d.host)
    (hlatches : d'.session.latchesOf = update d.session.latchesOf t
      { d.session.latchesOf t with view := (d.session.latchesOf t).view.absorb.2 }) :
    Ledger (update owedViews t (owedViews t - 1)) owedSources d' := by
  have hqueue : d'.queue = d.queue := by rw [queue, hhost]; rfl
  have hsource : d'.session.sourceEchoes = d.session.sourceEchoes :=
    (Session.sourceEchoes_of_update hlatches).trans (update_eq_self t _)
  refine ⟨hhost ▸ h.issued, fun t' => ?_, fun t' => ?_, fun t' hpos => ?_⟩
  · have hview := h.view t'
    rw [Session.viewEchoes_of_update hlatches, Latch.pending_absorb, hqueue, update_apply,
      update_apply]
    split
    · rename_i ht
      have hpending : (d.session.latchesOf t).view.pending = d.session.viewEchoes t' := by
        rw [ht]; rfl
      rw [hpending]
      rw [ht] at hview ⊢
      omega
    · exact hview
  · rw [hsource, hhost]
    exact h.source t'
  · rw [hsource] at hpos
    exact hhost ▸ h.inSight t' hpos

lemma Ledger.absorbSource {p : Progress MemoryHost} (h : Ledger owedViews owedSources p.desk)
    (t : Target) :
    Ledger owedViews (update owedSources t (owedSources t - 1)) (p.absorb t).desk where
  issued := h.issued
  view t' := by
    rw [Progress.viewEchoes_absorb]
    exact h.view t'
  source t' := by
    have hsource := h.source t'
    have hhost : (p.absorb t).desk.host = p.desk.host := rfl
    rw [Progress.sourceEchoes_absorb, hhost, update_apply, update_apply]
    split
    · rename_i ht
      rw [ht] at hsource ⊢
      omega
    · exact hsource
  inSight t' hpos := by
    rw [Progress.sourceEchoes_absorb, update_apply] at hpos
    refine h.inSight t' ?_
    split at hpos
    · rename_i ht
      rw [ht]
      omega
    · exact hpos

/-- The report of a view settles what is owed to the latch of its target. -/
lemma Ledger.traceBack {e : EditorId}
    (h : Ledger (fun t' => if d.host.shown e = .view t' then 1 else 0) owedSources d)
    (hshown : d.host.shown e = .view t) (selections : List Selection)
    (hl : (d.traceBack e t selections).2.host.Lasting) :
    Ledger (fun _ => 0) owedSources (d.traceBack e t selections).2 := by
  obtain ⟨d₁, hshowed, hcases⟩ := traceBack_cases d e t selections
  generalize (d.traceBack e t selections).2 = d₂ at hl hcases
  simp only [hshown, Shown.view.injEq] at h
  have hunowed : d.session.viewEchoes t = 0 → ∀ t', 0 < d₁.session.viewEchoes t' →
      (if t = t' then 1 else 0) ≤ 0 := by
    intro hzero t' hpos
    split
    · rename_i ht
      rw [hshowed.viewEchoes, ← ht, hzero] at hpos
      cases hpos
    · exact Nat.le_refl _
  rcases hcases with ⟨-, hhost, hlatches⟩ | ⟨hzero, rfl⟩ | ⟨hzero, dest, mapped, hdest, hhost,
    hlatches⟩
  · have h₁ := h.showed hshowed (hhost ▸ hl)
    rw [← hshowed.latches] at hlatches
    refine (h₁.absorbView hhost hlatches).mono (fun t' _ => ?_) fun _ _ => Nat.le_refl _
    rw [if_pos rfl, update_apply]
    split
    · exact Nat.le_refl _
    · rename_i hne
      exact Nat.le_of_eq (if_neg (Ne.symm hne))
  · exact (h.showed hshowed hl).mono (hunowed hzero) fun _ _ => Nat.le_refl _
  · have hsame : SameDocuments d₁.host d₂.host := hhost ▸ sameDocuments_writeArmed _ _ _ _
    have hl₁ : d₁.host.Lasting := hl.of_le (hsame.nextEditor ▸ UInt64.le_refl _)
    have h₁ := (h.showed hshowed hl₁).mono (hunowed hzero) fun _ _ => Nat.le_refl _
    have hsight : d₁.host.shown e = .view t :=
      (shown_congr (hshowed.uri? (h.issued.opened e (isOpen_of_shown hshown)))).trans hshown
    rw [← hshowed.latches] at hhost hlatches
    exact h₁.writeSource hdest ⟨e, hsight⟩ hhost hlatches

section Spread

variable (s : Source) (e : EditorId) (selections : List Selection) {p : Progress MemoryHost}
  {view : VisibleEditor} {views : List VisibleEditor}

/-- What the report of a document is owed to, while it has yet to come to some views: the
latch of each target derived from the document of which one of these is a view. -/
def owed (s : Source) (views : List VisibleEditor) (t : Target) : Nat :=
  if t.source = s ∧ views.any fun v => v.uri = t.uri then 1 else 0

lemma owed_le_one (views : List VisibleEditor) (t : Target) : owed s views t ≤ 1 := by
  unfold owed
  split <;> omega

lemma owed_cons_le (hne : view.targetFrom? s ≠ some t) :
    owed s (view :: views) t ≤ owed s views t := by
  unfold owed
  by_cases hsource : t.source = s
  · have huri : ¬ view.uri = t.uri := fun huri =>
      hne (targetFrom?_eq_some_iff.mpr ⟨huri, hsource⟩)
    simp only [List.any_cons, huri, decide_false, Bool.false_or]
    exact Nat.le_refl _
  · rw [if_neg fun h => hsource h.1]
    exact Nat.zero_le _

/-- The report of a document settles what is owed to the latch of a target as soon as it
comes to a view of it. -/
lemma Ledger.step (h : Ledger owedViews (owed s (view :: views)) p.desk)
    (hview : Host.uri? p.desk.host view.id = some view.uri) :
    Ledger owedViews (owed s views) (p.step s e selections true view).desk := by
  have hsettled : ∀ {t}, view.targetFrom? s = some t →
      ¬ (true = true ∧ 0 < p.desk.session.sourceEchoes t) →
      Ledger owedViews (owed s views) p.desk := by
    intro t ht hzero
    refine h.mono (fun _ _ => Nat.le_refl _) fun t' hpos => owed_cons_le s ?_
    rw [ht]
    intro heq
    rw [← Option.some.inj heq] at hpos
    exact hzero ⟨rfl, hpos⟩
  rcases Progress.step_cases s e selections true p view with
    ⟨hnone, hstep⟩ | ⟨t, ht, ⟨-, -, hstep⟩ | ⟨hzero, -, hstep⟩ | ⟨hzero, mapped, -, -, hstep⟩⟩
  · rw [hstep]
    refine h.mono (fun _ _ => Nat.le_refl _) fun t' _ => owed_cons_le s ?_
    rw [hnone]
    exact Option.some_ne_none t' |>.symm
  · rw [hstep]
    refine (h.absorbSource t).mono (fun _ _ => Nat.le_refl _) fun t' _ => ?_
    have hone := owed_le_one s (view :: views) t
    by_cases ht' : t' = t
    · rw [ht', update_self]
      omega
    · rw [update_of_ne ht']
      refine owed_cons_le s ?_
      rw [ht]
      exact fun heq => ht' (Option.some.inj heq).symm
  · rw [hstep]
    exact hsettled ht hzero
  · rw [hstep, if_pos rfl]
    exact (hsettled ht hzero).write (shown_of_targetFrom? hview ht) mapped

lemma Ledger.foldl (h : Ledger owedViews (owed s views) p.desk)
    (hviews : ∀ view ∈ views, Host.uri? p.desk.host view.id = some view.uri) :
    Ledger owedViews (fun _ => 0) (views.foldl (Progress.step s e selections true) p).desk := by
  induction views generalizing p with
  | nil =>
    refine h.mono (fun _ _ => Nat.le_refl _) fun t _ => ?_
    simp [owed]
  | cons view views ih =>
    have hsame := Progress.sameDocuments_step s e selections p view
    exact ih (h.step s e selections (hviews view List.mem_cons_self))
      fun v hv => (hsame.uri? v.id).trans (hviews v (List.mem_cons_of_mem _ hv))

end Spread

lemma Ledger.spread {e : EditorId} {uri : String}
    (h : Ledger owedViews (fun t => if d.host.showsSource t.source e then 1 else 0) d)
    (huri : Host.uri? d.host e = some uri) (selections : List Selection) :
    Ledger owedViews (fun _ => 0) (d.spread e uri selections true).2 := by
  have howed : Ledger owedViews (owed (.parse uri) (Host.visible d.host)) d := by
    refine h.mono (fun _ _ => Nat.le_refl _) fun t hpos => ?_
    split
    · rename_i hshows
      -- the latch is armed, so a view of its target is in sight
      obtain ⟨e', he'⟩ := h.inSight t hpos
      obtain ⟨view, hmem, -, hviewUri⟩ := exists_visible (shown_eq_view_iff.mp he')
      rw [showsSource, huri, Option.any_some, Bool.and_eq_true, decide_eq_true_eq] at hshows
      have hany : ((Host.visible d.host).any fun v => v.uri = t.uri) = true :=
        List.any_eq_true.mpr ⟨view, hmem, decide_eq_true hviewUri⟩
      exact Nat.le_of_eq (if_pos ⟨hshows.2.symm, hany⟩).symm
    · exact Nat.zero_le _
  exact Ledger.foldl (p := ⟨d, [], false⟩) (.parse uri) e selections howed
    fun _ hv => uri?_of_mem_visible hv

/-- The number of the next editor never goes back. -/
lemma nextEditor_le_deliver (d : Desk MemoryHost) (r : Report) :
    d.host.nextEditor.number ≤ (d.deliver r).host.nextEditor.number := by
  cases hshown : d.host.shown r.editor with
  | nothing => rw [deliver_of_nothing hshown]; exact UInt64.le_refl _
  | view t =>
    rw [deliver_of_view hshown]
    obtain ⟨d₁, hshowed, ⟨-, hhost, -⟩ | ⟨-, hsame⟩ | ⟨-, dest, mapped, -, hhost, -⟩⟩ :=
      traceBack_cases d r.editor t r.selections
    · rw [hhost]; exact hshowed.nextEditor
    · rw [hsame]; exact hshowed.nextEditor
    · rw [hhost, (sameDocuments_writeArmed _ _ _ _).nextEditor]
      exact hshowed.nextEditor
  | document =>
    obtain ⟨uri, huri, hproduct⟩ := shown_eq_document_iff.mp hshown
    rw [deliver_of_document huri hproduct, (sameDocuments_spread _ _ _ _).nextEditor]
    exact UInt64.le_refl _

/-- What a report is owed to is settled by its delivery. -/
lemma Ledger.settled
    (h : Ledger (fun t => if d.host.shown r.editor = .view t then 1 else 0)
      (fun t => if d.host.showsSource t.source r.editor then 1 else 0) d)
    (hl : (d.deliver r).host.Lasting) : Ledger (fun _ => 0) (fun _ => 0) (d.deliver r) := by
  cases hshown : d.host.shown r.editor with
  | nothing =>
    rw [deliver_of_nothing hshown]
    refine h.mono (fun t _ => ?_) fun t _ => ?_
    · rw [hshown]
      exact Nat.le_refl _
    · split
      · rename_i hshows
        rw [shown_of_showsSource hshows] at hshown
        cases hshown
      · exact Nat.le_refl _
  | view t =>
    rw [deliver_of_view hshown] at hl ⊢
    refine Ledger.traceBack (h.mono (fun _ _ => Nat.le_refl _) fun t _ => ?_) hshown _ hl
    split
    · rename_i hshows
      rw [shown_of_showsSource hshows] at hshown
      cases hshown
    · exact Nat.le_refl _
  | document =>
    obtain ⟨uri, huri, hproduct⟩ := shown_eq_document_iff.mp hshown
    rw [deliver_of_document huri hproduct]
    refine Ledger.spread (h.mono (fun t _ => ?_) fun _ _ => Nat.le_refl _) huri _
    rw [hshown]
    exact Nat.le_refl _

/-- **A delivery keeps the account**: what the report was owed to is settled by the end. -/
theorem Ledger.deliver (h : Ledger (fun _ => 0) (fun _ => 0) d)
    (hreports : d.host.reports = r :: rest)
    (hl : ((d.withReports rest).deliver r).host.Lasting) :
    Ledger (fun _ => 0) (fun _ => 0) ((d.withReports rest).deliver r) :=
  (h.dequeued hreports).settled hl

end Desk

end LinkedViews
