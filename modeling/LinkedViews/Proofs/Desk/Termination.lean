import LinkedViews.Proofs.Desk.Room

/-!
Deliveries come to an end.

A report may lead to writes, and these to reports in the other direction. But a report that
a latch awaits leads to nothing. So the queue is given a price: what a report costs depends
on whether it will find its latch armed once those before it have been delivered. Every
delivery lowers the price by one at least.
-/

namespace LinkedViews

open Function

/-! ### The price of a queue -/

/-- The most deliveries that a queue can lead to, if `views` views are in sight and `echoes`
of their reports are awaited. -/
def cost (views : Nat) : (echoes : Target → Nat) → List Shown → Nat
  | _, [] => 0
  | echoes, .nothing :: queue => 1 + cost views echoes queue
  | echoes, .document :: queue => 1 + views + cost views echoes queue
  | echoes, .view t :: queue =>
    if 0 < echoes t then 1 + cost views (update echoes t (echoes t - 1)) queue
    else 2 + views + cost views echoes queue

/-- The most that a report can cost, whatever stands before it. -/
def Shown.price (views : Nat) : Shown → Nat
  | .nothing => 1
  | .document => 1 + views
  | .view _ => 2 + views

section Cost

variable (views : Nat) (echoes : Target → Nat) (t : Target) (shown : Shown) (queue : List Shown)

/-- What the first report costs does not depend on those behind it. -/
lemma cost_cons : ∃ price echoes', 1 ≤ price ∧ price ≤ shown.price views ∧
    ∀ queue, cost views echoes (shown :: queue) = price + cost views echoes' queue := by
  cases shown with
  | nothing => exact ⟨1, echoes, Nat.le_refl _, Nat.le_refl _, fun _ => rfl⟩
  | document => exact ⟨1 + views, echoes, by omega, Nat.le_refl _, fun _ => rfl⟩
  | view t =>
    by_cases hpos : 0 < echoes t
    · refine ⟨1, update echoes t (echoes t - 1), by omega, ?_, fun queue => ?_⟩
      · simp only [Shown.price]
        omega
      · rw [cost, if_pos hpos]
    · refine ⟨2 + views, echoes, by omega, Nat.le_refl _, fun queue => ?_⟩
      rw [cost, if_neg hpos]

/-- Each report costs its price at most. -/
lemma cost_le :
    cost views echoes queue ≤
      queue.count .document + 2 * queue.countP Shown.isView + queue.count .nothing +
        views * (queue.count .document + queue.countP Shown.isView) := by
  induction queue generalizing echoes with
  | nil => exact Nat.zero_le _
  | cons head queue ih =>
    obtain ⟨price, echoes', -, hprice, hcost⟩ := cost_cons views echoes head
    have hrest := ih echoes'
    rw [hcost]
    cases head <;>
      simp only [List.count_cons, List.countP_cons, Shown.price, Shown.isView, beq_iff_eq,
        reduceCtorEq, if_true, if_false, Bool.false_eq_true, Nat.add_zero, Nat.mul_add, Nat.mul_one]
        at hprice hrest ⊢ <;>
      omega

lemma length_le_cost : queue.length ≤ cost views echoes queue := by
  induction queue generalizing echoes with
  | nil => exact Nat.le_refl _
  | cons head queue ih =>
    obtain ⟨price, echoes', hone, -, hcost⟩ := cost_cons views echoes head
    have hrest := ih echoes'
    rw [hcost, List.length_cons]
    omega

lemma cost_append_le :
    cost views echoes (queue ++ [shown]) ≤ cost views echoes queue + shown.price views := by
  induction queue generalizing echoes with
  | nil =>
    obtain ⟨price, echoes', -, hprice, hcost⟩ := cost_cons views echoes shown
    rw [List.nil_append, hcost]
    simp only [cost]
    omega
  | cons head queue ih =>
    obtain ⟨price, echoes', -, -, hcost⟩ := cost_cons views echoes head
    have hrest := ih echoes'
    rw [List.cons_append, hcost, hcost]
    omega

lemma update_succ_pred {t' : Target} (h : 0 < echoes t') :
    update (update echoes t (echoes t + 1)) t'
        (update echoes t (echoes t + 1) t' - 1) =
      update (update echoes t' (echoes t' - 1)) t (update echoes t' (echoes t' - 1) t + 1) := by
  funext x
  by_cases hx : x = t <;> by_cases hx' : x = t'
  · subst hx; subst hx'
    simp only [update_self]
    omega
  · subst hx
    rw [update_of_ne hx', update_self, update_self, update_of_ne hx']
  · subst hx'
    rw [update_self, update_of_ne hx, update_of_ne hx, update_self]
  · rw [update_of_ne hx', update_of_ne hx, update_of_ne hx, update_of_ne hx']

/-- A report whose echo is awaited raises the cost by one at most. -/
lemma cost_append_echo :
    cost views (update echoes t (echoes t + 1)) (queue ++ [.view t]) ≤
      cost views echoes queue + 1 := by
  induction queue generalizing echoes with
  | nil => simp [cost]
  | cons head queue ih =>
    rw [List.cons_append]
    cases head with
    | nothing => have hrest := ih echoes; simp only [cost]; omega
    | document => have hrest := ih echoes; simp only [cost]; omega
    | view t' =>
      simp only [cost]
      by_cases hpos : 0 < echoes t'
      · have hpos' : 0 < update echoes t (echoes t + 1) t' := by
          rw [update_apply]
          split <;> omega
        have hrest := ih (update echoes t' (echoes t' - 1))
        rw [if_pos hpos, if_pos hpos', update_succ_pred echoes t hpos]
        omega
      · rw [if_neg hpos]
        by_cases ht : t' = t
        · -- the latch is now armed for this report, and the new one is not awaited any more
          subst ht
          have hzero : echoes t' = 0 := by omega
          have hpos' : 0 < update echoes t' (echoes t' + 1) t' := by
            rw [update_self]; omega
          have happend := cost_append_le views echoes (.view t') queue
          rw [if_pos hpos', update_pred_update_succ]
          simp only [Shown.price] at happend
          omega
        · have hrest := ih echoes
          rw [if_neg (by rwa [update_of_ne ht])]
          omega

end Cost

/-! ### Numbers below a fence -/

namespace MemoryHost

/-- Numbers from `k` on belong to documents, or to no editor that matters. -/
structure Fenced (k : UInt64) (h : MemoryHost) : Prop where
  le : k ≤ h.nextEditor.number
  views : ∀ e t, h.shown e = .view t → e.number < k
  reported : ∀ r ∈ h.reports, r.editor.number < k ∨ h.shown r.editor = .document

variable {k : UInt64} {h h' : MemoryHost}

lemma Issued.fenced (hissued : h.Issued) : h.Fenced h.nextEditor.number where
  le := UInt64.le_refl _
  views e _ hshown := hissued.opened e (isOpen_of_shown hshown)
  reported r hr := .inl (hissued.reported r hr)

lemma Fenced.of_sameDocuments (hf : h.Fenced k) (hs : SameDocuments h h')
    (hreports : ∀ r ∈ h'.reports, r ∈ h.reports ∨ h.shown r.editor = .document ∨
      ∃ t, h.shown r.editor = .view t) :
    h'.Fenced k where
  le := hs.nextEditor ▸ hf.le
  views e t hshown := hf.views e t ((hs.shown e).symm.trans hshown)
  reported r hr := by
    rw [hs.shown]
    rcases hreports r hr with hr | hdocument | ⟨t, ht⟩
    · exact hf.reported r hr
    · exact .inr hdocument
    · exact .inl (hf.views _ t ht)

end MemoryHost

namespace Desk

open MemoryHost

variable {k : UInt64} {d d' : Desk MemoryHost} {t : Target} {r : Report} {rest : List Report}

/-- What a queued report is about does not change when a source comes into sight. -/
lemma shown_reported_of_showed (hf : d.host.Fenced k) (hs : Showed t.source.uri d d') :
    ∀ r ∈ d.host.reports, d'.host.shown r.editor = d.host.shown r.editor := by
  intro r hr
  rcases hf.reported r hr with hlt | hdocument
  · exact shown_congr (hs.uri? (UInt64.lt_of_lt_of_le hlt hf.le))
  · rcases shown_of_showed hs r.editor with hsame | ⟨-, hnew⟩
    · exact hsame
    · rw [hnew, hdocument]

lemma fenced_of_showed (hf : d.host.Fenced k) (hs : Showed t.source.uri d d') :
    d'.host.Fenced k where
  le := UInt64.le_trans hf.le hs.nextEditor
  views e t' hshown := hf.views e t' (view_of_showed hs hshown)
  reported r hr := by
    rw [hs.reports] at hr
    rw [shown_reported_of_showed hf hs r hr]
    exact hf.reported r hr

lemma fenced_withReports (hf : d.host.Fenced k) (hreports : d.host.reports = r :: rest) :
    (d.withReports rest).host.Fenced k :=
  hf.of_sameDocuments (sameDocuments_withReports d rest)
    fun _ hr => .inl (hreports ▸ List.mem_cons_of_mem r hr)

/-! ### The measure -/

/-- The most deliveries that the queued reports can lead to. -/
def workload (views : Nat) (d : Desk MemoryHost) : Nat :=
  cost views d.session.viewEchoes d.queue

/-! ### One delivery -/

variable {views : Nat}

/-- One view of a spread raises the workload by one at most, and other editors not at all. -/
lemma workload_step_le (views : Nat) (s : Source) (e : EditorId) (selections : List Selection)
    {p : Progress MemoryHost} {view : VisibleEditor}
    (hview : Host.uri? p.desk.host view.id = some view.uri)
    (hroom : ∀ t, view.targetFrom? s = some t → (p.desk.session.latchesOf t).view.HasRoom) :
    (p.step s e selections true view).desk.workload views ≤
      p.desk.workload views + if isView view then 1 else 0 := by
  rcases Progress.step_cases s e selections true p view with
    ⟨-, hstep⟩ | ⟨t, ht, ⟨-, -, hstep⟩ | ⟨-, -, hstep⟩ | ⟨-, mapped, -, -, hstep⟩⟩
  · rw [hstep]; omega
  · have hqueue : (p.absorb t).desk.queue = p.desk.queue := rfl
    rw [hstep, workload, Progress.viewEchoes_absorb, hqueue, workload]
    omega
  · rw [hstep]; omega
  · have hisView : isView view = true := isView_iff.mpr ⟨t, (targetFrom?_eq_some_iff.mp ht).1⟩
    have hsame := Progress.sameDocuments_write p t view mapped
    rw [hstep, if_pos rfl, if_pos hisView, workload, workload]
    rcases Progress.write_cases_of_hasRoom mapped view (hroom t ht) with
      ⟨hreports, hview'⟩ | ⟨hreports, hview'⟩
    · have hqueue := queue_append hsame hreports
      rw [shown_of_targetFrom? hview ht] at hqueue
      rw [hqueue, hview']
      exact cost_append_echo views _ t _
    · have hqueue := queue_congr hreports fun r _ => hsame.shown r.editor
      rw [hqueue, hview']
      omega

lemma workload_foldl_le (views : Nat) (s : Source) (e : EditorId) (selections : List Selection)
    (editors : List VisibleEditor) (p : Progress MemoryHost)
    (hviews : ∀ view ∈ editors, Host.uri? p.desk.host view.id = some view.uri)
    (hroom : ∀ before view after t, editors = before ++ view :: after →
      view.targetFrom? s = some t →
      ((before.foldl (Progress.step s e selections true) p).desk.session.latchesOf
        t).view.HasRoom) :
    (editors.foldl (Progress.step s e selections true) p).desk.workload views ≤
      p.desk.workload views + editors.countP isView := by
  induction editors generalizing p with
  | nil => exact Nat.le_refl _
  | cons view editors ih =>
    have hsame := Progress.sameDocuments_step s e selections p view
    have hhead := workload_step_le views s e selections
      (hviews view List.mem_cons_self) fun t ht => hroom [] view editors t rfl ht
    have htail := ih (p.step s e selections true view)
      (fun v hv => (hsame.uri? v.id).trans (hviews v (List.mem_cons_of_mem _ hv)))
      (fun before v after t heq ht => hroom (view :: before) v after t (by rw [heq]; rfl) ht)
    rw [List.foldl_cons, List.countP_cons]
    omega

/-- What every delivery preserves: the fence, and that there are not too many views. -/
structure Confined (k : UInt64) (views : Nat) (d : Desk MemoryHost) : Prop where
  fenced : d.host.Fenced k
  viewCount : d.host.viewCount ≤ views

lemma traceBack_lt_workload (h : Confined k views d) (e : EditorId) (selections : List Selection) :
    Confined k views (d.traceBack e t selections).2 ∧
      (d.traceBack e t selections).2.workload views < cost views d.session.viewEchoes
        (.view t :: d.queue) := by
  obtain ⟨d₁, hshowed, hcases⟩ := traceBack_cases d e t selections
  have hf₁ := fenced_of_showed h.fenced hshowed
  have hviews₁ : d₁.host.viewCount ≤ views :=
    Nat.le_trans (viewCount_le fun e t' => view_of_showed hshowed) h.viewCount
  have hqueue₁ : d₁.queue = d.queue :=
    queue_congr hshowed.reports (shown_reported_of_showed h.fenced hshowed)
  generalize (d.traceBack e t selections).2 = d₂ at hcases
  rcases hcases with ⟨hecho, hhost, hlatches⟩ | ⟨hnone, rfl⟩ | ⟨hnone, dest, mapped, hdest, hhost,
    hlatches⟩
  · refine ⟨⟨hhost ▸ hf₁, hhost ▸ hviews₁⟩, ?_⟩
    have hqueue : d₂.queue = d.queue := by rw [queue, hhost, ← hqueue₁]; rfl
    rw [workload, Session.viewEchoes_of_update hlatches, Latch.pending_absorb, hqueue, cost,
      if_pos hecho]
    exact Nat.lt_one_add_iff.mpr (Nat.le_refl _)
  · refine ⟨⟨hf₁, hviews₁⟩, ?_⟩
    rw [workload, hshowed.viewEchoes, hqueue₁, cost, if_neg (by omega)]
    omega
  · have hsame : SameDocuments d₁.host d₂.host := hhost ▸ sameDocuments_writeArmed _ _ _ _
    have hdocument : d₁.host.shown dest = .document :=
      shown_of_document hdest t.source.not_isProductUri_uri
    have hviews₂ : d₂.host.viewCount ≤ views :=
      Nat.le_trans (viewCount_le fun e t' ht => (hsame.shown e).symm.trans ht) hviews₁
    have hview : d₂.session.viewEchoes = d.session.viewEchoes :=
      (Session.viewEchoes_of_update hlatches).trans (update_eq_self t _)
    rw [workload, hview, cost, if_neg (by omega)]
    rcases writeArmed_cases d₁.host dest (d.session.latchesOf t).source mapped with
      ⟨-, -, hreports⟩ | ⟨-, hreports⟩ <;> rw [← hhost] at hreports
    · have happend := cost_append_le views d.session.viewEchoes .document d.queue
      rw [queue_append hsame hreports, hqueue₁, hdocument]
      simp only [Shown.price] at happend
      refine ⟨⟨hf₁.of_sameDocuments hsame fun r hr => ?_, hviews₂⟩, by omega⟩
      rw [hreports] at hr
      rcases List.mem_append.mp hr with hr | hr
      · exact .inl hr
      · rw [List.mem_singleton.mp hr]
        exact .inr (.inl hdocument)
    · rw [queue_congr hreports fun r _ => hsame.shown r.editor, hqueue₁]
      exact ⟨⟨hf₁.of_sameDocuments hsame fun r hr => .inl (hreports ▸ hr), hviews₂⟩, by omega⟩

lemma spread_lt_workload (h : Confined k views d) {uri : String}
    (huri : Host.uri? d.host r.editor = some uri)
    (hproduct : isProductUri uri = false) (hroom : d.HasRoomFor r) :
    Confined k views (d.spread r.editor uri r.selections true).2 ∧
      (d.spread r.editor uri r.selections true).2.workload views < cost views
        d.session.viewEchoes (.document :: d.queue) := by
  have hsame := sameDocuments_spread d r.editor uri r.selections
  have hreports := reports_spread d r.editor uri r.selections
  refine ⟨⟨h.fenced.of_sameDocuments hsame fun r' hr => ?_, ?_⟩, ?_⟩
  · rcases hreports r' hr with hr | hview
    · exact .inl hr
    · exact .inr (.inr hview)
  · exact Nat.le_trans (viewCount_le fun e t ht => (hsame.shown e).symm.trans ht) h.viewCount
  · have hload := workload_foldl_le views (.parse uri) r.editor r.selections
      (Host.visible d.host) ⟨d, [], false⟩ (fun _ hv => uri?_of_mem_visible hv)
      fun before view after t heq ht => hroom uri before view after t huri hproduct heq ht
    have hcount : (Host.visible d.host).countP isView ≤ views := h.viewCount
    have hspread : (d.spread r.editor uri r.selections true).2.workload views ≤
        cost views d.session.viewEchoes d.queue + (Host.visible d.host).countP isView := hload
    rw [cost]
    omega

/-- **A delivery makes progress**: what it leaves in the queue leads to fewer deliveries than
what it found. -/
theorem deliver_lt_workload (h : Confined k views d) (hreports : d.host.reports = r :: rest)
    (hroom : (d.withReports rest).HasRoomFor r) :
    Confined k views ((d.withReports rest).deliver r) ∧
      ((d.withReports rest).deliver r).workload views < d.workload views := by
  have h₀ : Confined k views (d.withReports rest) :=
    ⟨fenced_withReports h.fenced hreports, h.viewCount⟩
  have hload : d.workload views =
      cost views (d.withReports rest).session.viewEchoes
        ((d.withReports rest).host.shown r.editor :: (d.withReports rest).queue) := by
    rw [workload, queue, hreports]; rfl
  rw [hload]
  generalize d.withReports rest = d₀ at h₀ hroom
  cases hshown : d₀.host.shown r.editor with
  | nothing =>
    rw [deliver_of_nothing hshown, workload, cost]
    exact ⟨h₀, by omega⟩
  | view t =>
    rw [deliver_of_view hshown]
    exact traceBack_lt_workload h₀ _ _
  | document =>
    obtain ⟨uri, huri, hproduct⟩ := shown_eq_document_iff.mp hshown
    rw [deliver_of_document huri hproduct]
    exact spread_lt_workload h₀ huri hproduct hroom

/-! ### All deliveries -/

/-- However many reports are delivered, no counter of writes to views is used up. -/
def Unsaturated (d : Desk MemoryHost) : Prop :=
  ∀ n r rest, (drainUpTo n d).2.host.reports = r :: rest →
    ((drainUpTo n d).2.withReports rest).HasRoomFor r

lemma Unsaturated.hasRoomFor (h : d.Unsaturated) (hreports : d.host.reports = r :: rest) :
    (d.withReports rest).HasRoomFor r :=
  h 0 r rest hreports

lemma Unsaturated.deliver (h : d.Unsaturated) (hreports : d.host.reports = r :: rest) :
    ((d.withReports rest).deliver r).Unsaturated := by
  intro n r' rest' hreports'
  have hnext := h (n + 1) r' rest'
  rw [drainUpTo_succ hreports] at hnext
  exact hnext hreports'

lemma confined (hissued : d.host.Issued) :
    Confined d.host.nextEditor.number d.host.viewCount d :=
  ⟨hissued.fenced, Nat.le_refl _⟩

lemma workload_le (views : Nat) (d : Desk MemoryHost) :
    d.workload views ≤ d.queue.count .document + 2 * d.queue.countP Shown.isView +
      d.queue.count .nothing + views * (d.queue.count .document + d.queue.countP Shown.isView) :=
  cost_le views _ d.queue

lemma length_reports_le_workload (views : Nat) (d : Desk MemoryHost) :
    d.host.reports.length ≤ d.workload views := by
  have hlength : d.queue.length = d.host.reports.length := List.length_map _
  rw [← hlength]
  exact length_le_cost _ _ _

lemma workload_pos (hreports : d.host.reports = r :: rest) : 0 < d.workload views := by
  have hlength := length_reports_le_workload views d
  rw [hreports, List.length_cons] at hlength
  omega

/-- The next report finds room, if there is room for as many rounds as reports may come. -/
lemma hasRoomFor_of_workload (h : Confined k views d)
    (hroom : d.session.RoomFor (d.workload views * views)) (hreports : d.host.reports = r :: rest) :
    (d.withReports rest).HasRoomFor r := by
  have hpos : 0 < d.workload views := workload_pos hreports
  have hle : views ≤ d.workload views * views := Nat.le_mul_of_pos_left views hpos
  exact hasRoomFor_of_roomFor (hroom.mono (Nat.le_trans h.viewCount hle))

lemma roomFor_deliver_workload (h : Confined k views d)
    (hroom : d.session.RoomFor (d.workload views * views)) (hreports : d.host.reports = r :: rest) :
    ((d.withReports rest).deliver r).session.RoomFor
      (((d.withReports rest).deliver r).workload views * views) := by
  obtain ⟨-, hlt⟩ := deliver_lt_workload h hreports (hasRoomFor_of_workload h hroom hreports)
  refine roomFor_deliver (d := d.withReports rest) (hroom.mono ?_) r
  calc ((d.withReports rest).deliver r).workload views * views + d.host.viewCount
      ≤ ((d.withReports rest).deliver r).workload views * views + views :=
        Nat.add_le_add_left h.viewCount _
    _ = (((d.withReports rest).deliver r).workload views + 1) * views := (Nat.succ_mul _ _).symm
    _ ≤ d.workload views * views := Nat.mul_le_mul_right views hlt

/-- Latches that are not nearly full are never used up: every delivery takes room for one
write to each view, and there are not more deliveries than the workload. -/
theorem unsaturated_of_roomFor (hissued : d.host.Issued)
    (hroom : d.session.RoomFor (d.workload d.host.viewCount * d.host.viewCount)) :
    d.Unsaturated := by
  have h := confined hissued
  generalize d.host.viewCount = views at h hroom
  intro n r rest hreports
  have hinv := drainUpTo_induction
    (P := fun d' => Confined d.host.nextEditor.number views d' ∧
      d'.session.RoomFor (d'.workload views * views))
    (fun d' r' rest' ⟨h', hroom'⟩ hreports' =>
      ⟨(deliver_lt_workload h' hreports' (hasRoomFor_of_workload h' hroom' hreports')).1,
        roomFor_deliver_workload h' hroom' hreports'⟩) n ⟨h, hroom⟩
  exact hasRoomFor_of_workload hinv.1 hinv.2 hreports

/-- **There is no ping-pong**: with `m` views in sight, `a` reports of documents, `b` of views
and `c` of neither lead to `a + 2 * b + c + m * (a + b)` deliveries at most, and after that
many nothing is queued. No counter of writes to views may be used up on the way. -/
theorem drains_end (hissued : d.host.Issued) (hroom : d.Unsaturated) :
    let a := d.queue.count .document
    let b := d.queue.countP Shown.isView
    let c := d.queue.count .nothing
    let m := d.host.viewCount
    (∀ n, (drains n d).1 ≤ a + 2 * b + c + m * (a + b)) ∧
      ∀ n, a + 2 * b + c + m * (a + b) ≤ n * burst → (drains n d).2.host.reports = [] := by
  intro a b c m
  have hload : d.workload m ≤ a + 2 * b + c + m * (a + b) := workload_le m d
  have hdrain : ∀ n, (drainUpTo n d).1 ≤ d.workload m ∧
      (d.workload m ≤ n → (drainUpTo n d).2.host.reports = []) := fun n =>
    drainUpTo_le_measure
      (P := fun d' => Confined d.host.nextEditor.number m d' ∧ d'.Unsaturated) (workload m)
      (fun d' r rest ⟨h', hroom'⟩ hreports =>
        have hnext := deliver_lt_workload h' hreports (hroom'.hasRoomFor hreports)
        ⟨⟨hnext.1, hroom'.deliver hreports⟩, hnext.2⟩) n ⟨confined hissued, hroom⟩
  refine ⟨fun n => ?_, fun n hn => ?_⟩
  · rw [drains_eq]
    exact Nat.le_trans (hdrain _).1 hload
  · rw [drains_eq]
    exact (hdrain _).2 (Nat.le_trans hload hn)

/-- A document and a view of it, both with selections that were not yet reported. -/
def unreported : Desk MemoryHost :=
  ⟨.new .initial, (pair.select ⟨1⟩ [.caret ⟨1, 0⟩]).select ⟨0⟩ [.caret ⟨1, 0⟩, .caret ⟨1, 0⟩]⟩

/-- Two selections that cross lead to five deliveries at most. -/
theorem drains_end_unreported : unreported.host.Issued ∧ unreported.Unsaturated ∧
    (∀ n, (drains n unreported).1 ≤ 5) ∧
      ∀ n, 5 ≤ n * burst → (drains n unreported).2.host.reports = [] := by
  have hissued : unreported.host.Issued :=
    (issued_pair.select ⟨1⟩ [.caret ⟨1, 0⟩]).select ⟨0⟩ [.caret ⟨1, 0⟩, .caret ⟨1, 0⟩]
  have hroom : unreported.Unsaturated :=
    unsaturated_of_roomFor hissued (Session.roomFor_new _ (by decide))
  exact ⟨hissued, hroom, drains_end hissued hroom⟩

end Desk

end LinkedViews
