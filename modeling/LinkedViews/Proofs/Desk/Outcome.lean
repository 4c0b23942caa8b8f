import LinkedViews.Proofs.Desk.Echoes

/-!
Which reports are taken for echoes.

The report of a view is one exactly if the latch for the views of its target is armed. The
report of a document is one only if some latch of its source is. So where no latch is armed,
every report is taken for what a user did. And of the views of a target as many echoes are
awaited as reports are queued for them, but for those that were taken for echoes.
-/

namespace LinkedViews.Desk

open Function MemoryHost

variable {d : Desk MemoryHost} {t : Target} {r : Report}

/-- What comes of a report, unless it is of a malformed product uri. -/
def outcome? (d : Desk MemoryHost) (r : Report) : Option Outcome :=
  (d.selectionReported r.editor r.selections).toOption.map (·.1)

lemma outcome?_of_nothing (hshown : d.host.shown r.editor = .nothing) :
    d.outcome? r ≠ some .echo := by
  unfold outcome?
  rcases selectionReported_of_nothing hshown with hok | ⟨err, herror⟩
  · rw [hok]
    exact fun h => by cases h
  · rw [herror]
    exact fun h => by cases h

lemma outcome?_of_view (hshown : d.host.shown r.editor = .view t) :
    d.outcome? r = some (d.traceBack r.editor t r.selections).1 := by
  unfold outcome?
  rw [selectionReported_of_view hshown]; rfl

lemma outcome?_of_document {uri : String} (huri : Host.uri? d.host r.editor = some uri)
    (hproduct : isProductUri uri = false) :
    d.outcome? r = some (d.spread r.editor uri r.selections true).1 := by
  unfold outcome?
  rw [selectionReported_of_document huri hproduct]; rfl

lemma traceBack_fst_eq_echo_iff (d : Desk MemoryHost) (e : EditorId) (t : Target)
    (selections : List Selection) :
    (d.traceBack e t selections).1 = .echo ↔ 0 < d.session.viewEchoes t := by
  obtain ⟨dest, hdest, -⟩ := display_fst d t.source.uri .source true
  have hshowed := showed_display d t.source.uri .source true
  unfold traceBack
  generalize d.display t.source.uri .source true = first at hdest hshowed
  obtain ⟨o, d₁⟩ := first
  simp only at hdest hshowed
  subst hdest
  simp only [hshowed.latches, Session.isArmed_view_iff]
  split
  · rename_i harmed
    exact ⟨fun _ => harmed, fun _ => rfl⟩
  · rename_i hidle
    refine ⟨fun h => ?_, fun h => absurd h hidle⟩
    split at h <;> cases h

/-- A spread took its report for an echo only at a view whose source awaited one. -/
lemma echoed_foldl (s : Source) (e : EditorId) (selections : List Selection)
    (views : List VisibleEditor) (p : Progress MemoryHost)
    (h : (views.foldl (Progress.step s e selections true) p).echoed) :
    p.echoed ∨ ∃ t : Target, t.source = s ∧ 0 < p.desk.session.sourceEchoes t := by
  induction views generalizing p with
  | nil => exact .inl h
  | cons view views ih =>
    rcases ih (p.step s e selections true view) h with hechoed | ⟨t, ht, hpos⟩
    · rcases Progress.step_cases s e selections true p view with
        ⟨-, hstep⟩ | ⟨t, ht, ⟨-, hpos, -⟩ | ⟨-, -, hstep⟩ | ⟨-, mapped, -, -, hstep⟩⟩
      · rw [hstep] at hechoed
        exact .inl hechoed
      · exact .inr ⟨t, (targetFrom?_eq_some_iff.mp ht).2, hpos⟩
      · rw [hstep] at hechoed
        exact .inl hechoed
      · rw [hstep, if_pos rfl] at hechoed
        exact .inl hechoed
    · rw [sourceEchoes_step] at hpos
      exact .inr ⟨t, ht, by omega⟩

lemma sourceEchoes_pos_of_spread {e : EditorId} {uri : String} {selections : List Selection}
    (h : (d.spread e uri selections true).1 = .echo) :
    ∃ t : Target, t.source = .parse uri ∧ 0 < d.session.sourceEchoes t := by
  have hechoed : ((Host.visible d.host).foldl (Progress.step (.parse uri) e selections true)
      ⟨d, [], false⟩).echoed := by
    unfold spread Progress.outcome at h
    simp only at h
    split at h
    · cases h
    · split at h
      · assumption
      · cases h
  rcases echoed_foldl _ _ _ _ _ hechoed with hfalse | harmed
  · cases hfalse
  · exact harmed

/-- **Only a report that is awaited is taken for an echo**: the latch of the target is armed
if it is of a view, and a latch of the source if it is of a document. -/
theorem armed_of_outcome?_eq_echo (h : d.outcome? r = some .echo) :
    (∃ t, d.host.shown r.editor = .view t ∧ 0 < d.session.viewEchoes t) ∨
      ∃ t : Target, d.host.showsSource t.source r.editor ∧ 0 < d.session.sourceEchoes t := by
  cases hshown : d.host.shown r.editor with
  | nothing => exact absurd h (outcome?_of_nothing hshown)
  | view t =>
    rw [outcome?_of_view hshown] at h
    exact .inl ⟨t, rfl, (traceBack_fst_eq_echo_iff _ _ _ _).mp (Option.some.inj h)⟩
  | document =>
    obtain ⟨uri, huri, hproduct⟩ := shown_eq_document_iff.mp hshown
    rw [outcome?_of_document huri hproduct] at h
    obtain ⟨t, ht, hpos⟩ := sourceEchoes_pos_of_spread (Option.some.inj h)
    refine .inr ⟨t, ?_, hpos⟩
    rw [showsSource, huri, Option.any_some, hproduct, ht, decide_eq_true rfl]; rfl

/-- What a delivery adds to the echoes awaited of a target's views is what it queues for
them, less the report that it took for an echo. -/
lemma viewEchoes_deliver (hissued : d.host.Issued) (hroom : d.session.RoomFor d.host.viewCount)
    (r : Report) (t : Target) :
    (d.deliver r).session.viewEchoes t + d.queue.count (.view t) +
        (if d.host.shown r.editor = .view t ∧ d.outcome? r = some .echo then 1 else 0) =
      d.session.viewEchoes t + (d.deliver r).queue.count (.view t) := by
  cases hshown : d.host.shown r.editor with
  | nothing =>
    have hno : ¬ (Shown.nothing = .view t ∧ d.outcome? r = some .echo) := fun h => by cases h.1
    rw [deliver_of_nothing hshown, if_neg hno, Nat.add_zero]
  | document =>
    obtain ⟨uri, huri, hproduct⟩ := shown_eq_document_iff.mp hshown
    have hno : ¬ (Shown.document = .view t ∧ d.outcome? r = some .echo) := fun h => by cases h.1
    rw [deliver_of_document huri hproduct, if_neg hno, Nat.add_zero]
    exact viewEchoes_spread r.editor uri r.selections hroom t
  | view t' =>
    have hecho := traceBack_fst_eq_echo_iff d r.editor t' r.selections
    rw [deliver_of_view hshown, outcome?_of_view hshown]
    simp only [Option.some.injEq, hecho]
    obtain ⟨d₁, hshowed, hcases⟩ := traceBack_cases d r.editor t' r.selections
    have hqueue₁ : d₁.queue = d.queue := queue_congr hshowed.reports fun r' hr' =>
      shown_congr (hshowed.uri? (hissued.reported r' hr'))
    generalize (d.traceBack r.editor t' r.selections).2 = d₂ at hcases
    rcases hcases with ⟨hpos, hhost, hlatches⟩ | ⟨hzero, rfl⟩ | ⟨hzero, dest, mapped, hdest,
      hhost, hlatches⟩
    · have hqueue : d₂.queue = d.queue := by rw [queue, hhost]; exact hqueue₁
      rw [Session.viewEchoes_of_update hlatches, Latch.pending_absorb, hqueue, update_apply]
      by_cases ht : t = t'
      · have hpending : (d.session.latchesOf t').view.pending = d.session.viewEchoes t' := rfl
        rw [if_pos ht, if_pos ⟨congrArg Shown.view ht.symm, hpos⟩, hpending, ht]
        omega
      · rw [if_neg ht, if_neg fun h => ht (Shown.view.inj h.1).symm, Nat.add_zero]
    · rw [hshowed.viewEchoes, hqueue₁, if_neg (by omega), Nat.add_zero]
    · have hsame : SameDocuments d₁.host d₂.host := hhost ▸ sameDocuments_writeArmed _ _ _ _
      have hdocument : d₁.host.shown dest = .document :=
        shown_of_document hdest t'.source.not_isProductUri_uri
      have hview : d₂.session.viewEchoes = d.session.viewEchoes :=
        (Session.viewEchoes_of_update hlatches).trans (update_eq_self t' _)
      rw [hview, if_neg (by omega), Nat.add_zero]
      rcases writeArmed_cases d₁.host dest (d.session.latchesOf t').source mapped with
        ⟨-, -, hreports⟩ | ⟨-, hreports⟩ <;> rw [← hhost] at hreports
      · rw [queue_append hsame hreports, hqueue₁, hdocument, List.count_append,
          List.count_singleton]
        simp only [beq_iff_eq, reduceCtorEq, if_false, Nat.add_zero]
      · rw [queue_congr hreports fun r _ => hsame.shown r.editor, hqueue₁]

end LinkedViews.Desk
