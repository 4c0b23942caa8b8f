import LinkedViews.Proofs.Desk.Room

/-!
What a report that spreads does to the latches.

Each view that the report comes to takes one echo off the latch of its source, if one is
awaited. Each write to a view queues one report, and has the latch of the view await it. So
the reports of views that come into the queue are as many as the echoes awaited in addition.
-/

namespace LinkedViews.Desk

open Function MemoryHost

section Spread

variable (s : Source) (e : EditorId) (selections : List Selection) {p : Progress MemoryHost}
  {view : VisibleEditor}

/-- Only a view of the target takes an echo off the latch of its source. -/
lemma sourceEchoes_step (p : Progress MemoryHost) (view : VisibleEditor) (t : Target) :
    (p.step s e selections true view).desk.session.sourceEchoes t =
      p.desk.session.sourceEchoes t - if view.targetFrom? s = some t then 1 else 0 := by
  have hidle : ∀ {t'}, ¬ (true = true ∧ 0 < p.desk.session.sourceEchoes t') →
      p.desk.session.sourceEchoes t =
        p.desk.session.sourceEchoes t - if some t' = some t then 1 else 0 := by
    intro t' hzero
    split
    · rename_i ht
      rw [← Option.some.inj ht]
      have hunarmed : ¬ 0 < p.desk.session.sourceEchoes t' := fun hpos => hzero ⟨rfl, hpos⟩
      omega
    · rfl
  rcases Progress.step_cases s e selections true p view with
    ⟨hnone, hstep⟩ | ⟨t', ht', ⟨-, -, hstep⟩ | ⟨hzero, -, hstep⟩ | ⟨hzero, mapped, -, -, hstep⟩⟩
  · rw [hstep, hnone, if_neg (Option.some_ne_none t).symm, Nat.sub_zero]
  · rw [hstep, ht', Progress.sourceEchoes_absorb, update_apply]
    by_cases ht : t = t'
    · rw [if_pos ht, if_pos (congrArg some ht.symm), ht]
    · rw [if_neg ht, if_neg fun heq => ht (Option.some.inj heq).symm, Nat.sub_zero]
  · rw [hstep, ht']
    exact hidle hzero
  · rw [hstep, if_pos rfl, Progress.sourceEchoes_write, ht']
    exact hidle hzero

lemma sourceEchoes_foldl (views : List VisibleEditor) (p : Progress MemoryHost) (t : Target) :
    (views.foldl (Progress.step s e selections true) p).desk.session.sourceEchoes t =
      p.desk.session.sourceEchoes t - views.countP fun v => v.targetFrom? s = some t := by
  induction views generalizing p with
  | nil => rfl
  | cons view views ih =>
    rw [List.foldl_cons, ih, sourceEchoes_step, List.countP_cons]
    simp only [decide_eq_true_eq]
    omega

/-- A view adds to the queue as many reports of a target as echoes to those awaited. -/
lemma viewEchoes_step (hview : Host.uri? p.desk.host view.id = some view.uri)
    (hroom : p.desk.session.RoomFor (if isView view then 1 else 0)) (t : Target) :
    (p.step s e selections true view).desk.session.viewEchoes t +
        p.desk.queue.count (.view t) =
      p.desk.session.viewEchoes t +
        (p.step s e selections true view).desk.queue.count (.view t) := by
  rcases Progress.step_cases s e selections true p view with
    ⟨-, hstep⟩ | ⟨t', ht', ⟨-, -, hstep⟩ | ⟨-, -, hstep⟩ | ⟨-, mapped, -, -, hstep⟩⟩
  · rw [hstep]
  · have hqueue : (p.absorb t').desk.queue = p.desk.queue := rfl
    rw [hstep, Progress.viewEchoes_absorb, hqueue]
  · rw [hstep]
  · rw [if_pos (isView_iff.mpr ⟨t', (targetFrom?_eq_some_iff.mp ht').1⟩)] at hroom
    have hsame := Progress.sameDocuments_write p t' view mapped
    rw [hstep, if_pos rfl]
    rcases Progress.write_cases_of_hasRoom mapped view (hroom.hasRoom (n := 0) t') with
      ⟨hreports, hechoes⟩ | ⟨hreports, hechoes⟩
    · rw [queue_append hsame hreports, shown_of_targetFrom? hview ht', hechoes,
        List.count_append, List.count_singleton, update_apply]
      simp only [beq_iff_eq, Shown.view.injEq]
      by_cases ht : t = t'
      · rw [if_pos ht, if_pos ht.symm, ht]
        omega
      · rw [if_neg ht, if_neg (Ne.symm ht)]
        omega
    · rw [queue_congr hreports fun r _ => hsame.shown r.editor, hechoes]

lemma viewEchoes_foldl (views : List VisibleEditor)
    (hviews : ∀ view ∈ views, Host.uri? p.desk.host view.id = some view.uri)
    (hroom : p.desk.session.RoomFor (views.countP isView)) (t : Target) :
    (views.foldl (Progress.step s e selections true) p).desk.session.viewEchoes t +
        p.desk.queue.count (.view t) =
      p.desk.session.viewEchoes t +
        (views.foldl (Progress.step s e selections true) p).desk.queue.count (.view t) := by
  induction views generalizing p with
  | nil => rfl
  | cons view views ih =>
    have hsame := Progress.sameDocuments_step s e selections p view
    rw [List.countP_cons] at hroom
    have hhead := viewEchoes_step s e selections (hviews view List.mem_cons_self)
      (hroom.mono (by omega)) t
    have htail := ih (p := p.step s e selections true view)
      (fun v hv => (hsame.uri? v.id).trans (hviews v (List.mem_cons_of_mem _ hv)))
      (roomFor_step s e selections hroom)
    rw [List.foldl_cons]
    omega

end Spread

variable {d : Desk MemoryHost} {e : EditorId} {uri : String}

lemma sourceEchoes_spread (d : Desk MemoryHost) (e : EditorId) (uri : String)
    (selections : List Selection) (t : Target) :
    (d.spread e uri selections true).2.session.sourceEchoes t = d.session.sourceEchoes t -
      (Host.visible d.host).countP fun v => v.targetFrom? (.parse uri) = some t :=
  sourceEchoes_foldl _ _ _ (Host.visible d.host) ⟨d, [], false⟩ t

lemma viewEchoes_spread (e : EditorId) (uri : String) (selections : List Selection)
    (hroom : d.session.RoomFor d.host.viewCount) (t : Target) :
    (d.spread e uri selections true).2.session.viewEchoes t + d.queue.count (.view t) =
      d.session.viewEchoes t + (d.spread e uri selections true).2.queue.count (.view t) :=
  viewEchoes_foldl (p := ⟨d, [], false⟩) _ _ _ (Host.visible d.host)
    (fun _ hv => uri?_of_mem_visible hv) hroom t

end LinkedViews.Desk
