import LinkedViews.Proofs.Desk.Echoes
import LinkedViews.Proofs.Desk.Termination

/-!
What becomes of a selection in a source document.

When nothing is queued and no latch is armed, the report of the selection spreads to the
views once, and all that is queued then are echoes that the latches await. Working them off
changes no selections. So the views have what the links say, and everything else is as it
was.
-/

namespace LinkedViews.Desk

open Function MemoryHost

variable {d d' : Desk MemoryHost} {t : Target} {r : Report} {rest : List Report}

section Spread

variable (s : Source) (e : EditorId) (selections : List Selection) {p : Progress MemoryHost}
  {view : VisibleEditor}

/-- A report that no latch takes for an echo carries its selections to the view. -/
lemma step_cases_of_idle (view : VisibleEditor)
    (hidle : ∀ t, view.targetFrom? s = some t → p.desk.session.sourceEchoes t = 0) :
    (view.targetFrom? s = none ∧ p.step s e selections true view = p) ∨
    ∃ t, view.targetFrom? s = some t ∧
      ((carried p.desk.host (p.desk.session.product t) .forward e selections view.id = [] ∧
          p.step s e selections true view = p) ∨
        ∃ mapped, mapped ≠ [] ∧
          carried p.desk.host (p.desk.session.product t) .forward e selections view.id = mapped ∧
          p.step s e selections true view = p.write t view mapped) := by
  rcases Progress.step_cases s e selections true p view with
    hnone | ⟨t, ht, ⟨-, hpos, -⟩ | ⟨-, hnil, hstep⟩ | ⟨-, mapped, hne, hmapped, hstep⟩⟩
  · exact .inl hnone
  · have hzero := hidle t ht
    omega
  · exact .inr ⟨t, ht, .inl ⟨hnil, hstep⟩⟩
  · rw [if_pos rfl] at hstep
    exact .inr ⟨t, ht, .inr ⟨mapped, hne, hmapped, hstep⟩⟩

/-! ### Selections of a spread -/

/-- The selections that a report leaves in an editor in sight: what the links say, if the
editor shows a product of the document and they say anything. -/
def spreadTo (d : Desk MemoryHost) (s : Source) (e : EditorId) (selections : List Selection)
    (view : VisibleEditor) : List Selection :=
  match view.targetFrom? s with
  | none => Host.selections d.host view.id
  | some t =>
    match carried d.host (d.session.product t) .forward e selections view.id with
    | [] => Host.selections d.host view.id
    | mapped => mapped

lemma spreadTo_congr (hsame : SameDocuments d.host d'.host)
    (hproduct : ∀ t, d'.session.product t = d.session.product t)
    (hselections : Host.selections d'.host view.id = Host.selections d.host view.id) :
    d'.spreadTo s e selections view = d.spreadTo s e selections view := by
  unfold spreadTo
  simp only [hsame.carried, hproduct, hselections]

lemma spreadTo_of_linked (ht : view.targetFrom? s = some t) :
    d.spreadTo s e selections view =
      match carried d.host (d.session.product t) .forward e selections view.id with
      | [] => Host.selections d.host view.id
      | mapped => mapped := by
  rw [spreadTo, ht]

lemma spreadTo_of_unlinked (hunlinked : ∀ t : Target, view.uri = t.uri → t.source ≠ s) :
    d.spreadTo s e selections view = Host.selections d.host view.id := by
  have hnone : view.targetFrom? s = none := by
    rw [Option.eq_none_iff_forall_ne_some]
    intro t ht
    obtain ⟨huri, hsource⟩ := targetFrom?_eq_some_iff.mp ht
    exact hunlinked t huri hsource
  rw [spreadTo, hnone]

lemma spreadTo_of_document (hproduct : isProductUri view.uri = false) :
    d.spreadTo s e selections view = Host.selections d.host view.id :=
  spreadTo_of_unlinked s e selections fun t ht => by
    rw [ht, t.isProductUri_uri] at hproduct
    cases hproduct

lemma selections_step_of_ne (hview : Host.uri? p.desk.host view.id = some view.uri) {e' : EditorId}
    (hne : e' ≠ view.id) : Host.selections (p.step s e selections true view).desk.host e' =
      Host.selections p.desk.host e' := by
  have hopen : p.desk.host.editors.contains view.id := isOpen_of_uri? hview
  rcases Progress.step_cases s e selections true p view with
    ⟨-, hstep⟩ | ⟨t, -, ⟨-, -, hstep⟩ | ⟨-, -, hstep⟩ | ⟨-, mapped, -, -, hstep⟩⟩
  · rw [hstep]
  · rw [hstep]; rfl
  · rw [hstep]
  · rw [hstep, if_pos rfl]
    exact (selections_writeArmed (p.desk.session.latchesOf t).view mapped hopen e').trans
      (if_neg hne)

lemma selections_step (hview : Host.uri? p.desk.host view.id = some view.uri)
    (hidle : ∀ t, view.targetFrom? s = some t → p.desk.session.sourceEchoes t = 0) :
    Host.selections (p.step s e selections true view).desk.host view.id =
      p.desk.spreadTo s e selections view := by
  have hopen : p.desk.host.editors.contains view.id := isOpen_of_uri? hview
  unfold spreadTo
  rcases step_cases_of_idle s e selections view hidle with
    ⟨hnone, hstep⟩ | ⟨t, ht, ⟨hnil, hstep⟩ | ⟨mapped, hne, hmapped, hstep⟩⟩
  · rw [hstep, hnone]
  · rw [hstep, ht]
    simp only [hnil]
  · obtain ⟨a, mapped, rfl⟩ := List.exists_cons_of_ne_nil hne
    rw [hstep, ht]
    simp only [hmapped]
    exact (selections_writeArmed (p.desk.session.latchesOf t).view (a :: mapped) hopen
      view.id).trans (if_pos rfl)

lemma selections_foldl_of_notMem (editors : List VisibleEditor)
    (hviews : ∀ view ∈ editors, Host.uri? p.desk.host view.id = some view.uri) {e' : EditorId}
    (hnot : e' ∉ editors.map VisibleEditor.id) :
    Host.selections (editors.foldl (Progress.step s e selections true) p).desk.host e' =
      Host.selections p.desk.host e' := by
  induction editors generalizing p with
  | nil => rfl
  | cons view editors ih =>
    rw [List.map_cons, List.mem_cons, not_or] at hnot
    have hsame := Progress.sameDocuments_step s e selections p view
    rw [List.foldl_cons, ih (fun v hv => (hsame.uri? v.id).trans
      (hviews v (List.mem_cons_of_mem _ hv))) hnot.2]
    exact selections_step_of_ne s e selections (hviews view List.mem_cons_self) hnot.1

section Split

variable {before after : List VisibleEditor}
  (hnodup : ((before ++ view :: after).map VisibleEditor.id).Nodup)
  (hviews : ∀ v ∈ before ++ view :: after, Host.uri? p.desk.host v.id = some v.uri)

include hnodup hviews

/-- Only the step of its own changes the selections of an editor. -/
lemma selections_foldl_split :
    let p' := before.foldl (Progress.step s e selections true) p
    Host.selections p'.desk.host view.id = Host.selections p.desk.host view.id ∧
    Host.selections ((before ++ view :: after).foldl (Progress.step s e selections true) p).desk.host
        view.id = Host.selections (p'.step s e selections true view).desk.host view.id := by
  intro p'
  rw [List.map_append, List.map_cons] at hnodup
  obtain ⟨-, hafter, hdisjoint⟩ := List.nodup_append.mp hnodup
  have hbefore : view.id ∉ before.map VisibleEditor.id := fun hmem =>
    hdisjoint _ hmem _ List.mem_cons_self rfl
  have hsame : SameDocuments p.desk.host (p'.step s e selections true view).desk.host :=
    (Progress.sameDocuments_foldl s e selections before p).trans
      (Progress.sameDocuments_step s e selections p' view)
  refine ⟨selections_foldl_of_notMem s e selections before
    (fun v hv => hviews v (List.mem_append_left _ hv)) hbefore, ?_⟩
  rw [List.foldl_append, List.foldl_cons]
  exact selections_foldl_of_notMem s e selections after
    (fun v hv => (hsame.uri? v.id).trans
      (hviews v (List.mem_append_right _ (List.mem_cons_of_mem _ hv))))
    (List.nodup_cons.mp hafter).1

/-- A view at which no echo is awaited any more gets its selections. -/
lemma selections_foldl_of_idle (hidle : ∀ t, view.targetFrom? s = some t →
      p.desk.session.sourceEchoes t ≤ before.countP fun v => v.targetFrom? s = some t) :
    Host.selections ((before ++ view :: after).foldl (Progress.step s e selections true) p).desk.host
      view.id = p.desk.spreadTo s e selections view := by
  obtain ⟨hkept, hfold⟩ := selections_foldl_split s e selections hnodup hviews
  have hsame := Progress.sameDocuments_foldl s e selections before p
  have hproduct := (undisturbed_foldl s e selections true before p).product
  have hmem : view ∈ before ++ view :: after := List.mem_append_right _ List.mem_cons_self
  rw [hfold, selections_step s e selections ((hsame.uri? view.id).trans (hviews view hmem))]
  · exact spreadTo_congr s e selections hsame hproduct hkept
  · intro t ht
    rw [sourceEchoes_foldl]
    exact Nat.sub_eq_zero_of_le (hidle t ht)

/-- A view at which an echo is still awaited keeps its selections. -/
lemma selections_foldl_of_armed (ht : view.targetFrom? s = some t)
    (harmed : (before.countP fun v => v.targetFrom? s = some t) < p.desk.session.sourceEchoes t) :
    Host.selections ((before ++ view :: after).foldl (Progress.step s e selections true) p).desk.host
      view.id = Host.selections p.desk.host view.id := by
  obtain ⟨hkept, hfold⟩ := selections_foldl_split s e selections hnodup hviews
  rw [hfold, ← hkept]
  have hpos : 0 < (before.foldl (Progress.step s e selections true) p).desk.session.sourceEchoes t := by
    rw [sourceEchoes_foldl]
    omega
  generalize before.foldl (Progress.step s e selections true) p = p' at hpos
  rcases Progress.step_cases s e selections true p' view with
    ⟨hnone, -⟩ | ⟨t', ht', ⟨-, -, hstep⟩ | ⟨hunarmed, -⟩ | ⟨hunarmed, -⟩⟩
  · rw [hnone] at ht
    cases ht
  · rw [hstep]; rfl
  · rw [ht] at ht'
    exact absurd ⟨rfl, Option.some.inj ht' ▸ hpos⟩ hunarmed
  · rw [ht] at ht'
    exact absurd ⟨rfl, Option.some.inj ht' ▸ hpos⟩ hunarmed

end Split

/-- A spread gives every editor in sight its selections. -/
lemma selections_foldl (editors : List VisibleEditor)
    (hnodup : (editors.map VisibleEditor.id).Nodup)
    (hidle : ∀ t, p.desk.session.sourceEchoes t = 0)
    (hviews : ∀ view ∈ editors, Host.uri? p.desk.host view.id = some view.uri)
    (hmem : view ∈ editors) :
    Host.selections (editors.foldl (Progress.step s e selections true) p).desk.host view.id =
      p.desk.spreadTo s e selections view := by
  obtain ⟨before, after, rfl⟩ := List.append_of_mem hmem
  exact selections_foldl_of_idle s e selections hnodup hviews fun t _ =>
    hidle t ▸ Nat.zero_le _

end Spread

/-! ### Reports that change nothing -/

lemma product_of_display {d₁ : Desk MemoryHost} {uri : String} {role : Role} {keepFocus : Bool}
    {e : Option EditorId} (hdisplay : d.display uri role keepFocus = (e, d₁)) (t : Target) :
    d₁.session.product t = d.session.product t := by
  have hundisturbed := undisturbed_display d uri role keepFocus
  rw [hdisplay] at hundisturbed
  exact hundisturbed.product t

/-- Where the links lead from a report of a view, if they lead anywhere, the source is selected
already. So also as a selection of the user the report changes nothing. -/
def Harmless (d : Desk MemoryHost) (t : Target) (r : Report) : Prop :=
  ∀ e ∈ (d.display t.source.uri .source true).1,
    let h := (d.display t.source.uri .source true).2.host
    let back := carried h (d.session.product t) .reverse r.editor r.selections e
    back = [] ∨ back = Host.selections h e

instance (d : Desk MemoryHost) (t : Target) (r : Report) : Decidable (d.Harmless t r) :=
  inferInstanceAs (Decidable (∀ e ∈ (d.display t.source.uri .source true).1, _ ∨ _))

lemma Harmless.selected {d₁ : Desk MemoryHost} {e : EditorId} (h : d.Harmless t r)
    (hdisplay : d.display t.source.uri .source true = (some e, d₁))
    (hne : carried d₁.host (d.session.product t) .reverse r.editor r.selections e ≠ []) :
    carried d₁.host (d.session.product t) .reverse r.editor r.selections e =
      Host.selections d₁.host e := by
  rw [Harmless, hdisplay] at h
  exact (h e rfl).resolve_left hne

/-- No report was queued, and the editors that there were have what they had. -/
structure Steady (h h' : MemoryHost) : Prop where
  reports : h'.reports = h.reports
  nextEditor : h.nextEditor.number ≤ h'.nextEditor.number
  uri? : ∀ e : EditorId, e.number < h.nextEditor.number → Host.uri? h' e = Host.uri? h e
  selections : ∀ e : EditorId, e.number < h.nextEditor.number →
    Host.selections h' e = Host.selections h e

lemma Steady.trans {h h' h'' : MemoryHost} (hs : Steady h h') (hs' : Steady h' h'') :
    Steady h h'' where
  reports := hs'.reports.trans hs.reports
  nextEditor := UInt64.le_trans hs.nextEditor hs'.nextEditor
  uri? e he := (hs'.uri? e (UInt64.lt_of_lt_of_le he hs.nextEditor)).trans (hs.uri? e he)
  selections e he :=
    (hs'.selections e (UInt64.lt_of_lt_of_le he hs.nextEditor)).trans (hs.selections e he)

lemma Showed.steady {uri : String} (hs : Showed uri d d') : Steady d.host d'.host :=
  ⟨hs.reports, hs.nextEditor, fun _ he => hs.uri? he, fun _ he => hs.selections he⟩

/-- Writing what an editor has already changes nothing. -/
lemma steady_writeArmed {h : MemoryHost} {e : EditorId} (l : Latch)
    (hopen : h.editors.contains e) :
    Steady h (writeArmed h e l (Host.selections h e)).host ∧
      (writeArmed h e l (Host.selections h e)).latch = l.arm.disarm := by
  have hsame := sameDocuments_writeArmed h e l (Host.selections h e)
  rcases writeArmed_changes h e l (Host.selections h e) with ⟨-, hne, -⟩ | ⟨-, hlatch, hreports⟩
  · exact absurd rfl hne
  · refine ⟨⟨hreports, ?_, fun e' _ => hsame.uri? e', fun e' _ => ?_⟩, hlatch⟩
    · rw [hsame.nextEditor]
      exact UInt64.le_refl _
    · rw [selections_writeArmed l _ hopen]
      split
      · rename_i he
        rw [he]
      · rfl

/-- The report of a view changes nothing, if it is awaited or harmless. It takes one echo off
the latch of its target, if one is awaited. -/
lemma steady_traceBack (hsource : ∀ t, d.session.sourceEchoes t = 0)
    (hview : d.session.viewEchoes t = 0 → d.Harmless t r) :
    let d₂ := (d.traceBack r.editor t r.selections).2
    Steady d.host d₂.host ∧ (∀ t, d₂.session.sourceEchoes t = 0) ∧
      ∀ t', d₂.session.viewEchoes t' = d.session.viewEchoes t' - if t = t' then 1 else 0 := by
  obtain ⟨e, he, -⟩ := display_fst d t.source.uri .source true
  obtain ⟨d₁, hdisplay⟩ : ∃ d₁, d.display t.source.uri .source true = (some e, d₁) :=
    ⟨_, Prod.ext he rfl⟩
  have hshowed := (showed_of_display hdisplay).1
  have hproduct := product_of_display hdisplay t
  have hunarmed : d.session.viewEchoes t = 0 → ∀ t',
      d.session.viewEchoes t' = d.session.viewEchoes t' - if t = t' then 1 else 0 := by
    intro hzero t'
    split
    · rename_i ht
      rw [← ht, hzero]
    · rfl
  have hcases := traceBack_of_display r.editor r.selections hdisplay
  rw [hproduct] at hcases
  simp only at hcases ⊢
  generalize (d.traceBack r.editor t r.selections).2 = d₂ at hcases
  rcases hcases with ⟨-, hhost, hlatches⟩ | ⟨hzero, -, rfl⟩ | ⟨hzero, hmapped, hhost, hlatches⟩
  · refine ⟨hhost ▸ hshowed.steady, ?_, fun t' => ?_⟩
    · rwa [(Session.sourceEchoes_of_update hlatches).trans (update_eq_self t _)]
    · rw [Session.viewEchoes_of_update hlatches, Latch.pending_absorb, update_apply]
      simp only [eq_comm (a := t)]
      split
      · rename_i ht
        rw [ht]; rfl
      · rfl
  · refine ⟨hshowed.steady, ?_, fun t' => ?_⟩
    · rwa [hshowed.sourceEchoes]
    · rw [hshowed.viewEchoes]
      exact hunarmed hzero t'
  · -- what is carried back is selected already, so it is written without effect
    have hagain := showed_display d₁ t.source.uri .source false
    have hback := (hview hzero).selected hdisplay hmapped
    have hopen : (d₁.display t.source.uri .source false).2.host.editors.contains e :=
      isOpen_of_uri? (uri?_display_again hdisplay false)
    rw [hback, ← selections_display_again hdisplay false] at hhost hlatches
    obtain ⟨hwritten, hlatch⟩ := steady_writeArmed (d.session.latchesOf t).source hopen
    rw [← hhost] at hwritten
    refine ⟨(hshowed.steady.trans hagain.steady).trans hwritten, fun t' => ?_, fun t' => ?_⟩
    · have harm := (d.session.latchesOf t).source.pending_arm_le
      have hpending : (d.session.latchesOf t).source.pending = 0 := hsource t
      rw [Session.sourceEchoes_of_update hlatches, hlatch, update_apply]
      split
      · rw [Latch.pending_disarm]
        omega
      · exact hsource t'
    · rw [(Session.viewEchoes_of_update hlatches).trans (update_eq_self t _)]
      exact hunarmed hzero t'

/-! ### Working off the echoes -/

/-- The queued reports are of views with numbers below `k`, and are awaited as echoes, but for
those of the targets that were saved. No latch awaits any other report. The selections of the
editors with numbers below `k` are those of `h`. -/
structure Settling (k : UInt64) (h : MemoryHost) (saved : List Target) (d : Desk MemoryHost) :
    Prop where
  views : ∀ r ∈ d.host.reports, ∃ t, d.host.shown r.editor = .view t
  awaited : ∀ t, t ∉ saved → d.session.viewEchoes t = d.queue.count (.view t)
  view : ∀ t, d.session.viewEchoes t ≤ d.queue.count (.view t)
  source : ∀ t, d.session.sourceEchoes t = 0
  next : k ≤ d.host.nextEditor.number
  reported : ∀ r ∈ d.host.reports, r.editor.number < k
  kept : ∀ e : EditorId, e.number < k → Host.selections d.host e = Host.selections h e

variable {k : UInt64} {h : MemoryHost} {saved : List Target}

lemma queue_cons (hreports : d.host.reports = r :: rest) :
    d.queue = d.host.shown r.editor :: (d.withReports rest).queue := by
  rw [queue, hreports]; rfl

/-- The report that is delivered is awaited, or harmless. -/
lemma Settling.deliver (hd : Settling k h saved d) (hreports : d.host.reports = r :: rest)
    (hharmless : ∀ t ∈ saved, d.host.shown r.editor = .view t → d.session.viewEchoes t = 0 →
      (d.withReports rest).Harmless t r) :
    Settling k h saved ((d.withReports rest).deliver r) ∧
      ((d.withReports rest).deliver r).host.reports = rest := by
  have hmem : r ∈ d.host.reports := hreports ▸ List.mem_cons_self
  obtain ⟨t, hshown⟩ := hd.views r hmem
  have hview : (d.withReports rest).host.shown r.editor = .view t := hshown
  have hidle : (d.withReports rest).session.viewEchoes t = 0 →
      (d.withReports rest).Harmless t r := by
    intro hzero
    by_cases hsaved : t ∈ saved
    · exact hharmless t hsaved hshown hzero
    · have hcount := hd.awaited t hsaved
      rw [queue_cons hreports, hshown, List.count_cons_self] at hcount
      exact absurd (hcount.symm.trans hzero) (Nat.succ_ne_zero _)
  obtain ⟨hsteady, hsource₂, hview₂⟩ := steady_traceBack (d := d.withReports rest) hd.source hidle
  rw [← deliver_of_view hview] at hsteady hsource₂ hview₂
  generalize (d.withReports rest).deliver r = d₂ at hsteady hsource₂ hview₂
  have hrest : ∀ r' ∈ rest, r' ∈ d.host.reports := fun r' hr' =>
    hreports ▸ List.mem_cons_of_mem r hr'
  have hlt : ∀ r' ∈ rest, r'.editor.number < d.host.nextEditor.number := fun r' hr' =>
    UInt64.lt_of_lt_of_le (hd.reported r' (hrest r' hr')) hd.next
  have hreports₂ : d₂.host.reports = rest := hsteady.reports
  have hshown₂ : ∀ r' ∈ rest, d₂.host.shown r'.editor = d.host.shown r'.editor := fun r' hr' =>
    shown_congr (hsteady.uri? _ (hlt r' hr'))
  have hcount : ∀ t', d.queue.count (.view t') =
      d₂.queue.count (.view t') + if t = t' then 1 else 0 := by
    intro t'
    have hqueue₂ : d₂.queue = (d.withReports rest).queue := queue_congr hreports₂ hshown₂
    rw [queue_cons hreports, hshown, hqueue₂, List.count_cons]
    simp only [beq_iff_eq, Shown.view.injEq]
  have hview₂' : ∀ t', d₂.session.viewEchoes t' =
      d.session.viewEchoes t' - if t = t' then 1 else 0 := hview₂
  refine ⟨⟨fun r' hr' => ?_, fun t' ht' => ?_, fun t' => ?_, hsource₂,
    UInt64.le_trans hd.next hsteady.nextEditor, fun r' hr' => ?_, fun e he => ?_⟩, hreports₂⟩
  · rw [hreports₂] at hr'
    rw [hshown₂ r' hr']
    exact hd.views r' (hrest r' hr')
  · rw [hview₂', hd.awaited t' ht', hcount, Nat.add_sub_cancel]
  · have hle := hd.view t'
    have hcount' := hcount t'
    rw [hview₂']
    omega
  · rw [hreports₂] at hr'
    exact hd.reported r' (hrest r' hr')
  · exact (hsteady.selections e (UInt64.lt_of_lt_of_le he hd.next)).trans (hd.kept e he)

lemma Settling.drainUpTo (hd : Settling k h [] d) {n : Nat} (hn : d.host.reports.length ≤ n) :
    Settling k h [] (drainUpTo n d).2 ∧ (drainUpTo n d).2.host.reports = [] := by
  have hstep : ∀ (d' : Desk MemoryHost) (r : Report) (rest : List Report), Settling k h [] d' →
      d'.host.reports = r :: rest → Settling k h [] ((d'.withReports rest).deliver r) ∧
        ((d'.withReports rest).deliver r).host.reports = rest := fun _ _ _ hd' hreports =>
    hd'.deliver hreports fun _ hsaved => by cases hsaved
  refine ⟨drainUpTo_induction (fun d' r rest hd' hreports => (hstep d' r rest hd' hreports).1)
    n hd, ?_⟩
  refine (drainUpTo_le_measure (P := Settling k h []) (fun d => d.host.reports.length)
    (fun d' r rest hd' hreports => ?_) n hd).2 hn
  obtain ⟨hnext, hrest⟩ := hstep d' r rest hd' hreports
  refine ⟨hnext, ?_⟩
  rw [hrest, hreports, List.length_cons]
  exact Nat.lt_succ_self _

/-- When no report is left, no latch is armed. -/
lemma Settling.idle (hd : Settling k h saved d) (hquiet : d.host.reports = []) (t : Target) :
    ¬ (d.session.latchesOf t).view.isArmed ∧ ¬ (d.session.latchesOf t).source.isArmed := by
  have hview := hd.view t
  have hsource := hd.source t
  rw [queue, hquiet, List.map_nil, List.count_nil] at hview
  rw [Session.isArmed_view_iff, Session.isArmed_source_iff]
  omega

/-! ### A selection in a document -/

section Selection

variable {e : EditorId} {uri : String}

/-- The report of a document leaves nothing but echoes, one for each view at most, if every
echo awaited of a source finds a view that takes it. -/
lemma settling_spread {views : Nat} (selections : List Selection) (hconfined : Confined k views d)
    (hquiet : d.host.reports = []) (hview : ∀ t, d.session.viewEchoes t = 0)
    (hsource : ∀ t, d.session.sourceEchoes t ≤
      (Host.visible d.host).countP fun v => v.targetFrom? (.parse uri) = some t)
    (hroom : d.session.RoomFor d.host.viewCount) (huri : Host.uri? d.host e = some uri)
    (hproduct : isProductUri uri = false) :
    Settling k (d.spread e uri selections true).2.host [] (d.spread e uri selections true).2 ∧
      (d.spread e uri selections true).2.host.reports.length ≤ views := by
  have hsame := sameDocuments_spread d e uri selections
  have hqueue : d.queue = [] := by rw [queue, hquiet]; rfl
  have hviews : ∀ r ∈ (d.spread e uri selections true).2.host.reports,
      ∃ t, d.host.shown r.editor = .view t := by
    intro r hr
    rcases reports_spread d e uri selections r hr with hr | hview
    · rw [hquiet] at hr
      cases hr
    · exact hview
  have hview' : ∀ t, (d.spread e uri selections true).2.session.viewEchoes t =
      (d.spread e uri selections true).2.queue.count (.view t) := by
    intro t
    have hcount := viewEchoes_spread e uri selections hroom t
    rw [hqueue, hview, List.count_nil] at hcount
    omega
  refine ⟨⟨fun r hr => ?_, fun t _ => hview' t, fun t => Nat.le_of_eq (hview' t),
    fun t => ?_, ?_, fun r hr => ?_, fun _ _ => rfl⟩, ?_⟩
  · obtain ⟨t, ht⟩ := hviews r hr
    exact ⟨t, (hsame.shown r.editor).trans ht⟩
  · rw [sourceEchoes_spread]
    exact Nat.sub_eq_zero_of_le (hsource t)
  · rw [hsame.nextEditor]
    exact hconfined.fenced.le
  · obtain ⟨t, ht⟩ := hviews r hr
    exact hconfined.fenced.views _ t ht
  · have hload := (spread_lt_workload (r := ⟨e, selections⟩) hconfined huri hproduct
      (hasRoomFor_of_roomFor hroom)).2
    have hlength := length_reports_le_workload views (d.spread e uri selections true).2
    rw [hqueue] at hload
    simp only [cost] at hload
    omega

/-- Once the echoes are worked off, every editor has what the spread gave it. -/
lemma drainUpTo_spread (selections : List Selection)
    (hissued : d.host.Issued) (hquiet : d.host.reports = [])
    (hview : ∀ t, d.session.viewEchoes t = 0) (hsource : ∀ t, d.session.sourceEchoes t = 0)
    (hroom : d.session.RoomFor d.host.viewCount) (huri : Host.uri? d.host e = some uri)
    (hproduct : isProductUri uri = false) {n : Nat} (hn : d.host.viewCount ≤ n) :
    let d' := (drainUpTo n (d.spread e uri selections true).2).2
    d'.host.reports = [] ∧
      (∀ t, ¬ (d'.session.latchesOf t).view.isArmed ∧ ¬ (d'.session.latchesOf t).source.isArmed) ∧
      ∀ view ∈ Host.visible d.host,
        Host.selections d'.host view.id = d.spreadTo (.parse uri) e selections view := by
  obtain ⟨hsettling, hlength⟩ := settling_spread selections (confined hissued) hquiet hview
    (fun t => hsource t ▸ Nat.zero_le _) hroom huri hproduct
  obtain ⟨hsettled, hempty⟩ := hsettling.drainUpTo (n := n) (by omega)
  refine ⟨hempty, hsettled.idle hempty, fun view hview => ?_⟩
  have hopen : d.host.editors.contains view.id := isOpen_of_uri? (uri?_of_mem_visible hview)
  rw [hsettled.kept _ (hissued.opened _ hopen)]
  exact selections_foldl (p := ⟨d, [], false⟩) (.parse uri) e selections (Host.visible d.host)
    (nodup_visible _) hsource (fun _ hv => uri?_of_mem_visible hv) hview

/-- A selection was made while nothing was queued, and its report was taken off the queue. -/
structure Selected (d : Desk MemoryHost) (e : EditorId) (selections : List Selection)
    (d₁ : Desk MemoryHost) : Prop where
  select : d.select e selections = d₁.withReports [⟨e, selections⟩]
  session : d₁.session = d.session
  quiet : d₁.host.reports = []
  sameDocuments : SameDocuments d.host d₁.host
  self : Host.selections d₁.host e = selections
  other : ∀ v, v ≠ e → Host.selections d₁.host v = Host.selections d.host v

lemma exists_selected (hquiet : d.host.reports = []) (hopen : d.host.editors.contains e)
    (selections : List Selection) : ∃ d₁, d.Selected e selections d₁ := by
  have hreports : (d.select e selections).host.reports = [⟨e, selections⟩] := by
    have happend := reports_select selections hopen
    rwa [hquiet] at happend
  exact ⟨(d.select e selections).withReports [],
    { select := by rw [← hreports]; rfl
      session := rfl
      quiet := rfl
      sameDocuments := (sameDocuments_select d.host e selections).trans
        (sameDocuments_withReports (d.select e selections) [])
      self := selections_select_self selections hopen
      other := fun _ hne => selections_select_of_ne selections hne }⟩

namespace Selected

variable {d₁ : Desk MemoryHost} {selections : List Selection}

lemma uri? (h : d.Selected e selections d₁) (v : EditorId) :
    Host.uri? d₁.host v = Host.uri? d.host v :=
  h.sameDocuments.uri? v

lemma issued (h : d.Selected e selections d₁) (hissued : d.host.Issued) : d₁.host.Issued :=
  hissued.of_sameDocuments h.sameDocuments fun r hr => by
    rw [h.quiet] at hr
    cases hr

lemma viewCount_le (h : d.Selected e selections d₁) : d₁.host.viewCount ≤ d.host.viewCount :=
  MemoryHost.viewCount_le fun v _ ht => (h.sameDocuments.shown v).symm.trans ht

/-- The report of the selection is delivered first. -/
lemma drainUpTo_succ (h : d.Selected e selections d₁) (n : Nat) :
    (drainUpTo (n + 1) (d.select e selections)).2 =
      (drainUpTo n (d₁.deliver ⟨e, selections⟩)).2 := by
  have hreports : (d₁.withReports [⟨e, selections⟩]).host.reports = [⟨e, selections⟩] := rfl
  have hdone : (d₁.withReports [⟨e, selections⟩]).withReports [] = d₁ := by
    have hsame : d₁.withReports d₁.host.reports = d₁ := rfl
    rwa [h.quiet] at hsame
  rw [h.select, Desk.drainUpTo_succ hreports, hdone]

end Selected

/-- **A selection in a document reaches the views of its products, and nothing else**: when
all reports are delivered, the document has what was selected, each view of one of its
products has what the links make of it, if they make anything, and every other editor has
what it had. No latch is armed, and no product changed. All latches are idle before, and can
count one more write to each view. -/
theorem select_document (selections : List Selection) (hissued : d.host.Issued)
    (hquiet : d.host.reports = [])
    (hidle : ∀ t, ¬ (d.session.latchesOf t).view.isArmed ∧ ¬ (d.session.latchesOf t).source.isArmed)
    (hroom : d.session.RoomFor d.host.viewCount) (huri : Host.uri? d.host e = some uri)
    (hproduct : isProductUri uri = false) {n : Nat} (hn : d.host.viewCount < n) :
    let d' := (drainUpTo n (d.select e selections)).2
    d'.host.reports = [] ∧
    Host.selections d'.host e = selections ∧
    (∀ v (t : Target), Host.uri? d.host v = some t.uri → t.source = Source.parse uri →
      Host.selections d'.host v =
        match carried d.host (d.session.product t) .forward e selections v with
        | [] => Host.selections d.host v
        | mapped => mapped) ∧
    (∀ v u, v ≠ e → Host.uri? d.host v = some u →
      (∀ t : Target, u = t.uri → t.source ≠ Source.parse uri) →
      Host.selections d'.host v = Host.selections d.host v) ∧
    (∀ t, ¬ (d'.session.latchesOf t).view.isArmed ∧ ¬ (d'.session.latchesOf t).source.isArmed) ∧
    d'.session.store = d.session.store ∧ d'.session.tree = d.session.tree ∧
    d'.session.version = d.session.version := by
  obtain ⟨m, rfl⟩ : ∃ m, n = m + 1 := ⟨n - 1, by omega⟩
  have hopen : d.host.editors.contains e := isOpen_of_uri? huri
  obtain ⟨d₁, hselected⟩ := exists_selected hquiet hopen selections
  have huri₁ : Host.uri? d₁.host e = some uri := (hselected.uri? e).trans huri
  have hsession := hselected.session
  have hviews₁ := hselected.viewCount_le
  obtain ⟨hview, hsource⟩ := Session.idle_iff.mp hidle
  obtain ⟨hempty, hdone, hspread⟩ := drainUpTo_spread selections (n := m)
    (hselected.issued hissued) hselected.quiet (hsession ▸ hview) (hsession ▸ hsource)
    (hsession ▸ hroom.mono hviews₁) huri₁ hproduct (by omega)
  have hundisturbed := (undisturbed_spread d₁ e uri selections true).trans
    (undisturbed_drainUpTo m (d₁.spread e uri selections true).2)
  rw [hsession] at hundisturbed
  rw [hselected.drainUpTo_succ, deliver_of_document (r := ⟨e, selections⟩) huri₁ hproduct]
  refine ⟨hempty, ?_, fun v t hv ht => ?_, fun v u hne hv hsource => ?_,
    hdone, hundisturbed.store, hundisturbed.tree, hundisturbed.version⟩
  · obtain ⟨view, hview, rfl, rfl⟩ := exists_visible huri₁
    rw [hspread view hview, spreadTo_of_document _ _ _ hproduct, hselected.self]
  · have hne : v ≠ e := by
      rintro rfl
      rw [hv] at huri
      rw [← Option.some.inj huri, t.isProductUri_uri] at hproduct
      cases hproduct
    obtain ⟨view, hview, rfl, hu⟩ := exists_visible ((hselected.uri? v).trans hv)
    rw [hspread view hview, spreadTo, targetFrom?_eq_some_iff.mpr ⟨hu, ht⟩]
    simp only [hselected.sameDocuments.carried, hselected.other _ hne, hsession]
  · obtain ⟨view, hview, rfl, rfl⟩ := exists_visible ((hselected.uri? v).trans hv)
    rw [hspread view hview, spreadTo_of_unlinked (.parse uri) e selections hsource,
      hselected.other _ hne]

/-- A new session with a document and a view of it. -/
def atRest : Desk MemoryHost := ⟨.new .initial, pair⟩

lemma idle_atRest (t : Target) : ¬ (atRest.session.latchesOf t).view.isArmed ∧
    ¬ (atRest.session.latchesOf t).source.isArmed := by
  rw [show atRest.session.latchesOf t = .idle from Session.latchesOf_new _ t]
  decide

/-- Two carets in the document give two carets in the view. -/
theorem select_document_atRest :
    (atRest.host.Issued ∧ atRest.host.reports = [] ∧
      (∀ t, ¬ (atRest.session.latchesOf t).view.isArmed ∧
        ¬ (atRest.session.latchesOf t).source.isArmed) ∧
      atRest.session.RoomFor atRest.host.viewCount ∧
      Host.uri? atRest.host ⟨0⟩ = some "file:///a.c" ∧ isProductUri "file:///a.c" = false ∧
      atRest.host.viewCount < 2) ∧
    let d' := (drainUpTo 2 (atRest.select ⟨0⟩ [.caret ⟨1, 0⟩, .caret ⟨2, 0⟩])).2
    d'.host.reports = [] ∧
    Host.selections d'.host ⟨0⟩ = [.caret ⟨1, 0⟩, .caret ⟨2, 0⟩] ∧
    Host.selections d'.host ⟨1⟩ = [.caret ⟨0, 0⟩, .caret ⟨0, 0⟩] ∧
    ∀ t, ¬ (d'.session.latchesOf t).view.isArmed ∧ ¬ (d'.session.latchesOf t).source.isArmed := by
  have hroom : atRest.session.RoomFor atRest.host.viewCount :=
    Session.roomFor_new _ (by decide)
  have huri : Host.uri? atRest.host ⟨0⟩ = some "file:///a.c" := by decide
  have hproduct : isProductUri "file:///a.c" = false := by decide
  have hcount : atRest.host.viewCount < 2 := by decide
  obtain ⟨hempty, hself, hviews, -, hdone, -⟩ :=
    select_document [.caret ⟨1, 0⟩, .caret ⟨2, 0⟩] issued_pair rfl idle_atRest hroom huri
      hproduct hcount
  refine ⟨⟨issued_pair, rfl, idle_atRest, hroom, huri, hproduct, hcount⟩, hempty, hself, ?_, hdone⟩
  have hview := hviews ⟨1⟩ (.of (.parse "/a.c") "ast" "t") (by decide) (by decide)
  exact hview.trans (by decide)

end Selection

end LinkedViews.Desk
