import LinkedViews.Proofs.Desk.Outcome
import LinkedViews.Proofs.Desk.Runs

/-!
Runs in which editors are closed.

The report of a closed editor is of no use, so no latch takes it. A latch that awaits it stays
armed, and takes a selection of the user for the echo later. An echo awaited of a source is
taken at a view of the target, and with the last of them closed it is not taken either. Where
nothing of this is at stake, closing an editor does no harm.
-/

namespace LinkedViews

open Function

namespace MemoryHost

variable {h : MemoryHost} {e e' : EditorId}

lemma Issued.closeEditor (hi : h.Issued) (e : EditorId) : (h.closeEditor e).2.Issued := by
  refine hi.of_subset rfl (fun e' hopen => ?_) (List.Subset.refl _)
  by_cases he : e' = e
  · rw [he, ← isSome_uri?, uri?_closeEditor_self] at hopen
    cases hopen
  · rwa [← isSome_uri?, uri?_closeEditor_of_ne he, isSome_uri?] at hopen

end MemoryHost

namespace Desk

open MemoryHost

variable {owedViews owedSources : Target → Nat} {d : Desk MemoryHost} {t : Target}
  {e : EditorId} {settings : Settings}

/-- The user closes an editor. -/
def close (d : Desk MemoryHost) (e : EditorId) : Desk MemoryHost :=
  { d with host := (d.host.closeEditor e).2 }

/-- No latch awaits a report of the editor that is still to come, and none needs the editor to
take an echo of the source. -/
structure Closable (d : Desk MemoryHost) (e : EditorId) : Prop where
  view : ∀ r ∈ d.host.reports, r.editor = e → ∀ t, d.host.shown e = .view t →
    d.session.viewEchoes t = 0
  source : ∀ r ∈ d.host.reports, r.editor = e → ∀ t : Target, d.host.showsSource t.source e →
    d.session.sourceEchoes t = 0
  inSight : ∀ t, d.host.shown e = .view t → 0 < d.session.sourceEchoes t →
    ∃ e', e' ≠ e ∧ d.host.shown e' = .view t

lemma uri?_close_of_ne {e' : EditorId} (hne : e' ≠ e) :
    Host.uri? (d.close e).host e' = Host.uri? d.host e' :=
  uri?_closeEditor_of_ne hne

/-- An armed latch has the same reports before it, as long as it awaits none of the closed
editor. -/
lemma Ledger.close (h : Ledger owedViews owedSources d) (hc : d.Closable e) :
    Ledger owedViews owedSources (d.close e) where
  issued := h.issued.closeEditor e
  view t := by
    rcases Nat.eq_zero_or_pos (d.session.viewEchoes t) with hzero | hpos
    · exact Nat.le_trans (Nat.le_of_eq hzero) (Nat.zero_le _)
    · refine Nat.le_trans (h.view t) (Nat.add_le_add_right ?_ _)
      rw [queue, queue, List.count_eq_countP, List.count_eq_countP, List.countP_map,
        List.countP_map]
      refine List.countP_mono_left fun r hr hshown => ?_
      rw [Function.comp_apply, beq_iff_eq] at hshown ⊢
      rw [shown_congr (uri?_close_of_ne _), hshown]
      rintro rfl
      have hzero := hc.view r hr rfl t hshown
      omega
  source t := by
    rcases Nat.eq_zero_or_pos (d.session.sourceEchoes t) with hzero | hpos
    · exact Nat.le_trans (Nat.le_of_eq hzero) (Nat.zero_le _)
    · refine Nat.le_trans (h.source t) (Nat.add_le_add_right ?_ _)
      refine List.countP_mono_left fun r hr hshows => ?_
      rw [showsSource_congr (uri?_close_of_ne _), hshows]
      rintro rfl
      have hzero := hc.source r hr rfl t hshows
      omega
  inSight t hpos := by
    obtain ⟨e₁, hshown⟩ := h.inSight t hpos
    by_cases he : e₁ = e
    · obtain ⟨e₂, hne, hother⟩ := hc.inSight t (he ▸ hshown) hpos
      exact ⟨e₂, (shown_congr (uri?_close_of_ne hne)).trans hother⟩
    · exact ⟨e₁, (shown_congr (uri?_close_of_ne he)).trans hshown⟩

/-- When nothing is queued, every editor may be closed. -/
lemma Ledger.closable (h : Ledger (fun _ => 0) (fun _ => 0) d) (hquiet : d.host.reports = [])
    (e : EditorId) : d.Closable e where
  view r hr := by
    rw [hquiet] at hr
    cases hr
  source r hr := by
    rw [hquiet] at hr
    cases hr
  inSight t _ hpos := by
    have hsource := h.source t
    rw [reportsOf, hquiet, List.countP_nil] at hsource
    omega

/-- A new session at work, with editors that are closed where this does no harm. -/
inductive Tended (settings : Settings) : Desk MemoryHost → Prop
  | fresh : Tended settings (fresh settings)
  | act {d : Desk MemoryHost} (a : Action) : Tended settings d → Tended settings (d.act a)
  | close {d : Desk MemoryHost} {e : EditorId} :
      Tended settings d → d.Closable e → Tended settings (d.close e)

lemma Tended.run (h : Tended settings d) (actions : List Action) :
    Tended settings (d.run actions) := by
  induction actions generalizing d with
  | nil => exact h
  | cons a actions ih => exact ih (h.act a)

lemma Tended.ledger (h : Tended settings d) (hl : d.host.Lasting) :
    Ledger (fun _ => 0) (fun _ => 0) d := by
  induction h with
  | fresh => exact ledger_fresh settings
  | @act d a _ ih =>
    have hkeeps := keeps_act d a
    exact hkeeps.ledger (ih (hl.of_le hkeeps.nextEditor)) hl
  | close _ hc ih => exact (ih hl).close hc

/-- **Closing an editor leaks no echo, where no report of it is awaited.** Whenever nothing is
queued, and there is still a number for another editor, no latch is armed, so no selection of
the user is taken for an echo, also not in a view that was opened again. And any editor may be
closed then. -/
theorem Tended.no_leak (h : Tended settings d) (hl : d.host.Lasting) (hquiet : d.host.reports = []) :
    (∀ t, ¬ (d.session.latchesOf t).view.isArmed ∧ ¬ (d.session.latchesOf t).source.isArmed) ∧
    (∀ e selections,
      ((d.select e selections).withReports []).outcome? ⟨e, selections⟩ ≠ some .echo) ∧
    ∀ e, d.Closable e := by
  have hledger := h.ledger hl
  have hview : ∀ t, d.session.viewEchoes t = 0 := fun t => by
    have hle := hledger.view t
    rw [queue, hquiet, List.map_nil, List.count_nil] at hle
    omega
  have hsource : ∀ t, d.session.sourceEchoes t = 0 := fun t => by
    have hle := hledger.source t
    rw [reportsOf, hquiet, List.countP_nil] at hle
    omega
  refine ⟨Session.idle_iff.mpr ⟨hview, hsource⟩, fun e selections hecho => ?_,
    hledger.closable hquiet⟩
  rcases armed_of_outcome?_eq_echo hecho with ⟨t, -, hpos⟩ | ⟨t, -, hpos⟩
  · exact absurd (hview t) (Nat.ne_of_gt hpos)
  · exact absurd (hsource t) (Nat.ne_of_gt hpos)

/-- A view and its document; the two carets in the document went to the view. -/
def linked : List Action :=
  [.openEditor "monto:/a.c|ast.t" ⟨2⟩, .openEditor "file:///a.c" ⟨1⟩,
    .select ⟨1⟩ [.caret ⟨0, 0⟩, .caret ⟨0, 0⟩], .selectLinked]

/-- A view that is closed after its echo came, and opened again, is not taken for the echo. -/
theorem idle_reopened :
    let d := (((fresh .initial).run (linked ++ [.deliver 9])).close ⟨0⟩).act
      (.openEditor "monto:/a.c|ast.t" ⟨2⟩)
    (Tended .initial d ∧ d.host.Lasting ∧ d.host.reports = []) ∧
      Host.uri? d.host ⟨2⟩ = some "monto:/a.c|ast.t" ∧
      ((d.select ⟨2⟩ [.caret ⟨0, 0⟩]).withReports []).outcome? ⟨⟨2⟩, [.caret ⟨0, 0⟩]⟩ ≠
        some .echo := by
  intro d
  have htended : Tended .initial ((fresh .initial).run (linked ++ [.deliver 9])) :=
    Tended.fresh.run _
  have hledger := htended.ledger (by decide)
  have hclosed : Tended .initial d :=
    (htended.close (hledger.closable (by decide) ⟨0⟩)).act _
  have hl : d.host.Lasting := by decide
  have hquiet : d.host.reports = [] := by decide
  exact ⟨⟨hclosed, hl, hquiet⟩, by decide, (hclosed.no_leak hl hquiet).2.1 ⟨2⟩ [.caret ⟨0, 0⟩]⟩

/-- A view that is closed before its echo comes leaves the latch armed. When it was opened
again, the next selection in it is taken for the echo. -/
theorem leaked_reopened :
    let d := ((((fresh .initial).run linked).close ⟨0⟩).act (.deliver 9)).act
      (.openEditor "monto:/a.c|ast.t" ⟨2⟩)
    d.host.reports = [] ∧
    (d.session.latchesOf (.of (.parse "/a.c") "ast" "t")).view.isArmed ∧
    ((d.select ⟨2⟩ [.caret ⟨0, 0⟩]).withReports []).outcome? ⟨⟨2⟩, [.caret ⟨0, 0⟩]⟩ =
      some .echo := by
  decide

end Desk

end LinkedViews
