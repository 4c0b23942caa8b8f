import LinkedViews.Proofs.Desk.Frame
import LinkedViews.Proofs.Desk.Steps

/-!
Runs of deliveries.

Delivering in bursts is delivering one report after another. So an invariant of one delivery
is an invariant of all of them, and a measure that each delivery lowers bounds their number.
-/

namespace LinkedViews.Desk

variable {d : Desk MemoryHost} {r : Report} {rest : List Report}

/-- The desk without its queued reports, but for the given ones. -/
def withReports (d : Desk MemoryHost) (reports : List Report) : Desk MemoryHost :=
  { d with host := { d.host with reports } }

/-- The user selects in an editor. -/
def select (d : Desk MemoryHost) (e : EditorId) (selections : List Selection) : Desk MemoryHost :=
  { d with host := d.host.select e selections }

lemma sameDocuments_withReports (d : Desk MemoryHost) (reports : List Report) :
    MemoryHost.SameDocuments d.host (d.withReports reports).host :=
  ⟨fun _ => rfl, rfl, rfl⟩

lemma drainUpTo_of_empty (h : d.host.reports = []) (n : Nat) : drainUpTo n d = (0, d) := by
  cases n with
  | zero => rfl
  | succ n => rw [drainUpTo, h]

lemma drainUpTo_succ (h : d.host.reports = r :: rest) (n : Nat) :
    drainUpTo (n + 1) d =
      ((drainUpTo n ((d.withReports rest).deliver r)).1 + 1,
        (drainUpTo n ((d.withReports rest).deliver r)).2) := by
  rw [drainUpTo, h]; rfl

lemma drainUpTo_add (m n : Nat) (d : Desk MemoryHost) :
    drainUpTo (m + n) d =
      ((drainUpTo m d).1 + (drainUpTo n (drainUpTo m d).2).1,
        (drainUpTo n (drainUpTo m d).2).2) := by
  induction m generalizing d with
  | zero => rw [Nat.zero_add]; simp [drainUpTo]
  | succ m ih =>
    rcases hreports : d.host.reports with _ | ⟨r, rest⟩
    · simp [drainUpTo_of_empty hreports]
    · rw [Nat.succ_add, drainUpTo_succ hreports, drainUpTo_succ hreports, ih]
      simp only [Prod.mk.injEq, and_true]
      omega

/-- Delivers burst after burst; with the number of all reports delivered. -/
def drains : Nat → Desk MemoryHost → Nat × Desk MemoryHost
  | 0, d => (0, d)
  | n + 1, d => ((drain d).1 + (drains n (drain d).2).1, (drains n (drain d).2).2)

lemma drains_eq (n : Nat) (d : Desk MemoryHost) : drains n d = drainUpTo (n * burst) d := by
  induction n generalizing d with
  | zero => simp [drains, drainUpTo]
  | succ n ih => rw [drains, ih, Nat.succ_mul, Nat.add_comm (n * burst), drainUpTo_add]; rfl

/-- What every delivery preserves holds after any number of them. -/
lemma drainUpTo_induction {P : Desk MemoryHost → Prop}
    (hstep : ∀ d r rest, P d → d.host.reports = r :: rest → P ((d.withReports rest).deliver r))
    (n : Nat) (h : P d) : P (drainUpTo n d).2 := by
  induction n generalizing d with
  | zero => exact h
  | succ n ih =>
    rcases hreports : d.host.reports with _ | ⟨r, rest⟩
    · rw [drainUpTo_of_empty hreports]; exact h
    · rw [drainUpTo_succ hreports]
      exact ih (hstep d r rest h hreports)

/-- A measure that every delivery lowers bounds the number of deliveries, and after as many
no report is left. -/
lemma drainUpTo_le_measure {P : Desk MemoryHost → Prop} (measure : Desk MemoryHost → Nat)
    (hstep : ∀ d r rest, P d → d.host.reports = r :: rest →
      P ((d.withReports rest).deliver r) ∧ measure ((d.withReports rest).deliver r) < measure d)
    (n : Nat) (h : P d) :
    (drainUpTo n d).1 ≤ measure d ∧ (measure d ≤ n → (drainUpTo n d).2.host.reports = []) := by
  induction n generalizing d with
  | zero =>
    refine ⟨Nat.zero_le _, fun hle => ?_⟩
    rcases hreports : d.host.reports with _ | ⟨r, rest⟩
    · exact hreports
    · have hlt := (hstep d r rest h hreports).2
      omega
  | succ n ih =>
    rcases hreports : d.host.reports with _ | ⟨r, rest⟩
    · rw [drainUpTo_of_empty hreports]
      exact ⟨Nat.zero_le _, fun _ => hreports⟩
    · obtain ⟨hP, hlt⟩ := hstep d r rest h hreports
      obtain ⟨hcount, hempty⟩ := ih hP
      rw [drainUpTo_succ hreports]
      exact ⟨by simp only; omega, fun hle => hempty (by omega)⟩

lemma undisturbed_deliver (d : Desk MemoryHost) (r : Report) :
    Session.Undisturbed d.session (d.deliver r).session := by
  unfold deliver
  split
  · rename_i hreported
    exact undisturbed_selectionReported hreported
  · exact .refl _

lemma undisturbed_drainUpTo (n : Nat) (d : Desk MemoryHost) :
    Session.Undisturbed d.session (drainUpTo n d).2.session :=
  drainUpTo_induction (P := fun d' => Session.Undisturbed d.session d'.session)
    (fun d' r rest h _ => h.trans (undisturbed_deliver (d'.withReports rest) r)) n (.refl _)

/-! ### What the host keeps -/

variable {P : MemoryHost → Prop}

lemma kept_deliver (hP : Host.Kept P) (hh : P d.host) (r : Report) : P (d.deliver r).host := by
  unfold deliver
  split
  · rename_i hreported
    exact hP.selectionReported hh hreported
  · exact hh

/-- What is said of a host whatever its reports, and is kept by each delivery, is kept by all. -/
lemma kept_drainUpTo (hP : Host.Kept P) (hreports : ∀ h reports, P h → P { h with reports })
    (hh : P d.host) (n : Nat) : P (drainUpTo n d).2.host :=
  drainUpTo_induction (P := fun d' => P d'.host)
    (fun d' r rest h _ => kept_deliver (d := d'.withReports rest) hP (hreports d'.host rest h) r)
    n hh

end LinkedViews.Desk
