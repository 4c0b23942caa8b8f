import LinkedViews.Proofs.Desk.Forward
import LinkedViews.Proofs.Desk.Runs

/-!
Products that arrive before the echoes of a selection.

Saving a product forgets the echoes that are awaited of its views. One that comes afterwards
is taken for a selection of the user, and goes back to the source over the links of the new
version. So the selection in the source lasts, as long as these links lead back to it, or
nowhere.
-/

namespace LinkedViews.Desk

open MemoryHost

variable {d d' : Desk MemoryHost} {k : UInt64} {h : MemoryHost} {saved : List Target} {n : Nat}

/-- Products are saved, of the given targets, and so many reports delivered, in any order. An
echo that a save made the latch forget is harmless when it comes. -/
inductive Arrivals (d : Desk MemoryHost) : List Target → Nat → Desk MemoryHost → Prop
  | none : Arrivals d [] 0 d
  | save {saved : List Target} {n : Nat} {d' : Desk MemoryHost} (p : Product) :
      Arrivals d saved n d' → Arrivals d (p.target :: saved) n (d'.act (.save p))
  | deliver {saved : List Target} {n : Nat} {d' : Desk MemoryHost} {r : Report}
      {rest : List Report} : Arrivals d saved n d' → d'.host.reports = r :: rest →
      (∀ t ∈ saved, d'.host.shown r.editor = .view t → d'.session.viewEchoes t = 0 →
        (d'.withReports rest).Harmless t r) →
      Arrivals d saved (n + 1) ((d'.withReports rest).deliver r)

/-- A save forgets the echoes of its own target, and of no other one. -/
lemma Settling.save (hd : Settling k h saved d) (p : Product) :
    Settling k h (p.target :: saved) (d.act (.save p)) := by
  have hlatches : ∀ t, (d.act (.save p)).session.latchesOf t = _ := latchesOf_save d.session p
  have hview : ∀ t, (d.act (.save p)).session.viewEchoes t =
      if t = p.target then 0 else d.session.viewEchoes t := by
    intro t
    rw [Session.viewEchoes, hlatches]
    split <;> rfl
  refine
    { views := hd.views
      awaited := fun t ht => ?_
      view := fun t => ?_
      source := fun t => ?_
      next := hd.next
      reported := hd.reported
      kept := hd.kept }
  · rw [List.mem_cons, not_or] at ht
    rw [hview, if_neg ht.1]
    exact hd.awaited t ht.2
  · rw [hview]
    split
    · exact Nat.zero_le _
    · exact hd.view t
  · rw [Session.sourceEchoes, hlatches]
    split
    · rfl
    · exact hd.source t

lemma Settling.arrivals (hd : Settling k h [] d) (ha : Arrivals d saved n d') :
    Settling k h saved d' ∧ d'.host.reports.length + n = d.host.reports.length := by
  induction ha with
  | none => exact ⟨hd, rfl⟩
  | save p _ ih => exact ⟨ih.1.save p, ih.2⟩
  | deliver _ hreports hharmless ih =>
    obtain ⟨hnext, hrest⟩ := ih.1.deliver hreports hharmless
    have hlength := ih.2
    rw [hreports, List.length_cons] at hlength
    refine ⟨hnext, ?_⟩
    rw [hrest]
    omega

variable {e : EditorId} {uri : String} {selections : List Selection}

/-- **A selection in a document outlasts the products that arrive before its echoes**, as
long as each echo that a save made the latch forget leads back to what is selected in the
source, or nowhere. The document has what was selected, and every other editor what it had
when the report of the selection was delivered. Each delivery is that of one echo, and when
none is left, no latch is armed. -/
theorem select_outlasts_saves (hissued : d.host.Issued) (hquiet : d.host.reports = [])
    (hidle : ∀ t, ¬ (d.session.latchesOf t).view.isArmed ∧ ¬ (d.session.latchesOf t).source.isArmed)
    (hroom : d.session.RoomFor d.host.viewCount) (huri : Host.uri? d.host e = some uri)
    (hproduct : isProductUri uri = false)
    (harrivals : Arrivals (drainUpTo 1 (d.select e selections)).2 saved n d') :
    let first := (drainUpTo 1 (d.select e selections)).2
    Host.selections d'.host e = selections ∧
    (∀ v u, Host.uri? d.host v = some u →
      Host.selections d'.host v = Host.selections first.host v) ∧
    d'.host.reports.length + n = first.host.reports.length ∧
    (d'.host.reports = [] →
      ∀ t, ¬ (d'.session.latchesOf t).view.isArmed ∧ ¬ (d'.session.latchesOf t).source.isArmed) := by
  have hopen : d.host.editors.contains e := isOpen_of_uri? huri
  obtain ⟨d₁, hselected⟩ := exists_selected hquiet hopen selections
  obtain ⟨hview, hsource⟩ := Session.idle_iff.mp hidle
  have hissued₁ := hselected.issued hissued
  have hsession := hselected.session
  have huri₁ : Host.uri? d₁.host e = some uri := (hselected.uri? e).trans huri
  have hviews₁ := hselected.viewCount_le
  obtain ⟨hsettling, -⟩ := settling_spread selections (confined hissued₁) hselected.quiet
    (hsession ▸ hview) (fun t => hsession ▸ hsource t ▸ Nat.zero_le _)
    (hsession ▸ hroom.mono hviews₁) huri₁ hproduct
  have hfirst : (drainUpTo 1 (d.select e selections)).2 = (d₁.spread e uri selections true).2 :=
    (hselected.drainUpTo_succ 0).trans
      (deliver_of_document (r := ⟨e, selections⟩) huri₁ hproduct)
  rw [hfirst] at harrivals ⊢
  obtain ⟨hsettled, hlength⟩ := hsettling.arrivals harrivals
  have hkept : ∀ v u, Host.uri? d.host v = some u → Host.selections d'.host v =
      Host.selections (d₁.spread e uri selections true).2.host v := by
    intro v u hv
    exact hsettled.kept v (hissued₁.opened v (isOpen_of_uri? ((hselected.uri? v).trans hv)))
  refine ⟨?_, hkept, hlength, hsettled.idle⟩
  -- the document itself is no view, so its own report leaves it alone
  obtain ⟨view, hvisible, rfl, rfl⟩ := exists_visible huri₁
  have hspread := selections_foldl (p := ⟨d₁, [], false⟩) (.parse view.uri) view.id selections
    (Host.visible d₁.host) (nodup_visible _) (hsession ▸ hsource)
    (fun _ hv => uri?_of_mem_visible hv) hvisible
  refine (hkept _ _ huri).trans (hspread.trans ?_)
  rw [spreadTo_of_document _ _ _ hproduct, hselected.self]

/-- A version of the product in the view, with the start of the one document linked to the
start of the other. -/
def version : Product where
  source := .parse "/a.c"
  name := "ast"
  language := "t"
  content := "x"
  continues := false
  forward := [.atStart]
  reverse := [.atStart]

/-- The report of two carets in the document was delivered, and the echo of the view is to
come, when a version arrives. -/
def overtaken (p : Position) : Desk MemoryHost :=
  (drainUpTo 1 (atRest.select ⟨0⟩ [.caret p, .caret p])).2.act (.save version)

/-- The links lead back to two carets at the start. -/
theorem select_outlasts_version :
    (atRest.host.Issued ∧ atRest.host.reports = [] ∧
      (∀ t, ¬ (atRest.session.latchesOf t).view.isArmed ∧
        ¬ (atRest.session.latchesOf t).source.isArmed) ∧
      atRest.session.RoomFor atRest.host.viewCount ∧
      Host.uri? atRest.host ⟨0⟩ = some "file:///a.c" ∧ isProductUri "file:///a.c" = false ∧
      (overtaken ⟨0, 0⟩).host.reports.length = 1 ∧
      (overtaken ⟨0, 0⟩).session.viewEchoes version.target = 0 ∧
      Arrivals (drainUpTo 1 (atRest.select ⟨0⟩ [.caret ⟨0, 0⟩, .caret ⟨0, 0⟩])).2
        [version.target] 1 (drainUpTo 1 (overtaken ⟨0, 0⟩)).2) ∧
    Host.selections (drainUpTo 1 (overtaken ⟨0, 0⟩)).2.host ⟨0⟩ =
      [.caret ⟨0, 0⟩, .caret ⟨0, 0⟩] ∧
    (drainUpTo 1 (overtaken ⟨0, 0⟩)).2.host.reports.length + 1 = 1 := by
  have hroom : atRest.session.RoomFor atRest.host.viewCount :=
    Session.roomFor_new _ (by decide)
  have huri : Host.uri? atRest.host ⟨0⟩ = some "file:///a.c" := by decide
  have hproduct : isProductUri "file:///a.c" = false := by decide
  have hecho : (overtaken ⟨0, 0⟩).host.reports = [⟨⟨1⟩, [.caret ⟨0, 0⟩, .caret ⟨0, 0⟩]⟩] := by
    decide
  have hharmless : ∀ t ∈ [version.target],
      (overtaken ⟨0, 0⟩).host.shown ⟨1⟩ = .view t →
      (overtaken ⟨0, 0⟩).session.viewEchoes t = 0 →
      ((overtaken ⟨0, 0⟩).withReports []).Harmless t ⟨⟨1⟩, [.caret ⟨0, 0⟩, .caret ⟨0, 0⟩]⟩ := by
    decide
  have harrivals : Arrivals (drainUpTo 1 (atRest.select ⟨0⟩ [.caret ⟨0, 0⟩, .caret ⟨0, 0⟩])).2
      [version.target] 1 (drainUpTo 1 (overtaken ⟨0, 0⟩)).2 := by
    have hdeliver := (Arrivals.none.save version).deliver hecho hharmless
    rwa [drainUpTo_succ hecho]
  obtain ⟨hself, -, hlength, -⟩ :=
    select_outlasts_saves issued_pair rfl idle_atRest hroom huri hproduct harrivals
  exact ⟨⟨issued_pair, rfl, idle_atRest, hroom, huri, hproduct, by decide, by decide, harrivals⟩,
    hself, hlength.trans (by decide)⟩

/-- Two other carets they move to the start. -/
theorem select_lost_to_version :
    (atRest.host.reports = [] ∧
      ∀ t, ¬ (atRest.session.latchesOf t).view.isArmed ∧
        ¬ (atRest.session.latchesOf t).source.isArmed) ∧
    let d := (drainUpTo 9 (overtaken ⟨1, 0⟩)).2
    d.host.reports = [] ∧ Host.selections d.host ⟨0⟩ = [.caret ⟨0, 0⟩, .caret ⟨0, 0⟩] :=
  ⟨⟨rfl, idle_atRest⟩, by decide⟩

end LinkedViews.Desk
