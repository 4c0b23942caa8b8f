import Mathlib.Tactic.Lemma
import LinkedViews.Desk.Propagation

/-!
What the spread of selections leaves alone.

Selections that are carried from editor to editor change latches, and columns are recorded
where documents are shown. Products, tree, panels, settings and the version stay. Of the host
all stays that showing documents and writing selections leave alone.
-/

namespace LinkedViews

/-- The sessions differ in latches and columns at most. -/
structure Session.Undisturbed (s s' : Session) : Prop where
  settings : s'.settings = s.settings
  store : s'.store = s.store
  tree : s'.tree = s.tree
  panels : s'.placement.panels = s.placement.panels
  version : s'.version = s.version
  subscribers : s'.subscribers = s.subscribers

namespace Session

variable {s s' s'' : Session}

lemma Undisturbed.refl (s : Session) : Undisturbed s s := ⟨rfl, rfl, rfl, rfl, rfl, rfl⟩

lemma Undisturbed.trans (h : Undisturbed s s') (h' : Undisturbed s' s'') : Undisturbed s s'' where
  settings := h'.settings.trans h.settings
  store := h'.store.trans h.store
  tree := h'.tree.trans h.tree
  panels := h'.panels.trans h.panels
  version := h'.version.trans h.version
  subscribers := h'.subscribers.trans h.subscribers

lemma Undisturbed.product (h : Undisturbed s s') (t : Target) : s'.product t = s.product t := by
  rw [Session.product, h.store]; rfl

lemma panels_place (p : Placement) (uri : String) (role : Role) :
    (p.place uri role).2.panels = p.panels := by
  unfold Placement.place
  split <;> rfl

/-- Where a document is recorded, it is placed without a change. -/
lemma place_of_recorded {uri : String} {column : Column}
    (hc : s.placement.column? uri = some column) (role : Role) :
    s.place uri role = (column, s) := by
  simp only [Session.place, Placement.place, hc]

lemma place_place (s : Session) (uri : String) (role : Role) :
    (s.place uri role).2.place uri role = s.place uri role :=
  place_of_recorded (s.placement.column?_place uri role) role

lemma undisturbed_place (s : Session) (uri : String) (role : Role) :
    Undisturbed s (s.place uri role).2 :=
  ⟨rfl, rfl, rfl, panels_place _ _ _, rfl, rfl⟩

lemma undisturbed_setLatches (s : Session) (t : Target) (l : Latches) :
    Undisturbed s (s.setLatches t l) :=
  ⟨rfl, rfl, rfl, rfl, rfl, rfl⟩

end Session

namespace Desk

open Session

variable {H : Type} [Host H]

lemma undisturbed_display (d : Desk H) (uri : String) (role : Role) (keepFocus : Bool) :
    Undisturbed d.session (d.display uri role keepFocus).2.session :=
  undisturbed_place _ _ _

lemma undisturbed_step (source : Source) (e : EditorId) (selections : List Selection)
    (isReport : Bool) (p : Progress H) (view : VisibleEditor) :
    Undisturbed p.desk.session (p.step source e selections isReport view).desk.session := by
  unfold Progress.step
  split
  · exact .refl _
  · split
    · exact undisturbed_setLatches _ _ _
    · split
      · exact .refl _
      · cases isReport with
        | true => exact undisturbed_setLatches _ _ _
        | false => exact (undisturbed_display _ _ _ _).trans (undisturbed_setLatches _ _ _)

lemma undisturbed_foldl (source : Source) (e : EditorId) (selections : List Selection)
    (isReport : Bool) (views : List VisibleEditor) (p : Progress H) :
    Undisturbed p.desk.session
      (views.foldl (Progress.step source e selections isReport) p).desk.session :=
  List.foldlRecOn (motive := fun p' : Progress H => Undisturbed p.desk.session p'.desk.session)
    views _ (.refl _) fun p' h view _ => h.trans (undisturbed_step _ _ _ _ p' view)

lemma undisturbed_spread (d : Desk H) (e : EditorId) (uri : String)
    (selections : List Selection) (isReport : Bool) :
    Undisturbed d.session (d.spread e uri selections isReport).2.session :=
  undisturbed_foldl _ _ _ _ _ ⟨d, [], false⟩

lemma undisturbed_traceBack (d : Desk H) (e : EditorId) (t : Target)
    (selections : List Selection) :
    Undisturbed d.session (d.traceBack e t selections).2.session := by
  have hshown := undisturbed_display d t.source.uri .source true
  unfold traceBack
  split
  · rename_i shown heq
    rwa [heq] at hshown
  · rename_i editor shown heq
    rw [heq] at hshown
    simp only
    split
    · exact hshown.trans (undisturbed_setLatches _ _ _)
    · split
      · exact hshown
      · exact hshown.trans ((undisturbed_display _ _ _ _).trans (undisturbed_setLatches _ _ _))

/-- **A report disturbs nothing**: whatever comes of it, products, tree, panels, settings and
version stay as they are. -/
theorem undisturbed_selectionReported {d d' : Desk H} {e : EditorId}
    {selections : List Selection} {o : Outcome}
    (h : d.selectionReported e selections = .ok (o, d')) :
    Undisturbed d.session d'.session := by
  unfold selectionReported at h
  split at h
  · cases h
    exact .refl _
  · rename_i uri _
    split at h
    · cases hparse : Target.parse uri with
      | error err => rw [hparse] at h; cases h
      | ok t =>
        rw [hparse] at h
        have hd : (d.traceBack e t selections).2 = d' := congrArg Prod.snd (Except.ok.inj h)
        exact hd ▸ undisturbed_traceBack d e t selections
    · have hd : (d.spread e uri selections true).2 = d' := congrArg Prod.snd (Except.ok.inj h)
      exact hd ▸ undisturbed_spread d e uri selections true

theorem undisturbed_selectLinked (d : Desk H) :
    Undisturbed d.session d.selectLinked.2.session := by
  unfold selectLinked
  split
  · exact .refl _
  · split
    · exact .refl _
    · exact undisturbed_spread _ _ _ _ _

end Desk

/-! ### What the host keeps -/

/-- What a host keeps when selections are written and scrolled to. -/
structure Host.KeptByWrites {H : Type} [Host H] (P : H → Prop) : Prop where
  write : ∀ h e selections, P h → P (Host.write h e selections).2
  scrollTo : ∀ h e s, P h → P (Host.scrollTo h e s)

/-- What a host keeps when documents are shown, and selections written and scrolled to. -/
structure Host.Kept {H : Type} [Host H] (P : H → Prop) : Prop extends Host.KeptByWrites P where
  display : ∀ h uri mode, P h → P (Host.display h uri mode).2

namespace Host

open Desk

variable {H : Type} [Host H] {P : H → Prop}

/-- What every step keeps, a spread keeps. -/
lemma kept_spread {d : Desk H} {e : EditorId} {uri : String} {selections : List Selection}
    {isReport : Bool} (hstep : ∀ (p : Progress H) view, P p.desk.host →
      P (p.step (.parse uri) e selections isReport view).desk.host) (hh : P d.host) :
    P (d.spread e uri selections isReport).2.host :=
  List.foldlRecOn (motive := fun p : Progress H => P p.desk.host) (Host.visible d.host) _ hh
    fun p hp view _ => hstep p view hp

namespace KeptByWrites

lemma writeArmed (hP : KeptByWrites P) {h : H} (hh : P h) (e : EditorId) (l : Latch)
    (selections : List Selection) : P (writeArmed h e l selections).host := by
  have hwritten := hP.write h e selections hh
  unfold LinkedViews.writeArmed
  cases selections with
  | nil => exact hwritten
  | cons first rest => exact hP.scrollTo _ _ _ hwritten

lemma written (hP : KeptByWrites P) {p : Progress H} (hh : P p.desk.host) (t : Target)
    (view : VisibleEditor) (selections : List Selection) :
    P (p.write t view selections).desk.host :=
  hP.writeArmed hh view.id (p.desk.session.latchesOf t).view selections

/-- A report that comes to a view shows no document. -/
lemma step (hP : KeptByWrites P) {p : Progress H} (hh : P p.desk.host) (source : Source)
    (e : EditorId) (selections : List Selection) (view : VisibleEditor) :
    P (p.step source e selections true view).desk.host := by
  unfold Progress.step
  split
  · exact hh
  · split
    · exact hh
    · split
      · exact hh
      · exact hP.written hh _ _ _

lemma spread (hP : KeptByWrites P) {d : Desk H} (hh : P d.host) (e : EditorId) (uri : String)
    (selections : List Selection) : P (d.spread e uri selections true).2.host :=
  kept_spread (fun _ view hp => hP.step hp _ _ _ view) hh

end KeptByWrites

namespace Kept

lemma step (hP : Kept P) {p : Progress H} (hh : P p.desk.host) (source : Source) (e : EditorId)
    (selections : List Selection) (isReport : Bool) (view : VisibleEditor) :
    P (p.step source e selections isReport view).desk.host := by
  cases isReport with
  | true => exact hP.toKeptByWrites.step hh _ _ _ _
  | false =>
    unfold Progress.step
    split
    · exact hh
    · split
      · exact hh
      · split
        · exact hh
        · exact hP.written (hP.display _ _ _ hh) _ _ _

lemma spread (hP : Kept P) {d : Desk H} (hh : P d.host) (e : EditorId) (uri : String)
    (selections : List Selection) (isReport : Bool) :
    P (d.spread e uri selections isReport).2.host :=
  kept_spread (fun _ view hp => hP.step hp _ _ _ _ view) hh

lemma traceBack (hP : Kept P) {d : Desk H} (hh : P d.host) (e : EditorId) (t : Target)
    (selections : List Selection) : P (d.traceBack e t selections).2.host := by
  have hshown : P (d.display t.source.uri .source true).2.host := hP.display _ _ _ hh
  unfold Desk.traceBack
  split
  · rename_i shown heq
    rwa [heq] at hshown
  · rename_i editor shown heq
    rw [heq] at hshown
    simp only
    split
    · exact hshown
    · split
      · exact hshown
      · exact hP.writeArmed (hP.display _ _ _ hshown) _ (shown.session.latchesOf t).source _

lemma selectionReported (hP : Kept P) {d d' : Desk H} (hh : P d.host) {e : EditorId}
    {selections : List Selection} {o : Outcome}
    (h : d.selectionReported e selections = .ok (o, d')) : P d'.host := by
  unfold Desk.selectionReported at h
  split at h
  · cases h
    exact hh
  · rename_i uri _
    split at h
    · cases hparse : Target.parse uri with
      | error err => rw [hparse] at h; cases h
      | ok t =>
        rw [hparse] at h
        have hd : (d.traceBack e t selections).2 = d' := congrArg Prod.snd (Except.ok.inj h)
        exact hd ▸ hP.traceBack hh e t selections
    · have hd : (d.spread e uri selections true).2 = d' := congrArg Prod.snd (Except.ok.inj h)
      exact hd ▸ hP.spread hh e uri selections true

lemma selectLinked (hP : Kept P) {d : Desk H} (hh : P d.host) : P d.selectLinked.2.host := by
  unfold Desk.selectLinked
  split
  · exact hh
  · split
    · exact hh
    · exact hP.spread hh _ _ _ _

end Kept

end Host

end LinkedViews
