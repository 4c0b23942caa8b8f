import LinkedViews.Proofs.Desk.Closing
import LinkedViews.Proofs.Session.Identity

/-!
The panels of graphics.

The session remembers which panel shows a target, and the host has the panels. Panels come
from the session alone, and it hears when one was closed. Then the two agree: every panel that
is there is that of one target, and no target has a panel that is gone.
-/

namespace LinkedViews

/-! ### Targets and their panels -/

namespace Placement

variable {p : Placement} {t : Target} {panel : PanelId}

/-- No two targets have one panel. -/
def Apart (p : Placement) : Prop :=
  ∀ t u panel, p.panel? t = some panel → p.panel? u = some panel → t = u

lemma panel?_of_shownIn? (h : p.shownIn? panel = some t) : p.panel? t = some panel := by
  obtain ⟨entry, hfind, rfl⟩ := Option.map_eq_some_iff.mp h
  have hpanel : entry.2 = panel := by simpa using List.find?_some hfind
  exact SortedMap.get?_eq_some_iff.mpr (hpanel ▸ List.mem_of_find?_eq_some hfind)

lemma Apart.shownIn?_eq_some_iff (h : p.Apart) :
    p.shownIn? panel = some t ↔ p.panel? t = some panel := by
  refine ⟨panel?_of_shownIn?, fun ht => ?_⟩
  have hentry : (t, panel) ∈ p.panels.entries := SortedMap.get?_eq_some_iff.mp ht
  cases hshown : p.shownIn? panel with
  | none =>
    have hmissing := List.find?_eq_none.mp (Option.map_eq_none_iff.mp hshown) _ hentry
    exact absurd (decide_eq_true rfl) hmissing
  | some u => rw [h u t panel (panel?_of_shownIn? hshown) ht]

lemma Apart.panel?_erasePanel (h : p.Apart) (panel : PanelId) (t : Target) :
    (p.erasePanel panel).panel? t = if p.panel? t = some panel then none else p.panel? t := by
  unfold erasePanel
  cases hshown : p.shownIn? panel with
  | none =>
    have hnot : p.panel? t ≠ some panel := fun ht => by
      rw [h.shownIn?_eq_some_iff.mpr ht] at hshown
      cases hshown
    rw [if_neg hnot]
  | some u =>
    have hiff : t = u ↔ p.panel? t = some panel := by
      rw [← h.shownIn?_eq_some_iff, hshown, Option.some.injEq, eq_comm]
    have herase : ({ p with panels := p.panels.erase u } : Placement).panel? t =
        if t = u then none else p.panel? t := SortedMap.get?_erase ..
    simp only [herase, hiff]

lemma panel?_place (p : Placement) (uri : String) (role : Role) (t : Target) :
    (p.place uri role).2.panel? t = p.panel? t := by
  rw [panel?, Session.panels_place]
  rfl

end Placement

namespace Session

lemma panels_foldl {f : Placement → VisibleEditor → Placement}
    (hf : ∀ p e, (f p e).panels = p.panels) (editors : List VisibleEditor) (p : Placement) :
    (editors.foldl f p).panels = p.panels := by
  induction editors generalizing p with
  | nil => rfl
  | cons e editors ih => exact (ih (f p e)).trans (hf p e)

lemma panels_editorsSeen (s : Session) (editors : List VisibleEditor) :
    (s.editorsSeen editors).placement.panels = s.placement.panels := by
  refine panels_foldl (fun p e => ?_) editors s.placement
  split <;> rfl

lemma panels_invalidate (s : Session) (h : MemoryHost) (uri : String) :
    (s.invalidate h uri).session.placement.panels = s.placement.panels := by
  unfold Session.invalidate
  split <;> rfl

lemma panels_documentEdited (s : Session) (h : MemoryHost) (uri : String) :
    (s.documentEdited h uri).session.placement.panels = s.placement.panels := by
  unfold Session.documentEdited
  split
  · exact panels_invalidate s h uri
  · rfl

end Session

/-! ### Panels of a host -/

namespace MemoryHost

variable {h : MemoryHost}

lemma contains_eq (h : MemoryHost) (p : PanelId) : h.panels.contains p = (h.panel? p).isSome := rfl

lemma panel?_newPanel (h : MemoryHost) (title : String) (column : Column) (p : PanelId) :
    (Host.newPanel h title column).2.panel? p =
      if p = h.nextPanel then some ⟨title, column, "", 0⟩ else h.panel? p :=
  SortedMap.get?_insert ..

lemma panel?_fillPanel (h : MemoryHost) (p q : PanelId) (content : String) :
    (Host.fillPanel h p content).panel? q =
      if q = p then (h.panel? q).map fun panel => { panel with content } else h.panel? q :=
  SortedMap.get?_modify ..

lemma panel?_raisePanel (h : MemoryHost) (p q : PanelId) :
    (Host.raisePanel h p).panel? q =
      if q = p then (h.panel? q).map fun panel => { panel with raised := panel.raised + 1 }
      else h.panel? q :=
  SortedMap.get?_modify ..

lemma panel?_closePanel (h : MemoryHost) (p q : PanelId) :
    (h.closePanel p).2.panel? q = if q = p then none else h.panel? q :=
  SortedMap.get?_erase ..

lemma contains_closePanel (h : MemoryHost) (p q : PanelId) :
    (h.closePanel p).2.panels.contains q ↔ q ≠ p ∧ h.panels.contains q := by
  rw [contains_eq, panel?_closePanel]
  split <;> simp [*, contains_eq]

/-- The hosts have the same panels, whatever is in them. -/
structure SamePanels (h h' : MemoryHost) : Prop where
  live : ∀ p, h'.panels.contains p = h.panels.contains p
  next : h'.nextPanel = h.nextPanel

namespace SamePanels

lemma of_eq {h' : MemoryHost} (hpanels : h'.panels = h.panels)
    (hnext : h'.nextPanel = h.nextPanel) : SamePanels h h' :=
  ⟨fun p => by rw [hpanels], hnext⟩

lemma trans {h' h'' : MemoryHost} (hs : SamePanels h h') (hs' : SamePanels h' h'') :
    SamePanels h h'' :=
  ⟨fun p => (hs'.live p).trans (hs.live p), hs'.next.trans hs.next⟩

end SamePanels

lemma samePanels_modify (h : MemoryHost) (p : PanelId) (f : Panel → Panel) :
    SamePanels h { h with panels := h.panels.modify p f } := by
  refine ⟨fun q => ?_, rfl⟩
  simp only [SortedMap.contains, SortedMap.get?_modify]
  split
  · exact Option.isSome_map
  · rfl

/-- Fills a panel, and brings it to the front. -/
def draw (h : MemoryHost) (p : PanelId) (content : String) : MemoryHost :=
  Host.raisePanel (Host.fillPanel h p content) p

lemma content_draw (h : MemoryHost) (p : PanelId) (content : String) :
    ((h.draw p content).panel? p).map Panel.content = (h.panel? p).map fun _ => content := by
  rw [draw, panel?_raisePanel, if_pos rfl, panel?_fillPanel, if_pos rfl, Option.map_map,
    Option.map_map]
  rfl

lemma panel?_draw_of_ne {p q : PanelId} (hne : q ≠ p) (content : String) :
    (h.draw p content).panel? q = h.panel? q := by
  rw [draw, panel?_raisePanel, if_neg hne, panel?_fillPanel, if_neg hne]

lemma samePanels_draw (h : MemoryHost) (p : PanelId) (content : String) :
    SamePanels h (h.draw p content) :=
  (samePanels_modify h p _).trans (samePanels_modify _ p _)

lemma samePanels_display (h : MemoryHost) (uri : String) (mode : DisplayMode) :
    SamePanels h (h.display uri mode).2 :=
  .of_eq (panels_display h uri mode).1 (panels_display h uri mode).2

lemma samePanels_select (h : MemoryHost) (e : EditorId) (selections : List Selection) :
    SamePanels h (h.select e selections) :=
  .of_eq (panels_select h e selections).1 (panels_select h e selections).2

lemma samePanels_write (h : MemoryHost) (e : EditorId) (selections : List Selection) :
    SamePanels h (h.write e selections).2 :=
  .of_eq (panels_write h e selections).1 (panels_write h e selections).2

lemma samePanels_focus (h : MemoryHost) (e : EditorId) : SamePanels h (h.focus e) := by
  unfold focus
  split <;> exact .of_eq rfl rfl

lemma kept_samePanels (h : MemoryHost) : Host.Kept (SamePanels h) where
  display h' uri mode hs := hs.trans (samePanels_display h' uri mode)
  write h' e selections hs := hs.trans (samePanels_write h' e selections)
  scrollTo _ _ _ hs := hs.trans (.of_eq rfl rfl)

end MemoryHost

namespace Desk

open MemoryHost

variable {d d' : Desk MemoryHost} {r : Report} {t : Target} {q : PanelId} {n : Nat}

/-! ### Operations -/

/-- What a session and its host may do. Panels are made for products alone. -/
inductive Operation where
  | act (action : Action)
  | closeEditor (editor : EditorId)
  | takeReports
  /-- A report reaches the session, be it one that was queued or any other. -/
  | report (report : Report)
  | display (uri : String) (mode : DisplayMode)
  | write (editor : EditorId) (selections : List Selection)
  | scrollTo (editor : EditorId) (selection : Selection)
  /-- The products of a document are dropped without a look at the host. -/
  | dropUnseen (source : Source)
  | documentClosed (uri : String)
  | documentSaved (uri : String)
  | documentEdited (uri : String)
  | setSettings (settings : Settings)
  | subscribe
  | editorsSeen (editors : List VisibleEditor)
  | fillPanel (panel : PanelId) (content : String)
  | raisePanel (panel : PanelId)
  | redrawPanel (target : Target)
  /-- The user closes a panel, and the session hears of it, if there was one. -/
  | closePanel (panel : PanelId)
  /-- The session hears of a panel that is not there. -/
  | panelGone (panel : PanelId)

def operate (d : Desk MemoryHost) : Operation → Desk MemoryHost
  | .act a => d.act a
  | .closeEditor e => d.close e
  | .takeReports => { d with host := d.host.takeReports.2 }
  | .report r => d.deliver r
  | .display uri mode => { d with host := (d.host.display uri mode).2 }
  | .write e selections => { d with host := (d.host.write e selections).2 }
  | .scrollTo e s => { d with host := d.host.scrollTo e s }
  | .dropUnseen source => { d with session := (d.session.drop source).session }
  | .documentClosed uri => { d with session := (d.session.documentClosed d.host uri).session }
  | .documentSaved uri => { d with session := (d.session.documentSaved d.host uri).session }
  | .documentEdited uri => { d with session := (d.session.documentEdited d.host uri).session }
  | .setSettings settings => { d with session := d.session.setSettings settings }
  | .subscribe => { d with session := d.session.subscribe }
  | .editorsSeen editors => { d with session := d.session.editorsSeen editors }
  | .fillPanel p content => { d with host := d.host.fillPanel p content }
  | .raisePanel p => { d with host := d.host.raisePanel p }
  | .redrawPanel t => (d.redrawPanel t).2
  | .closePanel p =>
    let (closed, host) := d.host.closePanel p
    if closed then ⟨(d.session.panelClosed p).2, host⟩ else ⟨d.session, host⟩
  | .panelGone p =>
    if d.host.panels.contains p then d else { d with session := (d.session.panelClosed p).2 }

/-- Whether a panel has to be made to open a target. -/
def needsPanel (d : Desk MemoryHost) (t : Target) : Bool :=
  (d.session.placement.panel? t).isNone &&
    (d.session.store.find? t).any fun p => p.kind = .graphic

def panelsMadeBy (d : Desk MemoryHost) : Operation → Nat
  | .act (.openProduct t) => if d.needsPanel t then 1 else 0
  | _ => 0

/-- How many panels are made in the course of operations. -/
def panelsMade : Desk MemoryHost → List Operation → Nat
  | _, [] => 0
  | d, o :: operations => d.panelsMadeBy o + (d.operate o).panelsMade operations

/-! ### What an operation does to panels -/

/-- Nothing happened to panels, but for what is in them. -/
structure PanelsStay (d d' : Desk MemoryHost) : Prop where
  remembered : d'.session.placement.panels = d.session.placement.panels
  host : SamePanels d.host d'.host

/-- The next panel was made for a target that had none. -/
structure PanelMade (t : Target) (d d' : Desk MemoryHost) : Prop where
  needed : d.session.placement.panel? t = none
  remembered : ∀ u, d'.session.placement.panel? u =
    if u = t then some d.host.nextPanel else d.session.placement.panel? u
  live : ∀ q, d'.host.panels.contains q ↔ q = d.host.nextPanel ∨ d.host.panels.contains q
  next : d'.host.nextPanel = ⟨Word.next d.host.nextPanel.number⟩

/-- A panel is gone, and the session heard of it. -/
structure PanelLeft (p : PanelId) (d d' : Desk MemoryHost) : Prop where
  remembered : d'.session.placement = d.session.placement.erasePanel p
  live : ∀ q, d'.host.panels.contains q ↔ q ≠ p ∧ d.host.panels.contains q
  next : d'.host.nextPanel = d.host.nextPanel

lemma panelsStay_display (d : Desk MemoryHost) (uri : String) (role : Role) (keepFocus : Bool) :
    PanelsStay d (d.display uri role keepFocus).2 :=
  ⟨(undisturbed_display d uri role keepFocus).panels, samePanels_display ..⟩

lemma openPanel_of_some (hpanel : d.session.placement.panel? t = some q) (content : String) :
    d.openPanel t content =
      (q, ⟨(d.session.place t.uri .product).2, d.host.draw q content⟩) := by
  have hplaced : (d.session.place t.uri .product).2.placement.panel? t = some q :=
    (Placement.panel?_place ..).trans hpanel
  simp only [openPanel, panelOf, hplaced]
  rfl

/-- Any host is asked for a panel where none is remembered. -/
lemma openPanel_of_no_panel {H : Type} [Host H] {d : Desk H}
    (hpanel : d.session.placement.panel? t = none) (content : String) :
    let placed := d.session.place t.uri .product
    let made := Host.newPanel d.host t.panelTitle placed.1
    d.openPanel t content = (made.1, ⟨placed.2.setPanel t made.1,
      Host.raisePanel (Host.fillPanel made.2 made.1 content) made.1⟩) := by
  have hplaced : (d.session.place t.uri .product).2.placement.panel? t = none :=
    (Placement.panel?_place ..).trans hpanel
  simp only [openPanel, panelOf, hplaced]

lemma openPanel_of_none (hpanel : d.session.placement.panel? t = none) (content : String) :
    d.openPanel t content =
      (d.host.nextPanel,
        ⟨(d.session.place t.uri .product).2.setPanel t d.host.nextPanel,
          (Host.newPanel d.host t.panelTitle (d.session.place t.uri .product).1).2.draw
            d.host.nextPanel content⟩) :=
  openPanel_of_no_panel hpanel content

lemma panelsStay_openPanel (hpanel : d.session.placement.panel? t = some q) (content : String) :
    PanelsStay d (d.openPanel t content).2 := by
  rw [openPanel_of_some hpanel]
  exact ⟨Session.panels_place .., samePanels_draw ..⟩

lemma panelMade_openPanel (hpanel : d.session.placement.panel? t = none) (content : String) :
    PanelMade t d (d.openPanel t content).2 := by
  rw [openPanel_of_none hpanel]
  refine ⟨hpanel, fun u => ?_, fun q => ?_, (samePanels_draw ..).next⟩
  · have hset : ∀ p : Placement, (p.setPanel t d.host.nextPanel).panel? u =
        if u = t then some d.host.nextPanel else p.panel? u := fun _ => SortedMap.get?_insert ..
    rw [← Placement.panel?_place d.session.placement t.uri .product u]
    exact hset _
  · rw [(samePanels_draw ..).live, contains_eq, panel?_newPanel]
    split
    · simp [*]
    · simp [*, contains_eq]

/-- What becomes of panels, with how many are made. -/
inductive PanelStep (d d' : Desk MemoryHost) : Nat → Prop
  | stay (h : PanelsStay d d') : PanelStep d d' 0
  | made (t : Target) (h : PanelMade t d d') : PanelStep d d' 1
  | left (p : PanelId) (h : PanelLeft p d d') : PanelStep d d' 0

lemma panelStep_openProduct (d : Desk MemoryHost) (t : Target) :
    PanelStep d (d.openProduct t).2 (if d.needsPanel t then 1 else 0) := by
  have hsame : PanelStep d d 0 := .stay ⟨rfl, .of_eq rfl rfl⟩
  unfold needsPanel
  cases hstored : d.session.store.find? t with
  | none =>
    rw [openProduct_of_none hstored]
    simpa using hsame
  | some p =>
    cases hkind : p.kind with
    | text =>
      rw [openProduct_of_text hstored hkind]
      simpa [hkind] using PanelStep.stay (panelsStay_display d t.uri .product true)
    | graphic =>
      rw [openProduct_of_graphic hstored hkind]
      cases hpanel : d.session.placement.panel? t with
      | none => simpa [hkind] using PanelStep.made t (panelMade_openPanel hpanel p.content)
      | some q => simpa [hkind] using PanelStep.stay (panelsStay_openPanel hpanel p.content)

lemma panelStep_act (d : Desk MemoryHost) (a : Action) :
    PanelStep d (d.act a) (d.panelsMadeBy (.act a)) := by
  cases a with
  | putDocument uri text => exact .stay ⟨rfl, .of_eq rfl rfl⟩
  | openEditor uri column => exact .stay ⟨rfl, .of_eq rfl rfl⟩
  | focus e => exact .stay ⟨rfl, samePanels_focus d.host e⟩
  | select e selections => exact .stay ⟨rfl, samePanels_select d.host e selections⟩
  | deliver most =>
    exact .stay ⟨(undisturbed_drainUpTo most d).panels,
      kept_drainUpTo (kept_samePanels d.host) (fun _ _ h => h.trans (.of_eq rfl rfl))
        (.of_eq rfl rfl) most⟩
  | selectLinked =>
    exact .stay ⟨(undisturbed_selectLinked d).panels,
      (kept_samePanels d.host).selectLinked (.of_eq rfl rfl)⟩
  | save p => exact .stay ⟨rfl, .of_eq rfl rfl⟩
  | drop source => exact .stay ⟨rfl, .of_eq rfl rfl⟩
  | openDocument uri => exact .stay (panelsStay_display d uri _ true)
  | openProduct t => exact panelStep_openProduct d t

lemma panelStep_closePanel (d : Desk MemoryHost) (p : PanelId) :
    PanelStep d (d.operate (.closePanel p)) 0 := by
  have hlive := contains_closePanel d.host p
  cases hthere : d.host.panels.contains p with
  | true =>
    have hclosed : d.operate (.closePanel p) =
        ⟨(d.session.panelClosed p).2, (d.host.closePanel p).2⟩ := if_pos hthere
    exact hclosed ▸ .left p ⟨rfl, hlive, rfl⟩
  | false =>
    have hnone : d.operate (.closePanel p) = ⟨d.session, (d.host.closePanel p).2⟩ :=
      if_neg (by simpa using hthere)
    refine hnone ▸ .stay ⟨rfl, fun q => Bool.eq_iff_iff.mpr ?_, rfl⟩
    rw [hlive]
    exact and_iff_right_of_imp fun hq heq => by simp [heq, hthere] at hq

lemma panelStep_panelGone (d : Desk MemoryHost) (p : PanelId) :
    PanelStep d (d.operate (.panelGone p)) 0 := by
  simp only [operate]
  split
  · exact .stay ⟨rfl, .of_eq rfl rfl⟩
  · rename_i hgone
    refine .left p ⟨rfl, fun q => ?_, rfl⟩
    exact (and_iff_right_of_imp fun hq (heq : q = p) => hgone (heq ▸ hq)).symm

/-- **What an operation does to panels**: it makes one for a target that needs one, or it is
that a panel was closed, or all panels stay. -/
theorem panelStep_operate (d : Desk MemoryHost) (o : Operation) :
    PanelStep d (d.operate o) (d.panelsMadeBy o) := by
  cases o with
  | act a => exact panelStep_act d a
  | closeEditor e => exact .stay ⟨rfl, .of_eq rfl rfl⟩
  | takeReports => exact .stay ⟨rfl, .of_eq rfl rfl⟩
  | report r =>
    exact .stay ⟨(undisturbed_deliver d r).panels,
      kept_deliver (kept_samePanels d.host) (.of_eq rfl rfl) r⟩
  | display uri mode => exact .stay ⟨rfl, samePanels_display d.host uri mode⟩
  | write e selections => exact .stay ⟨rfl, samePanels_write d.host e selections⟩
  | scrollTo e s => exact .stay ⟨rfl, .of_eq rfl rfl⟩
  | dropUnseen source => exact .stay ⟨rfl, .of_eq rfl rfl⟩
  | documentClosed uri => exact .stay ⟨Session.panels_invalidate .., .of_eq rfl rfl⟩
  | documentSaved uri => exact .stay ⟨Session.panels_invalidate .., .of_eq rfl rfl⟩
  | documentEdited uri => exact .stay ⟨Session.panels_documentEdited .., .of_eq rfl rfl⟩
  | setSettings settings => exact .stay ⟨rfl, .of_eq rfl rfl⟩
  | subscribe => exact .stay ⟨rfl, .of_eq rfl rfl⟩
  | editorsSeen editors => exact .stay ⟨Session.panels_editorsSeen .., .of_eq rfl rfl⟩
  | fillPanel p content => exact .stay ⟨rfl, samePanels_modify d.host p _⟩
  | raisePanel p => exact .stay ⟨rfl, samePanels_modify d.host p _⟩
  | redrawPanel t =>
    simp only [operate, redrawPanel]
    split
    · exact .stay ⟨rfl, samePanels_modify d.host _ _⟩
    · exact .stay ⟨rfl, .of_eq rfl rfl⟩
  | closePanel p => exact panelStep_closePanel d p
  | panelGone p => exact panelStep_panelGone d p

/-! ### Panels of a run -/

/-- Session and host agree on the panels, after so many were made. -/
structure PanelsAgree (n : Nat) (d : Desk MemoryHost) : Prop where
  apart : d.session.placement.Apart
  live : ∀ q, d.host.panels.contains q ↔ ∃ t, d.session.placement.panel? t = some q
  issued : ∀ q, d.host.panels.contains q → q.number.toNat < n
  next : d.host.nextPanel.number.toNat = n

namespace PanelsAgree

lemma nextPanel_absent (h : PanelsAgree n d) : ¬ d.host.panels.contains d.host.nextPanel := by
  intro hlive
  have hlt := h.issued _ hlive
  have hnext := h.next
  omega

lemma stay (h : PanelsAgree n d) (hs : PanelsStay d d') : PanelsAgree n d' := by
  have hpanel : ∀ t, d'.session.placement.panel? t = d.session.placement.panel? t := fun t => by
    rw [Placement.panel?, hs.remembered]
    rfl
  refine ⟨fun t u q ht hu => ?_, fun q => ?_, fun q hq => ?_, ?_⟩
  · rw [hpanel] at ht hu
    exact h.apart t u q ht hu
  · rw [hs.host.live, h.live]
    simp only [hpanel]
  · rw [hs.host.live] at hq
    exact h.issued q hq
  · rw [hs.host.next, h.next]

/-- The panel made is new, so no other target has it. -/
lemma made (h : PanelsAgree n d) (hm : PanelMade t d d') (hroom : n + 1 < UInt64.size) :
    PanelsAgree (n + 1) d' := by
  have hnew : ∀ u, d.session.placement.panel? u ≠ some d.host.nextPanel := fun u hu =>
    h.nextPanel_absent ((h.live _).mpr ⟨u, hu⟩)
  refine ⟨fun u v q hu hv => ?_, fun q => ?_, fun q hq => ?_, ?_⟩
  · rw [hm.remembered] at hu hv
    split at hu <;> split at hv
    · simp [*]
    · cases hu
      exact absurd hv (hnew v)
    · cases hv
      exact absurd hu (hnew u)
    · exact h.apart u v q hu hv
  · rw [hm.live, h.live]
    constructor
    · rintro (rfl | ⟨u, hu⟩)
      · exact ⟨t, by rw [hm.remembered, if_pos rfl]⟩
      · have hut : u ≠ t := by
          rintro rfl
          rw [hm.needed] at hu
          cases hu
        exact ⟨u, by rw [hm.remembered, if_neg hut, hu]⟩
    · rintro ⟨u, hu⟩
      rw [hm.remembered] at hu
      split at hu
      · cases hu
        exact .inl rfl
      · exact .inr ⟨u, hu⟩
  · rcases (hm.live q).mp hq with rfl | hq
    · rw [h.next]
      omega
    · exact Nat.lt_succ_of_lt (h.issued q hq)
  · have hnext := h.next
    rw [hm.next, Word.toNat_next]
    omega

/-- The one target that had the panel has none. -/
lemma left (h : PanelsAgree n d) (hl : PanelLeft q d d') : PanelsAgree n d' := by
  have hpanel : ∀ t, d'.session.placement.panel? t =
      if d.session.placement.panel? t = some q then none else d.session.placement.panel? t := by
    intro t
    rw [hl.remembered, h.apart.panel?_erasePanel]
  have hkept : ∀ t q', d'.session.placement.panel? t = some q' ↔
      q' ≠ q ∧ d.session.placement.panel? t = some q' := by
    intro t q'
    rw [hpanel]
    split
    · rename_i hq
      simp only [hq, Option.some.injEq, reduceCtorEq, false_iff, not_and]
      exact fun hne heq => hne heq.symm
    · rename_i hne
      exact (and_iff_right_of_imp fun ht (heq : q' = q) => hne (heq ▸ ht)).symm
  refine ⟨fun t u q' ht hu => ?_, fun q' => ?_, fun q' hq' => ?_, ?_⟩
  · exact h.apart t u q' ((hkept t q').mp ht).2 ((hkept u q').mp hu).2
  · simp only [hl.live, h.live, hkept, exists_and_left]
  · exact h.issued q' ((hl.live q').mp hq').2
  · rw [hl.next, h.next]

lemma step {m : Nat} (h : PanelsAgree n d) (hs : PanelStep d d' m)
    (hroom : n + m < UInt64.size) : PanelsAgree (n + m) d' := by
  cases hs with
  | stay hs => exact h.stay hs
  | made t hm => exact h.made hm hroom
  | left p hl => exact h.left hl

lemma run (h : PanelsAgree n d) (operations : List Operation)
    (hroom : n + d.panelsMade operations < UInt64.size) :
    PanelsAgree (n + d.panelsMade operations) (operations.foldl operate d) := by
  induction operations generalizing n d with
  | nil => exact h
  | cons o operations ih =>
    have hsum : n + d.panelsMade (o :: operations) =
        n + d.panelsMadeBy o + (d.operate o).panelsMade operations := (Nat.add_assoc ..).symm
    rw [hsum] at hroom ⊢
    exact ih (h.step (panelStep_operate d o) (Nat.lt_of_le_of_lt (Nat.le_add_right _ _) hroom))
      hroom

end PanelsAgree

lemma panelsAgree_fresh (settings : Settings) : PanelsAgree 0 (fresh settings) where
  apart _ _ _ ht := nomatch ht
  live _ := ⟨nofun, nofun⟩
  issued _ := nofun
  next := rfl

/-- Opening a target shows its content in a panel: in the one it has, or in one more. -/
structure Presented (d : Desk MemoryHost) (t : Target) (content : String) (p : PanelId) : Prop where
  shown : (d.openProduct t).1 = some (.panel p)
  reused : d.session.placement.panel? t = some p ∨
    (d.session.placement.panel? t = none ∧ ¬ d.host.panels.contains p)
  remembered : ∀ u, (d.openProduct t).2.session.placement.panel? u =
    if u = t then some p else d.session.placement.panel? u
  others : ∀ q, q ≠ p → (d.openProduct t).2.host.panel? q = d.host.panel? q
  content : ((d.openProduct t).2.host.panel? p).map Panel.content = some content

lemma PanelsAgree.presented (h : PanelsAgree n d) {p : Product}
    (hstored : d.session.store.find? t = some p) (hgraphic : p.kind = .graphic) :
    ∃ q, d.Presented t p.content q := by
  have hopen := openProduct_of_graphic hstored hgraphic
  cases hpanel : d.session.placement.panel? t with
  | some q =>
    rw [openPanel_of_some hpanel] at hopen
    obtain ⟨panel, hlive⟩ := Option.isSome_iff_exists.mp ((h.live q).mpr ⟨t, hpanel⟩)
    refine ⟨q, by rw [hopen], .inl hpanel, fun u => ?_, fun q' hne => ?_, ?_⟩
    · rw [hopen]
      refine (Placement.panel?_place ..).trans ?_
      split
      · simp [*]
      · rfl
    · rw [hopen]
      exact panel?_draw_of_ne hne _
    · rw [hopen, content_draw]
      exact congrArg (Option.map _) hlive
  | none =>
    have hmade := panelMade_openPanel hpanel p.content
    rw [openPanel_of_none hpanel] at hopen hmade
    refine ⟨d.host.nextPanel, by rw [hopen], .inr ⟨hpanel, h.nextPanel_absent⟩, fun u => ?_,
      fun q' hne => ?_, ?_⟩
    · rw [hopen]
      exact hmade.remembered u
    · rw [hopen]
      refine (panel?_draw_of_ne hne _).trans ?_
      rw [panel?_newPanel, if_neg hne]
    · rw [hopen, content_draw, panel?_newPanel, if_pos rfl]
      rfl

lemma redrawPanel_fst_iff (d : Desk MemoryHost) (t : Target) :
    (d.redrawPanel t).1 ↔ (d.session.placement.panel? t).isSome ∧ d.session.store.contains t := by
  unfold redrawPanel Store.contains
  cases d.session.placement.panel? t <;> cases d.session.store.find? t <;> simp

/-- **One panel for each graphic**: whatever was done, as long as there are numbers for the
panels made, no two targets have one panel, and the panels of targets are those that are
there. A stored graphic is shown in its panel, or in one more, with its content. A panel is
redrawn exactly for a stored target that has one. And when a panel is closed, the session tells
the one target that had it. -/
theorem one_panel_each (settings : Settings) (operations : List Operation)
    (hroom : (fresh settings).panelsMade operations < UInt64.size) :
    let d := operations.foldl operate (fresh settings)
    let s := d.session
    ((∀ t u q, s.placement.panel? t = some q → s.placement.panel? u = some q → t = u) ∧
      ∀ q, d.host.panels.contains q ↔ ∃ t, s.placement.panel? t = some q) ∧
    (∀ t p, s.store.find? t = some p → p.kind = .graphic → ∃ q, d.Presented t p.content q) ∧
    (∀ t, (d.redrawPanel t).1 ↔ (s.placement.panel? t).isSome ∧ s.store.contains t) ∧
    ∀ q t, (s.panelClosed q).1 = some t ↔ s.placement.panel? t = some q := by
  intro d s
  have h : PanelsAgree _ d :=
    (panelsAgree_fresh settings).run operations (by rwa [Nat.zero_add])
  exact ⟨⟨h.apart, h.live⟩, fun _ _ => h.presented, redrawPanel_fst_iff d,
    fun _ _ => h.apart.shownIn?_eq_some_iff⟩

/-- Two graphics are opened. One goes on, the other is dropped, and the panel of the first is
closed and made anew. -/
def reopened : List Operation :=
  let one := Product.plain "/a.c" "cfg" "svg" "1"
  let two := Product.plain "/b.c" "cfg" "svg" "2"
  [.act (.save one), .act (.save two), .act (.openProduct one.target),
    .act (.openProduct two.target), .act (.save { one with continues := true }),
    .redrawPanel one.target, .documentClosed "file:///b.c", .closePanel ⟨0⟩, .panelGone ⟨0⟩,
    .act (.openProduct one.target)]

/-- The panel made anew is another one. It shows what is stored, and is that of the target that
the session tells when it is closed. -/
theorem one_panel_each_reopened :
    let t := (Product.plain "/a.c" "cfg" "svg" "1").target
    let d := reopened.foldl operate (fresh .initial)
    (fresh .initial).panelsMade reopened < UInt64.size ∧
      ((∃ q, d.Presented t "11" q) ∧ d.session.placement.panel? t = some ⟨2⟩) ∧
      ((d.redrawPanel t).1 ∧ (d.session.panelClosed ⟨2⟩).1 = some t) := by
  intro t d
  have hroom : (fresh .initial).panelsMade reopened < UInt64.size := by decide
  obtain ⟨-, hopen, hredraw, hclosed⟩ := one_panel_each .initial reopened hroom
  have hpanel : d.session.placement.panel? t = some ⟨2⟩ := by decide
  exact ⟨hroom, ⟨hopen t { Product.plain "/a.c" "cfg" "svg" "11" with continues := true }
    (by decide) (by decide), hpanel⟩, (hredraw t).mpr (by decide), (hclosed _ _).mpr hpanel⟩

end Desk

end LinkedViews
