import Mathlib.Data.List.Nodup
import LinkedViews.Proofs.Desk.Delivery
import LinkedViews.Proofs.Host.Sight

/-!
What holds together in a memory host.

Whatever a host is asked to do, also by a session that its reports are delivered to: the
active editor is open, an open editor has a document, and the last report of an open editor
tells its selections. The editors that were opened are counted, and each takes its place in
the count for its number. So a report of an editor that was closed is never one of another.
-/

namespace LinkedViews

/-- An editor, and the document for which it was opened. -/
structure Opening where
  editor : EditorId
  uri : String
  deriving DecidableEq

namespace MemoryHost

variable {h h' h'' : MemoryHost} {e e' : EditorId} {opened : List Opening}

/-! ### Operations -/

/-- What is opened when a document is to be shown in a column. -/
def openedFor (h : MemoryHost) (uri : String) (column : Column) : List Opening :=
  match h.holder? uri column with
  | some _ => []
  | none => [⟨h.nextEditor, uri⟩]

end MemoryHost

namespace Desk

open MemoryHost

/-- What is opened when a report is delivered, which is for the source of a view alone. -/
def openedBy (d : Desk MemoryHost) (r : Report) : List Opening :=
  match d.host.shown r.editor with
  | .view t => d.host.openedFor t.source.uri (d.session.place t.source.uri .source).1
  | .document => []
  | .nothing => []

/-- What is opened when reports are delivered, at most so many. -/
def openedUpTo : Nat → Desk MemoryHost → List Opening
  | 0, _ => []
  | n + 1, d =>
    match d.host.reports with
    | [] => []
    | r :: rest =>
      (d.withReports rest).openedBy r ++ openedUpTo n ((d.withReports rest).deliver r)

/-- A document that was shown is in its column. -/
lemma openedFor_display_again (d : Desk MemoryHost) (uri : String) (role : Role)
    (keepFocus : Bool) :
    (d.display uri role keepFocus).2.host.openedFor uri
      ((d.display uri role keepFocus).2.session.place uri role).1 = [] := by
  obtain ⟨e, he⟩ := Option.isSome_iff_exists.mp (d.isSome_holder?_display_again uri role keepFocus)
  unfold openedFor
  rw [he]

end Desk

namespace MemoryHost

inductive Operation where
  | putDocument (uri text : String)
  | openEditor (uri : String) (column : Column)
  | closeEditor (editor : EditorId)
  | focus (editor : EditorId)
  | select (editor : EditorId) (selections : List Selection)
  | selectSpan (editor : EditorId) (start stop : Nat)
  | takeReports
  | display (uri : String) (mode : DisplayMode)
  | write (editor : EditorId) (selections : List Selection)
  | scrollTo (editor : EditorId) (selection : Selection)
  | newPanel (title : String) (column : Column)
  | fillPanel (panel : PanelId) (content : String)
  | raisePanel (panel : PanelId)
  | closePanel (panel : PanelId)
  /-- Reports are delivered, at most so many, to a session in any state. -/
  | deliver (most : Nat) (session : Session)

def perform (h : MemoryHost) : Operation → MemoryHost
  | .putDocument uri text => h.putDocument uri text
  | .openEditor uri column => (h.openEditor uri column).2
  | .closeEditor e => (h.closeEditor e).2
  | .focus e => h.focus e
  | .select e selections => h.select e selections
  | .selectSpan e start stop => h.selectSpan e start stop
  | .takeReports => h.takeReports.2
  | .display uri mode => (h.display uri mode).2
  | .write e selections => (h.write e selections).2
  | .scrollTo e s => h.scrollTo e s
  | .newPanel title column => (h.newPanel title column).2
  | .fillPanel p content => h.fillPanel p content
  | .raisePanel p => h.raisePanel p
  | .closePanel p => (h.closePanel p).2
  | .deliver most session => (Desk.drainUpTo most ⟨session, h⟩).2.host

def openedBy (h : MemoryHost) : Operation → List Opening
  | .openEditor uri _ => [⟨h.nextEditor, uri⟩]
  | .display uri mode => h.openedFor uri mode.column
  | .deliver most session => Desk.openedUpTo most ⟨session, h⟩
  | _ => []

def run (h : MemoryHost) (operations : List Operation) : MemoryHost := operations.foldl perform h

/-- All editors that are opened in the course of operations. -/
def openedIn : MemoryHost → List Operation → List Opening
  | _, [] => []
  | h, o :: operations => h.openedBy o ++ (h.perform o).openedIn operations

/-- The last report that is queued of an editor. -/
def lastReport? (h : MemoryHost) (e : EditorId) : Option Report :=
  h.reports.reverse.find? fun r => r.editor = e

/-! ### Numbers that are given once -/

/-- An editor that had its number at the one time has its document later on, or is closed. -/
structure Later (h h' : MemoryHost) : Prop where
  nextEditor : h.nextEditor.number ≤ h'.nextEditor.number
  uri? : ∀ e : EditorId, e.number < h.nextEditor.number →
    Host.uri? h' e = Host.uri? h e ∨ Host.uri? h' e = none

namespace Later

lemma refl (h : MemoryHost) : Later h h := ⟨UInt64.le_refl _, fun _ _ => .inl rfl⟩

lemma trans (hl : Later h h') (hl' : Later h' h'') : Later h h'' where
  nextEditor := UInt64.le_trans hl.nextEditor hl'.nextEditor
  uri? e he := by
    rcases hl'.uri? e (UInt64.lt_of_lt_of_le he hl.nextEditor) with hsame | hnone
    · rw [hsame]
      exact hl.uri? e he
    · exact .inr hnone

lemma of_sameDocuments (hs : SameDocuments h h') : Later h h' :=
  ⟨hs.nextEditor ▸ UInt64.le_refl _, fun e _ => .inl (hs.uri? e)⟩

lemma of_sameEditors (heditors : h'.editors = h.editors) (hnext : h'.nextEditor = h.nextEditor) :
    Later h h' := by
  refine ⟨hnext ▸ UInt64.le_refl _, fun e _ => .inl ?_⟩
  rw [uri?_eq, uri?_eq, editor?, heditors]; rfl

end Later

lemma later_display (h : MemoryHost) (uri : String) (mode : DisplayMode) :
    Later h (h.display uri mode).2 := by
  refine ⟨nextEditor_le_display h uri mode, fun e he => .inl ?_⟩
  rw [uri?_eq, uri?_eq, editor?_display_of_ne (ne_nextEditor he)]

lemma later_openEditor (h : MemoryHost) (uri : String) (column : Column) :
    Later h (h.openEditor uri column).2 := by
  refine ⟨Word.le_next _, fun e he => .inl ?_⟩
  rw [uri?_eq, uri?_eq, editor?_openEditor, if_neg (ne_nextEditor he)]

lemma later_closeEditor (h : MemoryHost) (e : EditorId) : Later h (h.closeEditor e).2 := by
  refine ⟨UInt64.le_refl _, fun e' _ => ?_⟩
  rw [uri?_eq, uri?_eq, editor?_closeEditor]
  split
  · exact .inr rfl
  · exact .inl rfl

lemma kept_later (h : MemoryHost) : Host.Kept (Later h) where
  write h' e selections hl := hl.trans (.of_sameDocuments (sameDocuments_write h' e selections))
  scrollTo h' e s hl := hl.trans (.of_sameDocuments (sameDocuments_scrollTo h' e s))
  display h' uri mode hl := hl.trans (later_display h' uri mode)

lemma later_drainUpTo (n : Nat) (d : Desk MemoryHost) :
    Later d.host (Desk.drainUpTo n d).2.host :=
  Desk.kept_drainUpTo (kept_later d.host)
    (fun _ _ hl => hl.trans (.of_sameEditors rfl rfl)) (.refl _) n

lemma later_perform (h : MemoryHost) (o : Operation) : Later h (h.perform o) := by
  cases o with
  | openEditor uri column => exact later_openEditor h uri column
  | closeEditor e => exact later_closeEditor h e
  | focus e =>
    have hfocus : h.perform (.focus e) = h.focus e := rfl
    rw [hfocus, focus]
    split
    · exact .of_sameEditors rfl rfl
    · exact .refl h
  | select e selections => exact .of_sameDocuments (sameDocuments_select h e selections)
  | selectSpan e start stop => exact .of_sameDocuments (sameDocuments_select h e _)
  | display uri mode => exact later_display h uri mode
  | write e selections => exact .of_sameDocuments (sameDocuments_write h e selections)
  | scrollTo e s => exact .of_sameDocuments (sameDocuments_scrollTo h e s)
  | deliver most session => exact later_drainUpTo most ⟨session, h⟩
  | putDocument | takeReports | newPanel | fillPanel | raisePanel | closePanel =>
    exact .of_sameEditors rfl rfl

lemma later_run (h : MemoryHost) (operations : List Operation) : Later h (h.run operations) := by
  induction operations generalizing h with
  | nil => exact .refl h
  | cons o operations ih => exact (later_perform h o).trans (ih (h.perform o))

/-! ### Coherence -/

/-- What holds together in a host in which so many editors were opened. -/
structure Coherent (opened : List Opening) (h : MemoryHost) : Prop where
  active : ∀ e, h.active = some e → h.editors.contains e
  documents : ∀ e uri, Host.uri? h e = some uri → h.documents.contains uri
  counted : ∀ e uri, Host.uri? h e = some uri → ⟨e, uri⟩ ∈ opened
  reported : ∀ r ∈ h.reports, r.editor ∈ opened.map Opening.editor
  latest : ∀ e r, h.lastReport? e = some r → h.editors.contains e →
    Host.selections h e = r.selections
  numbers : opened.map (fun o => o.editor.number.toNat) = List.range opened.length
  next : h.nextEditor.number.toNat = opened.length

namespace Coherent

lemma empty : Coherent [] empty where
  active _ he := by cases he
  documents _ _ he := by cases he
  counted _ _ he := by cases he
  reported _ hr := by cases hr
  latest _ _ hr := by cases hr
  numbers := rfl
  next := rfl

/-- No number was given to two editors. -/
lemma nodup (hc : Coherent opened h) : (opened.map Opening.editor).Nodup := by
  have hnumbers : ((opened.map Opening.editor).map fun e => e.number.toNat).Nodup := by
    rw [List.map_map]
    exact hc.numbers ▸ List.nodup_range
  exact List.Nodup.of_map _ hnumbers

lemma lt_next (hc : Coherent opened h) (he : e ∈ opened.map Opening.editor) :
    e.number < h.nextEditor.number := by
  obtain ⟨o, ho, rfl⟩ := List.mem_map.mp he
  have hnumber : o.editor.number.toNat ∈ List.range opened.length :=
    hc.numbers ▸ List.mem_map_of_mem ho
  rw [UInt64.lt_iff_toNat_lt, hc.next]
  exact List.mem_range.mp hnumber

lemma numbered (hc : Coherent opened h) : h.Numbered := by
  intro e he
  rw [← isSome_uri?] at he
  obtain ⟨uri, huri⟩ := Option.isSome_iff_exists.mp he
  exact hc.lt_next (List.mem_map_of_mem (f := Opening.editor) (hc.counted e uri huri))

lemma append_nil (hc : Coherent opened h) : Coherent (opened ++ []) h :=
  (List.append_nil opened).symm ▸ hc

/-- Reports may be lost, the oldest first, and the focus may go to any open editor. -/
lemma of_sameEditors (hc : Coherent opened h) (heditors : h'.editors = h.editors)
    (hnext : h'.nextEditor = h.nextEditor)
    (hactive : h'.active = h.active ∨ ∃ e, h'.active = some e ∧ h.editors.contains e)
    (hdocuments : ∀ uri, h.documents.contains uri → h'.documents.contains uri)
    (hreports : h'.reports <:+ h.reports) : Coherent opened h' := by
  have huri : ∀ e, Host.uri? h' e = Host.uri? h e := fun e => by
    rw [uri?_eq, uri?_eq, editor?, heditors]; rfl
  refine ⟨fun e he => ?_, fun e uri he => ?_, fun e uri he => ?_, fun r hr => ?_,
    fun e r hr he => ?_, hc.numbers, hnext ▸ hc.next⟩
  · rw [heditors]
    rcases hactive with hsame | ⟨e', he', hopen⟩
    · exact hc.active e (hsame ▸ he)
    · obtain rfl : e' = e := Option.some.inj (he'.symm.trans he)
      exact hopen
  · exact hdocuments uri (hc.documents e uri (huri e ▸ he))
  · exact hc.counted e uri (huri e ▸ he)
  · exact hc.reported r (hreports.subset hr)
  · -- the oldest are lost, so what is left ends as before
    obtain ⟨lost, hlost⟩ := hreports
    have hlast : h.lastReport? e = some r := by
      rw [lastReport?] at hr ⊢
      rw [← hlost, List.reverse_append, List.find?_append, hr, Option.some_or]
    have hselections : Host.selections h' e = Host.selections h e := by
      rw [selections_eq, selections_eq, editor?, heditors]; rfl
    rw [hselections]
    exact hc.latest e r hlast (heditors ▸ he)

lemma focus (hc : Coherent opened h) (e : EditorId) : Coherent opened (h.focus e) := by
  unfold MemoryHost.focus
  split
  · rename_i hopen
    exact hc.of_sameEditors rfl rfl (.inr ⟨e, rfl, hopen⟩) (fun _ hd => hd) (List.suffix_refl _)
  · exact hc

lemma putDocument (hc : Coherent opened h) (uri text : String) :
    Coherent opened (h.putDocument uri text) :=
  hc.of_sameEditors rfl rfl (.inl rfl) (fun _ => contains_documents_putDocument uri text)
    (List.suffix_refl _)

/-- The report of a selection is the last one of its editor. -/
lemma select (hc : Coherent opened h) (e : EditorId) (selections : List Selection) :
    Coherent opened (h.select e selections) := by
  by_cases hopen : h.editors.contains e
  · have hs := sameDocuments_select h e selections
    have hreports := reports_select selections hopen
    have hactive : (h.select e selections).active = h.active := by
      rw [MemoryHost.select, if_pos hopen]
    refine ⟨fun e' he' => ?_, fun e' uri he' => ?_, fun e' uri he' => ?_, fun r hr => ?_,
      fun e' r hr he' => ?_, hc.numbers, hs.nextEditor ▸ hc.next⟩
    · rw [hs.contains]
      exact hc.active e' (hactive ▸ he')
    · exact Documented.of_sameDocuments hc.documents hs e' uri he'
    · exact hc.counted e' uri (hs.uri? e' ▸ he')
    · rw [hreports] at hr
      rcases List.mem_append.mp hr with hr | hr
      · exact hc.reported r hr
      · rw [List.mem_singleton.mp hr]
        rw [← isSome_uri?] at hopen
        obtain ⟨uri, huri⟩ := Option.isSome_iff_exists.mp hopen
        exact List.mem_map_of_mem (f := Opening.editor) (hc.counted e uri huri)
    · rw [lastReport?, hreports, List.reverse_append, List.reverse_singleton,
        List.singleton_append, List.find?_cons] at hr
      by_cases hsame : e' = e
      · simp only [hsame, decide_true] at hr
        rw [hsame, ← Option.some.inj hr]
        exact selections_select_self selections hopen
      · simp only [Ne.symm hsame, decide_false] at hr
        rw [selections_select_of_ne selections hsame]
        exact hc.latest e' r hr ((hs.contains e').symm.trans he')
  · rwa [select_of_closed selections hopen]

lemma scrollTo (hc : Coherent opened h) (e : EditorId) (s : Selection) :
    Coherent opened (Host.scrollTo h e s) := by
  have hs := sameDocuments_scrollTo h e s
  refine ⟨fun e' he' => ?_, fun e' uri he' => ?_, fun e' uri he' => ?_, hc.reported,
    fun e' r hr he' => ?_, hc.numbers, hc.next⟩
  · rw [hs.contains]
    exact hc.active e' he'
  · exact hc.documents e' uri (hs.uri? e' ▸ he')
  · exact hc.counted e' uri (hs.uri? e' ▸ he')
  · rw [selections_scrollTo]
    exact hc.latest e' r hr ((hs.contains e').symm.trans he')

lemma write (hc : Coherent opened h) (e : EditorId) (selections : List Selection) :
    Coherent opened (Host.write h e selections).2 := by
  rcases write_cases h e selections with ⟨-, -, hw⟩ | ⟨-, hw⟩
  · rw [hw]
    exact hc.select e selections
  · rwa [hw]

lemma keptByWrites (opened : List Opening) : Host.KeptByWrites (Coherent opened) where
  write _ e selections hc := hc.write e selections
  scrollTo _ e s hc := hc.scrollTo e s

lemma closeEditor (hc : Coherent opened h) (e : EditorId) :
    Coherent opened (h.closeEditor e).2 := by
  have huri : ∀ e' uri, Host.uri? (h.closeEditor e).2 e' = some uri →
      e' ≠ e ∧ Host.uri? h e' = some uri := by
    intro e' uri he'
    rw [uri?_eq, editor?_closeEditor] at he'
    split at he'
    · cases he'
    · rename_i hne
      exact ⟨hne, he'⟩
  refine ⟨fun e' he' => ?_, fun e' uri he' => ?_, fun e' uri he' => ?_, hc.reported,
    fun e' r hr he' => ?_, hc.numbers, hc.next⟩
  · have hother : h.active = some e' ∧ e' ≠ e := by
      have hactive : (h.closeEditor e).2.active =
          if h.active = some e then none else h.active := rfl
      rw [hactive] at he'
      split at he'
      · cases he'
      · rename_i hne
        exact ⟨he', fun heq => hne (heq ▸ he')⟩
    have hsame : (h.closeEditor e).2.editor? e' = h.editor? e' :=
      (editor?_closeEditor h e e').trans (if_neg hother.2)
    exact (congrArg Option.isSome hsame).trans (hc.active e' hother.1)
  · exact Documented.closeEditor hc.documents e e' uri he'
  · exact hc.counted e' uri (huri e' uri he').2
  · rw [← isSome_uri?] at he'
    obtain ⟨uri, hopen⟩ := Option.isSome_iff_exists.mp he'
    obtain ⟨hne, hbefore⟩ := huri e' uri hopen
    rw [selections_eq, editor?_closeEditor, if_neg hne]
    exact hc.latest e' r hr (isOpen_of_uri? hbefore)

/-- An editor that is opened takes the next number, which no other one had. -/
lemma openEditor (hc : Coherent opened h) (hroom : opened.length + 1 < UInt64.size)
    (uri : String) (column : Column) {active : Option EditorId}
    (hactive : active = some h.nextEditor ∨ active = h.active) :
    Coherent (opened ++ [⟨h.nextEditor, uri⟩])
      { (h.openEditor uri column).2 with active } := by
  have hother : ∀ e, e.number < h.nextEditor.number →
      (h.openEditor uri column).2.editor? e = h.editor? e :=
    fun e he => (editor?_openEditor ..).trans (if_neg (ne_nextEditor he))
  refine ⟨fun e he => ?_, fun e shown he => ?_, fun e shown he => ?_, fun r hr => ?_,
    fun e r hr he => ?_, ?_, ?_⟩
  · rcases hactive with hactive | hactive
    · obtain rfl : h.nextEditor = e := Option.some.inj (hactive.symm.trans he)
      exact congrArg Option.isSome ((editor?_openEditor ..).trans (if_pos rfl))
    · have hopen := hc.active e (hactive.symm.trans he)
      exact (congrArg Option.isSome (hother e (hc.numbered e hopen))).trans hopen
  · exact Documented.openEditor hc.documents uri column e shown he
  · rcases uri?_openEditor he with ⟨rfl, rfl⟩ | hold
    · exact List.mem_append_right _ (List.mem_singleton.mpr rfl)
    · exact List.mem_append_left _ (hc.counted e shown hold)
  · rw [List.map_append]
    exact List.mem_append_left _ (hc.reported r hr)
  · -- no report of the new editor can be queued
    have hlt : e.number < h.nextEditor.number := by
      have heq : r.editor = e := by simpa using List.find?_some hr
      have hqueued := hc.reported r (List.mem_reverse.mp (List.mem_of_find?_eq_some hr))
      exact heq ▸ hc.lt_next hqueued
    have hselections : Host.selections (h.openEditor uri column).2 e = Host.selections h e := by
      rw [selections_eq, selections_eq, hother e hlt]
    exact hselections.trans
      (hc.latest e r hr ((congrArg Option.isSome (hother e hlt)).symm.trans he))
  · rw [List.map_append, hc.numbers, List.length_append, List.length_singleton,
      List.range_succ, List.map_singleton, hc.next]
  · have hnext : (Word.next h.nextEditor.number).toNat = opened.length + 1 := by
      rw [Word.toNat_next, hc.next]
      omega
    rw [List.length_append, List.length_singleton]
    exact hnext

lemma display (hc : Coherent opened h) (uri : String) (mode : DisplayMode)
    (hroom : (opened ++ h.openedFor uri mode.column).length < UInt64.size) :
    Coherent (opened ++ h.openedFor uri mode.column) (h.display uri mode).2 := by
  unfold openedFor at hroom ⊢
  cases hh : h.holder? uri mode.column with
  | some e =>
    rw [display_of_holder? hh, List.append_nil]
    refine hc.of_sameEditors rfl rfl ?_ (fun _ hd => hd) (List.suffix_refl _)
    by_cases hfocus : ¬ mode.keepFocus ∨ h.active = none
    · exact .inr ⟨e, if_pos hfocus, isOpen_of_holder? hh⟩
    · exact .inl (if_neg hfocus)
  | none =>
    rw [hh, List.length_append] at hroom
    rw [display_of_not_held hh]
    refine hc.openEditor hroom uri mode.column ?_
    by_cases hfocus : ¬ mode.keepFocus ∨ h.active = none
    · exact .inl (if_pos hfocus)
    · exact .inr (if_neg hfocus)

lemma displayed {d : Desk MemoryHost} (hc : Coherent opened d.host) (uri : String) (role : Role)
    (keepFocus : Bool)
    (hroom : (opened ++ d.host.openedFor uri (d.session.place uri role).1).length < UInt64.size) :
    Coherent (opened ++ d.host.openedFor uri (d.session.place uri role).1)
      (d.display uri role keepFocus).2.host :=
  hc.display uri ⟨(d.session.place uri role).1, keepFocus, false⟩ hroom

/-- The report of a view opens an editor of its source at most, and only once. -/
lemma traceBack {d : Desk MemoryHost} (hc : Coherent opened d.host) (e : EditorId) (t : Target)
    (selections : List Selection)
    (hroom : (opened ++ d.host.openedFor t.source.uri
      (d.session.place t.source.uri .source).1).length < UInt64.size) :
    Coherent (opened ++ d.host.openedFor t.source.uri (d.session.place t.source.uri .source).1)
      (d.traceBack e t selections).2.host := by
  obtain ⟨dest, hdest, -⟩ := Desk.display_fst d t.source.uri .source true
  have hshown := hc.displayed t.source.uri .source true hroom
  have hagain := Desk.openedFor_display_again d t.source.uri .source true
  have hdisplay : d.display t.source.uri .source true =
      (some dest, (d.display t.source.uri .source true).2) := Prod.ext hdest rfl
  generalize (d.display t.source.uri .source true).2 = d₁ at hshown hagain hdisplay
  rcases Desk.traceBack_of_display e selections hdisplay with
    ⟨-, hhost, -⟩ | ⟨-, -, hsame⟩ | ⟨-, -, hhost, -⟩
  · rw [hhost]
    exact hshown
  · rw [hsame]
    exact hshown
  · -- the source is shown a second time, and found in its column
    have hfocused := hshown.displayed t.source.uri .source false
    rw [hagain, List.append_nil] at hfocused
    rw [hhost]
    exact (keptByWrites _).writeArmed (hfocused hroom) _ _ _

lemma deliver {d : Desk MemoryHost} (hc : Coherent opened d.host) (r : Report)
    (hroom : (opened ++ d.openedBy r).length < UInt64.size) :
    Coherent (opened ++ d.openedBy r) (d.deliver r).host := by
  unfold Desk.openedBy at hroom ⊢
  cases hshown : d.host.shown r.editor with
  | nothing =>
    rw [Desk.deliver_of_nothing hshown]
    exact hc.append_nil
  | document =>
    obtain ⟨uri, huri, hproduct⟩ := shown_eq_document_iff.mp hshown
    rw [Desk.deliver_of_document huri hproduct]
    exact ((keptByWrites opened).spread hc r.editor uri r.selections).append_nil
  | view t =>
    rw [hshown] at hroom
    rw [Desk.deliver_of_view hshown]
    exact hc.traceBack r.editor t r.selections hroom

lemma drainUpTo (n : Nat) {d : Desk MemoryHost} (hc : Coherent opened d.host)
    (hroom : (opened ++ Desk.openedUpTo n d).length < UInt64.size) :
    Coherent (opened ++ Desk.openedUpTo n d) (Desk.drainUpTo n d).2.host := by
  induction n generalizing opened d with
  | zero =>
    exact hc.append_nil
  | succ n ih =>
    rw [Desk.openedUpTo] at hroom ⊢
    rcases hreports : d.host.reports with _ | ⟨r, rest⟩
    · rw [Desk.drainUpTo_of_empty hreports]
      exact hc.append_nil
    · rw [hreports, ← List.append_assoc] at hroom
      rw [Desk.drainUpTo_succ hreports, ← List.append_assoc]
      have hpopped : Coherent opened (d.withReports rest).host :=
        hc.of_sameEditors rfl rfl (.inl rfl) (fun _ hd => hd)
          (hreports ▸ List.suffix_cons r rest)
      refine ih (hpopped.deliver r ?_) hroom
      rw [List.length_append] at hroom
      omega

/-- **Every operation keeps a host coherent.** -/
theorem perform (hc : Coherent opened h) (o : Operation)
    (hroom : (opened ++ h.openedBy o).length < UInt64.size) :
    Coherent (opened ++ h.openedBy o) (h.perform o) := by
  cases o with
  | openEditor uri column =>
    rw [openedBy, List.length_append] at hroom
    exact hc.openEditor hroom uri column (.inl rfl)
  | display uri mode => exact hc.display uri mode hroom
  | deliver most session => exact hc.drainUpTo (d := ⟨session, h⟩) most hroom
  | putDocument uri text => exact (hc.putDocument uri text).append_nil
  | closeEditor e => exact (hc.closeEditor e).append_nil
  | focus e => exact (hc.focus e).append_nil
  | select e selections => exact (hc.select e selections).append_nil
  | selectSpan e start stop => exact (hc.select e _).append_nil
  | write e selections => exact (hc.write e selections).append_nil
  | scrollTo e s => exact (hc.scrollTo e s).append_nil
  | takeReports =>
    refine append_nil ?_
    exact hc.of_sameEditors rfl rfl (.inl rfl) (fun _ hd => hd) List.nil_suffix
  | newPanel | fillPanel | raisePanel | closePanel =>
    refine append_nil ?_
    exact hc.of_sameEditors rfl rfl (.inl rfl) (fun _ hd => hd) (List.suffix_refl _)

lemma run (hc : Coherent opened h) (operations : List Operation)
    (hroom : (opened ++ h.openedIn operations).length < UInt64.size) :
    Coherent (opened ++ h.openedIn operations) (h.run operations) := by
  induction operations generalizing opened h with
  | nil =>
    exact hc.append_nil
  | cons o operations ih =>
    rw [openedIn, ← List.append_assoc] at hroom ⊢
    refine ih (hc.perform o ?_) hroom
    rw [List.length_append] at hroom
    omega

end Coherent

lemma run_append (h : MemoryHost) (before after : List Operation) :
    h.run (before ++ after) = (h.run before).run after :=
  List.foldl_append

lemma openedIn_append (h : MemoryHost) (before after : List Operation) :
    h.openedIn (before ++ after) = h.openedIn before ++ (h.run before).openedIn after := by
  induction before generalizing h with
  | nil => rfl
  | cons o before ih =>
    rw [List.cons_append, openedIn, openedIn, ih, List.append_assoc]
    rfl

lemma numbered_run (operations : List Operation)
    (hroom : (empty.openedIn operations).length < UInt64.size) :
    (empty.run operations).Numbered :=
  (Coherent.empty.run operations hroom).numbered

/-- **A host is coherent after every run**, with fewer editors opened than there are numbers
for. The active editor is open and open editors have documents. No two editors that were ever
opened have one number, so an editor of which a report was queued shows what it showed then,
or is closed. And the last report of an open editor tells its selections. -/
theorem run_coherent (operations : List Operation)
    (hroom : (empty.openedIn operations).length < UInt64.size) :
    let h := empty.run operations
    let opened := empty.openedIn operations
    (∀ e, h.active = some e → h.editors.contains e) ∧
    (∀ e uri, Host.uri? h e = some uri → h.documents.contains uri) ∧
    ((opened.map Opening.editor).Nodup ∧ h.nextEditor.number.toNat = opened.length ∧
      ∀ e uri, Host.uri? h e = some uri → ⟨e, uri⟩ ∈ opened) ∧
    (∀ before after, operations = before ++ after → ∀ r ∈ (empty.run before).reports,
      Host.uri? h r.editor = Host.uri? (empty.run before) r.editor ∨
        Host.uri? h r.editor = none) ∧
    ∀ e r, h.lastReport? e = some r → h.editors.contains e →
      Host.selections h e = r.selections := by
  have hc : Coherent (empty.openedIn operations) (empty.run operations) :=
    Coherent.empty.run operations hroom
  refine ⟨hc.active, hc.documents, ⟨hc.nodup, hc.next, hc.counted⟩, ?_, hc.latest⟩
  rintro before after rfl r hr
  -- the editor of the report had its number when `before` was done
  rw [openedIn_append, List.length_append] at hroom
  have hbefore : Coherent (empty.openedIn before) (empty.run before) :=
    Coherent.empty.run before (Nat.lt_of_le_of_lt (Nat.le_add_right _ _) hroom)
  rw [run_append]
  exact (later_run _ after).uri? _ (hbefore.lt_next (hbefore.reported r hr))

/-- A view whose report opens its source, and a document that is closed and opened again while
its reports are queued. -/
def busy : List Operation :=
  [.openEditor "monto:/a.c|ast.t" ⟨2⟩, .select ⟨0⟩ [.caret ⟨0, 0⟩],
    .deliver Desk.burst (.new .initial), .select ⟨1⟩ [.caret ⟨0, 0⟩], .closeEditor ⟨1⟩,
    .openEditor "file:///b.c" ⟨1⟩, .select ⟨2⟩ [.caret ⟨0, 0⟩, .caret ⟨0, 0⟩],
    .display "file:///a.c" ⟨⟨1⟩, false, false⟩]

/-- The report of the closed editor 1 is still queued, and is not one of the editors 2 and 3. -/
theorem run_coherent_busy :
    let h := empty.run busy
    (empty.openedIn busy).map Opening.editor = [⟨0⟩, ⟨1⟩, ⟨2⟩, ⟨3⟩] ∧
    h.reports.map Report.editor = [⟨1⟩, ⟨2⟩] ∧ Host.uri? h ⟨1⟩ = none ∧
    (∀ e, h.active = some e → h.editors.contains e) ∧
    ∀ e r, h.lastReport? e = some r → h.editors.contains e →
      Host.selections h e = r.selections := by
  obtain ⟨hactive, -, -, -, hlatest⟩ := run_coherent busy (by decide)
  exact ⟨by decide, by decide, by decide, hactive, hlatest⟩

end MemoryHost

end LinkedViews
