import LinkedViews.Proofs.Desk.Panels
import LinkedViews.Proofs.Host.Sight

/-!
Views that are used again.

A document that is to be shown in a column is shown in the editor that has it there, if there is
one. So as long as the session alone has editors opened, no two of them have one document in one
column. And what is shown once more right away is found where it is, with nothing changed but
how often a panel was brought to the front.
-/

namespace LinkedViews

namespace MemoryHost

variable {h h' : MemoryHost} {e : EditorId} {uri : String} {column : Column} {mode : DisplayMode}

/-! ### No document twice in a column -/

/-- The document of an open editor, and the column that it is in. -/
def spot? (h : MemoryHost) (e : EditorId) : Option (String × Column) :=
  (h.editor? e).map fun editor => (editor.uri, editor.column)

/-- No two open editors have one document in one column. -/
def Distinct (h : MemoryHost) : Prop :=
  ∀ e e' spot, h.spot? e = some spot → h.spot? e' = some spot → e = e'

lemma Distinct.of_spots (hd : h.Distinct)
    (hs : ∀ e, h'.spot? e = h.spot? e ∨ h'.spot? e = none) : h'.Distinct := by
  have hold : ∀ e spot, h'.spot? e = some spot → h.spot? e = some spot := by
    intro e spot he
    rcases hs e with hsame | hnone
    · rw [← hsame, he]
    · rw [hnone] at he
      cases he
  exact fun e e' spot he he' => hd e e' spot (hold e spot he) (hold e' spot he')

lemma spot?_select (h : MemoryHost) (e e' : EditorId) (selections : List Selection) :
    (h.select e selections).spot? e' = h.spot? e' := by
  rw [spot?, editor?_select, spot?]
  split
  · rw [Option.map_map]; rfl
  · rfl

lemma spot?_scrollTo (h : MemoryHost) (e e' : EditorId) (s : Selection) :
    (Host.scrollTo h e s).spot? e' = h.spot? e' := by
  have hscroll : (Host.scrollTo h e s).editor? e' = _ := editor?_scrollTo h e e' s
  rw [spot?, hscroll, spot?]
  split
  · rw [Option.map_map]; rfl
  · rfl

lemma spot?_closeEditor (h : MemoryHost) (e e' : EditorId) :
    (h.closeEditor e).2.spot? e' = if e' = e then none else h.spot? e' := by
  rw [spot?, editor?_closeEditor]
  split <;> rfl

lemma spot?_openEditor (h : MemoryHost) (uri : String) (column : Column) (e : EditorId) :
    (h.openEditor uri column).2.spot? e =
      if e = h.nextEditor then some (uri, column) else h.spot? e := by
  rw [spot?, editor?_openEditor]
  split <;> rfl

/-- Where no editor is found, none has the document in the column. -/
lemma spot?_ne_of_holder? (hh : h.holder? uri column = none) (e : EditorId) :
    h.spot? e ≠ some (uri, column) := by
  intro he
  obtain ⟨editor, hget, hspot⟩ := Option.map_eq_some_iff.mp he
  obtain ⟨rfl, rfl⟩ := Prod.ext_iff.mp hspot
  have hheld := isSome_holder? hget
  rw [hh] at hheld
  cases hheld

lemma Distinct.display (hd : h.Distinct) (uri : String) (mode : DisplayMode) :
    (h.display uri mode).2.Distinct := by
  cases hh : h.holder? uri mode.column with
  | some e =>
    rw [display_of_holder? hh]
    exact hd
  | none =>
    have hspot : ∀ e, (h.display uri mode).2.spot? e =
        if e = h.nextEditor then some (uri, mode.column) else h.spot? e := by
      rw [display_of_not_held hh]
      exact spot?_openEditor h uri mode.column
    have hnew := spot?_ne_of_holder? hh
    intro e e' spot he he'
    rw [hspot] at he he'
    split at he <;> split at he'
    · simp [*]
    · exact absurd (he'.trans he.symm) (hnew e')
    · exact absurd (he.trans he'.symm) (hnew e)
    · exact hd e e' spot he he'

lemma Distinct.write (hd : h.Distinct) (e : EditorId) (selections : List Selection) :
    (Host.write h e selections).2.Distinct := by
  rcases write_cases h e selections with ⟨-, -, hw⟩ | ⟨-, hw⟩
  · rw [hw]
    exact hd.of_spots fun e' => .inl (spot?_select h e e' selections)
  · rwa [hw]

/-- What a session asks of its host keeps the editors distinct. -/
lemma kept_distinct : Host.Kept Distinct where
  write _ e selections hd := hd.write e selections
  scrollTo h e s hd := hd.of_spots fun e' => .inl (spot?_scrollTo h e e' s)
  display _ uri mode hd := hd.display uri mode

lemma Distinct.focus (hd : h.Distinct) (e : EditorId) : (h.focus e).Distinct := by
  unfold MemoryHost.focus
  split <;> exact hd

/-! ### What is shown again -/

/-- The editor that was found or opened is found again. -/
lemma holder?_display (h : MemoryHost) (uri : String) (mode : DisplayMode) :
    (h.display uri mode).2.holder? uri mode.column = some (h.display uri mode).1 := by
  cases hh : h.holder? uri mode.column with
  | some e =>
    rw [display_of_holder? hh]
    exact hh
  | none =>
    obtain ⟨e, he⟩ := Option.isSome_iff_exists.mp (isSome_holder?_display h uri mode)
    obtain ⟨editor, hget, hseen⟩ := exists_editor? (mem_visible_of_holder? he)
    obtain ⟨-, huri, hcolumn⟩ := VisibleEditor.mk.inj hseen
    have hfst : (h.display uri mode).1 = h.nextEditor := by rw [display_of_not_held hh]
    -- any other editor would have been found before
    have hnew : e = h.nextEditor := by
      by_contra hne
      rw [editor?_display_of_ne hne] at hget
      refine spot?_ne_of_holder? hh e ?_
      rw [spot?, hget, huri, Option.some.inj hcolumn]
      rfl
    rw [he, hfst, hnew]

lemma display_display (h : MemoryHost) (uri : String) (mode : DisplayMode) :
    (h.display uri mode).2.display uri mode = h.display uri mode := by
  have hactive : (if ¬ mode.keepFocus ∨ (h.display uri mode).2.active = none
      then some (h.display uri mode).1 else (h.display uri mode).2.active) =
      (h.display uri mode).2.active := by
    rw [active_display]
    split
    · exact ite_self _
    · rfl
  rw [display_of_holder? (holder?_display h uri mode), hactive]

/-- A panel that is drawn again with its content is brought to the front once more. -/
lemma draw_draw (h : MemoryHost) (p : PanelId) (content : String) :
    (h.draw p content).draw p content = (h.draw p content).raisePanel p := by
  simp only [draw, Host.fillPanel, Host.raisePanel, fillPanel, raisePanel,
    SortedMap.modify_modify]
  rfl

end MemoryHost

namespace Desk

open MemoryHost

variable {d : Desk MemoryHost} {t : Target}

lemma display_again (d : Desk MemoryHost) (uri : String) (role : Role) (keepFocus : Bool) :
    (d.display uri role keepFocus).2.display uri role keepFocus =
      d.display uri role keepFocus := by
  have hplace := d.session.place_place uri role
  have hhost := d.host.display_display uri ⟨(d.session.place uri role).1, keepFocus, false⟩
  simp only [Desk.display, hplace, Host.display, hhost]

/-- What opening a view once more does to a host: its panel comes to the front. -/
def raise (h : MemoryHost) : Option View → MemoryHost
  | some (.panel p) => h.raisePanel p
  | _ => h

/-- What is known of a target that has its panel: the panel, the column, and what was drawn. -/
lemma openPanel_facts (d : Desk MemoryHost) (t : Target) (content : String) :
    let once := d.openPanel t content
    once.2.session.placement.panel? t = some once.1 ∧
      (∃ column, once.2.session.placement.column? t.uri = some column) ∧
      ∃ h : MemoryHost, once.2.host = h.draw once.1 content := by
  have hcolumn := d.session.placement.column?_place t.uri .product
  cases hpanel : d.session.placement.panel? t with
  | some q =>
    rw [openPanel_of_some hpanel]
    exact ⟨(Placement.panel?_place ..).trans hpanel, ⟨_, hcolumn⟩, _, rfl⟩
  | none =>
    rw [openPanel_of_none hpanel]
    exact ⟨SortedMap.get?_insert_self .., ⟨_, hcolumn⟩, _, rfl⟩

lemma openPanel_again (d : Desk MemoryHost) (t : Target) (content : String) :
    let once := d.openPanel t content
    once.2.openPanel t content =
      (once.1, { once.2 with host := once.2.host.raisePanel once.1 }) := by
  intro once
  obtain ⟨hpanel, ⟨column, hcolumn⟩, h, hdrawn⟩ := d.openPanel_facts t content
  rw [openPanel_of_some hpanel, Session.place_of_recorded hcolumn, hdrawn, draw_draw, ← hdrawn]

/-- A product that is opened again is where it was. -/
lemma openProduct_again (d : Desk MemoryHost) (t : Target) :
    let once := d.openProduct t
    once.2.openProduct t = (once.1, { once.2 with host := raise once.2.host once.1 }) := by
  intro once
  have hstore : once.2.session.store = d.session.store :=
    (Session.sameProducts_openProduct d.session d.host t).1
  cases hstored : d.session.store.find? t with
  | none =>
    have honce : once = (none, d) := openProduct_of_none hstored
    rw [honce, openProduct_of_none hstored]
    rfl
  | some p =>
    have hagain : once.2.session.store.find? t = some p := hstore ▸ hstored
    cases hkind : p.kind with
    | text =>
      have honce := openProduct_of_text hstored hkind
      rw [openProduct_of_text hagain hkind]
      simp only [once, honce, display_again]
      cases (d.display t.uri .product true).1 <;> rfl
    | graphic =>
      have honce := openProduct_of_graphic hstored hkind
      rw [openProduct_of_graphic hagain hkind]
      simp only [once, honce, openPanel_again, raise]

lemma openDocument_again (d : Desk MemoryHost) (uri : String) :
    (d.openDocument uri).2.openDocument uri = d.openDocument uri :=
  d.display_again uri _ true

/-! ### Runs -/

/-- Whether an editor is opened by other means than showing a document. -/
def Operation.opensEditor : Operation → Bool
  | .act (.openEditor ..) => true
  | _ => false

lemma distinct_openProduct (hd : d.host.Distinct) (t : Target) :
    (d.openProduct t).2.host.Distinct := by
  cases hstored : d.session.store.find? t with
  | none =>
    rw [openProduct_of_none hstored]
    exact hd
  | some p =>
    cases hkind : p.kind with
    | text =>
      rw [openProduct_of_text hstored hkind]
      exact hd.display t.uri _
    | graphic =>
      rw [openProduct_of_graphic hstored hkind]
      unfold openPanel panelOf
      simp only
      split <;> exact hd

lemma distinct_act (hd : d.host.Distinct) {a : Action}
    (ha : ¬ (Operation.act a).opensEditor) : (d.act a).host.Distinct := by
  cases a with
  | putDocument | save | drop => exact hd
  | openEditor => exact absurd rfl ha
  | focus e => exact hd.focus e
  | select e selections => exact hd.of_spots fun e' => .inl (spot?_select d.host e e' selections)
  | deliver most => exact kept_drainUpTo kept_distinct (fun _ _ h => h) hd most
  | selectLinked => exact kept_distinct.selectLinked hd
  | openDocument uri => exact hd.display uri _
  | openProduct t => exact distinct_openProduct hd t

/-- Whatever is done, no document comes twice into a column. -/
lemma distinct_operate (hd : d.host.Distinct) {o : Operation} (ho : ¬ o.opensEditor) :
    (d.operate o).host.Distinct := by
  cases o with
  | act a => exact distinct_act hd ho
  | closeEditor e =>
    refine hd.of_spots fun e' => ?_
    have hspot : (d.operate (.closeEditor e)).host.spot? e' = _ := spot?_closeEditor d.host e e'
    rw [hspot]
    split
    · exact .inr rfl
    · exact .inl rfl
  | report r => exact kept_deliver kept_distinct hd r
  | display uri mode => exact hd.display uri mode
  | write e selections => exact hd.write e selections
  | scrollTo e s => exact hd.of_spots fun e' => .inl (spot?_scrollTo d.host e e' s)
  | redrawPanel t =>
    simp only [operate, redrawPanel]
    split <;> exact hd
  | closePanel p =>
    simp only [operate]
    split <;> exact hd
  | panelGone p =>
    simp only [operate]
    split <;> exact hd
  | takeReports | dropUnseen | documentClosed | documentSaved | documentEdited | setSettings
  | subscribe | editorsSeen | fillPanel | raisePanel => exact hd

lemma distinct_run {operations : List Operation} (ho : ∀ o ∈ operations, ¬ o.opensEditor)
    (hd : d.host.Distinct) : (operations.foldl operate d).host.Distinct :=
  List.foldlRecOn (motive := fun d : Desk MemoryHost => d.host.Distinct) operations _ hd
    fun _ hd o hmem => distinct_operate hd (ho o hmem)

/-- **Views are used again.** As long as editors are opened for documents that are shown, and by
no other means, no two open editors have one document in one column, whatever else is done. And
in any state a product or a document that is opened again at once is in the same view, with
nothing changed but that a panel was brought to the front once more. -/
theorem views_used_again :
    (∀ (settings : Settings) (operations : List Operation),
      (∀ o ∈ operations, ¬ o.opensEditor) →
      let h := (operations.foldl operate (fresh settings)).host
      ∀ e e' editor editor', h.editor? e = some editor → h.editor? e' = some editor' →
        editor.uri = editor'.uri → editor.column = editor'.column → e = e') ∧
    (∀ (d : Desk MemoryHost) (uri : String),
      (d.openDocument uri).2.openDocument uri = d.openDocument uri) ∧
    ∀ (d : Desk MemoryHost) (t : Target), let once := d.openProduct t
      once.2.openProduct t = (once.1, { once.2 with host := raise once.2.host once.1 }) := by
  refine ⟨?_, openDocument_again, openProduct_again⟩
  intro settings operations ho h e e' editor editor' he he' huri hcolumn
  have hfresh : (fresh settings).host.Distinct := fun _ _ _ he => nomatch he
  have hd : h.Distinct := distinct_run ho hfresh
  refine hd e e' (editor.uri, editor.column) ?_ ?_
  · rw [spot?, he]
    rfl
  · rw [spot?, he', huri, hcolumn]
    rfl

/-- A view that is moved to another column is opened there once more, and traced back from; then
the first one is closed and opened again. -/
def moved : List Operation :=
  let p := Product.plain "/a.c" "ast" "t" "x"
  [.act (.save p), .act (.openProduct p.target), .editorsSeen [⟨⟨0⟩, p.target.uri, some ⟨3⟩⟩],
    .act (.openProduct p.target), .report ⟨⟨1⟩, [.caret ⟨0, 0⟩]⟩, .act .selectLinked,
    .closeEditor ⟨0⟩, .editorsSeen [⟨⟨0⟩, p.target.uri, some ⟨2⟩⟩],
    .act (.openDocument p.target.uri)]

/-- In the end the view is open in two columns, and its source beside it. -/
theorem views_used_again_moved :
    let h := (moved.foldl operate (fresh .initial)).host
    (∀ o ∈ moved, ¬ o.opensEditor) ∧
      (Host.visible h).map (fun v => (v.id, v.uri, v.column)) =
        [(⟨1⟩, "monto:/a.c|ast.t", some ⟨3⟩), (⟨2⟩, "file:///a.c", some ⟨1⟩),
          (⟨3⟩, "monto:/a.c|ast.t", some ⟨2⟩)] ∧
      ∀ e e' editor editor', h.editor? e = some editor → h.editor? e' = some editor' →
        editor.uri = editor'.uri → editor.column = editor'.column → e = e' := by
  intro h
  have ho : ∀ o ∈ moved, ¬ o.opensEditor := by decide
  exact ⟨ho, by decide, views_used_again.1 .initial moved ho⟩

end Desk

end LinkedViews
