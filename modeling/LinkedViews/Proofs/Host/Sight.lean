import LinkedViews.Proofs.Desk.Frame
import LinkedViews.Proofs.Host.Memory

/-!
In which editor a document is shown.

A memory host looks for the document in the wanted column, editor by editor in the order in
which they were opened. Where no editor has it, one is opened behind all others. So an editor
that was found once is found again, however many were opened since.
-/

namespace LinkedViews

lemma SortedMap.insertEntry_append {α β : Type} [Ord α] {k : α} {v : β} {l l' : List (α × β)}
    (hbehind : ∀ entry ∈ l, compare k entry.1 = .gt) :
    insertEntry k v (l ++ l') = l ++ insertEntry k v l' := by
  induction l with
  | nil => rfl
  | cons entry l ih =>
    rw [List.cons_append, insertEntry, hbehind entry List.mem_cons_self]
    simp only [List.cons_append, List.cons.injEq, true_and]
    exact ih fun e he => hbehind e (List.mem_cons_of_mem _ he)

namespace MemoryHost

variable {h h' : MemoryHost} {e : EditorId} {uri : String} {column : Column} {mode : DisplayMode}

/-! ### The editor of a document -/

/-- An open editor as it is in sight. -/
def seen (entry : EditorId × OpenEditor) : VisibleEditor :=
  ⟨entry.1, entry.2.uri, some entry.2.column⟩

lemma visible_eq (h : MemoryHost) : Host.visible h = h.editors.entries.map seen := rfl

/-- The first editor in sight that has a document in a column. -/
def holder? (h : MemoryHost) (uri : String) (column : Column) : Option EditorId :=
  ((Host.visible h).find? fun v => v.uri = uri ∧ v.column = some column).map VisibleEditor.id

lemma findEditor?_eq_holder? (h : MemoryHost) (uri : String) (column : Column) :
    (h.findEditor? fun editor => editor.uri = uri ∧ editor.column = column) =
      h.holder? uri column := by
  rw [holder?, visible_eq, List.find?_map, Option.map_map, findEditor?]
  congr 2
  funext entry
  simp only [Function.comp_apply, seen, Option.some.injEq]

lemma mem_visible_of_holder? (hh : h.holder? uri column = some e) :
    ⟨e, uri, some column⟩ ∈ Host.visible h := by
  obtain ⟨v, hfind, rfl⟩ := Option.map_eq_some_iff.mp hh
  have hv := List.find?_some hfind
  simp only [Bool.decide_and, Bool.and_eq_true, decide_eq_true_eq] at hv
  obtain ⟨rfl, hcolumn⟩ := hv
  exact hcolumn ▸ List.mem_of_find?_eq_some hfind

lemma isOpen_of_holder? (hh : h.holder? uri column = some e) : h.editors.contains e :=
  isOpen_of_uri? (uri?_of_mem_visible (mem_visible_of_holder? hh))

lemma exists_editor? {v : VisibleEditor} (hv : v ∈ Host.visible h) :
    ∃ editor, h.editor? v.id = some editor ∧ v = seen (v.id, editor) := by
  obtain ⟨entry, hentry, rfl⟩ := List.mem_map.mp (visible_eq h ▸ hv)
  exact ⟨entry.2, SortedMap.get?_eq_some_iff.mpr hentry, rfl⟩

lemma isSome_holder? {editor : OpenEditor} (hget : h.editor? e = some editor) :
    (h.holder? editor.uri editor.column).isSome := by
  have hmem : seen (e, editor) ∈ Host.visible h :=
    List.mem_map_of_mem (SortedMap.get?_eq_some_iff.mp hget)
  rw [holder?, Option.isSome_map, List.find?_isSome]
  exact ⟨_, hmem, decide_eq_true ⟨rfl, rfl⟩⟩

lemma isSome_holder?_display (h : MemoryHost) (uri : String) (mode : DisplayMode) :
    ((h.display uri mode).2.holder? uri mode.column).isSome := by
  obtain ⟨editor, hget, rfl, hcolumn⟩ := editor?_display_fst h uri mode
  rw [← hcolumn]
  exact isSome_holder? hget

/-- A document that is shown where an editor has it already gets that editor. -/
lemma display_of_holder? (hh : h.holder? uri mode.column = some e) :
    h.display uri mode = (e,
      { h with active := if ¬ mode.keepFocus ∨ h.active = none then some e else h.active }) := by
  unfold display
  rw [findEditor?_eq_holder?, hh]
  simp only
  split <;> rfl

/-- A document that no editor has in the column gets a new one. -/
lemma display_of_not_held (hh : h.holder? uri mode.column = none) :
    h.display uri mode = (h.nextEditor,
      { (h.openEditor uri mode.column).2 with
        active := if ¬ mode.keepFocus ∨ h.active = none then some h.nextEditor
          else h.active }) := by
  unfold display
  rw [findEditor?_eq_holder?, hh]
  simp only
  split <;> rfl

lemma display_fst_eq (h : MemoryHost) (uri : String) (mode : DisplayMode) :
    (h.display uri mode).1 = (h.holder? uri mode.column).getD h.nextEditor := by
  cases hh : h.holder? uri mode.column with
  | none => rw [display_of_not_held hh]; rfl
  | some e => rw [display_of_holder? hh]; rfl

lemma active_display (h : MemoryHost) (uri : String) (mode : DisplayMode) :
    (h.display uri mode).2.active =
      if ¬ mode.keepFocus ∨ h.active = none then some (h.display uri mode).1 else h.active := by
  cases hh : h.holder? uri mode.column with
  | none => rw [display_of_not_held hh]
  | some e => rw [display_of_holder? hh]

lemma contains_display (h : MemoryHost) (uri : String) (mode : DisplayMode) (e : EditorId) :
    (h.display uri mode).2.editors.contains e ↔
      h.editors.contains e ∨ (h.holder? uri mode.column = none ∧ e = h.nextEditor) := by
  cases hh : h.holder? uri mode.column with
  | none =>
    rw [display_of_not_held hh]
    simp only [openEditor, SortedMap.contains, SortedMap.get?_insert]
    by_cases he : e = h.nextEditor <;> simp [he]
  | some _ => simp [display_of_holder? hh]

/-- A document that is in its column is shown without any change to editors. -/
lemma sameDocuments_display (hh : (h.holder? uri mode.column).isSome) :
    SameDocuments h (h.display uri mode).2 := by
  obtain ⟨e, he⟩ := Option.isSome_iff_exists.mp hh
  rw [display_of_holder? he]
  exact ⟨fun _ => rfl, rfl, rfl⟩

/-- No editor is open that was not. -/
def OpensNone (h h' : MemoryHost) : Prop := ∀ e, h'.editors.contains e → h.editors.contains e

lemma SameDocuments.opensNone_iff {h'' : MemoryHost} (hs : SameDocuments h' h'') :
    h.OpensNone h'' ↔ h.OpensNone h' := by
  simp only [OpensNone, hs.contains]

/-! ### More editors -/

/-- Changes to selections or scrolling leave an editor in its place. -/
lemma map_seen_modify (m : SortedMap EditorId OpenEditor) (e : EditorId)
    (f : OpenEditor → OpenEditor) (hf : ∀ editor, seen (e, f editor) = seen (e, editor)) :
    (m.modify e f).entries.map seen = m.entries.map seen := by
  simp only [SortedMap.modify, List.map_map]
  refine List.map_congr_left fun entry _ => ?_
  simp only [Function.comp_apply]
  split
  · rename_i he
    obtain rfl := Std.LawfulEqOrd.eq_of_compare he
    exact hf entry.2
  · rfl

lemma visible_select (h : MemoryHost) (e : EditorId) (selections : List Selection) :
    Host.visible (h.select e selections) = Host.visible h := by
  rw [visible_eq, visible_eq, select]
  split
  · exact map_seen_modify _ e _ fun _ => rfl
  · rfl

lemma visible_write (h : MemoryHost) (e : EditorId) (selections : List Selection) :
    Host.visible (Host.write h e selections).2 = Host.visible h := by
  rcases write_cases h e selections with ⟨-, -, hw⟩ | ⟨-, hw⟩
  · rw [hw]
    exact visible_select h e selections
  · rw [hw]

lemma visible_scrollTo (h : MemoryHost) (e : EditorId) (s : Selection) :
    Host.visible (Host.scrollTo h e s) = Host.visible h := by
  rw [visible_eq, visible_eq]
  exact map_seen_modify _ e _ fun _ => rfl

/-- Every open editor has a number that was given out. -/
def Numbered (h : MemoryHost) : Prop :=
  ∀ e, h.editors.contains e → e.number < h.nextEditor.number

lemma Issued.numbered (hi : h.Issued) : h.Numbered := hi.opened

/-- Editors were opened behind those that were there, and none was closed. -/
structure Grown (h h' : MemoryHost) : Prop where
  nextEditor : h.nextEditor.number ≤ h'.nextEditor.number
  visible : ∃ opened, Host.visible h' = Host.visible h ++ opened ∧
    ∀ v ∈ opened, h.nextEditor.number ≤ v.id.number

lemma Grown.refl (h : MemoryHost) : Grown h h :=
  ⟨UInt64.le_refl _, [], (List.append_nil _).symm, fun _ hv => by cases hv⟩

/-- An editor that is opened comes behind those of lower numbers. -/
lemma Grown.openEditor (hg : Grown h h') (hn : h.Numbered) (uri : String) (column : Column) :
    Grown h (h'.openEditor uri column).2 := by
  obtain ⟨hnext, opened, hvisible, hopened⟩ := hg
  rw [visible_eq h'] at hvisible
  obtain ⟨old, new, hentries, hold, hnew⟩ := List.map_eq_append_iff.mp hvisible
  refine ⟨UInt64.le_trans hnext (Word.le_next _),
    (SortedMap.insertEntry h'.nextEditor (MemoryHost.fresh uri column) new).map seen, ?_, ?_⟩
  · have hbehind : ∀ entry ∈ old, compare h'.nextEditor entry.1 = .gt := by
      intro entry hentry
      have hmem : seen entry ∈ Host.visible h := hold ▸ List.mem_map_of_mem hentry
      have hlt := hn entry.1 (isOpen_of_uri? (uri?_of_mem_visible hmem))
      exact (Std.compare_eq_gt (a := h'.nextEditor.number)).mpr (UInt64.lt_of_lt_of_le hlt hnext)
    have hinsert : Host.visible (h'.openEditor uri column).2 =
        (SortedMap.insertEntry h'.nextEditor (MemoryHost.fresh uri column)
          h'.editors.entries).map seen := rfl
    rw [hinsert, hentries, SortedMap.insertEntry_append hbehind, List.map_append, hold]
  · intro v hv
    obtain ⟨entry, hentry, rfl⟩ := List.mem_map.mp hv
    rcases SortedMap.mem_insertEntry hentry with rfl | hentry
    · exact hnext
    · exact hopened _ (hnew ▸ List.mem_map_of_mem hentry)

/-- No step of a session closes an editor or opens one before others. -/
lemma kept_grown (hn : h.Numbered) : Host.Kept (Grown h) where
  write h' e selections hg := by
    obtain ⟨hnext, hvisible⟩ := hg
    exact ⟨(sameDocuments_write h' e selections).nextEditor ▸ hnext,
      (visible_write h' e selections).symm ▸ hvisible⟩
  scrollTo h' e s hg := by
    obtain ⟨hnext, hvisible⟩ := hg
    exact ⟨hnext, (visible_scrollTo h' e s).symm ▸ hvisible⟩
  display h' uri mode hg := by
    change Grown h (h'.display uri mode).2
    cases hh : h'.holder? uri mode.column with
    | none =>
      obtain ⟨hnext, hvisible⟩ := hg.openEditor hn uri mode.column
      rw [display_of_not_held hh]
      exact ⟨hnext, hvisible⟩
    | some e =>
      obtain ⟨hnext, hvisible⟩ := hg
      rw [display_of_holder? hh]
      exact ⟨hnext, hvisible⟩

/-- What an editor has, it has when more were opened. -/
lemma Grown.holder?_of_some (hg : Grown h h') (hh : h.holder? uri column = some e) :
    h'.holder? uri column = some e := by
  obtain ⟨-, opened, hvisible, -⟩ := hg
  obtain ⟨v, hfind, hv⟩ := Option.map_eq_some_iff.mp hh
  rw [holder?, hvisible, List.find?_append, hfind, ← hv]
  rfl

/-- A document that no editor had is in one that was opened. -/
lemma Grown.le_of_holder? (hg : Grown h h') (hnone : h.holder? uri column = none)
    (hh : h'.holder? uri column = some e) : h.nextEditor.number ≤ e.number := by
  obtain ⟨-, opened, hvisible, hopened⟩ := hg
  have hmem := mem_visible_of_holder? hh
  rw [hvisible] at hmem
  rcases List.mem_append.mp hmem with hold | hnew
  · have hmissing := List.find?_eq_none.mp (Option.map_eq_none_iff.mp hnone) _ hold
    exact absurd (decide_eq_true ⟨rfl, rfl⟩) hmissing
  · exact hopened _ hnew

end MemoryHost

open MemoryHost in
/-- A document that was shown is in the column where it would be shown next. -/
lemma Desk.isSome_holder?_display_again (d : Desk MemoryHost) (uri : String) (role : Role)
    (keepFocus : Bool) :
    ((d.display uri role keepFocus).2.host.holder? uri
      ((d.display uri role keepFocus).2.session.place uri role).1).isSome := by
  have hrecorded := d.session.placement.column?_place uri role
  have hagain : ((d.session.placement.place uri role).2.place uri role).1 =
      (d.session.placement.place uri role).1 := by
    rw [Placement.place, hrecorded]
  have hplace : ((d.display uri role keepFocus).2.session.place uri role).1 =
      (d.session.place uri role).1 := hagain
  rw [hplace]
  exact d.host.isSome_holder?_display uri ⟨(d.session.place uri role).1, keepFocus, false⟩

end LinkedViews
