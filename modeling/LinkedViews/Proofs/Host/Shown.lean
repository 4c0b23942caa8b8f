import LinkedViews.Proofs.Host.Memory
import LinkedViews.Proofs.Target

/-!
What the editors of a memory host show, as far as links go.

Only the uri of an editor decides what becomes of its reports. So hosts that show the same
documents agree on every report that is queued.
-/

namespace LinkedViews

inductive Shown where
  /-- A document that is no product. -/
  | document
  | view (target : Target)
  /-- No open editor, or one with a malformed product uri. -/
  | nothing
  deriving DecidableEq

def Shown.isView : Shown → Bool
  | .view _ => true
  | _ => false

namespace MemoryHost

def shown (h : MemoryHost) (e : EditorId) : Shown :=
  match Host.uri? h e with
  | none => .nothing
  | some uri =>
    if isProductUri uri then
      match Target.parse uri with
      | .ok t => .view t
      | .error _ => .nothing
    else .document

variable {h h' : MemoryHost} {e : EditorId}

lemma shown_of_document {uri : String} (huri : Host.uri? h e = some uri)
    (hproduct : isProductUri uri = false) : h.shown e = .document := by
  rw [shown, huri]
  simp only [hproduct, Bool.false_eq_true, if_false]

lemma shown_of_view {t : Target} (huri : Host.uri? h e = some t.uri) : h.shown e = .view t := by
  rw [shown, huri]
  simp only [t.isProductUri_uri, if_true, t.parse_uri]

lemma shown_congr (huri : Host.uri? h' e = Host.uri? h e) : h'.shown e = h.shown e := by
  rw [shown, shown, huri]

/-- An editor shows a view of a target exactly if it has the uri of the target. -/
lemma shown_eq_view_iff {t : Target} : h.shown e = .view t ↔ Host.uri? h e = some t.uri := by
  refine ⟨fun hshown => ?_, shown_of_view⟩
  rw [shown] at hshown
  split at hshown
  · cases hshown
  · rename_i uri huri
    split at hshown
    · split at hshown
      · rename_i t' hparse
        cases hshown
        rw [huri, Target.uri_of_parse hparse]
      · cases hshown
    · cases hshown

lemma shown_eq_document_iff : h.shown e = .document ↔
    ∃ uri, Host.uri? h e = some uri ∧ isProductUri uri = false := by
  constructor
  · intro hshown
    rw [shown] at hshown
    split at hshown
    · cases hshown
    · rename_i uri huri
      split at hshown
      · split at hshown <;> cases hshown
      · rename_i hproduct
        exact ⟨uri, huri, by simpa using hproduct⟩
  · rintro ⟨uri, huri, hproduct⟩
    exact shown_of_document huri hproduct

lemma SameDocuments.shown (hs : SameDocuments h h') (e : EditorId) : h'.shown e = h.shown e :=
  shown_congr (hs.uri? e)

lemma isOpen_of_shown {t : Target} (hshown : h.shown e = .view t) : h.editors.contains e :=
  isOpen_of_uri? (shown_eq_view_iff.mp hshown)

/-- Whether an editor shows a source document, and not a product. -/
def showsSource (h : MemoryHost) (s : Source) (e : EditorId) : Bool :=
  (Host.uri? h e).any fun uri => ! isProductUri uri && Source.parse uri = s

lemma showsSource_congr (huri : Host.uri? h' e = Host.uri? h e) (s : Source) :
    h'.showsSource s e = h.showsSource s e := by
  rw [showsSource, showsSource, huri]

lemma shown_of_showsSource {s : Source} (hshows : h.showsSource s e) : h.shown e = .document := by
  obtain ⟨uri, huri, hdocument⟩ := (Option.any_eq_true _ _).mp hshows
  rw [Bool.and_eq_true, Bool.not_eq_true'] at hdocument
  exact shown_of_document huri hdocument.1

/-! ### Views -/

lemma targetFrom?_eq_some_iff {v : VisibleEditor} {s : Source} {t : Target} :
    v.targetFrom? s = some t ↔ v.uri = t.uri ∧ t.source = s := by
  rw [VisibleEditor.targetFrom?, Option.filter_eq_some_iff, decide_eq_true_eq]
  have hparse : (Target.parse v.uri).toOption = some t ↔ Target.parse v.uri = .ok t := by
    cases Target.parse v.uri <;> simp [Except.toOption]
  rw [hparse, Target.parse_eq_ok_iff]

lemma shown_of_targetFrom? {v : VisibleEditor} {s : Source} {t : Target}
    (huri : Host.uri? h v.id = some v.uri) (ht : v.targetFrom? s = some t) :
    h.shown v.id = .view t :=
  shown_of_view (huri.trans (congrArg some (targetFrom?_eq_some_iff.mp ht).1))

/-- Whether an editor in sight has a well-formed product uri. -/
def isView (v : VisibleEditor) : Bool := (Target.parse v.uri).isOk

lemma isView_iff {v : VisibleEditor} : isView v ↔ ∃ t : Target, v.uri = t.uri := by
  unfold isView
  cases hparse : Target.parse v.uri with
  | error err =>
    have hne : ¬ ∃ t : Target, v.uri = t.uri := by
      rintro ⟨t, ht⟩
      rw [ht, Target.parse_uri] at hparse
      cases hparse
    simpa [Except.isOk, Except.toBool] using hne
  | ok t =>
    have hex : ∃ t : Target, v.uri = t.uri := ⟨t, Target.parse_eq_ok_iff.mp hparse⟩
    simpa [Except.isOk, Except.toBool] using hex

/-- How many views are in sight. -/
def viewCount (h : MemoryHost) : Nat := (Host.visible h).countP isView

/-- If no editor came to show a view, there are not more of them. -/
lemma viewCount_le (hsub : ∀ e t, h'.shown e = .view t → h.shown e = .view t) :
    h'.viewCount ≤ h.viewCount := by
  let ids : MemoryHost → List EditorId := fun h =>
    ((Host.visible h).filter isView).map VisibleEditor.id
  have hlength : ∀ h : MemoryHost, h.viewCount = (ids h).length := by
    intro h
    rw [viewCount, List.countP_eq_length_filter, List.length_map]
  have hnodup : (ids h').Nodup := ((List.filter_sublist).map _).nodup (nodup_visible h')
  have hsubset : ids h' ⊆ ids h := by
    intro e he
    obtain ⟨v, hv, rfl⟩ := List.mem_map.mp he
    obtain ⟨hv, hview⟩ := List.mem_filter.mp hv
    obtain ⟨t, ht⟩ := isView_iff.mp hview
    have huri : Host.uri? h' v.id = some t.uri := ht ▸ uri?_of_mem_visible hv
    obtain ⟨w, hw, hid, hwuri⟩ :=
      exists_visible (shown_eq_view_iff.mp (hsub _ _ (shown_of_view huri)))
    exact List.mem_map.mpr ⟨w, List.mem_filter.mpr ⟨hw, isView_iff.mpr ⟨t, hwuri⟩⟩, hid⟩
  rw [hlength, hlength]
  exact List.Nodup.length_le_of_subset hnodup hsubset

end MemoryHost

end LinkedViews
