import LinkedViews.Proofs.Desk.Delivery
import LinkedViews.Proofs.Latch

/-!
Room in the latches.

A latch counts the writes to the views of its target, and counts no further than to the
greatest word. A spread writes to each view once at most, so one that starts with room for as
many writes as views are in sight counts all of its writes.
-/

namespace LinkedViews

open Function

namespace Session

variable {s s' : Session} {n m : Nat} {t : Target} {l : Latches}

/-- The latches of all targets can count `n` more writes to views. -/
def RoomFor (s : Session) (n : Nat) : Prop :=
  ∀ t, (s.latchesOf t).view.writes.toNat + n < UInt64.size

lemma roomFor_new (settings : Settings) (hn : n < UInt64.size) : (new settings).RoomFor n := by
  intro t
  have hidle : Latches.idle.view.writes.toNat = 0 := rfl
  rw [latchesOf_new, hidle]
  omega

lemma RoomFor.mono (h : s.RoomFor n) (hle : m ≤ n) : s.RoomFor m := by
  intro t
  have hn := h t
  omega

lemma RoomFor.hasRoom (h : s.RoomFor (n + 1)) (t : Target) : (s.latchesOf t).view.HasRoom := by
  have hn := h t
  unfold Latch.HasRoom
  omega

lemma RoomFor.of_update (h : s.RoomFor n) (hs : s'.latchesOf = update s.latchesOf t l)
    (hl : l.view.writes.toNat + m < UInt64.size) (hle : m ≤ n) : s'.RoomFor m := by
  intro t'
  have hn := h t'
  rw [hs, update_apply]
  split
  · exact hl
  · omega

lemma RoomFor.congr (h : s.RoomFor n) (hs : s'.latchesOf = s.latchesOf) : s'.RoomFor n := by
  intro t
  rw [hs]
  exact h t

end Session

namespace Desk

open MemoryHost

variable {d : Desk MemoryHost} {r : Report} {n : Nat}

lemma toNat_writes_writeArmed_le (h : MemoryHost) (e : EditorId) (l : Latch)
    (selections : List Selection) :
    (writeArmed h e l selections).latch.writes.toNat ≤ l.writes.toNat + 1 := by
  have harm := l.toNat_writes_arm_le
  have hdisarm := l.arm.toNat_writes_disarm_le
  rcases writeArmed_cases h e l selections with ⟨-, hlatch, -⟩ | ⟨hlatch, -⟩
  · rw [hlatch]; omega
  · rw [hlatch]; omega

section Spread

variable (s : Source) (e : EditorId) (selections : List Selection)

lemma roomFor_step {p : Progress MemoryHost} {view : VisibleEditor}
    (h : p.desk.session.RoomFor (n + if isView view then 1 else 0)) :
    (p.step s e selections true view).desk.session.RoomFor n := by
  have hkeep : p.desk.session.RoomFor n := h.mono (Nat.le_add_right _ _)
  rcases Progress.step_cases s e selections true p view with
    ⟨-, hstep⟩ | ⟨t, ht, ⟨-, -, hstep⟩ | ⟨-, -, hstep⟩ | ⟨-, mapped, -, -, hstep⟩⟩
  · rw [hstep]; exact hkeep
  · rw [hstep]
    exact hkeep.of_update (Progress.latchesOf_absorb p t) (hkeep t) (Nat.le_refl _)
  · rw [hstep]; exact hkeep
  · rw [if_pos (isView_iff.mpr ⟨t, (targetFrom?_eq_some_iff.mp ht).1⟩)] at h
    have hroom := h t
    have hwritten := toNat_writes_writeArmed_le p.desk.host view.id
      (p.desk.session.latchesOf t).view mapped
    rw [hstep, if_pos rfl]
    exact hkeep.of_update (Progress.latchesOf_write p t view mapped) (by simp only; omega)
      (Nat.le_refl _)

lemma roomFor_foldl (editors : List VisibleEditor) {p : Progress MemoryHost}
    (h : p.desk.session.RoomFor (n + editors.countP isView)) :
    (editors.foldl (Progress.step s e selections true) p).desk.session.RoomFor n := by
  induction editors generalizing p with
  | nil => exact h
  | cons view editors ih =>
    refine ih (roomFor_step s e selections (h.mono ?_))
    rw [List.countP_cons]
    omega

end Spread

/-- Every view finds room in the latch of its target when the report comes to it. -/
def HasRoomFor (d : Desk MemoryHost) (r : Report) : Prop :=
  ∀ uri before view after t, Host.uri? d.host r.editor = some uri → isProductUri uri = false →
    Host.visible d.host = before ++ view :: after → view.targetFrom? (.parse uri) = some t →
    let p := before.foldl (Progress.step (.parse uri) r.editor r.selections true) ⟨d, [], false⟩
    (p.desk.session.latchesOf t).view.HasRoom

lemma hasRoomFor_of_roomFor (h : d.session.RoomFor d.host.viewCount) : d.HasRoomFor r := by
  intro uri before view after t _ _ hvisible ht
  have hisView : isView view = true := isView_iff.mpr ⟨t, (targetFrom?_eq_some_iff.mp ht).1⟩
  refine (roomFor_foldl (n := 1) (.parse uri) r.editor r.selections before ?_).hasRoom (n := 0) t
  refine h.mono ?_
  rw [viewCount, hvisible, List.countP_append, List.countP_cons, if_pos hisView]
  omega

lemma roomFor_traceBack (h : d.session.RoomFor n) (e : EditorId) (t : Target)
    (selections : List Selection) : (d.traceBack e t selections).2.session.RoomFor n := by
  obtain ⟨d₁, hshowed, ⟨-, -, hlatches⟩ | ⟨-, hsame⟩ | ⟨-, dest, mapped, -, -, hlatches⟩⟩ :=
    traceBack_cases d e t selections
  · refine h.of_update hlatches ?_ (Nat.le_refl _)
    rw [Latch.writes_absorb]
    exact h t
  · rw [hsame]
    exact h.congr hshowed.latches
  · exact h.of_update hlatches (h t) (Nat.le_refl _)

/-- A delivery uses up room for one write to each view at most. -/
lemma roomFor_deliver (h : d.session.RoomFor (n + d.host.viewCount)) (r : Report) :
    (d.deliver r).session.RoomFor n := by
  have hkeep : d.session.RoomFor n := h.mono (Nat.le_add_right _ _)
  cases hshown : d.host.shown r.editor with
  | nothing => rw [deliver_of_nothing hshown]; exact hkeep
  | view t =>
    rw [deliver_of_view hshown]
    exact roomFor_traceBack hkeep _ _ _
  | document =>
    obtain ⟨uri, huri, hproduct⟩ := shown_eq_document_iff.mp hshown
    rw [deliver_of_document huri hproduct]
    exact roomFor_foldl _ _ _ (Host.visible d.host) h

/-- A delivery brings no view into sight. -/
lemma view_of_deliver {d : Desk MemoryHost} {r : Report} {e : EditorId} {t : Target}
    (ht : (d.deliver r).host.shown e = .view t) : d.host.shown e = .view t := by
  cases hshown : d.host.shown r.editor with
  | nothing => rwa [deliver_of_nothing hshown] at ht
  | document =>
    obtain ⟨uri, huri, hproduct⟩ := shown_eq_document_iff.mp hshown
    rw [deliver_of_document huri hproduct] at ht
    exact ((sameDocuments_spread d r.editor uri r.selections).shown e).symm.trans ht
  | view t' =>
    rw [deliver_of_view hshown] at ht
    obtain ⟨d₁, hshowed, ⟨-, hhost, -⟩ | ⟨-, hsame⟩ | ⟨-, dest, mapped, -, hhost, -⟩⟩ :=
      traceBack_cases d r.editor t' r.selections
    · rw [hhost] at ht
      exact view_of_showed hshowed ht
    · rw [hsame] at ht
      exact view_of_showed hshowed ht
    · rw [hhost, (sameDocuments_writeArmed _ _ _ _).shown] at ht
      exact view_of_showed hshowed ht

lemma viewCount_deliver_le (d : Desk MemoryHost) (r : Report) :
    (d.deliver r).host.viewCount ≤ d.host.viewCount :=
  viewCount_le fun _ _ => view_of_deliver

end Desk

end LinkedViews
