import LinkedViews.Proofs.Desk.Rendering
import LinkedViews.Proofs.Session.Dropping

/-!
Dropped products that are still in sight.

When products are dropped, each product view in an editor has its content fetched again, and
that of a dropped one is a blank. Of panels nothing is told. So a dropped text leaves the
sight of its readers, and a dropped graphic stays in its panel.
-/

namespace LinkedViews

/-! ### Renderers of what is told of, and of what is not -/

namespace Renderer

variable {r : Renderer} {told : List Notice} {s : Session} {t : Target}

/-- A content that nothing is told of is not fetched again. -/
lemma get?_foldl_hear_of_untold (h : ∀ m ∈ told, m.event.target? ≠ some t) :
    (told.foldl (fun r m => r.hear m.event s) r).contents.get? t = r.contents.get? t := by
  induction told generalizing r with
  | nil => rfl
  | cons m told ih =>
    rw [List.foldl_cons, ih fun m' hm' => h m' (List.mem_cons_of_mem _ hm'), get?_hear,
      if_neg (h m List.mem_cons_self)]

end Renderer

/-- A subscriber hears of each event once, when all is done. -/
lemma Reply.follow_told {α : Type} (r : Reply α) {n : Nat} (hn : n < r.session.subscribers)
    (atOnce : Bool) (view : Renderer) : view.follow atOnce n r.told r.session =
      r.told.foldl (fun view m => view.hear m.event r.session) view :=
  Renderer.follow_eq atOnce view (fun m hm => by rwa [session_told hm]) fun _ => settled_told

namespace Session

variable {H : Type} [Host H] {s : Session} {h : H} {r : Reply (List Target)} {t : Target}

/-- The replies of a session that drops products, for a document itself or because it was closed,
saved or edited. -/
inductive Drops (s : Session) (h : H) : Reply (List Target) → Prop where
  | asked (source : Source) : Drops s h (s.dropAndRefresh h source)
  | closed (uri : String) : Drops s h (s.documentClosed h uri)
  | saved (uri : String) : Drops s h (s.documentSaved h uri)
  | edited (uri : String) : Drops s h (s.documentEdited h uri)

/-- If any product is dropped, it is as for a document itself. -/
lemma Drops.eq_dropAndRefresh (hr : Drops s h r) (ht : t ∈ r.result) :
    ∃ source, r = s.dropAndRefresh h source := by
  have hinvalid : ∀ uri, t ∈ (s.invalidate h uri).result →
      ∃ source, s.invalidate h uri = s.dropAndRefresh h source := by
    intro uri ht
    unfold invalidate at ht ⊢
    split at ht
    · cases ht
    · rename_i hproduct
      exact ⟨.parse uri, if_neg hproduct⟩
  cases hr with
  | asked source => exact ⟨source, rfl⟩
  | closed uri => exact hinvalid uri ht
  | saved uri => exact hinvalid uri ht
  | edited uri =>
    unfold documentEdited at ht ⊢
    split at ht
    · rename_i hdrop
      rw [if_pos hdrop]
      exact hinvalid uri ht
    · cases ht

/-- **A dropped product is told of exactly if an editor shows it.** Then whoever renders it, and
fetches again what is told of, has a blank for it when the call is over. Otherwise it has what
it had. Nothing is stored any more in either case. -/
theorem dropped_told (hr : Drops s h r) (ht : t ∈ r.result) :
    let shown := ∃ v ∈ Host.visible h, Target.parse v.uri = .ok t
    (r.session.store.find? t = none ∧ r.session.content t = " ") ∧
    ((∃ e ∈ r.events, e.target? = some t) ↔ shown) ∧
    ∀ (atOnce : Bool) (n : Nat) (view : Renderer) (w : String), n < s.subscribers →
      view.contents.get? t = some w →
        (shown → (view.follow atOnce n r.told r.session).contents.get? t = some " ") ∧
        (¬ shown → (view.follow atOnce n r.told r.session).contents.get? t = some w) := by
  intro shown
  obtain ⟨source, rfl⟩ := hr.eq_dropAndRefresh ht
  have habsent : (s.dropAndRefresh h source).session.store.find? t = none :=
    Store.find?_dropSource_of_mem ht
  have hblank := content_of_absent habsent
  have htold : (∃ e ∈ (s.dropAndRefresh h source).events, e.target? = some t) ↔ shown :=
    told_dropAndRefresh_iff
  refine ⟨⟨habsent, hblank⟩, htold, fun atOnce n view w hn hw => ?_⟩
  rw [(s.dropAndRefresh h source).follow_told hn atOnce view]
  refine ⟨fun hshown => ?_, fun hhidden => ?_⟩
  · rw [Renderer.get?_foldl_hear hw (.inr (Reply.exists_told_iff.mpr (htold.mpr hshown))), hblank]
  · rw [Renderer.get?_foldl_hear_of_untold fun m hm hm' => ?_, hw]
    exact hhidden (htold.mp (Reply.exists_told_iff.mp ⟨m, hm, hm'⟩))

/-- A document is closed while an editor shows its product, which a subscriber renders. -/
theorem dropped_told_closed :
    let p := Product.plain "/a.c" "ast" "t" "text"
    let s := ((new .initial).subscribe.save p).session
    let h := (MemoryHost.empty.openEditor p.target.uri ⟨2⟩).2
    let r := s.documentClosed h "file:///a.c"
    let view : Renderer := ⟨SortedMap.empty.insert p.target "text", s.tree⟩
    (Drops s h r ∧ p.target ∈ r.result ∧
      (∃ v ∈ Host.visible h, Target.parse v.uri = .ok p.target) ∧ 0 < s.subscribers ∧
      view.contents.get? p.target = some "text") ∧
    (∃ e ∈ r.events, e.target? = some p.target) ∧ r.session.store.find? p.target = none ∧
    (view.follow true 0 r.told r.session).contents.get? p.target = some " " := by
  intro p s h r view
  have hr : Drops s h r := .closed _
  have ht : p.target ∈ r.result := by decide
  have hshown : ∃ v ∈ Host.visible h, Target.parse v.uri = .ok p.target :=
    ⟨⟨⟨0⟩, p.target.uri, some ⟨2⟩⟩, by decide, p.target.parse_uri⟩
  have hsubscribed : 0 < s.subscribers := by decide
  have hview : view.contents.get? p.target = some "text" := by decide
  obtain ⟨⟨habsent, -⟩, htold, hrendered⟩ := dropped_told hr ht
  exact ⟨⟨hr, ht, hshown, hsubscribed, hview⟩, htold.mpr hshown, habsent,
    (hrendered true 0 view "text" hsubscribed hview).1 hshown⟩

/-- A graphic in its panel is dropped, and nothing is told of it. The panel has the graphic as
before, and is not redrawn. -/
theorem dropped_untold :
    let p := Product.plain "/a.c" "cfg" "svg" "<svg/>"
    let d := (Desk.openProduct ⟨((new .initial).save p).session, MemoryHost.empty⟩ p.target).2
    let r := d.session.dropAndRefresh d.host p.source
    d.session.Reached ∧ p.target ∈ r.result ∧ r.session.placement.panel? p.target = some ⟨0⟩ ∧
    (∀ e ∈ r.events, e.target? ≠ some p.target) ∧ r.session.store.find? p.target = none ∧
    (d.host.panel? ⟨0⟩).map Panel.content = some "<svg/>" ∧
    (Desk.redrawPanel ⟨r.session, d.host⟩ p.target).1 = false := by
  intro p d r
  have hreached : d.session.Reached :=
    .next (.next (.new _) (.save p)) (.openProduct MemoryHost.empty p.target)
  exact ⟨hreached, by decide, by decide, by decide, by decide, by decide, by decide⟩

end Session

end LinkedViews
