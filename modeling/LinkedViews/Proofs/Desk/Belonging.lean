import LinkedViews.Proofs.Desk.Forward
import LinkedViews.Proofs.Session.Dropping
import LinkedViews.Proofs.Source

/-!
Which document a stored product belongs to.

Closing a document drops the products that have it for their source. Selections are carried
between a document and the views of the targets that lead to it. For a product without a bar
in the path of its source this is one document. With a bar, its views are linked to another
document, which has the path up to the bar.
-/

namespace LinkedViews

lemma Target.uri_inj {t t' : Target} : t.uri = t'.uri ↔ t = t' := by
  refine ⟨fun h => ?_, congrArg uri⟩
  have hparse : parse t.uri = .ok t' := parse_eq_ok_iff.mpr h
  rw [parse_uri] at hparse
  exact Except.ok.inj hparse

lemma Session.mem_documentClosed_iff {H : Type} [Host H] {s : Session} {h : H} {uri : String}
    {t : Target} (hproduct : isProductUri uri = false) :
    t ∈ (s.documentClosed h uri).result ↔
      ∃ p, s.store.find? t = some p ∧ p.source = .parse uri := by
  rw [documentClosed, invalidate, hproduct, if_neg Bool.false_ne_true]
  exact Store.mem_targetsOf_iff

namespace Desk

open Function MemoryHost

variable {d : Desk MemoryHost} {t : Target} {p : Product} {e v : EditorId} {uri : String}
  {selections : List Selection}

/-- What the report of a document leaves in a view: what the links say, if the target leads to
the document and no echo is awaited. -/
lemma selections_deliver_document (huri : Host.uri? d.host e = some uri)
    (hproduct : isProductUri uri = false) (hv : Host.uri? d.host v = some t.uri)
    (hidle : t.source = .parse uri → d.session.sourceEchoes t = 0) :
    Host.selections (d.deliver ⟨e, selections⟩).host v =
      if t.source = .parse uri then
        match carried d.host (d.session.product t) .forward e selections v with
        | [] => Host.selections d.host v
        | mapped => mapped
      else Host.selections d.host v := by
  obtain ⟨view, hmem, rfl, hview⟩ := exists_visible hv
  obtain ⟨before, after, hsplit⟩ := List.append_of_mem hmem
  have hnodup := nodup_visible d.host
  have hviews : ∀ v ∈ Host.visible d.host, Host.uri? d.host v.id = some v.uri :=
    fun _ hv => uri?_of_mem_visible hv
  have htarget : ∀ t', view.targetFrom? (.parse uri) = some t' ↔ t' = t ∧ t.source = .parse uri := by
    intro t'
    rw [targetFrom?_eq_some_iff, hview, Target.uri_inj, eq_comm]
    exact and_congr_right fun h => h ▸ Iff.rfl
  have hspread : Host.selections (d.deliver ⟨e, selections⟩).host view.id =
      d.spreadTo (.parse uri) e selections view := by
    rw [deliver_of_document (r := ⟨e, selections⟩) huri hproduct]
    unfold spread
    rw [hsplit] at hnodup hviews ⊢
    refine selections_foldl_of_idle (p := ⟨d, [], false⟩) _ e selections hnodup hviews
      fun t' ht' => ?_
    obtain ⟨rfl, hsource⟩ := (htarget t').mp ht'
    rw [hidle hsource]
    exact Nat.zero_le _
  rw [hspread]
  split
  · rename_i hsource
    exact spreadTo_of_linked _ e selections ((htarget t).mpr ⟨rfl, hsource⟩)
  · rename_i hsource
    exact spreadTo_of_unlinked _ e selections fun t' ht' hsource' => by
      rw [hview, Target.uri_inj] at ht'
      exact hsource (ht' ▸ hsource')

/-- The report of a view brings the source of its target into sight, and no other document. -/
lemma uri?_deliver_view (hv : Host.uri? d.host v = some t.uri) (selections : List Selection) :
    let h := (d.deliver ⟨v, selections⟩).host
    (∃ e, Host.uri? h e = some t.source.uri) ∧
      ∀ e, Host.uri? h e = Host.uri? d.host e ∨ Host.uri? h e = some t.source.uri := by
  obtain ⟨dest, hdest, huri⟩ := display_fst d t.source.uri .source true
  have hdisplay : d.display t.source.uri .source true =
      (some dest, (d.display t.source.uri .source true).2) := Prod.ext hdest rfl
  have hshowed := showed_display d t.source.uri .source true
  have hopened : ∀ {d' : Desk MemoryHost}, Showed t.source.uri d d' →
      ∀ e, Host.uri? d'.host e = Host.uri? d.host e ∨ Host.uri? d'.host e = some t.source.uri :=
    fun hs e => (hs.opened e).imp_right And.right
  rw [deliver_of_view (r := ⟨v, selections⟩) (shown_of_view hv)]
  simp only
  rcases traceBack_of_display v selections hdisplay with
    ⟨-, hhost, -⟩ | ⟨-, -, hsame⟩ | ⟨-, -, hhost, -⟩
  · rw [hhost]
    exact ⟨⟨dest, huri⟩, hopened hshowed⟩
  · rw [hsame]
    exact ⟨⟨dest, huri⟩, hopened hshowed⟩
  · -- the source was shown once more, and written to
    have hagain := hshowed.trans (showed_display _ t.source.uri .source false)
    have hwritten := sameDocuments_writeArmed
      ((d.display t.source.uri .source true).2.display t.source.uri .source false).2.host dest
      (d.session.latchesOf t).source
      (carried (d.display t.source.uri .source true).2.host
        ((d.display t.source.uri .source true).2.session.product t) .reverse v selections dest)
    rw [hhost]
    refine ⟨⟨dest, ?_⟩, fun e => ?_⟩
    · rw [hwritten.uri?]
      exact uri?_display_again hdisplay false
    · rw [hwritten.uri?]
      exact hopened hagain e

/-- **Closing and linking agree on the document of a product without a bar in the path of its
source**, and only of such a product. A document whose closing drops the product passes its
selections on to the views of the target, unless an echo is awaited; no other document does.
And a selection in such a view brings the document into sight whose closing drops the
product, and no other. -/
theorem closing_agrees_with_links (hreached : d.session.Reached)
    (hp : d.session.store.find? t = some p) :
    (t.source = p.source ↔ '|' ∉ p.source.path.toList) ∧
    ('|' ∉ p.source.path.toList →
      (∀ (uri : String) (e v : EditorId) (selections : List Selection), isProductUri uri = false →
        Host.uri? d.host e = some uri → Host.uri? d.host v = some t.uri →
        let closed := (d.session.documentClosed d.host uri).result
        let h := (d.deliver ⟨e, selections⟩).host
        (t ∈ closed → d.session.sourceEchoes t = 0 →
          Host.selections h v =
            match carried d.host p .forward e selections v with
            | [] => Host.selections d.host v
            | mapped => mapped) ∧
        (t ∉ closed → Host.selections h v = Host.selections d.host v)) ∧
      ∀ (v : EditorId) (selections : List Selection), Host.uri? d.host v = some t.uri →
        let h := (d.deliver ⟨v, selections⟩).host
        t ∈ (d.session.documentClosed d.host p.source.uri).result ∧
        (∃ e, Host.uri? h e = some p.source.uri) ∧
        ∀ e, Host.uri? h e = Host.uri? d.host e ∨ Host.uri? h e = some p.source.uri) := by
  have htarget : p.target = t := hreached.coherent.target_eq hp
  have hsource : t.source = p.source ↔ '|' ∉ p.source.path.toList :=
    htarget ▸ p.source_target_eq_iff
  have hproduct : d.session.product t = p := by rw [Session.product, Store.get, hp]; rfl
  have hclosed : ∀ {uri : String}, isProductUri uri = false →
      (t ∈ (d.session.documentClosed d.host uri).result ↔ p.source = .parse uri) := by
    intro uri hdocument
    rw [Session.mem_documentClosed_iff hdocument]
    simp only [hp, Option.some.injEq, exists_eq_left']
  refine ⟨hsource, fun hbar => ⟨fun uri e v selections hdocument huri hv => ?_,
    fun v selections hv => ?_⟩⟩
  · simp only [hclosed hdocument, ← hsource.mpr hbar]
    refine ⟨fun hmine hidle => ?_, fun hother => ?_⟩
    · rw [selections_deliver_document huri hdocument hv fun _ => hidle, if_pos hmine, hproduct]
    · rw [selections_deliver_document huri hdocument hv fun h => absurd h hother, if_neg hother]
  · rw [← hsource.mpr hbar]
    refine ⟨(hclosed t.source.not_isProductUri_uri).mpr ?_, uri?_deliver_view hv selections⟩
    rw [t.source.parse_uri, hsource.mpr hbar]

/-- A document and a view of its product, which is stored. -/
def stored : Desk MemoryHost :=
  ⟨((Session.new .initial).save (.plain "/a.c" "ast" "t" "text")).session, pair⟩

/-- A caret in the document is carried to the view, and one in the view brings the document
into sight. -/
theorem closing_agrees_with_links_stored :
    let p := Product.plain "/a.c" "ast" "t" "text"
    (stored.session.Reached ∧ stored.session.store.find? p.target = some p ∧
      '|' ∉ p.source.path.toList ∧ isProductUri "file:///a.c" = false ∧
      Host.uri? stored.host ⟨0⟩ = some "file:///a.c" ∧
      Host.uri? stored.host ⟨1⟩ = some p.target.uri ∧
      p.target ∈ (stored.session.documentClosed stored.host "file:///a.c").result ∧
      stored.session.sourceEchoes p.target = 0) ∧
    Host.selections (stored.deliver ⟨⟨0⟩, [.caret ⟨1, 0⟩, .caret ⟨1, 0⟩]⟩).host ⟨1⟩ =
      [.caret ⟨0, 0⟩, .caret ⟨0, 0⟩] ∧
    ∃ e, Host.uri? (stored.deliver ⟨⟨1⟩, [.caret ⟨0, 0⟩]⟩).host e = some p.source.uri := by
  intro p
  have hreached : stored.session.Reached := .next (.new _) (.save p)
  have hp : stored.session.store.find? p.target = some p := by decide
  have hbar : '|' ∉ p.source.path.toList := by decide
  have hdocument : isProductUri "file:///a.c" = false := by decide
  have huri : Host.uri? stored.host ⟨0⟩ = some "file:///a.c" := by decide
  have hv : Host.uri? stored.host ⟨1⟩ = some p.target.uri := by decide
  have hclosed : p.target ∈ (stored.session.documentClosed stored.host "file:///a.c").result := by
    decide
  have hidle : stored.session.sourceEchoes p.target = 0 := by decide
  obtain ⟨hforward, hreverse⟩ := (closing_agrees_with_links hreached hp).2 hbar
  have hspread := (hforward _ ⟨0⟩ ⟨1⟩ [.caret ⟨1, 0⟩, .caret ⟨1, 0⟩] hdocument huri hv).1 hclosed
    hidle
  exact ⟨⟨hreached, hp, hbar, hdocument, huri, hv, hclosed, hidle⟩, hspread.trans (by decide),
    (hreverse ⟨1⟩ [.caret ⟨0, 0⟩] hv).2.1⟩

/-- With a bar in the path, the view of a stored product is linked to a document whose closing
does not drop it. -/
theorem linked_elsewhere :
    let p := Product.plain "/a|b.c" "ast" "t" "text"
    let s := ((Session.new .initial).save p).session
    let d : Desk MemoryHost := ⟨s, (MemoryHost.empty.openEditor p.target.uri ⟨2⟩).2⟩
    s.store.find? p.target = some p ∧ p.target.source ≠ p.source ∧
    Host.uri? (d.deliver ⟨⟨0⟩, [.caret ⟨0, 0⟩]⟩).host ⟨1⟩ = some "file:///a" ∧
    p.target ∉ (s.documentClosed d.host "file:///a").result ∧
    p.target ∈ (s.documentClosed d.host p.source.uri).result := by
  decide

end Desk

end LinkedViews
