import LinkedViews.Message
import LinkedViews.Proofs.Decode.Form
import LinkedViews.Proofs.Decode.Product

/-!
Which JSON values are products.

Spans, links and products are records, each an object or an array. The forms list their fields in
the order of the declaration, which is not the order in which the fields of an object are read.
-/

namespace LinkedViews

open Decode

namespace Span

def form : Form := .record [⟨"start", .offset, false⟩, ⟨"end", .offset, false⟩]

lemma readBy_form : form.ReadBy decode where
  accepts_iff v := by
    simp only [form, Form.record, Form.forall_cons_iff, Form.forall_nil_iff, and_true,
      decode_eq_ok_iff, ← Form.readBy_offset.required_iff]
    constructor
    · rintro ⟨_, hrecord, hstart, hstop⟩
      exact ⟨hrecord, ⟨_, hstart⟩, _, hstop⟩
    · rintro ⟨hrecord, ⟨_, hstart⟩, _, hstop⟩
      exact ⟨_, hrecord, hstart, hstop⟩
  congr := by
    rintro v w (rfl | ⟨hshape, hparts⟩)
    · rfl
    · simp only [Form.forall_cons_iff] at hparts
      obtain ⟨hstart, hstop, -⟩ := hparts
      cases hshape with
      | obj members members' =>
        simp only [decode, Form.readBy_offset.field?_congr hstart,
          Form.readBy_offset.field?_congr hstop]
      | arr hlength =>
        simp only [decode, close, hlength, Form.readBy_offset.element_congr hlength hstart,
          Form.readBy_offset.element_congr hlength hstop]

end Span

namespace Link

def form : Form := .record [⟨"source", Span.form, false⟩, ⟨"targets", .sequence Span.form, true⟩]

lemma readBy_form : form.ReadBy decode where
  accepts_iff v := by
    simp only [form, Form.record, Form.forall_cons_iff, Form.forall_nil_iff, and_true,
      decode_eq_ok_iff, ← Span.readBy_form.required_iff,
      ← Span.readBy_form.sequence.optional_iff []]
    constructor
    · rintro ⟨_, hrecord, hsource, htargets⟩
      exact ⟨hrecord, ⟨_, hsource⟩, _, htargets⟩
    · rintro ⟨hrecord, ⟨source, hsource⟩, targets, htargets⟩
      exact ⟨⟨source, targets⟩, hrecord, hsource, htargets⟩
  congr := by
    rintro v w (rfl | ⟨hshape, hparts⟩)
    · rfl
    · simp only [Form.forall_cons_iff] at hparts
      obtain ⟨hsource, htargets, -⟩ := hparts
      cases hshape with
      | obj members members' =>
        simp only [decode, Span.readBy_form.field?_congr hsource,
          Span.readBy_form.sequence.field?_congr htargets]
      | arr hlength =>
        simp only [decode, close, hlength, Span.readBy_form.element_congr hlength hsource,
          Span.readBy_form.sequence.elementOr_congr htargets]

end Link

namespace Product

def form : Form := .record [
  ⟨"uri", .string, false⟩,
  ⟨"name", .string, false⟩,
  ⟨"language", .string, false⟩,
  ⟨"content", .string, true⟩,
  ⟨"append", .boolean, true⟩,
  ⟨"rangeMap", .sequence Link.form, true⟩,
  ⟨"rangeMapRev", .sequence Link.form, true⟩]

lemma readBy_form : form.ReadBy decode where
  accepts_iff v := by
    simp only [form, Form.record, Form.forall_cons_iff, Form.forall_nil_iff, and_true,
      decode_eq_ok_iff, ← Form.readBy_string.required_iff, ← Form.readBy_string.optional_iff "",
      ← Form.readBy_boolean.optional_iff false, ← Link.readBy_form.sequence.optional_iff []]
    constructor
    · rintro ⟨_, hrecord, ⟨_, huri, -⟩, hname, hlanguage, hcontent, hcontinues, hforward,
        hreverse⟩
      exact ⟨hrecord, ⟨_, huri⟩, ⟨_, hname⟩, ⟨_, hlanguage⟩, ⟨_, hcontent⟩, ⟨_, hcontinues⟩,
        ⟨_, hforward⟩, _, hreverse⟩
    · rintro ⟨hrecord, ⟨uri, huri⟩, ⟨name, hname⟩, ⟨language, hlanguage⟩, ⟨content, hcontent⟩,
        ⟨continues, hcontinues⟩, ⟨forward, hforward⟩, reverse, hreverse⟩
      exact ⟨⟨.parse uri, name, language, content, continues, forward, reverse⟩, hrecord,
        ⟨uri, huri, by dsimp only⟩, hname, hlanguage, hcontent, hcontinues, hforward, hreverse⟩
  congr := by
    rintro v w (rfl | ⟨hshape, hparts⟩)
    · rfl
    · simp only [Form.forall_cons_iff] at hparts
      obtain ⟨huri, hname, hlanguage, hcontent, hcontinues, hforward, hreverse, -⟩ := hparts
      cases hshape with
      | obj members members' =>
        simp only [decode, Form.readBy_string.field?_congr huri,
          Form.readBy_string.field?_congr hname, Form.readBy_string.field?_congr hlanguage,
          Form.readBy_string.field?_congr hcontent, Form.readBy_boolean.field?_congr hcontinues,
          Link.readBy_form.sequence.field?_congr hforward,
          Link.readBy_form.sequence.field?_congr hreverse]
      | arr hlength =>
        simp only [decode, close, hlength, Form.readBy_string.element_congr hlength huri,
          Form.readBy_string.element_congr hlength hname,
          Form.readBy_string.element_congr hlength hlanguage,
          Form.readBy_string.elementOr_congr hcontent,
          Form.readBy_boolean.elementOr_congr hcontinues,
          Link.readBy_form.sequence.elementOr_congr hforward,
          Link.readBy_form.sequence.elementOr_congr hreverse]

/-- As an object with all its fields, and as the array of them, a product is read alike. -/
lemma decode_obj_eq_ok_iff {uri name language content append forward reverse : Json}
    {p : Product} :
    decode (.obj [("append", append), ("content", content), ("language", language),
      ("name", name), ("rangeMap", forward), ("rangeMapRev", reverse), ("uri", uri)]) = .ok p ↔
    decode (.arr [uri, name, language, content, append, forward, reverse]) = .ok p := by
  rw [decode_eq_ok_iff, decode_eq_ok_iff]
  constructor
  · intro h
    exact ⟨Nat.le_refl 7, h.source, h.name, h.language, h.content, h.continues, h.forward,
      h.reverse⟩
  · intro h
    exact ⟨trivial, h.source, h.name, h.language, h.content, h.continues, h.forward, h.reverse⟩

end Product

lemma Message.productOf_eq_ok_iff {v : Json} {p : Product} :
    productOf v = .ok p ↔ Product.decode v = .ok p := by
  rw [productOf]
  cases Product.decode v with
  | ok q => simp [Except.mapError]
  | error e => simp [Except.mapError]

/-- **What can be published.** The parameters of a message bring a product exactly if they have
the form of products. Keys that the form does not have make no difference, at any depth, not even
to the error. And an object with all fields brings what the array of the fields brings. -/
theorem Message.productOf_grammar :
    (∀ v, (∃ p, productOf v = .ok p) ↔ Product.form.Accepts v) ∧
    (∀ v w, Product.form.Same v w → productOf v = productOf w) ∧
    ∀ (uri name language content append forward reverse : Json) (p : Product),
      productOf (.obj [("append", append), ("content", content), ("language", language),
        ("name", name), ("rangeMap", forward), ("rangeMapRev", reverse), ("uri", uri)]) = .ok p ↔
      productOf (.arr [uri, name, language, content, append, forward, reverse]) = .ok p := by
  refine ⟨fun v => ?_, fun v w h => ?_, fun _ _ _ _ _ _ _ _ => ?_⟩
  · simp only [productOf_eq_ok_iff]
    exact Product.readBy_form.accepts_iff v
  · rw [productOf, productOf, Product.readBy_form.congr h]
  · rw [productOf_eq_ok_iff, productOf_eq_ok_iff]
    exact Product.decode_obj_eq_ok_iff

/-- Two messages that differ in keys at three depths, and in the order of keys, with spans and
links in both forms. -/
theorem Message.productOf_grammar_foreign :
    let v : Json := .obj [("uri", .str "/a.c"), ("note", .null), ("name", .str "ast"),
      ("language", .str "text"), ("rangeMap", .arr [
        .obj [("weight", .unsigned 1), ("source", .arr [.unsigned 5, .unsigned 2])],
        .arr [.obj [("unit", .str "byte"), ("end", .unsigned 3), ("start", .unsigned 0)]]])]
    let w : Json := .obj [("language", .str "text"), ("name", .str "ast"),
      ("rangeMap", .arr [
        .obj [("source", .arr [.unsigned 5, .unsigned 2])],
        .arr [.obj [("end", .unsigned 3), ("start", .unsigned 0)]]]), ("uri", .str "/a.c")]
    let p : Product :=
      ⟨.parse "/a.c", "ast", "text", "", false, [⟨⟨2, 5⟩, []⟩, ⟨⟨0, 3⟩, []⟩], []⟩
    Product.form.Same v w ∧ productOf v = productOf w ∧ productOf w = .ok p := by
  intro v w p
  have hlink : Link.form.Same
      (.obj [("weight", .unsigned 1), ("source", .arr [.unsigned 5, .unsigned 2])])
      (.obj [("source", .arr [.unsigned 5, .unsigned 2])]) := by
    refine .inr ⟨.obj _ _, ?_⟩
    simp only [Form.forall_cons_iff, Form.forall_nil_iff, and_true]
    exact ⟨.some (.inl rfl), .none⟩
  have hspan : Span.form.Same
      (.obj [("unit", .str "byte"), ("end", .unsigned 3), ("start", .unsigned 0)])
      (.obj [("end", .unsigned 3), ("start", .unsigned 0)]) := by
    refine .inr ⟨.obj _ _, ?_⟩
    simp only [Form.forall_cons_iff, Form.forall_nil_iff, and_true]
    exact ⟨.some rfl, .some rfl⟩
  have hlink' : Link.form.Same
      (.arr [.obj [("unit", .str "byte"), ("end", .unsigned 3), ("start", .unsigned 0)]])
      (.arr [.obj [("end", .unsigned 3), ("start", .unsigned 0)]]) := by
    refine .inr ⟨.arr rfl, ?_⟩
    simp only [Form.forall_cons_iff, Form.forall_nil_iff, and_true]
    exact ⟨.some hspan, .none⟩
  have hsame : Product.form.Same v w := by
    refine .inr ⟨.obj _ _, ?_⟩
    simp only [Form.forall_cons_iff, Form.forall_nil_iff, and_true]
    exact ⟨.some rfl, .some rfl, .some rfl, .none, .none,
      .some (.inr ⟨_, _, rfl, rfl, .cons hlink (.cons hlink' .nil)⟩), .none⟩
  exact ⟨hsame, productOf_grammar.2.1 v w hsame, rfl⟩

end LinkedViews
