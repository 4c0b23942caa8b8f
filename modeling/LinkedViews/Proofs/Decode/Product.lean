import LinkedViews.Decode.Product
import LinkedViews.Proofs.Decode.Record

/-!
What spans, links and products are read from.

Each is read from the parts of a record, be it an object or an array: the reading succeeds
exactly if all fields give values, and these make up the result.
-/

namespace LinkedViews

open Decode

namespace Span

/-- The value gives the bounds of the span, in one order or the other. -/
inductive Parts (v : Json) : Span → Prop where
  | mk {start stop : UInt64} (record : v.IsRecord 2)
    (hstart : Yields offset none (v.part? 0 "start") start)
    (hstop : Yields offset none (v.part? 1 "end") stop) : Parts v (between start stop)

theorem decode_eq_ok_iff {v : Json} {s : Span} : decode v = .ok s ↔ Parts v s := by
  constructor
  · intro h
    cases v with
    | obj members =>
      simp only [decode, bind_eq_ok_iff, pure_eq_ok_iff] at h
      obtain ⟨stop?, hstop?, start?, hstart?, start, hstart, stop, hstop, rfl⟩ := h
      exact ⟨trivial, yields_require_iff.mpr ⟨_, hstart?, hstart⟩,
        yields_require_iff.mpr ⟨_, hstop?, hstop⟩⟩
    | arr items =>
      simp only [decode, bind_eq_ok_iff, pure_eq_ok_iff, element_eq_ok_iff, close_eq_ok_iff] at h
      obtain ⟨start, hstart, stop, hstop, -, hlength, rfl⟩ := h
      exact ⟨hlength, hstart, hstop⟩
    | _ => cases h
  · rintro ⟨hrecord, hstart, hstop⟩
    cases v with
    | obj members =>
      obtain ⟨start?, hstart?, hstart⟩ := yields_require_iff.mp hstart
      obtain ⟨stop?, hstop?, hstop⟩ := yields_require_iff.mp hstop
      simp only [decode, bind_eq_ok_iff, pure_eq_ok_iff]
      exact ⟨_, hstop?, _, hstart?, _, hstart, _, hstop, rfl⟩
    | arr items =>
      simp only [decode, bind_eq_ok_iff, pure_eq_ok_iff, element_eq_ok_iff, close_eq_ok_iff]
      exact ⟨_, hstart, _, hstop, (), hrecord, rfl⟩
    | _ => cases hrecord

end Span

namespace Link

/-- The value gives the parts of the link. -/
structure Parts (v : Json) (l : Link) : Prop where
  record : v.IsRecord 2
  source : Yields Span.decode none (v.part? 0 "source") l.source
  targets : Yields (sequence Span.decode) (some []) (v.part? 1 "targets") l.targets

theorem decode_eq_ok_iff {v : Json} {l : Link} : decode v = .ok l ↔ Parts v l := by
  constructor
  · intro h
    cases v with
    | obj members =>
      simp only [decode, bind_eq_ok_iff, pure_eq_ok_iff] at h
      obtain ⟨source?, hsource?, targets?, htargets?, source, hsource, rfl⟩ := h
      exact ⟨trivial, yields_require_iff.mpr ⟨_, hsource?, hsource⟩,
        yields_getD_iff.mpr ⟨_, htargets?, rfl⟩⟩
    | arr items =>
      simp only [decode, bind_eq_ok_iff, pure_eq_ok_iff, element_eq_ok_iff, elementOr_eq_ok_iff,
        close_eq_ok_iff] at h
      obtain ⟨source, hsource, targets, htargets, -, hlength, rfl⟩ := h
      exact ⟨hlength, hsource, htargets⟩
    | _ => cases h
  · rintro ⟨hrecord, hsource, htargets⟩
    cases v with
    | obj members =>
      obtain ⟨source?, hsource?, hsource⟩ := yields_require_iff.mp hsource
      obtain ⟨targets?, htargets?, htargets⟩ := yields_getD_iff.mp htargets
      simp only [decode, bind_eq_ok_iff, pure_eq_ok_iff]
      exact ⟨_, hsource?, _, htargets?, _, hsource, by rw [htargets]⟩
    | arr items =>
      simp only [decode, bind_eq_ok_iff, pure_eq_ok_iff, element_eq_ok_iff, elementOr_eq_ok_iff,
        close_eq_ok_iff]
      exact ⟨_, hsource, _, htargets, (), hrecord, rfl⟩
    | _ => cases hrecord

end Link

namespace Product

/-- The value gives the parts of the product, and the source by any spelling of it. -/
structure Parts (v : Json) (p : Product) : Prop where
  record : v.IsRecord 7
  source : ∃ uri, Yields string none (v.part? 0 "uri") uri ∧ .parse uri = p.source
  name : Yields string none (v.part? 1 "name") p.name
  language : Yields string none (v.part? 2 "language") p.language
  content : Yields string (some "") (v.part? 3 "content") p.content
  continues : Yields boolean (some false) (v.part? 4 "append") p.continues
  forward : Yields (sequence Link.decode) (some []) (v.part? 5 "rangeMap") p.forward
  reverse : Yields (sequence Link.decode) (some []) (v.part? 6 "rangeMapRev") p.reverse

lemma parts_of_decode {v : Json} {p : Product} (h : decode v = .ok p) : Parts v p := by
  cases v with
  | obj members =>
    simp only [decode, bind_eq_ok_iff, pure_eq_ok_iff] at h
    obtain ⟨continues?, hcontinues?, content?, hcontent?, language?, hlanguage?, name?, hname?,
      forward?, hforward?, reverse?, hreverse?, uri?, huri?, uri, huri, name, hname, language,
      hlanguage, rfl⟩ := h
    exact {
      record := trivial
      source := ⟨uri, yields_require_iff.mpr ⟨_, huri?, huri⟩, by dsimp only⟩
      name := yields_require_iff.mpr ⟨_, hname?, hname⟩
      language := yields_require_iff.mpr ⟨_, hlanguage?, hlanguage⟩
      content := yields_getD_iff.mpr ⟨_, hcontent?, rfl⟩
      continues := yields_getD_iff.mpr ⟨_, hcontinues?, rfl⟩
      forward := yields_getD_iff.mpr ⟨_, hforward?, rfl⟩
      reverse := yields_getD_iff.mpr ⟨_, hreverse?, rfl⟩ }
  | arr items =>
    simp only [decode, bind_eq_ok_iff, pure_eq_ok_iff, element_eq_ok_iff, elementOr_eq_ok_iff,
      close_eq_ok_iff] at h
    obtain ⟨uri, huri, name, hname, language, hlanguage, content, hcontent, continues, hcontinues,
      forward, hforward, reverse, hreverse, -, hlength, rfl⟩ := h
    exact ⟨hlength, ⟨uri, huri, by dsimp only⟩, hname, hlanguage, hcontent, hcontinues, hforward,
      hreverse⟩
  | _ => cases h

lemma decode_of_parts {v : Json} {p : Product} (h : Parts v p) : decode v = .ok p := by
  obtain ⟨source, name, language, content, continues, forward, reverse⟩ := p
  obtain ⟨hrecord, ⟨uri, huri, rfl⟩, hname, hlanguage, hcontent, hcontinues, hforward,
    hreverse⟩ := h
  cases v with
  | obj members =>
    obtain ⟨uri?, huri?, huri⟩ := yields_require_iff.mp huri
    obtain ⟨name?, hname?, hname⟩ := yields_require_iff.mp hname
    obtain ⟨language?, hlanguage?, hlanguage⟩ := yields_require_iff.mp hlanguage
    obtain ⟨content?, hcontent?, rfl⟩ := yields_getD_iff.mp hcontent
    obtain ⟨continues?, hcontinues?, rfl⟩ := yields_getD_iff.mp hcontinues
    obtain ⟨forward?, hforward?, rfl⟩ := yields_getD_iff.mp hforward
    obtain ⟨reverse?, hreverse?, rfl⟩ := yields_getD_iff.mp hreverse
    simp only [decode, bind_eq_ok_iff, pure_eq_ok_iff]
    exact ⟨_, hcontinues?, _, hcontent?, _, hlanguage?, _, hname?, _, hforward?, _, hreverse?,
      _, huri?, _, huri, _, hname, _, hlanguage, rfl⟩
  | arr items =>
    simp only [decode, bind_eq_ok_iff, pure_eq_ok_iff, element_eq_ok_iff, elementOr_eq_ok_iff,
        close_eq_ok_iff]
    exact ⟨_, huri, _, hname, _, hlanguage, _, hcontent, _, hcontinues, _, hforward, _, hreverse,
      (), hrecord, rfl⟩
  | _ => cases hrecord

theorem decode_eq_ok_iff {v : Json} {p : Product} : decode v = .ok p ↔ Parts v p :=
  ⟨parts_of_decode, decode_of_parts⟩

end Product

end LinkedViews
