import LinkedViews.Proofs.Decode.Product
import LinkedViews.Proofs.Source

/-!
Products written as JSON and read back.

A product whose spans are ordered is read back from what it is written as. What is read is
always of this kind, in whatever form it came: so it is written in one form, and stays in it.
-/

namespace LinkedViews

open Decode

/-- The uri that its document is written with, among all the spellings of it. -/
def Source.IsCanonical (uri : String) : Prop := (parse uri).uri = uri

namespace Span

def Ordered (s : Span) : Prop := s.start ≤ s.stop

/-- The JSON of an ordered span. -/
inductive Normal : Json → Prop where
  | mk {start stop : UInt64} (h : start ≤ stop) :
    Normal (.obj [("end", .unsigned stop), ("start", .unsigned start)])

lemma ordered_of_decode {v : Json} {s : Span} (h : decode v = .ok s) : s.Ordered := by
  obtain ⟨-, -, -⟩ := decode_eq_ok_iff.mp h
  exact start_le_stop_between _ _

lemma normal_iff {v : Json} : Normal v ↔ ∃ s : Span, s.Ordered ∧ s.toJson = v := by
  constructor
  · rintro ⟨h⟩
    exact ⟨⟨_, _⟩, h, rfl⟩
  · rintro ⟨s, h, rfl⟩
    exact ⟨h⟩

end Span

namespace Decode

/-- Values that are all written in one way are written as the items of a sequence. -/
lemma forall_mem_iff_exists_map {α : Type} {P : α → Prop} {write : α → Json} {items : List Json} :
    (∀ v ∈ items, ∃ a, P a ∧ write a = v) ↔
      ∃ as : List α, (∀ a ∈ as, P a) ∧ as.map write = items := by
  constructor
  · intro h
    obtain ⟨as, has⟩ := exists_forall₂_iff.mpr h
    refine ⟨as, ?_, ?_⟩
    · induction has with
      | nil => exact List.forall_mem_nil P
      | cons hitem _ ih =>
        exact List.forall_mem_cons.mpr ⟨hitem.1, ih fun v hv => h v (.tail _ hv)⟩
    · clear h
      induction has with
      | nil => rfl
      | cons hitem _ ih => rw [List.map_cons, hitem.2, ih]
  · rintro ⟨as, has, rfl⟩ v hv
    obtain ⟨a, ha, rfl⟩ := List.mem_map.mp hv
    exact ⟨a, has a ha, rfl⟩

end Decode

namespace Link

structure Ordered (l : Link) : Prop where
  source : l.source.Ordered
  targets : ∀ s ∈ l.targets, s.Ordered

/-- The JSON of a link with ordered spans. -/
inductive Normal : Json → Prop where
  | mk {source : Json} {targets : List Json} (hsource : Span.Normal source)
    (htargets : ∀ v ∈ targets, Span.Normal v) :
    Normal (.obj [("source", source), ("targets", .arr targets)])

lemma ordered_of_decode {v : Json} {l : Link} (h : decode v = .ok l) : l.Ordered := by
  obtain ⟨-, hsource, htargets⟩ := decode_eq_ok_iff.mp h
  refine ⟨?_, htargets.forall_mem fun _ _ => Span.ordered_of_decode⟩
  cases hpart : v.part? 0 "source" with
  | none => rw [hpart] at hsource; cases hsource
  | some w => rw [hpart] at hsource; exact Span.ordered_of_decode hsource

lemma decode_toJson {l : Link} (h : l.Ordered) : decode l.toJson = .ok l :=
  decode_eq_ok_iff.mpr {
    record := trivial
    source := Span.decode_toJson h.source
    targets := sequence_map fun s hs => Span.decode_toJson (h.targets s hs) }

lemma normal_iff {v : Json} : Normal v ↔ ∃ l : Link, l.Ordered ∧ l.toJson = v := by
  constructor
  · rintro ⟨hsource, htargets⟩
    simp only [Span.normal_iff, forall_mem_iff_exists_map] at hsource htargets
    obtain ⟨source, hordered, rfl⟩ := hsource
    obtain ⟨targets, hall, rfl⟩ := htargets
    exact ⟨⟨source, targets⟩, ⟨hordered, hall⟩, rfl⟩
  · rintro ⟨l, hl, rfl⟩
    refine ⟨Span.normal_iff.mpr ⟨_, hl.source, rfl⟩, ?_⟩
    simp only [Span.normal_iff, forall_mem_iff_exists_map]
    exact ⟨_, hl.targets, rfl⟩

end Link

namespace Product

/-- All spans of the product are ordered. -/
structure Ordered (p : Product) : Prop where
  forward : ∀ l ∈ p.forward, l.Ordered
  reverse : ∀ l ∈ p.reverse, l.Ordered

/-- The JSON of a product with ordered spans: an object with all fields, in which the source has
its canonical uri. -/
inductive Normal : Json → Prop where
  | mk {continues : Bool} {content language name uri : String} {forward reverse : List Json}
    (hforward : ∀ v ∈ forward, Link.Normal v) (hreverse : ∀ v ∈ reverse, Link.Normal v)
    (huri : Source.IsCanonical uri) :
    Normal (.obj [("append", .bool continues), ("content", .str content),
      ("language", .str language), ("name", .str name), ("rangeMap", .arr forward),
      ("rangeMapRev", .arr reverse), ("uri", .str uri)])

variable {v : Json} {p : Product}

lemma ordered_of_decode (h : decode v = .ok p) : p.Ordered where
  forward := (decode_eq_ok_iff.mp h).forward.forall_mem fun _ _ => Link.ordered_of_decode
  reverse := (decode_eq_ok_iff.mp h).reverse.forall_mem fun _ _ => Link.ordered_of_decode

lemma decode_toJson (h : p.Ordered) : decode p.toJson = .ok p :=
  decode_eq_ok_iff.mpr {
    record := trivial
    source := ⟨p.source.uri, rfl, Source.parse_uri p.source⟩
    name := rfl
    language := rfl
    content := rfl
    continues := rfl
    forward := sequence_map fun l hl => Link.decode_toJson (h.forward l hl)
    reverse := sequence_map fun l hl => Link.decode_toJson (h.reverse l hl) }

lemma normal_iff : Normal v ↔ ∃ p : Product, p.Ordered ∧ p.toJson = v := by
  constructor
  · rintro @⟨continues, content, language, name, uri, _, _, hforward, hreverse, huri⟩
    simp only [Link.normal_iff, forall_mem_iff_exists_map] at hforward hreverse
    obtain ⟨forward, hfwd, rfl⟩ := hforward
    obtain ⟨reverse, hrev, rfl⟩ := hreverse
    refine ⟨⟨.parse uri, name, language, content, continues, forward, reverse⟩, ⟨hfwd, hrev⟩, ?_⟩
    have hspelling : (Source.parse uri).uri = uri := huri
    simp only [toJson, hspelling]
  · rintro ⟨p, hp, rfl⟩
    refine ⟨?_, ?_, congrArg Source.uri (Source.parse_uri p.source)⟩
    · simp only [Link.normal_iff, forall_mem_iff_exists_map]
      exact ⟨_, hp.forward, rfl⟩
    · simp only [Link.normal_iff, forall_mem_iff_exists_map]
      exact ⟨_, hp.reverse, rfl⟩

/-- **Round trips.** A product is read back from what it is written as exactly if its spans are
ordered. What is read from any value at all is a product of this kind: it is written in normal
form, and read back and written once more it is as before. The values in normal form are those
that reading and writing leave alone. -/
theorem json_round_trip :
    (∀ p : Product, decode p.toJson = .ok p ↔ p.Ordered) ∧
    (∀ v p, decode v = .ok p → p.Ordered ∧ Normal p.toJson ∧ decode p.toJson = .ok p ∧
      (decode p.toJson).map toJson = .ok p.toJson) ∧
    ∀ v, (decode v).map toJson = .ok v ↔ Normal v := by
  refine ⟨fun p => ⟨ordered_of_decode, decode_toJson⟩, fun v p h => ?_, fun v => ⟨?_, ?_⟩⟩
  · have hp := ordered_of_decode h
    have hback := decode_toJson hp
    refine ⟨hp, normal_iff.mpr ⟨p, hp, rfl⟩, hback, ?_⟩
    rw [hback, Except.map]
  · intro h
    cases hv : decode v with
    | ok p =>
      rw [hv, Except.map, Except.ok.injEq] at h
      exact normal_iff.mpr ⟨p, ordered_of_decode hv, h⟩
    | error e => rw [hv] at h; cases h
  · intro h
    obtain ⟨p, hp, rfl⟩ := normal_iff.mp h
    rw [decode_toJson hp, Except.map]

/-- Spans the wrong way round, in both forms, of a document whose path has a bar, a percent sign
and a letter outside of ASCII. -/
theorem json_round_trip_mixed :
    let v : Json := .obj [("language", .str "SVG"), ("name", .str "ast"),
      ("rangeMap", .arr [.arr [.obj [("end", .unsigned 2), ("start", .unsigned 5)],
        .arr [.arr [.unsigned 9, .unsigned 0]]]]),
      ("uri", .str "file://host/a%20%25|é.c")]
    let p : Product :=
      ⟨.parse "file://host/a%20%25|é.c", "ast", "SVG", "", false, [⟨⟨2, 5⟩, [⟨0, 9⟩]⟩], []⟩
    decode v = .ok p ∧ p.Ordered ∧ Normal p.toJson ∧ decode p.toJson = .ok p ∧
      p.source.uri = "file:///a%20%25%7C%C3%A9.c" := by
  intro v p
  have hread : decode v = .ok p := rfl
  obtain ⟨hp, hnormal, hback, -⟩ := json_round_trip.2.1 v p hread
  exact ⟨hread, hp, hnormal, hback, by decide⟩

end Product

end LinkedViews
