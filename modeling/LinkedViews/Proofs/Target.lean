import LinkedViews.Proofs.Text.Cut
import LinkedViews.Target

/-!
The keys and the uris of targets.

The pieces of a target's name are its labels on the way down the tree. With bars between
them they are the name again, so no two targets have the same keys. A product uri parses
exactly if it is the uri of a target, that is, if it has a bar, and no document of a source has
one.
-/

namespace LinkedViews

lemma isProductUri_iff {raw : String} :
    isProductUri raw ↔ ∃ rest, raw = "monto:" ++ rest := by
  rw [isProductUri, Option.isSome_iff_exists]
  exact exists_congr fun _ => Text.rest?_eq_some_iff

namespace Target

lemma keys_ne_nil (t : Target) : t.keys ≠ [] := Text.pieces_ne_nil _ _

lemma intercalate_keys (t : Target) : "|".intercalate t.keys = t.name :=
  Text.intercalate_pieces '|' t.name

/-- On the way down the tree, the path of the source comes first. -/
lemma head?_keys (t : Target) : t.keys.head? = some t.sourcePath := Text.head?_pieces '|' t.name

lemma keys_inj {t t' : Target} (h : t.keys = t'.keys) : t = t' :=
  Target.ext (Text.pieces_inj h)

/-- A uri that parses is that of its target. -/
lemma uri_of_parse {uri : String} {t : Target} (h : parse uri = .ok t) : t.uri = uri := by
  rw [parse] at h
  split at h
  · cases h
  · rename_i name hname
    split at h
    · cases h
      exact (Text.rest?_eq_some_iff.mp hname).symm
    · cases h

lemma parse_eq_ok_iff {uri : String} {t : Target} : parse uri = .ok t ↔ uri = t.uri := by
  constructor
  · intro h
    exact (uri_of_parse h).symm
  · rintro rfl
    exact parse_uri t

/-- Exactly the texts with the scheme and a bar behind it parse. -/
lemma exists_parse_eq_ok_iff {raw : String} :
    (∃ t, parse raw = .ok t) ↔ ∃ rest, raw = "monto:" ++ rest ∧ '|' ∈ rest.toList := by
  simp only [parse_eq_ok_iff]
  constructor
  · rintro ⟨t, rfl⟩
    exact ⟨t.name, rfl, t.separated⟩
  · rintro ⟨rest, rfl, hbar⟩
    exact ⟨⟨rest, hbar⟩, rfl⟩

/-- What does not parse is in the error as it was given. -/
lemma parse_eq_error_iff {raw : String} {e : MalformedTarget} :
    parse raw = .error e ↔ e = ⟨raw⟩ ∧ ¬ ∃ t, parse raw = .ok t := by
  constructor
  · intro h
    refine ⟨?_, fun ⟨t, ht⟩ => by rw [h] at ht; cases ht⟩
    rw [parse] at h
    split at h
    · exact (Except.error.inj h).symm
    · split at h
      · cases h
      · exact (Except.error.inj h).symm
  · rintro ⟨rfl, hnone⟩
    rw [parse]
    split
    · rfl
    · rename_i name hname
      refine dif_neg fun hbar => hnone (exists_parse_eq_ok_iff.mpr ⟨name, ?_, hbar⟩)
      exact Text.rest?_eq_some_iff.mp hname

/-- The name is what follows the six bytes of the scheme in the uri. -/
lemma toByteArray_name (t : Target) :
    t.uri.toByteArray.extract 6 t.uri.utf8ByteSize = t.name.toByteArray := by
  have hbytes : t.uri.toByteArray = "monto:".toByteArray ++ t.name.toByteArray :=
    String.toByteArray_append
  have hsize : t.uri.utf8ByteSize = 6 + t.name.utf8ByteSize := String.utf8ByteSize_append
  rw [hbytes, hsize]
  exact ByteArray.extract_append_eq_right rfl rfl

lemma isProductUri_uri (t : Target) : isProductUri t.uri = true := by
  rw [isProductUri, Text.rest?_eq_some_iff.mpr (rfl : t.uri = productScheme ++ t.name)]; rfl

/-- **Product uris and the keys of targets.** A text parses exactly if it has the scheme and a
bar behind it. It is then the uri of its target, and otherwise it comes back in the error, be it
a product uri or none. Every target, and so each that is made of a source, a name and a language,
is read back from its uri, in which its name follows the scheme. It has two keys at least, the
path of its source first, and with bars between them they are the name. No two targets have the
same keys. -/
theorem parse_and_keys :
    (∀ raw, (∃ t, parse raw = .ok t) ↔ ∃ rest, raw = "monto:" ++ rest ∧ '|' ∈ rest.toList) ∧
    (∀ raw t, parse raw = .ok t ↔ t.uri = raw) ∧
    (∀ raw e, parse raw = .error e ↔ e = ⟨raw⟩ ∧ ¬ ∃ t, parse raw = .ok t) ∧
    (∀ raw, isProductUri raw ↔ ∃ rest, raw = "monto:" ++ rest) ∧
    (∀ source name language, (of source name language).uri =
      "monto:" ++ (source.path ++ "|" ++ name ++ "." ++ language)) ∧
    (∀ t, parse t.uri = .ok t ∧
      t.uri.toByteArray.extract 6 t.uri.utf8ByteSize = t.name.toByteArray ∧
      2 ≤ t.keys.length ∧ "|".intercalate t.keys = t.name ∧
      t.keys.head? = some t.sourcePath) ∧
    ∀ t t' : Target, t.keys = t'.keys ↔ t = t' := by
  refine ⟨fun _ => exists_parse_eq_ok_iff, fun raw t => ?_, fun _ _ => parse_eq_error_iff,
    fun _ => isProductUri_iff, fun _ _ _ => rfl, fun t => ?_, fun t t' => ?_⟩
  · rw [parse_eq_ok_iff, eq_comm]
  · have hkeys : 2 ≤ t.keys.length := Text.two_le_length_pieces t.separated
    exact ⟨t.parse_uri, t.toByteArray_name, hkeys, t.intercalate_keys, t.head?_keys⟩
  · exact ⟨keys_inj, congrArg keys⟩

/-- Bars at both ends, and two side by side. -/
example : (parse "monto:|a||é|").toOption.map keys = some ["", "a", "", "é", ""] := by decide

end Target

lemma Source.not_isProductUri_uri (s : Source) : isProductUri s.uri = false := by
  have hscheme : ¬ productScheme.toList <+: s.uri.toList := by
    simp [Source.uri, productScheme]
  rw [isProductUri, Text.rest?_eq_none_iff.mpr hscheme]; rfl

end LinkedViews
