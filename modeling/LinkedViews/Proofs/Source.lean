import LinkedViews.Disk
import LinkedViews.Proofs.Text.Escapes

/-!
The spellings of a source document.

The uri of a document is one of its spellings, so every text that is read as a document, and
every path and file of one, leads to the identity that its uri leads to. A path that starts at
the root may be spelled alone or behind the scheme, with an authority or without one. It is
decoded in each of these.
-/

namespace LinkedViews

lemma FileName.text_ofText (s : String) : (ofText s).text = s := by
  rw [text, ofText, Text.Utf8.decode_encode, String.ofList_toList]

namespace Source

lemma rooted_iff {cs : List Char} :
    cs.head?.all (· == '/') ↔ cs = [] ∨ ∃ rest, cs = '/' :: rest := by
  cases cs with
  | nil => simp
  | cons c cs => simp

lemma dropWhile_of_rooted {cs : List Char} (h : cs.head?.all (· == '/')) :
    cs.dropWhile (· != '/') = cs := by
  rcases rooted_iff.mp h with rfl | ⟨rest, rfl⟩ <;> rfl

/-- A coded path is empty or starts at the root like the path. -/
lemma encode_rooted (s : Source) : (Text.Percent.encode s.path).toList.head?.all (· == '/') := by
  rw [Text.Percent.encode, String.toList_ofList]
  rcases rooted_iff.mp s.rooted with hpath | ⟨rest, hpath⟩
  · rw [hpath]; rfl
  · rw [hpath, Text.Utf8.encode_cons, List.flatMap_append]; rfl

/-! ### Behind the scheme -/

lemma parse_file (rest : String) :
    parse ("file:" ++ rest) = ofPath (Text.Percent.decode (pathPart rest)) := by
  rw [parse, Text.rest?_eq_some_iff.mpr rfl, Option.map_some, Option.getD_some]

/-- An authority is left out. -/
lemma pathPart_located {host path : String} (hhost : '/' ∉ host.toList)
    (hpath : path.toList.head?.all (· == '/')) : pathPart ("//" ++ (host ++ path)) = path := by
  have hskip : ∀ c ∈ host.toList, (c != '/') = true := fun c hc =>
    bne_iff_ne.mpr fun h => hhost (h ▸ hc)
  rw [pathPart, Text.rest?_eq_some_iff.mpr rfl]
  simp only [String.toList_append]
  rw [List.dropWhile_append_of_pos hskip, dropWhile_of_rooted hpath, String.ofList_toList]

lemma pathPart_of_not_located {path : String} (h : ¬ "//".toList <+: path.toList) :
    pathPart path = path := by
  rw [pathPart, Text.rest?_eq_none_iff.mpr h]

/-! ### Alone -/

lemma path_ofPath {path : String} (h : path.toList.head? = some '/') :
    (ofPath path).path = path := by
  have hrooted : path.toList.head?.all (· == '/') := by rw [h]; rfl
  rw [ofPath, dif_pos hrooted]

lemma ofPath_inj {a b : String} (ha : a.toList.head? = some '/') (hb : b.toList.head? = some '/') :
    ofPath a = ofPath b ↔ a = b := by
  refine ⟨fun h => ?_, fun h => h ▸ rfl⟩
  rw [← path_ofPath ha, h, path_ofPath hb]

lemma parse_path {path : String} (h : path.toList.head? = some '/') :
    parse path = ofPath (Text.Percent.decode path) := by
  have hscheme : ¬ "file:".toList <+: path.toList := by
    rintro ⟨rest, hrest⟩
    rw [← hrest] at h
    exact absurd h (by simp)
  rw [parse, Text.rest?_eq_none_iff.mpr hscheme]; rfl

/-! ### The normal form -/

/-- **A document is found by its own uri.** -/
theorem parse_uri (s : Source) : parse s.uri = s := by
  have huri : s.uri = "file:" ++ ("//" ++ ("" ++ Text.Percent.encode s.path)) := by
    rw [String.empty_append, ← String.append_assoc]; rfl
  rw [huri, parse_file, pathPart_located (by simp) s.encode_rooted,
    Text.Percent.decode_percentEncode, ofPath_path]

lemma uri_inj {s s' : Source} (h : s.uri = s'.uri) : s = s' := by
  rw [← parse_uri s, h, parse_uri]

/-- A file that is not on the disk keeps its spelling. -/
lemma ofFile_of_missing {disk : Disk} {file : FileName} (h : disk.resolve? file = none) :
    ofFile disk file = ofPath file.text := by
  rw [ofFile, h, Option.getD_none]

/-- A path is the spelling of its file's document as long as decoding leaves it alone. -/
lemma parse_eq_ofFile_iff {disk : Disk} {path : String} (h : path.toList.head? = some '/')
    (hmissing : disk.resolve? (.ofText path) = none) :
    parse path = ofFile disk (.ofText path) ↔ ¬ Text.Percent.HasEscape path.toList := by
  have hdecoded : (Text.Percent.decode path).toList.head? = some '/' :=
    Text.Percent.head?_decode h (by decide)
  rw [parse_path h, ofFile_of_missing hmissing, FileName.text_ofText, ofPath_inj hdecoded h,
    Text.Percent.decode_eq_self_iff]

/-- **All spellings of a document meet in its uri.** -/
theorem spellings_meet :
    (∀ path, parse (ofPath path).uri = ofPath path) ∧
    (∀ raw, parse (parse raw).uri = parse raw) ∧
    (∀ s : Source, (s.path = "" ∨ s.path.toList.head? = some '/') ∧ ofPath s.path = s) ∧
    (∀ s s' : Source, (s = s' ↔ s.uri = s'.uri) ∧ (s = s' ↔ s.path = s'.path)) ∧
    (∀ path host : String, path.toList.head? = some '/' → '/' ∉ host.toList →
      parse ("file://" ++ host ++ path) = parse path ∧
      parse path = ofPath (Text.Percent.decode path) ∧
      (¬ "//".toList <+: path.toList → parse ("file:" ++ path) = parse path)) ∧
    ∀ (disk : Disk) (s : Source), disk.resolve? s.file = none → ofFile disk s.file = s := by
  refine ⟨fun path => parse_uri _, fun raw => parse_uri _, fun s => ⟨?_, ofPath_path s⟩,
    fun s s' => ⟨⟨congrArg uri, uri_inj⟩, ⟨congrArg path, ext⟩⟩, fun path host hpath hhost => ?_,
    fun disk s hmissing => ?_⟩
  · rcases rooted_iff.mp s.rooted with hpath | ⟨rest, hpath⟩
    · exact .inl (String.toList_eq_nil_iff.mp hpath)
    · exact .inr (by rw [hpath]; rfl)
  · have hrooted : path.toList.head?.all (· == '/') := by rw [hpath]; rfl
    have hlocated : "file://" ++ host ++ path = "file:" ++ ("//" ++ (host ++ path)) := by
      simp only [← String.append_assoc]; rfl
    refine ⟨?_, parse_path hpath, fun hplain => ?_⟩
    · rw [hlocated, parse_file, pathPart_located hhost hrooted, parse_path hpath]
    · rw [parse_file, pathPart_of_not_located hplain, parse_path hpath]
  · rw [ofFile_of_missing hmissing, file, FileName.text_ofText, ofPath_path]

/-- Four spellings of a path with an escape, and a disk with another file on it. -/
theorem spellings_meet_coded :
    let s := ofPath "/a b.c"
    let disk : Disk := ⟨fun f => if f = .ofText "/c" then some (.ofText "/d") else none⟩
    ("/a%20b.c".toList.head? = some '/' ∧ '/' ∉ "localhost".toList ∧
      ¬ "//".toList <+: "/a%20b.c".toList ∧ disk.resolve? s.file = none) ∧
    parse ("file://" ++ "localhost" ++ "/a%20b.c") = parse "/a%20b.c" ∧
    parse "/a%20b.c" = ofPath (Text.Percent.decode "/a%20b.c") ∧
    parse ("file:" ++ "/a%20b.c") = parse "/a%20b.c" ∧
    ofFile disk s.file = s := by
  intro s disk
  have hpath : "/a%20b.c".toList.head? = some '/' := by decide
  have hhost : '/' ∉ "localhost".toList := by decide
  have hplain : ¬ "//".toList <+: "/a%20b.c".toList := by decide
  have hmissing : disk.resolve? s.file = none := by decide
  obtain ⟨-, -, -, -, hspellings, hfile⟩ := spellings_meet
  obtain ⟨hlocated, hdecoded, hscheme⟩ := hspellings _ _ hpath hhost
  exact ⟨⟨hpath, hhost, hplain, hmissing⟩, hlocated, hdecoded, hscheme hplain,
    hfile disk s hmissing⟩

end Source

end LinkedViews
