import LinkedViews.Text.Cut
import LinkedViews.Text.Percent

/-!
Source documents and their identities.

A source document is identified by its path, which is empty or starts at the root. Every
spelling of the document, as a path or as a `file:` uri with or without an authority, leads
to the same identity, and its own uri is one of those spellings.
-/

namespace LinkedViews

structure Source where
  path : String
  rooted : path.toList.head?.all (· == '/')

namespace Source

@[ext] theorem ext {a b : Source} (h : a.path = b.path) : a = b := by
  cases a; cases b; cases h; rfl

instance : DecidableEq Source := fun a b =>
  decidable_of_iff (a.path = b.path) ⟨Source.ext, fun h => congrArg path h⟩

/-- The document at a path, which starts at the root whether it says so or not. -/
def ofPath (path : String) : Source :=
  if h : path.toList.head?.all (· == '/') then ⟨path, h⟩ else ⟨"/" ++ path, by simp⟩

/-- The canonical uri of the document. -/
def uri (s : Source) : String := "file://" ++ Text.Percent.encode s.path

/-- The path in what follows the scheme: an authority behind two slashes is left out. -/
def pathPart (rest : String) : String :=
  match Text.rest? "//" rest with
  | some located => String.ofList (located.toList.dropWhile (· != '/'))
  | none => rest

/-- The document meant by a `file:` uri or by a plain path; escapes are read in both. -/
def parse (raw : String) : Source :=
  ofPath (Text.Percent.decode (((Text.rest? "file:" raw).map pathPart).getD raw))

/-- Documents are listed by uri. -/
instance : Ord Source := ⟨compareLex (compareOn uri) (compareOn path)⟩

instance : ToString Source := ⟨uri⟩

@[simp] theorem ofPath_path (s : Source) : ofPath s.path = s := by
  rw [ofPath, dif_pos s.rooted]

example : (parse "file://localhost/a%20b.c").uri = "file:///a%20b.c" := by decide
example : parse "file:/a.c" = ofPath "a.c" ∧ parse "/a.c" = parse "file:///a.c" := by decide
example : (parse "file://host").path = "" := by decide

end Source

end LinkedViews
