import LinkedViews.Source

/-!
Targets: what a product is a version of.

A target names the source document and, behind a bar, the file that is derived from it. Its
uri is that name under a scheme of its own. A name with further bars stays one target, whose
source ends at the first bar.
-/

namespace LinkedViews

/-- A text that was to be a target's uri and is none. -/
structure MalformedTarget where
  raw : String
  deriving DecidableEq, Repr

def MalformedTarget.message (e : MalformedTarget) : String :=
  "malformed product uri '" ++ e.raw ++ "': expected 'monto:<path>|<name>.<language>'"

/-- The scheme of product uris, with its colon. -/
def productScheme : String := "monto:"

/-- Whether a uri is that of a product document, well formed or not. -/
def isProductUri (uri : String) : Bool := (Text.rest? productScheme uri).isSome

structure Target where
  name : String
  separated : '|' ∈ name.toList

namespace Target

@[ext] theorem ext {a b : Target} (h : a.name = b.name) : a = b := by
  cases a; cases b; cases h; rfl

instance : DecidableEq Target := fun a b =>
  decidable_of_iff (a.name = b.name) ⟨Target.ext, fun h => congrArg name h⟩

/-- Targets are listed by name. -/
instance : Ord Target := ⟨compareOn name⟩

instance : Std.TransOrd Target := inferInstanceAs (Std.TransCmp (compareOn name))

instance : Std.LawfulEqOrd Target where
  compare_self {t} := (Std.ReflCmp.compare_self : compare t.name t.name = .eq)
  eq_of_compare {a b} h :=
    Target.ext (Std.LawfulEqOrd.eq_of_compare (h : compare a.name b.name = .eq))

def of (source : Source) (name language : String) : Target :=
  ⟨source.path ++ "|" ++ name ++ "." ++ language, by simp⟩

def uri (t : Target) : String := productScheme ++ t.name

/-- A product uri needs its scheme and a bar after it. -/
def parse (raw : String) : Except MalformedTarget Target :=
  match Text.rest? productScheme raw with
  | none => .error ⟨raw⟩
  | some name => if h : '|' ∈ name.toList then .ok ⟨name, h⟩ else .error ⟨raw⟩

def sourcePath (t : Target) : String := Text.upTo '|' t.name

/-- The document that the target is derived from. -/
def source (t : Target) : Source := Source.ofPath t.sourcePath

/-- The labels on the way to the target in the tree of products. -/
def keys (t : Target) : List String := Text.pieces '|' t.name

instance : ToString Target := ⟨uri⟩

theorem parse_uri (t : Target) : parse t.uri = .ok t := by
  rw [parse, Text.rest?_eq_some_iff.2 (rfl : t.uri = productScheme ++ t.name)]
  exact dif_pos t.separated

example : (of (.parse "file:/src/a.c") "ast" "text").uri = "monto:/src/a.c|ast.text" := by decide
example : (parse "monto:/a.c").toOption = none := by decide

end Target

end LinkedViews
