import LinkedViews.Span
import LinkedViews.Target

/-!
Products: named texts or graphics derived from a source document.
-/

namespace LinkedViews

/-- How the content of a product is shown. -/
inductive Kind where
  /-- As text in an editor. -/
  | text
  /-- As a picture in a panel. -/
  | graphic
  deriving DecidableEq, Repr

/-- Pictures are in the language `svg`, whatever the case of its ASCII letters. -/
def Kind.ofLanguage (language : String) : Kind :=
  if language.toList.map Char.toLower = ['s', 'v', 'g'] then .graphic else .text

/-- One version of a product, with the links between it and its source. -/
structure Product where
  source : Source
  name : String
  language : String
  content : String
  /-- Whether the content goes on where the version before it ends. -/
  continues : Bool
  /-- From spans of the source to spans of the content. -/
  forward : List Link
  /-- From spans of the content to spans of the source. -/
  reverse : List Link
  deriving DecidableEq

namespace Product

/-- What is looked up where nothing is stored. Its links lead from the start to the start. -/
def empty : Product where
  source := .ofPath ""
  name := ""
  language := ""
  content := ""
  continues := false
  forward := [.atStart]
  reverse := [.atStart]

instance : Inhabited Product := ⟨empty⟩

def kind (p : Product) : Kind := .ofLanguage p.language

def target (p : Product) : Target := .of p.source p.name p.language

def links (p : Product) : Direction → List Link
  | .forward => p.forward
  | .reverse => p.reverse

def linkAt? (p : Product) (d : Direction) (offset : Nat) : Option Link :=
  Link.containing? (p.links d) offset

def spansAt (p : Product) (d : Direction) (offset : Nat) : List Span :=
  Link.resolve (p.links d) offset

/-- The version to store after `previous`: one that continues starts with what was there. -/
def after (p : Product) (previous : Option Product) : Product :=
  match previous with
  | some old => if p.continues then { p with content := old.content ++ p.content } else p
  | none => p

@[simp] theorem target_after (p : Product) (previous : Option Product) :
    (p.after previous).target = p.target := by
  unfold after
  split
  · split <;> rfl
  · rfl

example : Kind.ofLanguage "Svg" = .graphic ∧ Kind.ofLanguage "svg " = .text := by decide

end Product

end LinkedViews
