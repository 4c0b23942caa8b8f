import LinkedViews.Decode.Record
import LinkedViews.Text.Cut

/-!
The settings of a session, and their JSON.
-/

namespace LinkedViews

/-- The function of a source document that is to be verified. -/
structure Verified where
  uri : String
  name : String
  deriving DecidableEq, Repr

structure Settings where
  /-- Whether the products of a document are dropped as soon as it is edited. -/
  dropOnEdit : Bool
  verified : List Verified
  deriving DecidableEq, Repr

/-- Settings that do not decode. -/
structure InvalidSettings where
  cause : DecodeError

def InvalidSettings.message (e : InvalidSettings) : String :=
  "invalid settings: " ++ e.cause.message

namespace Verified

def shape : Shape := ⟨"VerifiedFunction", 2⟩

def decode : Json → Decode.Result Verified
  | .obj members => do
    let name ← Decode.field? members "name" Decode.string
    let uri ← Decode.field? members "uri" Decode.string
    return ⟨← Decode.require "uri" uri, ← Decode.require "name" name⟩
  | .arr items => do
    let uri ← Decode.element shape items 0 Decode.string
    let name ← Decode.element shape items 1 Decode.string
    Decode.close shape items
    return ⟨uri, name⟩
  | v => .error (.wrongType v (.record shape))

def toJson (f : Verified) : Json := .obj [("name", .str f.name), ("uri", .str f.uri)]

end Verified

namespace Settings

def initial : Settings := ⟨false, []⟩

instance : Inhabited Settings := ⟨initial⟩

def shape : Shape := ⟨"SessionConfig", 2⟩

def decode : Json → Decode.Result Settings
  | .obj members => do
    let update ← Decode.field? members "updateOnChange" Decode.boolean
    let verified ←
      Decode.field? members "verifiedFunctions" (Decode.sequence Verified.decode)
    return ⟨update.getD false, verified.getD []⟩
  | .arr items => do
    let update ← Decode.elementOr false items 0 Decode.boolean
    let verified ← Decode.elementOr [] items 1 (Decode.sequence Verified.decode)
    Decode.close shape items
    return ⟨update, verified⟩
  | v => .error (.wrongType v (.record shape))

/-- Reads the settings of a host; without any the initial ones are meant. -/
def ofJson (v : Json) : Except InvalidSettings Settings :=
  if v.isNull then .ok initial else (decode v).mapError .mk

def toJson (s : Settings) : Json := .obj [
  ("updateOnChange", .bool s.dropOnEdit),
  ("verifiedFunctions", .arr (s.verified.map Verified.toJson))]

/-- The function chosen for a document. -/
def verifiedName? (s : Settings) (uri : String) : Option String :=
  (s.verified.find? fun f => f.uri = uri).map (·.name)

/-- The name of a function that is shown with its parameters. -/
def nameOfLabel (label : String) : String := Text.upTo '(' label

/-- Renames the first entry for a document, or puts one at the end. -/
def chooseIn (uri name : String) : List Verified → List Verified
  | [] => [⟨uri, name⟩]
  | f :: rest => if f.uri = uri then ⟨uri, name⟩ :: rest else f :: chooseIn uri name rest

/-- Chooses the function shown as `label` for a document. -/
def choose (s : Settings) (uri label : String) : Settings :=
  { s with verified := chooseIn uri (nameOfLabel label) s.verified }

@[simp] theorem verifiedName?_choose (s : Settings) (uri label : String) :
    (s.choose uri label).verifiedName? uri = some (nameOfLabel label) := by
  simp only [verifiedName?, choose]
  induction s.verified with
  | nil => simp [chooseIn]
  | cons f rest ih => by_cases h : f.uri = uri <;> simp [chooseIn, h, ih]

/-- A line that lists the settings. -/
def summary (s : Settings) : String :=
  let entry (f : Verified) :=
    "VerifiedFunction \x7b uri: " ++ Text.quote f.uri ++ ", name: " ++ Text.quote f.name ++ " \x7d"
  "SessionConfig \x7b update_on_change: " ++ (if s.dropOnEdit then "true" else "false") ++
    ", verified_functions: [" ++ ", ".intercalate (s.verified.map entry) ++ "] \x7d"

end Settings

end LinkedViews
