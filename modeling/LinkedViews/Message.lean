import LinkedViews.Decode.Product
import LinkedViews.Session.Basic

/-!
Messages between a session and the server that derives its products.
-/

namespace LinkedViews

/-- Why a message brings no product. -/
inductive PublishError where
  | missingMethod
  | unexpectedMethod (method : String)
  | invalidProduct (cause : DecodeError)

def PublishError.message : PublishError → String
  | .missingMethod => "message has no method"
  | .unexpectedMethod method => "unexpected method: " ++ method
  | .invalidProduct cause => "invalid product: " ++ cause.message

namespace Message

def publishMethod : String := "monto/publishProduct"

def configurationMethod : String := "workspace/didChangeConfiguration"

def method? (msg : Json) : Option String := (msg.member? "method").bind Json.str?

def notification (method : String) (params : Json) : Json :=
  .obj [("jsonrpc", .str "2.0"), ("method", .str method), ("params", params)]

/-- The product in the parameters of a publication. -/
def productOf (params : Json) : Except PublishError Product :=
  (Product.decode params).mapError .invalidProduct

/-- The product in a message that has to be a publication. -/
def published (msg : Json) : Except PublishError Product :=
  match method? msg with
  | none => .error .missingMethod
  | some method =>
    if method = publishMethod then productOf ((msg.member? "params").getD .null)
    else .error (.unexpectedMethod method)

/-- Whether a message is a publication, and no request or response. -/
def isPublication (msg : Json) : Bool :=
  (msg.member? "id").isNone && method? msg = some publishMethod

/-- The settings that the server starts with. -/
def initialOptions (s : Settings) : Json := s.toJson

/-- The message that the settings changed. -/
def settingsChanged (s : Settings) : Json :=
  notification configurationMethod (.obj [("settings", s.toJson)])

/-- The settings in the parameters of such a message; without any the initial ones. -/
def settingsOf (params : Json) : Except InvalidSettings Settings :=
  Settings.ofJson ((params.member? "settings").getD .null)

/-- Chooses the function to verify in a document, and says so. -/
def functionChosen (s : Settings) (uri label : String) : Json × Settings :=
  let chosen := s.choose uri label
  (settingsChanged chosen, chosen)

end Message

/-- Stores the product that a message publishes; other messages are left alone. -/
def Session.receive (s : Session) (msg : Json) : Except PublishError (Reply (Option Target)) :=
  if Message.isPublication msg then
    (Message.published msg).map fun p =>
      let saved := s.save p
      ⟨some saved.result, saved.session, saved.events⟩
  else .ok ⟨none, s, []⟩

end LinkedViews
