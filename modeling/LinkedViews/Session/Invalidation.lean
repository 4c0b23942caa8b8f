import LinkedViews.Session.Basic

/-!
What a session drops when documents are closed, saved or edited.
-/

namespace LinkedViews.Session

variable {H : Type} [Host H]

/-- Drops the products of a document, and has every product view in sight fetch its content
again. -/
def dropAndRefresh (s : Session) (h : H) (source : Source) : Reply (List Target) :=
  let dropped := s.drop source
  let views := (Host.visible h).filterMap fun v => (Target.parse v.uri).toOption
  { dropped with events := dropped.events ++ views.map .text }

/-- The products of a document are out of date. A product itself has none. -/
def invalidate (s : Session) (h : H) (uri : String) : Reply (List Target) :=
  if isProductUri uri then ⟨[], s, []⟩ else s.dropAndRefresh h (.parse uri)

def documentClosed (s : Session) (h : H) (uri : String) : Reply (List Target) :=
  s.invalidate h uri

def documentSaved (s : Session) (h : H) (uri : String) : Reply (List Target) :=
  s.invalidate h uri

/-- An edit drops products only if the settings say so. -/
def documentEdited (s : Session) (h : H) (uri : String) : Reply (List Target) :=
  if s.settings.dropOnEdit then s.invalidate h uri else ⟨[], s, []⟩

end LinkedViews.Session
