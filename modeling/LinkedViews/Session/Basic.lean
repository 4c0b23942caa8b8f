import LinkedViews.Host.Basic
import LinkedViews.Latch
import LinkedViews.Placement
import LinkedViews.Settings
import LinkedViews.Store
import LinkedViews.Tree.Basic

/-!
Sessions: the products, the tree above them, and where they are shown.

What a session does to its products it announces by events. Every event goes to all
subscribers, in the order in which they came.
-/

namespace LinkedViews

inductive Event where
  /-- The content of a text is to be fetched again. -/
  | text (target : Target)
  /-- A graphic changed, which is shown in the given panel, if in any. -/
  | graphic (target : Target) (panel : Option PanelId)
  /-- The tree is to be drawn again. -/
  | tree
  deriving DecidableEq

structure Session where
  settings : Settings
  store : Store
  tree : Tree
  placement : Placement
  /-- The latches that were ever used; those of other targets are idle. -/
  latches : SortedMap Target Latches
  /-- Counts the changes of the store. -/
  version : UInt64
  subscribers : Nat
  deriving DecidableEq

/-- The result of an operation, the session after it, and the events on the way. -/
structure Reply (α : Type) where
  result : α
  session : Session
  events : List Event

/-- The title of the panel of a target: its name without directories. -/
def Target.panelTitle (t : Target) : String :=
  Text.afterLast '/' (Text.replaceFirst '|' ' ' t.name)

namespace Session

def new (settings : Settings) : Session :=
  ⟨settings, .empty, .empty, .empty, .empty, 0, 0⟩

instance : Inhabited Session := ⟨new .initial⟩

def setSettings (s : Session) (settings : Settings) : Session := { s with settings }

def subscribe (s : Session) : Session := { s with subscribers := s.subscribers + 1 }

/-- The calls that events lead to, each with the number of the subscriber. -/
def deliveries (s : Session) (events : List Event) : List (Nat × Event) :=
  events.flatMap fun e => (List.range s.subscribers).map fun n => (n, e)

def latchesOf (s : Session) (t : Target) : Latches := (s.latches.get? t).getD .idle

def setLatches (s : Session) (t : Target) (l : Latches) : Session :=
  { s with latches := s.latches.insert t l }

/-- The stored product, or the empty one. -/
def product (s : Session) (t : Target) : Product := s.store.get t

/-- The text of a product document; a single blank where nothing is stored. -/
def content (s : Session) (t : Target) : String :=
  ((s.store.find? t).map Product.content).getD " "

def linkedSpans (s : Session) (t : Target) (d : Direction) (offset : Nat) : List Span :=
  (s.product t).spansAt d offset

/-- The event that a product has a new version. -/
def savedEvent (s : Session) (saved : Saved) : Event :=
  match saved.kind with
  | .text => .text saved.target
  | .graphic => .graphic saved.target (s.placement.panel? saved.target)

/-- Stores a version of a product. Echoes that are still to come are forgotten. -/
def save (s : Session) (p : Product) : Reply Target :=
  let (saved, store) := s.store.save p
  { result := saved.target
    session :=
      { s with
        store
        tree := s.tree.insert (store.get saved.target)
        latches := s.latches.erase saved.target
        version := Word.next s.version }
    events := [s.savedEvent saved, .tree] }

/-- Drops the products of a document, and builds the tree of the others. -/
def drop (s : Session) (source : Source) : Reply (List Target) :=
  let store := s.store.dropSource source
  { result := s.store.targetsOf source
    session :=
      { s with
        store
        tree := .ofProducts store.products.values
        version := Word.next s.version }
    events := [.tree] }

/-- The column of a document, which from now on is recorded. -/
def place (s : Session) (uri : String) (role : Role) : Column × Session :=
  let (column, placement) := s.placement.place uri role
  (column, { s with placement })

/-- Records the columns of the editors in sight. -/
def editorsSeen (s : Session) (editors : List VisibleEditor) : Session :=
  { s with
    placement := editors.foldl (fun p e =>
      match e.column with
      | some column => p.record e.uri column
      | none => p) s.placement }

def setPanel (s : Session) (t : Target) (panel : PanelId) : Session :=
  { s with placement := s.placement.setPanel t panel }

/-- A panel was closed; with the target that it showed. -/
def panelClosed (s : Session) (panel : PanelId) : Option Target × Session :=
  (s.placement.shownIn? panel, { s with placement := s.placement.erasePanel panel })

/-- A line that says how much is in the session. -/
def summary (s : Session) : String :=
  "Session \x7b config: " ++ s.settings.summary ++
    ", product_count: " ++ toString s.store.size ++
    ", panel_count: " ++ toString s.placement.panels.size ++
    ", version: " ++ toString s.version ++ " \x7d"

end Session

end LinkedViews
