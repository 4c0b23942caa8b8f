import LinkedViews.Product
import LinkedViews.SortedMap

/-!
The store of products: the latest version of each, by target.
-/

namespace LinkedViews

structure Store where
  products : SortedMap Target Product
  deriving DecidableEq

/-- What saving a product did. -/
structure Saved where
  target : Target
  kind : Kind
  /-- Whether the content was put behind that of a stored version. -/
  appended : Bool
  /-- Whether a stored version gave way. -/
  replaced : Bool
  deriving DecidableEq

namespace Store

def empty : Store := ⟨.empty⟩

instance : Inhabited Store := ⟨empty⟩

def size (s : Store) : Nat := s.products.size

/-- The stored targets in ascending order. -/
def targets (s : Store) : List Target := s.products.keys

def find? (s : Store) (t : Target) : Option Product := s.products.get? t

def contains (s : Store) (t : Target) : Bool := (s.find? t).isSome

/-- The stored product, or the empty one. -/
def get (s : Store) (t : Target) : Product := (s.find? t).getD .empty

/-- Stores a version in the place of the one before it. -/
def save (s : Store) (p : Product) : Saved × Store :=
  let previous := s.find? p.target
  ({ target := p.target
     kind := p.kind
     appended := p.continues && previous.isSome
     replaced := previous.isSome },
   ⟨s.products.insert p.target (p.after previous)⟩)

/-- The targets of the products derived from a document. -/
def targetsOf (s : Store) (source : Source) : List Target :=
  (s.products.filter fun _ p => p.source = source).keys

/-- Drops the products derived from a document. -/
def dropSource (s : Store) (source : Source) : Store :=
  ⟨s.products.filter fun _ p => p.source ≠ source⟩

/-- A line that says how much is stored. -/
def summary (s : Store) : String :=
  "ProductStore \x7b product_count: " ++ toString s.size ++ " \x7d"

theorem find?_save (s : Store) (p : Product) (t : Target) :
    (s.save p).2.find? t =
      if t = p.target then some (p.after (s.find? p.target)) else s.find? t :=
  SortedMap.get?_insert ..

theorem find?_dropSource (s : Store) (source : Source) (t : Target) :
    (s.dropSource source).find? t = (s.find? t).filter fun p => p.source ≠ source :=
  SortedMap.get?_filter ..

end Store

end LinkedViews
