import LinkedViews.Product
import LinkedViews.Tree.Label

/-!
The tree of products.

A product hangs below the keys of its target: first the path of the source, then the file
that is derived from it. Siblings are ordered by label. A node that is on the way to one
product may be another product itself.
-/

namespace LinkedViews

structure Node where
  label : String
  /-- The labels from the first level down to this one, with blanks between them; the root
  has none. -/
  path : Option String
  /-- The product that the node stands for, if it is not there for others only. -/
  product : Option Target
  children : List Node

/-- What opening a node of the tree opens. -/
inductive Action where
  | product (target : Target)
  | source (source : Source)
  deriving DecidableEq

namespace Node

mutual

/-- Equality of nodes, decided node by node. -/
def decEq : (a b : Node) → Decidable (a = b)
  | ⟨l, f, p, cs⟩, ⟨l', f', p', cs'⟩ =>
    if h : l = l' ∧ f = f' ∧ p = p' then
      match decEqList cs cs' with
      | isTrue hc => isTrue (by rw [h.1, h.2.1, h.2.2, hc])
      | isFalse hc => isFalse fun e => hc (by cases e; rfl)
    else isFalse fun e => h (by cases e; exact ⟨rfl, rfl, rfl⟩)

def decEqList : (a b : List Node) → Decidable (a = b)
  | [], [] => isTrue rfl
  | [], _ :: _ => isFalse nofun
  | _ :: _, [] => isFalse nofun
  | a :: as, b :: bs =>
    match decEq a b, decEqList as bs with
    | isTrue h, isTrue hs => isTrue (by rw [h, hs])
    | isFalse h, _ => isFalse fun e => h (by cases e; rfl)
    | _, isFalse h => isFalse fun e => h (by cases e; rfl)

end

instance : DecidableEq Node := decEq

def root : Node := ⟨"Products", none, none, []⟩

instance : Inhabited Node := ⟨root⟩

/-- A new node to hang below `parent`. -/
def newChild (parent : Node) (key : String) (product : Option Target) : Node where
  label := key
  path := some (match parent.path with
    | some path => path ++ " " ++ key
    | none => key)
  product := product
  children := []

/-- The label without its directories. -/
def baseName (n : Node) : String := Text.afterLast '/' n.label

def isLeaf (n : Node) : Bool := n.product.isSome

/-- A product opens itself, a node above products the document that its path names. -/
def action (n : Node) : Option Action :=
  match n.product, n.path with
  | some t, _ => some (.product t)
  | none, some path => some (.source (.ofPath path))
  | none, none => none

def child? (n : Node) (key : String) : Option Node := n.children.find? fun c => c.label = key

/-- Changes the first node with a label. -/
def updateFirst (key : String) (f : Node → Node) : List Node → List Node
  | [] => []
  | n :: rest => if n.label = key then f n :: rest else n :: updateFirst key f rest

/-- Puts a node in front of the first one that its label is not behind. -/
def insertSibling (n : Node) : List Node → List Node
  | [] => [n]
  | m :: rest =>
    if Label.compare n.label m.label = .gt then m :: insertSibling n rest else n :: m :: rest

def sortSiblings (ns : List Node) : List Node := ns.foldr insertSibling []

/-- Adds a node to its siblings, and puts all of them in order. -/
def addSibling (n : Node) (siblings : List Node) : List Node := sortSiblings (siblings ++ [n])

/-- Hangs a target below the keys that lead to it. A node that is there already stays, with
all that hangs below it. -/
def insert (target : Target) : List String → Node → Node
  | [], n => n
  | [key], n =>
    let leaf := n.newChild key (some target)
    match n.child? key with
    | some _ =>
      let keep (old : Node) : Node := { leaf with children := old.children }
      { n with children := updateFirst key keep n.children }
    | none => { n with children := addSibling leaf n.children }
  | key :: next :: keys, n =>
    match n.child? key with
    | some _ => { n with children := updateFirst key (insert target (next :: keys)) n.children }
    | none =>
      let branch := insert target (next :: keys) (n.newChild key none)
      { n with children := addSibling branch n.children }

def find? : List String → Node → Option Node
  | [], n => some n
  | key :: keys, n => (n.child? key).bind (find? keys)

mutual

/-- The node and all below it, each with its depth, parents before their children. -/
def flatten (depth : Nat) : Node → List (Nat × Node)
  | n@⟨_, _, _, children⟩ => (depth, n) :: flattenAll (depth + 1) children

def flattenAll (depth : Nat) : List Node → List (Nat × Node)
  | [] => []
  | n :: rest => flatten depth n ++ flattenAll depth rest

end

mutual

/-- The products of the node and of all below it, parents before their children. -/
def leaves : Node → List Target
  | ⟨_, _, product, children⟩ => product.toList ++ leavesAll children

def leavesAll : List Node → List Target
  | [] => []
  | n :: rest => leaves n ++ leavesAll rest

end

end Node

structure Tree where
  root : Node
  deriving DecidableEq

namespace Tree

def empty : Tree := ⟨.root⟩

instance : Inhabited Tree := ⟨empty⟩

def insert (t : Tree) (p : Product) : Tree := ⟨t.root.insert p.target p.target.keys⟩

def ofProducts (ps : List Product) : Tree := ps.foldl insert empty

def find? (t : Tree) (keys : List String) : Option Node := t.root.find? keys

def leaves (t : Tree) : List Target := t.root.leaves

@[simp] theorem ofProducts_nil : ofProducts [] = empty := rfl

theorem ofProducts_append_singleton (ps : List Product) (p : Product) :
    ofProducts (ps ++ [p]) = (ofProducts ps).insert p := by
  simp [ofProducts]

end Tree

end LinkedViews
