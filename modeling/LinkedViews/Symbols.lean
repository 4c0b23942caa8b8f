import LinkedViews.Json.Value
import LinkedViews.Text.Cut

/-!
The functions among the symbols of a document, from which the one to verify is chosen.
-/

namespace LinkedViews

structure FunctionSymbol where
  label : String
  detail : Option String
  deriving DecidableEq, Repr

namespace FunctionSymbol

/-- The number of the symbol kind of functions. -/
def functionKind : UInt64 := 12

def isFunction (symbol : Json) : Bool :=
  match symbol.member? "kind" with
  | some (.unsigned n) => n = functionKind
  | _ => false

/-- The choice that a symbol gives: a function with a name that is no declaration. -/
def ofSymbol? (symbol : Json) : Option FunctionSymbol :=
  match (symbol.member? "name").bind Json.str? with
  | some label =>
    if isFunction symbol ∧ label ≠ "" ∧ ¬ Text.hasPart "(declaration" label then
      some ⟨label, (symbol.member? "detail").bind Json.str?⟩
    else none
  | none => none

/-- The choices among the symbols at the top level. -/
def ofSymbols : Json → List FunctionSymbol
  | .arr symbols => symbols.filterMap ofSymbol?
  | _ => []

end FunctionSymbol

end LinkedViews
