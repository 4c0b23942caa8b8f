import Mathlib.Data.List.Forall2
import Mathlib.Tactic.Lemma
import LinkedViews.Decode.Record

/-!
What is read out of a sequence and out of the fields of a record.

Whether a record is an object or an array, a field has at most one part in it: the value under
its name, or the one at its place. What the record is read as depends on these parts alone, and
each field gives its value by itself.
-/

namespace LinkedViews

namespace Json

/-- What a record has for a field, by its place in the declaration or by its name. -/
def part? (place : Nat) (name : String) : Json → Option Json
  | .obj members => members.lookup name
  | .arr items => items[place]?
  | _ => none

/-- An object, or an array of no more items than the record has fields. -/
def IsRecord (fields : Nat) : Json → Prop
  | .obj _ => True
  | .arr items => items.length ≤ fields
  | _ => False

end Json

namespace Decode

variable {α β : Type} {value : Json → Result α} {a : α} {name : String}

lemma bind_eq_ok_iff {x : Result α} {f : α → Result β} {b : β} :
    x >>= f = .ok b ↔ ∃ a, x = .ok a ∧ f a = .ok b := by
  cases x with
  | ok a => simp [bind, Except.bind]
  | error e => simp [bind, Except.bind]

lemma pure_eq_ok_iff {b : α} : (pure a : Result α) = .ok b ↔ a = b := by
  simp [pure, Except.pure]

/-! ### Sequences -/

lemma all_eq_ok_iff {items : List Json} {as : List α} :
    all value items = .ok as ↔ List.Forall₂ (fun v a => value v = .ok a) items as := by
  induction items generalizing as with
  | nil => simp [all, eq_comm]
  | cons v items ih =>
    simp only [all, bind_eq_ok_iff, pure_eq_ok_iff, List.forall₂_cons_left_iff, ih]
    constructor
    · rintro ⟨a, ha, rest, hrest, rfl⟩
      exact ⟨a, rest, ha, hrest, rfl⟩
    · rintro ⟨a, rest, ha, hrest, rfl⟩
      exact ⟨a, ha, rest, hrest, rfl⟩

lemma sequence_eq_ok_iff {v : Json} {as : List α} :
    sequence value v = .ok as ↔
      ∃ items, v = .arr items ∧ List.Forall₂ (fun v a => value v = .ok a) items as := by
  cases v <;> simp [sequence, all_eq_ok_iff]

/-- Items that can all be read one by one can be read together. -/
lemma exists_forall₂_iff {R : β → α → Prop} {items : List β} :
    (∃ as, List.Forall₂ R items as) ↔ ∀ w ∈ items, ∃ a, R w a := by
  induction items with
  | nil => simp
  | cons w items ih =>
    rw [List.forall_mem_cons, ← ih]
    constructor
    · rintro ⟨_, hw | ⟨hw, hrest⟩⟩
      exact ⟨⟨_, hw⟩, _, hrest⟩
    · rintro ⟨⟨a, hw⟩, as, hrest⟩
      exact ⟨a :: as, .cons hw hrest⟩

/-- A sequence is read back from the items that its members are written as. -/
lemma sequence_map {write : α → Json} {as : List α} (h : ∀ a ∈ as, value (write a) = .ok a) :
    sequence value (.arr (as.map write)) = .ok as := by
  rw [sequence_eq_ok_iff]
  refine ⟨_, rfl, ?_⟩
  rw [List.forall₂_map_left_iff, List.forall₂_same]
  exact h

/-! ### Fields -/

/-- A field gives a value: its part is read as the value, or it has no part and the value is its
default. -/
def Yields (value : Json → Result α) (default : Option α) (part : Option Json) (a : α) : Prop :=
  match part with
  | some v => value v = .ok a
  | none => default = some a

/-- What holds of all that is read holds of the members of a sequence in a field. -/
lemma Yields.forall_mem {P : α → Prop} (hread : ∀ v a, value v = .ok a → P a) {as : List α}
    {part : Option Json} (h : Yields (sequence value) (some []) part as) : ∀ a ∈ as, P a := by
  cases part with
  | none =>
    cases h
    exact List.forall_mem_nil P
  | some v =>
    obtain ⟨items, rfl, has⟩ := sequence_eq_ok_iff.mp h
    clear h
    induction has with
    | nil => exact List.forall_mem_nil P
    | cons hitem _ ih => exact List.forall_mem_cons.mpr ⟨hread _ _ hitem, ih⟩

section Object

variable {members : List (String × Json)} {d : α}

lemma yields_require_iff : Yields value none (members.lookup name) a ↔
    ∃ o, field? members name value = .ok o ∧ require name o = .ok a := by
  rw [field?]
  cases members.lookup name with
  | none => simp [Yields, require]
  | some v =>
    cases hv : value v with
    | ok b => simp [Yields, require, hv, Except.map]
    | error e => simp [Yields, hv, Except.map]

lemma yields_getD_iff : Yields value (some d) (members.lookup name) a ↔
    ∃ o, field? members name value = .ok o ∧ o.getD d = a := by
  rw [field?]
  cases members.lookup name with
  | none => simp [Yields]
  | some v =>
    cases hv : value v with
    | ok b => simp [Yields, hv, Except.map]
    | error e => simp [Yields, hv, Except.map]

end Object

section Array

variable {shape : Shape} {items : List Json} {i : Nat} {d : α}

lemma element_eq_ok_iff :
    element shape items i value = .ok a ↔ Yields value none items[i]? a := by
  rw [element]
  cases items[i]? with
  | none => simp [Yields]
  | some v => rfl

lemma elementOr_eq_ok_iff :
    elementOr d items i value = .ok a ↔ Yields value (some d) items[i]? a := by
  rw [elementOr]
  cases items[i]? with
  | none => simp [Yields]
  | some v => rfl

lemma close_eq_ok_iff {u : Unit} :
    close shape items = .ok u ↔ items.length ≤ shape.fields := by
  rw [close]
  split <;> simp_all

end Array

end Decode

end LinkedViews
