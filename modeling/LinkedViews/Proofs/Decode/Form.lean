import LinkedViews.Proofs.Decode.Record

/-!
Forms of JSON values.

A form says which values are accepted, and which of them say the same: those that differ only
in keys that no record of the form has. Forms are put together as readers are, from scalars,
sequences and records, and a reader is shown to read its form from the readers of the parts.
-/

namespace LinkedViews

open Decode

/-- Both are objects, or both are arrays of one length. -/
inductive Json.SameShape : Json → Json → Prop where
  | obj (members members' : List (String × Json)) : SameShape (.obj members) (.obj members')
  | arr {items items' : List Json} (hlength : items.length = items'.length) :
    SameShape (.arr items) (.arr items')

/-- A form of JSON values. -/
structure Form where
  /-- The value has the form. -/
  Accepts : Json → Prop
  /-- The values are the same, but for the keys that no record of the form has. -/
  Same : Json → Json → Prop

namespace Form

/-- A field of a record. -/
structure Field where
  name : String
  form : Form
  optional : Bool

/-- The part of a record fits the field: it is of its form, or there is none and needs none. -/
def Field.Fits (f : Field) : Option Json → Prop
  | some v => f.form.Accepts v
  | none => f.optional

def string : Form := ⟨fun v => ∃ s, v = .str s, Eq⟩

def boolean : Form := ⟨fun v => ∃ b, v = .bool b, Eq⟩

/-- The integers of 64 bits without a sign. -/
def offset : Form := ⟨fun v => ∃ n, v = .unsigned n, Eq⟩

/-- Arrays of any length, with items of one form. -/
def sequence (item : Form) : Form where
  Accepts v := ∃ items, v = .arr items ∧ ∀ w ∈ items, item.Accepts w
  Same v w := v = w ∨
    ∃ items items', v = .arr items ∧ w = .arr items' ∧ List.Forall₂ item.Same items items'

/-- Objects that have the fields by name, and arrays that have them by place; an array may end
before fields that are optional. -/
def record (fields : List Field) : Form where
  Accepts v := v.IsRecord fields.length ∧
    ∀ (i : Nat) (f : Field), fields[i]? = some f → f.Fits (v.part? i f.name)
  Same v w := v = w ∨ v.SameShape w ∧
    ∀ (i : Nat) (f : Field), fields[i]? = some f →
      Option.Rel f.form.Same (v.part? i f.name) (w.part? i f.name)

/-- The reader takes the values of the form and no others, and does not tell apart those that
are the same. -/
structure ReadBy {α : Type} (form : Form) (value : Json → Result α) : Prop where
  accepts_iff (v : Json) : (∃ a, value v = .ok a) ↔ form.Accepts v
  congr {v w : Json} (h : form.Same v w) : value v = value w

/-! ### Scalars and sequences -/

lemma readBy_string : string.ReadBy Decode.string where
  accepts_iff v := by cases v <;> simp [string, Decode.string]
  congr h := congrArg _ h

lemma readBy_boolean : boolean.ReadBy Decode.boolean where
  accepts_iff v := by cases v <;> simp [boolean, Decode.boolean]
  congr h := congrArg _ h

lemma readBy_offset : offset.ReadBy Decode.offset where
  accepts_iff v := by cases v <;> simp [offset, Decode.offset]
  congr h := congrArg _ h

variable {α : Type} {form : Form} {value : Json → Result α}

lemma ReadBy.all_congr (h : form.ReadBy value) {items items' : List Json}
    (hsame : List.Forall₂ form.Same items items') : all value items = all value items' := by
  induction hsame with
  | nil => rfl
  | cons hitem _ ih => rw [all, all, h.congr hitem, ih]

lemma ReadBy.sequence (h : form.ReadBy value) :
    (Form.sequence form).ReadBy (Decode.sequence value) where
  accepts_iff v := by
    simp only [sequence_eq_ok_iff, Form.sequence, ← h.accepts_iff, ← exists_forall₂_iff]
    constructor
    · rintro ⟨as, items, rfl, has⟩
      exact ⟨items, rfl, as, has⟩
    · rintro ⟨items, rfl, as, has⟩
      exact ⟨as, items, rfl, has⟩
  congr := by
    rintro v w (rfl | ⟨items, items', rfl, rfl, hsame⟩)
    · rfl
    · exact h.all_congr hsame

/-! ### Records -/

lemma forall_cons_iff {P : Nat → Field → Prop} {f : Field} {fields : List Field} :
    (∀ i g, (f :: fields)[i]? = some g → P i g) ↔
      P 0 f ∧ ∀ i g, fields[i]? = some g → P (i + 1) g := by
  constructor
  · intro h
    exact ⟨h 0 f rfl, fun i g hg => h (i + 1) g hg⟩
  · rintro ⟨hf, hfields⟩ (_ | i) g hg
    · cases hg
      exact hf
    · exact hfields i g hg

lemma forall_nil_iff {P : Nat → Field → Prop} :
    (∀ i g, ([] : List Field)[i]? = some g → P i g) ↔ True := by simp

section Fits

variable (h : form.ReadBy value) {name : String} {part : Option Json}

include h

/-- A part fits a field without a default exactly if it gives a value. -/
lemma ReadBy.required_iff :
    (∃ a, Yields value none part a) ↔ Field.Fits ⟨name, form, false⟩ part := by
  cases part with
  | some v => exact h.accepts_iff v
  | none => simp [Yields, Field.Fits]

/-- A part fits a field with a default exactly if it gives a value. -/
lemma ReadBy.optional_iff (d : α) :
    (∃ a, Yields value (some d) part a) ↔ Field.Fits ⟨name, form, true⟩ part := by
  cases part with
  | some v => exact h.accepts_iff v
  | none => simp [Yields, Field.Fits]

end Fits

section Congr

variable (h : form.ReadBy value) {name : String} {members members' : List (String × Json)}
  {shape : Shape} {items items' : List Json} {i : Nat} {d : α}

include h

lemma ReadBy.field?_congr
    (hpart : Option.Rel form.Same (members.lookup name) (members'.lookup name)) :
    field? members name value = field? members' name value := by
  rw [field?, field?]
  generalize members.lookup name = part at hpart ⊢
  generalize members'.lookup name = part' at hpart ⊢
  cases hpart with
  | some hsame => exact congrArg (Except.map some) (h.congr hsame)
  | none => rfl

lemma ReadBy.element_congr (hlength : items.length = items'.length)
    (hpart : Option.Rel form.Same items[i]? items'[i]?) :
    element shape items i value = element shape items' i value := by
  rw [element, element, hlength]
  generalize items[i]? = part at hpart ⊢
  generalize items'[i]? = part' at hpart ⊢
  cases hpart with
  | some hsame => exact h.congr hsame
  | none => rfl

lemma ReadBy.elementOr_congr (hpart : Option.Rel form.Same items[i]? items'[i]?) :
    elementOr d items i value = elementOr d items' i value := by
  rw [elementOr, elementOr]
  generalize items[i]? = part at hpart ⊢
  generalize items'[i]? = part' at hpart ⊢
  cases hpart with
  | some hsame => exact h.congr hsame
  | none => rfl

end Congr

end Form

end LinkedViews
