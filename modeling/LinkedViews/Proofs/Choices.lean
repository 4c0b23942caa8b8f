import Mathlib.Data.List.Nodup
import LinkedViews.Proofs.Text.Cut
import LinkedViews.Settings

/-!
Which function is chosen for which document.

Settings that were read may have several entries for a document, of which the first one counts.
A choice renames this entry, or puts one behind all others where there is none. So it is looked
up for its own document and for no other one, and of many choices the last one for a document
stays.
-/

namespace LinkedViews

/-- The function shown as `label` is chosen for a document. -/
structure Choice where
  uri : String
  label : String
  deriving DecidableEq

namespace Settings

def chooseEach (s : Settings) (choices : List Choice) : Settings :=
  choices.foldl (fun s c => s.choose c.uri c.label) s

/-- The label that was chosen last for a document. -/
def lastLabel? (choices : List Choice) (uri : String) : Option String :=
  (choices.reverse.find? fun c => c.uri = uri).map Choice.label

/-- The name with which a choice is answered: that in the entry where the first one for the
document was, or behind all others. -/
def answer? (s : Settings) (uri label : String) : Option String :=
  ((s.choose uri label).verified[s.verified.findIdx fun f => f.uri = uri]?).map Verified.name

/-- No document has two entries. -/
def Single (s : Settings) : Prop := (s.verified.map Verified.uri).Nodup

instance (s : Settings) : Decidable s.Single := inferInstanceAs (Decidable (List.Nodup _))

variable {s : Settings} {l l' : List Verified} {uri name label other : String}

/-! ### One choice -/

/-- What a choice does to entries: the first one for the document has the name now, or one was
put behind all others, none of which is for the document. -/
inductive Entered (uri name : String) (l l' : List Verified) : Prop
  | renamed (before : List Verified) (old : String) (after : List Verified)
      (there : l = before ++ ⟨uri, old⟩ :: after) (first : ∀ f ∈ before, f.uri ≠ uri)
      (entered : l' = before ++ ⟨uri, name⟩ :: after)
  | added (absent : ∀ f ∈ l, f.uri ≠ uri) (entered : l' = l ++ [⟨uri, name⟩])

lemma entered_chooseIn (uri name : String) (l : List Verified) :
    Entered uri name l (chooseIn uri name l) := by
  induction l with
  | nil => exact .added (fun _ hf => by cases hf) rfl
  | cons f l ih =>
    rw [chooseIn]
    by_cases hf : f.uri = uri
    · rw [if_pos hf]
      exact .renamed [] f.name l (hf ▸ rfl) (fun _ h => by cases h) rfl
    · rw [if_neg hf]
      rcases ih with ⟨before, old, after, rfl, hfirst, hentered⟩ | ⟨habsent, hentered⟩
      · refine .renamed (f :: before) old after rfl ?_ (hentered ▸ rfl)
        exact List.forall_mem_cons.mpr ⟨hf, hfirst⟩
      · exact .added (List.forall_mem_cons.mpr ⟨hf, habsent⟩) (hentered ▸ rfl)

namespace Entered

lemma find?_of_ne (h : Entered uri name l l') (hne : other ≠ uri) :
    l'.find? (fun f => f.uri = other) = l.find? fun f => f.uri = other := by
  have hskip : ∀ name rest, (⟨uri, name⟩ :: rest : List Verified).find? (fun f => f.uri = other) =
      rest.find? fun f => f.uri = other := fun _ _ =>
    List.find?_cons_of_neg (by simpa using hne.symm)
  rcases h with ⟨before, old, after, rfl, -, rfl⟩ | ⟨-, rfl⟩
  · rw [List.find?_append, List.find?_append, hskip, hskip]
  · rw [List.find?_append, hskip, List.find?_nil, Option.or_none]

lemma getElem?_findIdx (h : Entered uri name l l') :
    l'[l.findIdx fun f => f.uri = uri]? = some ⟨uri, name⟩ := by
  rcases h with ⟨before, old, after, rfl, hfirst, rfl⟩ | ⟨habsent, rfl⟩
  · have hbefore : before.findIdx (fun f => f.uri = uri) = before.length :=
      List.findIdx_eq_length_of_false fun f hf => decide_eq_false (hfirst f hf)
    have hindex : (before ++ ⟨uri, old⟩ :: after).findIdx (fun f => f.uri = uri) =
        before.length := by
      rw [List.findIdx_append, hbefore, if_neg (Nat.lt_irrefl _), List.findIdx_cons]
      simp
    rw [hindex, List.getElem?_append_right (Nat.le_refl _), Nat.sub_self]
    rfl
  · have hindex : l.findIdx (fun f => f.uri = uri) = l.length :=
      List.findIdx_eq_length_of_false fun f hf => decide_eq_false (habsent f hf)
    rw [hindex, List.getElem?_append_right (Nat.le_refl _), Nat.sub_self]
    rfl

/-- The documents with entries are the same ones, or there is one more. -/
lemma map_uri (h : Entered uri name l l') :
    l'.map Verified.uri = l.map Verified.uri ∨
      (uri ∉ l.map Verified.uri ∧ l'.map Verified.uri = l.map Verified.uri ++ [uri]) := by
  rcases h with ⟨before, old, after, rfl, -, rfl⟩ | ⟨habsent, rfl⟩
  · exact .inl (by simp only [List.map_append, List.map_cons])
  · refine .inr ⟨fun hmem => ?_, by rw [List.map_append]; rfl⟩
    obtain ⟨f, hf, huri⟩ := List.mem_map.mp hmem
    exact habsent f hf huri

/-- What has the name in the first entry for the document is left as it is. -/
lemma again (h : Entered uri name l l') : chooseIn uri name l' = l' := by
  have hkeep : ∀ before after : List Verified, (∀ f ∈ before, f.uri ≠ uri) →
      chooseIn uri name (before ++ ⟨uri, name⟩ :: after) = before ++ ⟨uri, name⟩ :: after := by
    intro before after hfirst
    induction before with
    | nil => rw [List.nil_append, chooseIn, if_pos rfl]
    | cons f before ih =>
      obtain ⟨hf, hfirst⟩ := List.forall_mem_cons.mp hfirst
      rw [List.cons_append, chooseIn, if_neg hf, ih hfirst]
  rcases h with ⟨before, old, after, -, hfirst, rfl⟩ | ⟨habsent, rfl⟩
  · exact hkeep before after hfirst
  · exact hkeep l [] habsent

end Entered

lemma entered_choose (s : Settings) (uri label : String) :
    Entered uri (nameOfLabel label) s.verified (s.choose uri label).verified :=
  entered_chooseIn ..

lemma nameOfLabel_spec (label : String) :
    '(' ∉ (nameOfLabel label).toList ∧
      (label = nameOfLabel label ∨ ∃ rest, label = nameOfLabel label ++ "(" ++ rest) :=
  Text.upTo_eq_iff.mp rfl

lemma answer?_eq (s : Settings) (uri label : String) :
    s.answer? uri label = some (nameOfLabel label) := by
  rw [answer?, (entered_choose s uri label).getElem?_findIdx]
  rfl

lemma verifiedName?_choose_of_ne (s : Settings) (hne : other ≠ uri) (label : String) :
    (s.choose uri label).verifiedName? other = s.verifiedName? other :=
  congrArg (Option.map Verified.name) ((entered_choose s uri label).find?_of_ne hne)

lemma choose_choose (s : Settings) (uri label : String) :
    (s.choose uri label).choose uri label = s.choose uri label :=
  congrArg (Settings.mk s.dropOnEdit) (entered_choose s uri label).again

/-! ### Many choices -/

lemma Single.choose (h : s.Single) (uri label : String) : (s.choose uri label).Single := by
  rcases (entered_choose s uri label).map_uri with hsame | ⟨hnew, hmore⟩
  · rwa [Single, hsame]
  · rw [Single, hmore, ← List.concat_eq_append]
    exact List.Nodup.concat hnew h

lemma Single.chooseEach (h : s.Single) (choices : List Choice) : (s.chooseEach choices).Single := by
  induction choices generalizing s with
  | nil => exact h
  | cons c choices ih => exact ih (h.choose c.uri c.label)

/-- Without a second entry for a document, what is looked up is what is there. -/
lemma Single.mem_iff (h : s.Single) :
    ⟨uri, name⟩ ∈ s.verified ↔ s.verifiedName? uri = some name := by
  rw [verifiedName?, Option.map_eq_some_iff]
  constructor
  · intro hmem
    have hfound : (s.verified.find? fun f => f.uri = uri).isSome :=
      List.find?_isSome.mpr ⟨_, hmem, decide_eq_true rfl⟩
    obtain ⟨f, hf⟩ := Option.isSome_iff_exists.mp hfound
    have huri : f.uri = uri := by simpa using List.find?_some hf
    have hsame : f = ⟨uri, name⟩ :=
      List.inj_on_of_nodup_map h (List.mem_of_find?_eq_some hf) hmem huri
    exact ⟨f, hf, congrArg Verified.name hsame⟩
  · rintro ⟨f, hf, rfl⟩
    have huri : f.uri = uri := by simpa using List.find?_some hf
    exact huri ▸ List.mem_of_find?_eq_some hf

/-- What is looked up after many choices is the last one, or what was there before them. -/
lemma verifiedName?_chooseEach (s : Settings) (choices : List Choice) (uri : String) :
    (s.chooseEach choices).verifiedName? uri =
      ((lastLabel? choices uri).map nameOfLabel).or (s.verifiedName? uri) := by
  induction choices generalizing s with
  | nil => rfl
  | cons c choices ih =>
    have hlast : lastLabel? (c :: choices) uri =
        (lastLabel? choices uri).or (if c.uri = uri then some c.label else none) := by
      rw [lastLabel?, List.reverse_cons, List.find?_append, Option.map_or, lastLabel?]
      by_cases hc : c.uri = uri <;> simp [hc]
    have hrest : (s.chooseEach (c :: choices)).verifiedName? uri =
        ((s.choose c.uri c.label).chooseEach choices).verifiedName? uri := rfl
    rw [hrest, ih, hlast, Option.map_or, Option.or_assoc]
    congr 1
    by_cases hc : c.uri = uri
    · rw [if_pos hc, ← hc, verifiedName?_choose]
      rfl
    · rw [if_neg hc, verifiedName?_choose_of_ne s (Ne.symm hc)]
      rfl

/-- **Choices of functions.** The name of a choice is its label up to the first parenthesis. With
it the choice is answered, and it is looked up for the document, while for every other document
the same is looked up as before. One entry is renamed, or one is put at the end if the document
had none, and all others stay in their places; a choice that is made again changes nothing. And
if no document has two entries, none has two after any choices, and those there are tell the last
choice for each document, or what was there for it where nothing was chosen. -/
theorem choices_kept (s : Settings) :
    (∀ uri label, let name := nameOfLabel label
      ('(' ∉ name.toList ∧ (label = name ∨ ∃ rest, label = name ++ "(" ++ rest)) ∧
      (s.answer? uri label = some name ∧ (s.choose uri label).verifiedName? uri = some name) ∧
      (∀ other, other ≠ uri →
        (s.choose uri label).verifiedName? other = s.verifiedName? other) ∧
      (Entered uri name s.verified (s.choose uri label).verified ∧
        (s.choose uri label).dropOnEdit = s.dropOnEdit) ∧
      (s.choose uri label).choose uri label = s.choose uri label) ∧
    (s.Single → ∀ choices, (s.chooseEach choices).Single ∧
      ∀ uri name, ⟨uri, name⟩ ∈ (s.chooseEach choices).verified ↔
        ((lastLabel? choices uri).map nameOfLabel).or (s.verifiedName? uri) = some name) := by
  refine ⟨fun uri label => ⟨nameOfLabel_spec label, ⟨answer?_eq s uri label,
    verifiedName?_choose s uri label⟩, fun _ hne => verifiedName?_choose_of_ne s hne label,
    ⟨entered_choose s uri label, rfl⟩, choose_choose s uri label⟩, fun hsingle choices => ?_⟩
  have hafter : (s.chooseEach choices).Single := hsingle.chooseEach choices
  refine ⟨hafter, fun uri name => ?_⟩
  rw [hafter.mem_iff, verifiedName?_chooseEach]

/-- One document is chosen for twice, one had no entry, and one is left alone. -/
theorem choices_kept_twice :
    let s : Settings := ⟨true, [⟨"file:///a.c", "f"⟩, ⟨"file:///b.c", "g"⟩]⟩
    let choices : List Choice :=
      [⟨"file:///é.c", "h(int (*)(void))"⟩, ⟨"file:///a.c", "main(int)"⟩, ⟨"file:///a.c", "k"⟩]
    (s.Single ∧ "file:///b.c" ≠ "file:///a.c") ∧
      (s.choose "file:///a.c" "k").verifiedName? "file:///b.c" = some "g" ∧
      (s.chooseEach choices).Single ∧
      (⟨"file:///a.c", "k"⟩ ∈ (s.chooseEach choices).verified ∧
        ⟨"file:///a.c", "main"⟩ ∉ (s.chooseEach choices).verified) ∧
      ⟨"file:///b.c", "g"⟩ ∈ (s.chooseEach choices).verified ∧
      ⟨"file:///é.c", "h"⟩ ∈ (s.chooseEach choices).verified := by
  intro s choices
  have hsingle : s.Single := by decide
  have hother : "file:///b.c" ≠ "file:///a.c" := by decide
  obtain ⟨hone, hmany⟩ := choices_kept s
  obtain ⟨hafter, hmem⟩ := hmany hsingle choices
  refine ⟨⟨hsingle, hother⟩, ?_, hafter, ⟨(hmem _ _).mpr ?_, fun h => ?_⟩, (hmem _ _).mpr ?_,
    (hmem _ _).mpr ?_⟩
  · exact (hone "file:///a.c" "k").2.2.1 "file:///b.c" hother
  · decide
  · exact absurd ((hmem _ _).mp h) (by decide)
  · decide
  · decide

end Settings

end LinkedViews
