import LinkedViews.Proofs.Text.Coding
import LinkedViews.Text.Percent

/-!
What stands in a coded path.

A coded path is a row of items: an escape stands for a byte, and any other character for
itself. Decoding puts the bytes of the items one behind the other and reads them once, so a
`%` that an escape stands for begins no other one. A path is therefore read from every coding
of it, whichever of its characters are escaped and in whichever case, as long as each `%` is.
A text without an escape is left alone, and no other one is: an escape takes up three
characters, and what it stands for gives at most one.
-/

namespace LinkedViews.Text.Percent

/-! ### Bytes -/

/-- A byte that begins no escape stands for itself. -/
lemma decodeBytes_cons {a : UInt8} {bytes : List UInt8}
    (h : ∀ b c rest, bytes = b :: c :: rest → escape? a b c = none) :
    decodeBytes (a :: bytes) = a :: decodeBytes bytes := by
  rcases bytes with _ | ⟨b, _ | ⟨c, rest⟩⟩
  · rfl
  · rfl
  · rw [decodeBytes, h b c rest rfl]

lemma decodeBytes_append {front : List UInt8} (h : ∀ b ∈ front, b ≠ 37) (bytes : List UInt8) :
    decodeBytes (front ++ bytes) = front ++ decodeBytes bytes := by
  induction front with
  | nil => rfl
  | cons b front ih =>
    have hb : b ≠ 37 := h b List.mem_cons_self
    have hfront := ih fun b' hb' => h b' (List.mem_cons_of_mem b hb')
    rw [List.cons_append, decodeBytes_cons fun _ _ _ _ => if_neg hb, hfront, List.cons_append]

lemma digits_of_escape? {a b c byte : UInt8} (h : escape? a b c = some byte) :
    ∃ hi lo, hexValue? b = some hi ∧ hexValue? c = some lo := by
  unfold escape? at h
  split at h
  · split at h
    · rename_i hi lo hhi hlo
      exact ⟨hi, lo, hhi, hlo⟩
    · cases h
  · cases h

lemma decodeBytes_escape {b c hi lo : UInt8} (hb : hexValue? b = some hi)
    (hc : hexValue? c = some lo) (bytes : List UInt8) :
    decodeBytes (37 :: b :: c :: bytes) = (hi * 16 + lo) :: decodeBytes bytes := by
  have hescape : escape? 37 b c = some (hi * 16 + lo) := by
    rw [escape?, if_pos rfl, hb, hc]
  rw [decodeBytes, hescape]

lemma digits_mul_add (b : UInt8) :
    UInt8.ofNat (b.toNat / 16) * 16 + UInt8.ofNat (b.toNat % 16) = b := by
  have hb := b.toNat_lt
  apply UInt8.toNat_inj.mp
  simp only [UInt8.toNat_add, UInt8.toNat_mul, UInt8.toNat_ofNat', UInt8.reduceToNat]
  omega

/-! ### Items -/

/-- What stands in a coded text. -/
inductive Item where
  | char (c : Char)
  | byte (b : UInt8)

def Item.bytes : Item → List UInt8
  | char c => String.utf8EncodeChar c
  | byte b => [b]

def digitValue? (d : Char) : Option UInt8 :=
  match String.utf8EncodeChar d with
  | [b] => hexValue? b
  | _ => none

/-- The byte that three characters write, if they are an escape. -/
def escaped? (a b c : Char) : Option UInt8 :=
  if a = '%' then
    match digitValue? b, digitValue? c with
    | some hi, some lo => some (hi * 16 + lo)
    | _, _ => none
  else none

def items : List Char → List Item
  | a :: b :: c :: rest =>
    match escaped? a b c with
    | some byte => .byte byte :: items rest
    | none => .char a :: items (b :: c :: rest)
  | a :: rest => .char a :: items rest
  | [] => []

lemma digitValue?_eq_some_iff {d : Char} {v : UInt8} :
    digitValue? d = some v ↔ ∃ b, String.utf8EncodeChar d = [b] ∧ hexValue? b = some v := by
  unfold digitValue?
  constructor
  · intro h
    split at h
    · rename_i b hcode
      exact ⟨b, hcode, h⟩
    · cases h
  · rintro ⟨b, hcode, hv⟩
    rw [hcode]
    exact hv

lemma escaped?_eq_some_iff {a b c : Char} {byte : UInt8} : escaped? a b c = some byte ↔
    a = '%' ∧ ∃ hi lo, digitValue? b = some hi ∧ digitValue? c = some lo ∧
      hi * 16 + lo = byte := by
  unfold escaped?
  split
  · rename_i ha
    cases digitValue? b <;> cases digitValue? c <;> simp [ha]
  · rename_i ha
    simp [ha]

lemma lt_of_hexValue? {b v : UInt8} (h : hexValue? b = some v) : b.toNat < 128 := by
  unfold hexValue? at h
  simp only [UInt8.le_iff_toNat_le, UInt8.reduceToNat] at h
  split_ifs at h <;> omega

/-- A digit among the bytes of a text is a digit of the text. -/
lemma exists_digit_of_encode {cs : List Char} {b v : UInt8} {bytes : List UInt8}
    (h : Utf8.encode cs = b :: bytes) (hv : hexValue? b = some v) :
    ∃ d cs', cs = d :: cs' ∧ digitValue? d = some v ∧ Utf8.encode cs' = bytes := by
  cases cs with
  | nil => cases h
  | cons d cs =>
    rw [Utf8.encode_cons] at h
    obtain ⟨b', tail, hcode, -⟩ := Utf8.exists_first_byte d
    have hb' : b' = b := by
      rw [hcode, List.cons_append] at h
      exact (List.cons.inj h).1
    have hone : String.utf8EncodeChar d = [b] := by
      refine (Utf8.eq_of_mem_utf8EncodeChar ?_ (lt_of_hexValue? hv)).2
      rw [hcode, hb']
      exact List.mem_cons_self
    rw [hone, List.singleton_append] at h
    exact ⟨d, cs, rfl, digitValue?_eq_some_iff.mpr ⟨b, hone, hv⟩, (List.cons.inj h).2⟩

lemma utf8EncodeChar_percent : String.utf8EncodeChar '%' = [37] := by decide

/-- A character that begins no escape stands for itself. -/
lemma decodeBytes_char {a : Char} {cs : List Char}
    (h : ∀ b c rest, cs = b :: c :: rest → escaped? a b c = none) :
    decodeBytes (Utf8.encode (a :: cs)) =
      String.utf8EncodeChar a ++ decodeBytes (Utf8.encode cs) := by
  rw [Utf8.encode_cons]
  by_cases ha : a = '%'
  · subst ha
    rw [utf8EncodeChar_percent, List.singleton_append, List.singleton_append]
    refine decodeBytes_cons fun b c rest hbytes => ?_
    rw [Option.eq_none_iff_forall_ne_some]
    intro byte hbyte
    -- where the bytes of two digits follow, so do the digits
    obtain ⟨hi, lo, hhi, hlo⟩ := digits_of_escape? hbyte
    obtain ⟨d, cs', rfl, hd, hrest⟩ := exists_digit_of_encode hbytes hhi
    obtain ⟨d', cs'', rfl, hd', -⟩ := exists_digit_of_encode hrest hlo
    have hsome := escaped?_eq_some_iff.mpr ⟨rfl, hi, lo, hd, hd', rfl⟩
    rw [h d d' cs'' rfl] at hsome
    cases hsome
  · refine decodeBytes_append (fun b hb h37 => ha ?_) _
    subst h37
    exact (Utf8.eq_of_mem_utf8EncodeChar hb (by decide)).1

/-- The bytes of the items are what decoding reads. -/
lemma decodeBytes_encode (cs : List Char) :
    decodeBytes (Utf8.encode cs) = (items cs).flatMap Item.bytes := by
  fun_induction items cs with
  | case1 a b c rest byte hescape ih =>
    obtain ⟨rfl, hi, lo, hhi, hlo, rfl⟩ := escaped?_eq_some_iff.mp hescape
    obtain ⟨b', hb, hhi⟩ := digitValue?_eq_some_iff.mp hhi
    obtain ⟨c', hc, hlo⟩ := digitValue?_eq_some_iff.mp hlo
    have hcode : Utf8.encode ('%' :: b :: c :: rest) = 37 :: b' :: c' :: Utf8.encode rest := by
      rw [Utf8.encode_cons, Utf8.encode_cons, Utf8.encode_cons, utf8EncodeChar_percent, hb, hc]
      rfl
    rw [hcode, decodeBytes_escape hhi hlo, ih, List.flatMap_cons]
    rfl
  | case2 a b c rest hescape ih =>
    rw [decodeBytes_char, ih, List.flatMap_cons]
    · rfl
    · rintro _ _ _ ⟨⟩
      exact hescape
  | case3 a rest hshort ih =>
    rw [decodeBytes_char, ih, List.flatMap_cons]
    · rfl
    · intro b c rest' hrest
      exact absurd hrest (hshort b c rest')
  | case4 => rfl

/-! ### Codings -/

def upperDigits : List Char :=
  ['0', '1', '2', '3', '4', '5', '6', '7', '8', '9', 'A', 'B', 'C', 'D', 'E', 'F']

def lowerDigits : List Char :=
  ['0', '1', '2', '3', '4', '5', '6', '7', '8', '9', 'a', 'b', 'c', 'd', 'e', 'f']

/-- `d` is the hexadecimal digit of `k`, in either case. -/
def Digit (k : Nat) (d : Char) : Prop := upperDigits[k]? = some d ∨ lowerDigits[k]? = some d

/-- Every byte is written as an escape. -/
inductive Escapes : List UInt8 → List Char → Prop where
  | nil : Escapes [] []
  | cons {b : UInt8} {hi lo : Char} {bytes : List UInt8} {e : List Char} :
      Digit (b.toNat / 16) hi → Digit (b.toNat % 16) lo → Escapes bytes e →
      Escapes (b :: bytes) ('%' :: hi :: lo :: e)

/-- `e` is a coding of `s`: each `%`, and any further characters, are given by escapes of their
bytes. -/
inductive Codes : (s e : List Char) → Prop where
  | nil : Codes [] []
  | char {c : Char} {s e : List Char} : c ≠ '%' → Codes s e → Codes (c :: s) (c :: e)
  | escape {c : Char} {x s e : List Char} :
      Escapes (String.utf8EncodeChar c) x → Codes s e → Codes (c :: s) (x ++ e)

/-- The text has nothing but ASCII letters and digits, a few marks, and escapes with upper-case
digits. -/
inductive UriSafe : List Char → Prop where
  | nil : UriSafe []
  | char {c : Char} {e : List Char} :
      c.isAlphanum ∨ c ∈ ['-', '.', '_', '~', '/'] → UriSafe e → UriSafe (c :: e)
  | escape {hi lo : Char} {e : List Char} :
      hi ∈ upperDigits → lo ∈ upperDigits → UriSafe e → UriSafe ('%' :: hi :: lo :: e)

/-- Somewhere in the text two hexadecimal digits follow a `%`. -/
def HasEscape (e : List Char) : Prop :=
  ∃ j k hi lo, Digit j hi ∧ Digit k lo ∧ ['%', hi, lo] <:+: e

lemma digitValue?_of_digit {k : Nat} {d : Char} (h : Digit k d) :
    digitValue? d = some (UInt8.ofNat k) := by
  have hupper : ∀ k < 16, upperDigits[k]?.bind digitValue? = some (UInt8.ofNat k) := by decide
  have hlower : ∀ k < 16, lowerDigits[k]?.bind digitValue? = some (UInt8.ofNat k) := by decide
  rcases h with h | h
  · have hk : k < 16 := (List.getElem?_eq_some_iff.mp h).1
    simpa [h] using hupper k hk
  · have hk : k < 16 := (List.getElem?_eq_some_iff.mp h).1
    simpa [h] using hlower k hk

lemma exists_digit {d : Char} {v : UInt8} (h : digitValue? d = some v) : ∃ k, Digit k d := by
  have hdigits : ∀ n < 256, (hexValue? (UInt8.ofNat n)).isSome →
      Char.ofNat n ∈ upperDigits ∨ Char.ofNat n ∈ lowerDigits := by decide +kernel
  obtain ⟨b, hcode, hv⟩ := digitValue?_eq_some_iff.mp h
  obtain ⟨rfl, -⟩ := Utf8.eq_of_mem_utf8EncodeChar (hcode ▸ List.mem_singleton_self b)
    (lt_of_hexValue? hv)
  have hmem := hdigits b.toNat b.toNat_lt (by rw [UInt8.ofNat_toNat, hv]; rfl)
  rcases hmem with hmem | hmem
  · obtain ⟨k, hk⟩ := List.mem_iff_getElem?.mp hmem
    exact ⟨k, .inl hk⟩
  · obtain ⟨k, hk⟩ := List.mem_iff_getElem?.mp hmem
    exact ⟨k, .inr hk⟩

/-! ### Reading a coding -/

lemma items_cons_of_ne {a : Char} (ha : a ≠ '%') (cs : List Char) :
    items (a :: cs) = .char a :: items cs := by
  rcases cs with _ | ⟨b, _ | ⟨c, rest⟩⟩
  · rfl
  · rfl
  · have hescape : escaped? a b c = none := if_neg ha
    rw [items, hescape]

lemma items_escapes {bytes : List UInt8} {x : List Char} (h : Escapes bytes x) (e : List Char) :
    items (x ++ e) = bytes.map .byte ++ items e := by
  induction h with
  | nil => rfl
  | @cons b hi lo bytes x hhi hlo _ ih =>
    have hescape : escaped? '%' hi lo = some b :=
      escaped?_eq_some_iff.mpr
        ⟨rfl, _, _, digitValue?_of_digit hhi, digitValue?_of_digit hlo, digits_mul_add b⟩
    rw [List.cons_append, List.cons_append, List.cons_append, items, hescape, ih]
    rfl

lemma bytes_items_of_codes {s e : List Char} (h : Codes s e) :
    (items e).flatMap Item.bytes = Utf8.encode s := by
  induction h with
  | nil => rfl
  | char hc _ ih =>
    rw [items_cons_of_ne hc, List.flatMap_cons, ih, Utf8.encode_cons]
    rfl
  | @escape c x s e hx _ ih =>
    have hbytes : ∀ bytes : List UInt8, (bytes.map Item.byte).flatMap Item.bytes = bytes := by
      intro bytes
      rw [List.flatMap_map]
      exact List.flatMap_singleton' bytes
    rw [items_escapes hx, List.flatMap_append, hbytes, ih, Utf8.encode_cons]

lemma toList_decode (s : String) :
    (decode s).toList = Utf8.decode ((items s.toList).flatMap Item.bytes) := by
  rw [decode, String.toList_ofList, decodeBytes_encode]

lemma head?_decode {s : String} {c : Char} (h : s.toList.head? = some c) (hc : c ≠ '%') :
    (decode s).toList.head? = some c := by
  obtain ⟨cs, hcs⟩ := List.head?_eq_some_iff.mp h
  rw [toList_decode, hcs, items_cons_of_ne hc, List.flatMap_cons, Utf8.decode, Item.bytes,
    Utf8.decodeFrom_char, List.head?_cons]

lemma decode_of_codes {s e : String} (h : Codes s.toList e.toList) : decode e = s := by
  rw [← String.toList_inj, toList_decode, bytes_items_of_codes h, Utf8.decode_encode]

/-! ### Writing a coding -/

lemma digit_hexDigit : ∀ k < 16, upperDigits[k]? = some (hexDigit k) := by decide

lemma escapes_flatMap_encodeByte {bytes : List UInt8} (h : ∀ b ∈ bytes, ¬ isPlain b) :
    Escapes bytes (bytes.flatMap encodeByte) := by
  induction bytes with
  | nil => exact .nil
  | cons b bytes ih =>
    have hb := b.toNat_lt
    have hrest := ih fun b' hb' => h b' (List.mem_cons_of_mem b hb')
    rw [List.flatMap_cons, encodeByte, if_neg (h b List.mem_cons_self)]
    exact .cons (.inl (digit_hexDigit _ (by omega))) (.inl (digit_hexDigit _ (by omega))) hrest

lemma codes_flatMap_encodeByte (cs : List Char) :
    Codes cs ((Utf8.encode cs).flatMap encodeByte) := by
  have hplain : ∀ n < 256, isPlain (UInt8.ofNat n) → n < 128 ∧ Char.ofNat n ≠ '%' := by
    decide +kernel
  induction cs with
  | nil => exact .nil
  | cons c cs ih =>
    rw [Utf8.encode_cons, List.flatMap_append]
    -- a byte that stands for itself is the only one of its character
    by_cases h : ∃ b ∈ String.utf8EncodeChar c, isPlain b
    · obtain ⟨b, hb, hp⟩ := h
      obtain ⟨hlt, hne⟩ := hplain b.toNat b.toNat_lt (by rwa [UInt8.ofNat_toNat])
      obtain ⟨rfl, hcode⟩ := Utf8.eq_of_mem_utf8EncodeChar hb hlt
      have hself : [b].flatMap encodeByte = [Char.ofNat b.toNat] := by
        rw [List.flatMap_singleton, encodeByte, if_pos hp]
      rw [hcode, hself]
      exact .char hne ih
    · exact .escape (escapes_flatMap_encodeByte fun b hb hp => h ⟨b, hb, hp⟩) ih

lemma uriSafe_flatMap_encodeByte (bytes : List UInt8) :
    UriSafe (bytes.flatMap encodeByte) := by
  induction bytes with
  | nil => exact .nil
  | cons b bytes ih =>
    have hb := b.toNat_lt
    rw [List.flatMap_cons, encodeByte]
    split
    · rename_i hplain
      refine .char ?_ ih
      simpa [isPlain] using hplain
    · exact .escape (List.mem_of_getElem? (digit_hexDigit _ (by omega)))
        (List.mem_of_getElem? (digit_hexDigit _ (by omega))) ih

lemma codes_encode (s : String) : Codes s.toList (encode s).toList := by
  rw [encode, String.toList_ofList]
  exact codes_flatMap_encodeByte s.toList

lemma uriSafe_encode (s : String) : UriSafe (encode s).toList := by
  rw [encode, String.toList_ofList]
  exact uriSafe_flatMap_encodeByte (Utf8.encode s.toList)

/-- **A coded path is read back.** -/
theorem decode_percentEncode (s : String) : decode (encode s) = s :=
  decode_of_codes (codes_encode s)

/-! ### Texts without escapes -/

lemma hasEscape_of_escaped? {a b c : Char} {rest : List Char} {byte : UInt8}
    (h : escaped? a b c = some byte) : HasEscape (a :: b :: c :: rest) := by
  obtain ⟨rfl, hi, lo, hhi, hlo, -⟩ := escaped?_eq_some_iff.mp h
  obtain ⟨j, hj⟩ := exists_digit hhi
  obtain ⟨k, hk⟩ := exists_digit hlo
  exact ⟨j, k, b, c, hj, hk, [], rest, rfl⟩

lemma HasEscape.cons {e : List Char} (h : HasEscape e) (a : Char) : HasEscape (a :: e) := by
  obtain ⟨j, k, hi, lo, hj, hk, hin⟩ := h
  exact ⟨j, k, hi, lo, hj, hk, List.infix_cons hin⟩

lemma HasEscape.length_le {e : List Char} (h : HasEscape e) : 3 ≤ e.length := by
  obtain ⟨j, k, hi, lo, -, -, hin⟩ := h
  exact hin.length_le

lemma HasEscape.of_cons {a b c : Char} {rest : List Char} (h : HasEscape (a :: b :: c :: rest))
    (hnone : escaped? a b c = none) : HasEscape (b :: c :: rest) := by
  obtain ⟨j, k, hi, lo, hj, hk, hin⟩ := h
  rcases List.infix_cons_iff.mp hin with hfront | hin
  · simp only [List.cons_prefix_cons, List.nil_prefix, and_true] at hfront
    obtain ⟨rfl, rfl, rfl⟩ := hfront
    rw [escaped?_eq_some_iff.mpr
      ⟨rfl, _, _, digitValue?_of_digit hj, digitValue?_of_digit hk, rfl⟩] at hnone
    cases hnone
  · exact ⟨j, k, hi, lo, hj, hk, hin⟩

lemma length_items_le (cs : List Char) : (items cs).length ≤ cs.length := by
  fun_induction items cs with
  | case1 a b c rest byte _ ih => simp only [List.length_cons]; omega
  | case2 a b c rest _ ih => simpa only [List.length_cons, Nat.add_le_add_iff_right] using ih
  | case3 a rest _ ih => simpa only [List.length_cons, Nat.add_le_add_iff_right] using ih
  | case4 => exact Nat.le_refl _

/-- A text with an escape has fewer items than characters. -/
lemma HasEscape.length_items_lt {cs : List Char} (h : HasEscape cs) :
    (items cs).length < cs.length := by
  fun_induction items cs with
  | case1 a b c rest byte _ ih =>
    have hle := length_items_le rest
    simp only [List.length_cons]
    omega
  | case2 a b c rest hnone ih =>
    have hlt := ih (h.of_cons hnone)
    simpa only [List.length_cons, Nat.add_lt_add_iff_right] using hlt
  | case3 a rest hshort ih =>
    have hlong := h.length_le
    rcases rest with _ | ⟨b, _ | ⟨c, rest⟩⟩
    · simp at hlong
    · simp at hlong
    · exact absurd rfl (hshort b c rest)
  | case4 => exact absurd h.length_le (by decide)

lemma items_of_not_hasEscape {cs : List Char} (h : ¬ HasEscape cs) : items cs = cs.map .char := by
  fun_induction items cs with
  | case1 a b c rest byte hescape ih => exact absurd (hasEscape_of_escaped? hescape) h
  | case2 a b c rest _ ih => rw [ih fun hrest => h (hrest.cons a)]; rfl
  | case3 a rest _ ih => rw [ih fun hrest => h (hrest.cons a)]; rfl
  | case4 => rfl

lemma hasEscape_iff {cs : List Char} : HasEscape cs ↔ (items cs).length < cs.length := by
  refine ⟨HasEscape.length_items_lt, fun hlt => Classical.byContradiction fun hnone => ?_⟩
  rw [items_of_not_hasEscape hnone, List.length_map] at hlt
  exact Nat.lt_irrefl _ hlt

instance (cs : List Char) : Decidable (HasEscape cs) := decidable_of_iff _ hasEscape_iff.symm

/-- Reading gives no more characters than there are items. What a byte leaves open is counted
with the state. -/
lemma length_decodeFrom_items {state : Option Utf8.Pending} (h : Utf8.Continuing state)
    (its : List Item) : (Utf8.decodeFrom state (its.flatMap Item.bytes)).length ≤
      its.length + Utf8.owed state := by
  induction its generalizing state with
  | nil => cases state <;> simp [Utf8.decodeFrom, Utf8.owed]
  | cons item its ih =>
    rw [List.flatMap_cons, List.length_cons]
    cases item with
    | char c =>
      have hrest := ih Utf8.continuing_none
      rw [Item.bytes, Utf8.length_decodeFrom_char h, Utf8.decode]
      have howed : Utf8.owed none = 0 := rfl
      omega
    | byte b =>
      have hrest := ih (Utf8.continuing_step state b)
      have hstep := Utf8.length_step_le state b
      rw [Item.bytes, List.singleton_append, Utf8.decodeFrom, List.length_append]
      omega

/-- **Decoding leaves alone exactly the texts without an escape.** -/
lemma decode_eq_self_iff {s : String} : decode s = s ↔ ¬ HasEscape s.toList := by
  constructor
  · intro hself hescape
    have hlt := hescape.length_items_lt
    have hle := length_decodeFrom_items Utf8.continuing_none (items s.toList)
    have hlength := congrArg (fun t : String => t.toList.length) hself
    simp only [toList_decode, Utf8.decode] at hlength
    have howed : Utf8.owed none = 0 := rfl
    omega
  · intro hnone
    have hbytes : (items s.toList).flatMap Item.bytes = Utf8.encode s.toList := by
      rw [items_of_not_hasEscape hnone, List.flatMap_map]
      rfl
    rw [← String.toList_inj, toList_decode, hbytes, Utf8.decode_encode]

/-- **Every coding of a path is read as the path.** The one that is written has only characters
that are safe in a uri, but any other one will do that escapes each `%`, with digits in either
case; what the escapes stand for is not decoded again. And a text is left alone exactly if it
has no escape. -/
theorem decode_every_coding :
    (∀ s : String, decode (encode s) = s ∧ Codes s.toList (encode s).toList ∧
      UriSafe (encode s).toList) ∧
    (∀ s e : String, Codes s.toList e.toList → decode e = s) ∧
    ∀ s : String, decode s = s ↔ ¬ HasEscape s.toList :=
  ⟨fun s => ⟨decode_percentEncode s, codes_encode s, uriSafe_encode s⟩,
    fun _ _ => decode_of_codes, fun _ => decode_eq_self_iff⟩

/-- A character of two bytes escaped with digits of both cases, and a `%` in front of what would
be an escape. -/
theorem decode_every_coding_mixed :
    Codes "é%41".toList "%c3%A9%2541".toList ∧ decode "%c3%A9%2541" = "é%41" := by
  have hescapes : Escapes (String.utf8EncodeChar 'é') ['%', 'c', '3', '%', 'A', '9'] :=
    .cons (.inr rfl) (.inl rfl) (.cons (.inl rfl) (.inl rfl) .nil)
  have hpercent : Escapes (String.utf8EncodeChar '%') ['%', '2', '5'] :=
    .cons (.inl rfl) (.inl rfl) .nil
  have hcodes : Codes "é%41".toList "%c3%A9%2541".toList :=
    .escape hescapes (.escape hpercent (.char (by decide) (.char (by decide) .nil)))
  exact ⟨hcodes, decode_every_coding.2.1 _ _ hcodes⟩

end LinkedViews.Text.Percent
