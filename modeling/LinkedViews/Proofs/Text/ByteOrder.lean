import LinkedViews.Proofs.Text.Coding

/-!
Texts in the order of their bytes.

A character before another one has bytes before those of the other, whatever follows. So it
makes no difference whether texts are compared by code points or by bytes.
-/

namespace LinkedViews.Text

namespace Utf8

lemma compare_cons_eq_lt_iff {a b : UInt8} {xs ys : List UInt8} :
    compare (a :: xs) (b :: ys) = .lt ↔
      a.toNat < b.toNat ∨ a.toNat = b.toNat ∧ compare xs ys = .lt := by
  rw [List.compare_cons_cons, Ordering.then_eq_lt, Std.compare_eq_lt, UInt8.lt_iff_toNat_lt,
    Std.compare_eq_iff_eq, UInt8.toNat_inj]

lemma compare_append_append (as xs ys : List UInt8) :
    compare (as ++ xs) (as ++ ys) = compare xs ys := by
  induction as with
  | nil => rfl
  | cons a as ih =>
    have hself : compare a a = .eq := Std.ReflCmp.compare_self
    rw [List.cons_append, List.cons_append, List.compare_cons_cons, hself, ih]
    rfl

/-- The first bytes tell how many follow, and so does the order of the lengths. -/
lemma compare_utf8EncodeChar_of_lt {c d : Char} (h : c < d) (xs ys : List UInt8) :
    compare (String.utf8EncodeChar c ++ xs) (String.utf8EncodeChar d ++ ys) = .lt := by
  have hlt : c.val.toNat < d.val.toNat := h
  have hmax : d.val.toNat < 0x110000 := by
    rcases d.valid with hd | ⟨-, hd⟩
    · exact Nat.lt_trans hd (by decide)
    · exact hd
  unfold String.utf8EncodeChar
  generalize c.val.toNat = v at hlt
  generalize d.val.toNat = w at hlt hmax
  simp only
  -- A case for each pair of lengths.
  split_ifs
  all_goals
    simp (disch := omega) only [List.cons_append, List.nil_append, compare_cons_eq_lt_iff,
      UInt8.toNat_ofNat', Nat.mod_eq_of_lt]
    omega

lemma compare_utf8EncodeChar (c d : Char) (xs ys : List UInt8) :
    compare (String.utf8EncodeChar c ++ xs) (String.utf8EncodeChar d ++ ys) =
      (compare c d).then (compare xs ys) := by
  rcases hc : compare c d with _ | _ | _
  · exact compare_utf8EncodeChar_of_lt (compareOfLessAndEq_eq_lt.mp hc) xs ys
  · rw [Std.compare_eq_iff_eq.mp hc]
    exact compare_append_append _ xs ys
  · have hlt : compare d c = .lt := Std.OrientedCmp.gt_iff_lt.mp hc
    have hbytes := compare_utf8EncodeChar_of_lt (compareOfLessAndEq_eq_lt.mp hlt) ys xs
    exact Std.OrientedCmp.gt_iff_lt.mpr hbytes

lemma compare_encode (cs ds : List Char) : compare (encode cs) (encode ds) = compare cs ds := by
  induction cs generalizing ds with
  | nil =>
    cases ds with
    | nil => rfl
    | cons d ds =>
      obtain ⟨b, tail, hcode, -⟩ := exists_first_byte d
      rw [encode_cons, hcode]
      rfl
  | cons c cs ih =>
    cases ds with
    | nil =>
      obtain ⟨b, tail, hcode, -⟩ := exists_first_byte c
      rw [encode_cons, hcode]
      rfl
    | cons d ds =>
      rw [encode_cons, encode_cons, compare_utf8EncodeChar, ih, List.compare_cons_cons]

end Utf8

lemma compare_eq_compareOfLessAndEq (cs ds : List Char) :
    compare cs ds = compareOfLessAndEq cs ds := by
  induction cs generalizing ds with
  | nil => cases ds <;> rfl
  | cons c cs ih =>
    cases ds with
    | nil => rfl
    | cons d ds =>
      have hhead : compare c d = compareOfLessAndEq c d := rfl
      rw [List.compare_cons_cons, ih, hhead]
      simp only [compareOfLessAndEq, List.cons_lt_cons_iff, List.cons.injEq]
      by_cases hlt : c < d
      · simp [hlt]
      · by_cases heq : c = d
        · simp [heq]
        · simp [hlt, heq]

/-- **The order of texts is that of their bytes.** -/
theorem compare_eq_compare_encode (a b : String) :
    compare a b = compare (Utf8.encode a.toList) (Utf8.encode b.toList) := by
  have hlt : a < b ↔ a.toList < b.toList := Iff.rfl
  have htext : compare a b = compareOfLessAndEq a b := rfl
  rw [Utf8.compare_encode, compare_eq_compareOfLessAndEq, htext]
  simp only [compareOfLessAndEq, hlt, String.toList_inj]

end LinkedViews.Text
