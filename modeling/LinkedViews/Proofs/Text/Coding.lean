import Mathlib.Tactic.Lemma
import Mathlib.Tactic.SplitIfs
import LinkedViews.Text.Utf8

/-!
Reading back what was written as bytes.

The bytes of a character are read as the character, whatever follows, so what was written is
read back character by character. Any other byte gives at most one character, and a character
that is broken off before a whole one gives one too.
-/

namespace LinkedViews.Text

namespace Utf8

/-! ### First bytes -/

lemma start_one : ∀ k < 128, start (UInt8.ofNat k) = ([Char.ofNat k], none) := by decide

lemma start_two : ∀ k < 32, 2 ≤ k →
    start (UInt8.ofNat (k + 0xC0)) = ([], some ⟨k, 0, 0x80, 0xBF⟩) := by decide

lemma start_three : ∀ k < 16, start (UInt8.ofNat (k + 0xE0)) =
    ([], some ⟨k, 1, if k = 0 then 0xA0 else 0x80, if k = 13 then 0x9F else 0xBF⟩) := by decide

lemma start_four : ∀ k < 5, start (UInt8.ofNat (k + 0xF0)) =
    ([], some ⟨k, 2, if k = 0 then 0x90 else 0x80, if k = 4 then 0x8F else 0xBF⟩) := by decide

/-! ### Further bytes -/

variable {bits more j : Nat} {low high : UInt8}

lemma toNat_tail (hj : j < 64) : (UInt8.ofNat (j + 0x80)).toNat = j + 0x80 := by
  rw [UInt8.toNat_ofNat']
  exact Nat.mod_eq_of_lt (by omega)

lemma step_tail (hj : j < 64) (hlow : low.toNat ≤ j + 0x80) (hhigh : j + 0x80 ≤ high.toNat) :
    step (some ⟨bits, more, low, high⟩) (UInt8.ofNat (j + 0x80)) =
      match more with
      | 0 => ([Char.ofNat (bits * 64 + j)], none)
      | more + 1 => ([], some ⟨bits * 64 + j, more, 0x80, 0xBF⟩) := by
  have hin : low ≤ UInt8.ofNat (j + 0x80) ∧ UInt8.ofNat (j + 0x80) ≤ high := by
    rw [UInt8.le_iff_toNat_le, UInt8.le_iff_toNat_le, toNat_tail hj]
    exact ⟨hlow, hhigh⟩
  have hmod : (j + 0x80) % 64 = j := by omega
  cases more with
  | zero => simp only [step, if_pos hin, toNat_tail hj, hmod]
  | succ more => simp only [step, if_pos hin, toNat_tail hj, hmod]

lemma decodeFrom_last (hj : j < 64) (hlow : low.toNat ≤ j + 0x80) (hhigh : j + 0x80 ≤ high.toNat)
    (bytes : List UInt8) :
    decodeFrom (some ⟨bits, 0, low, high⟩) (UInt8.ofNat (j + 0x80) :: bytes) =
      Char.ofNat (bits * 64 + j) :: decodeFrom none bytes := by
  rw [decodeFrom, step_tail hj hlow hhigh]; rfl

lemma decodeFrom_more (hj : j < 64) (hlow : low.toNat ≤ j + 0x80) (hhigh : j + 0x80 ≤ high.toNat)
    (bytes : List UInt8) :
    decodeFrom (some ⟨bits, more + 1, low, high⟩) (UInt8.ofNat (j + 0x80) :: bytes) =
      decodeFrom (some ⟨bits * 64 + j, more, 0x80, 0xBF⟩) bytes := by
  rw [decodeFrom, step_tail hj hlow hhigh]; rfl

/-! ### One character -/

lemma decodeFrom_char (c : Char) (bytes : List UInt8) :
    decodeFrom none (String.utf8EncodeChar c ++ bytes) = c :: decodeFrom none bytes := by
  have hvalid : c.val.toNat < 0xD800 ∨ (0xDFFF < c.val.toNat ∧ c.val.toNat < 0x110000) := c.valid
  have hchar : Char.ofNat c.val.toNat = c := Char.ofNat_toNat c
  unfold String.utf8EncodeChar
  generalize c.val.toNat = v at hvalid hchar
  simp only
  split
  · rw [List.cons_append, decodeFrom, step, start_one v (by omega), hchar]; rfl
  · split
    · have hbits : v / 64 % 32 * 64 + v % 64 = v := by omega
      rw [List.cons_append, decodeFrom, step, start_two _ (by omega) (by omega)]
      simp only [List.cons_append, List.nil_append]
      rw [decodeFrom_last (by omega) (by simp) (by simp; omega), hbits, hchar]
    · split
      · have hbits : (v / 4096 % 16 * 64 + v / 64 % 64) * 64 + v % 64 = v := by omega
        rw [List.cons_append, decodeFrom, step, start_three _ (by omega)]
        simp only [List.cons_append, List.nil_append]
        rw [decodeFrom_more (by omega) ?_ ?_, decodeFrom_last (by omega) (by simp) (by simp; omega),
          hbits, hchar]
        · split
          · simp; omega
          · simp
        · split
          · simp; omega
          · simp; omega
      · have hbits :
            ((v / 262144 % 8 * 64 + v / 4096 % 64) * 64 + v / 64 % 64) * 64 + v % 64 = v := by
          omega
        rw [List.cons_append, decodeFrom, step, start_four _ (by omega)]
        simp only [List.cons_append, List.nil_append]
        rw [decodeFrom_more (by omega) ?_ ?_,
          decodeFrom_more (by omega) (by simp) (by simp; omega),
          decodeFrom_last (by omega) (by simp) (by simp; omega), hbits, hchar]
        · split
          · simp; omega
          · simp
        · split
          · simp; omega
          · simp; omega

lemma encode_cons (c : Char) (cs : List Char) :
    encode (c :: cs) = String.utf8EncodeChar c ++ encode cs := List.flatMap_cons

/-- **What is written as bytes is read back.** -/
theorem decode_encode (cs : List Char) : decode (encode cs) = cs := by
  induction cs with
  | nil => rfl
  | cons c cs ih =>
    rw [encode_cons, decode, decodeFrom_char]
    exact congrArg (c :: ·) ih

/-! ### The bytes of a character -/

variable {c : Char}

lemma utf8EncodeChar_of_lt (h : c.toNat < 128) :
    String.utf8EncodeChar c = [UInt8.ofNat c.toNat] := by
  have hle : c.val.toNat ≤ 0x7F := Nat.le_of_lt_succ h
  rw [String.utf8EncodeChar]
  exact if_pos hle

/-- A longer code has a byte in front that continues no character. -/
lemma utf8EncodeChar_of_le (h : 128 ≤ c.toNat) :
    (∀ b ∈ String.utf8EncodeChar c, 128 ≤ b.toNat) ∧
      ∃ b tail, String.utf8EncodeChar c = b :: tail ∧ 0xBF < b.toNat := by
  have hgt : ¬ c.val.toNat ≤ 0x7F := Nat.not_le_of_lt h
  unfold String.utf8EncodeChar
  generalize c.val.toNat = v at hgt
  simp only [if_neg hgt]
  split_ifs
  all_goals
    refine ⟨?_, _, _, rfl, ?_⟩
    · simp only [List.forall_mem_cons, List.not_mem_nil, false_imp_iff, implies_true, and_true,
        UInt8.toNat_ofNat']
      omega
    · simp only [UInt8.toNat_ofNat']
      omega

lemma exists_first_byte (c : Char) : ∃ b tail, String.utf8EncodeChar c = b :: tail ∧
    (b.toNat < 0x80 ∨ 0xBF < b.toNat) := by
  rcases Nat.lt_or_ge c.toNat 128 with h | h
  · refine ⟨_, [], utf8EncodeChar_of_lt h, .inl ?_⟩
    rw [UInt8.toNat_ofNat']
    omega
  · obtain ⟨-, b, tail, hcode, hb⟩ := utf8EncodeChar_of_le h
    exact ⟨b, tail, hcode, .inr hb⟩

/-- A byte below 128 is a character of its own. -/
lemma eq_of_mem_utf8EncodeChar {b : UInt8} (hb : b ∈ String.utf8EncodeChar c)
    (hlt : b.toNat < 128) : c = Char.ofNat b.toNat ∧ String.utf8EncodeChar c = [b] := by
  rcases Nat.lt_or_ge c.toNat 128 with h | h
  · rw [utf8EncodeChar_of_lt h, List.mem_singleton] at hb
    have hnat : b.toNat = c.toNat := by
      rw [hb, UInt8.toNat_ofNat']
      omega
    exact ⟨by rw [hnat, Char.ofNat_toNat], by rw [hb, utf8EncodeChar_of_lt h]⟩
  · have hge := (utf8EncodeChar_of_le h).1 b hb
    omega

/-! ### How much is read -/

/-- How many characters the bytes read so far are still to give: one, if they are the beginning
of a character. -/
def owed (state : Option Pending) : Nat := if state.isSome then 1 else 0

/-- No first byte of a character is taken for the next byte of another one. -/
def Continuing (state : Option Pending) : Prop := ∀ p ∈ state, 0x80 ≤ p.low ∧ p.high ≤ 0xBF

instance (state : Option Pending) : Decidable (Continuing state) :=
  inferInstanceAs (Decidable (∀ p ∈ state, 0x80 ≤ p.low ∧ p.high ≤ 0xBF))

lemma continuing_none : Continuing none := nofun

lemma length_start (b : UInt8) : (start b).1.length + owed (start b).2 = 1 := by
  have hbytes : ∀ k < 256,
      (start (UInt8.ofNat k)).1.length + owed (start (UInt8.ofNat k)).2 = 1 := by decide +kernel
  simpa only [UInt8.ofNat_toNat] using hbytes b.toNat b.toNat_lt

lemma continuing_start (b : UInt8) : Continuing (start b).2 := by
  have hbytes : ∀ k < 256, Continuing (start (UInt8.ofNat k)).2 := by decide +kernel
  simpa only [UInt8.ofNat_toNat] using hbytes b.toNat b.toNat_lt

lemma step_of_out {p : Pending} {b : UInt8} (h : ¬ (p.low ≤ b ∧ b ≤ p.high)) :
    step (some p) b = (replacement :: (start b).1, (start b).2) := by
  obtain ⟨bits, more, low, high⟩ := p
  rw [step, if_neg h]

/-- A byte that comes next ends the character, goes on with it, or begins another one. -/
lemma step_cases (p : Pending) (b : UInt8) :
    (∃ c, step (some p) b = ([c], none)) ∨
    (∃ bits more, step (some p) b = ([], some ⟨bits, more, 0x80, 0xBF⟩)) ∨
    step (some p) b = (replacement :: (start b).1, (start b).2) := by
  by_cases hin : p.low ≤ b ∧ b ≤ p.high
  · obtain ⟨bits, more, low, high⟩ := p
    cases more with
    | zero => exact .inl ⟨_, by rw [step, if_pos hin]⟩
    | succ more => exact .inr (.inl ⟨_, more, by rw [step, if_pos hin]⟩)
  · exact .inr (.inr (step_of_out hin))

lemma length_step_le (state : Option Pending) (b : UInt8) :
    (step state b).1.length + owed (step state b).2 ≤ 1 + owed state := by
  have hstart := length_start b
  cases state with
  | none => exact Nat.le_of_eq hstart
  | some p =>
    have howed : owed (some p) = 1 := rfl
    rcases step_cases p b with ⟨c, hstep⟩ | ⟨bits, more, hstep⟩ | hstep
    · simp [hstep, owed]
    · simp [hstep, owed]
    · rw [hstep, howed]
      show (start b).1.length + 1 + owed (start b).2 ≤ 1 + 1
      omega

lemma continuing_step (state : Option Pending) (b : UInt8) : Continuing (step state b).2 := by
  cases state with
  | none => exact continuing_start b
  | some p =>
    rcases step_cases p b with ⟨c, hstep⟩ | ⟨bits, more, hstep⟩ | hstep
    · rw [hstep]
      exact continuing_none
    · rw [hstep]
      rintro q ⟨⟩
      exact ⟨UInt8.le_refl _, UInt8.le_refl _⟩
    · rw [hstep]
      exact continuing_start b

/-- A whole character ends the one before it. -/
lemma length_decodeFrom_char {state : Option Pending} (h : Continuing state) (c : Char)
    (bytes : List UInt8) :
    (decodeFrom state (String.utf8EncodeChar c ++ bytes)).length =
      owed state + 1 + (decode bytes).length := by
  cases state with
  | none =>
    rw [decodeFrom_char]
    show (decode bytes).length + 1 = 0 + 1 + (decode bytes).length
    omega
  | some p =>
    obtain ⟨b, tail, hcode, hb⟩ := exists_first_byte c
    obtain ⟨hlow, hhigh⟩ := h p rfl
    have hout : ¬ (p.low ≤ b ∧ b ≤ p.high) := by
      rw [UInt8.le_iff_toNat_le] at hlow hhigh ⊢
      rw [UInt8.le_iff_toNat_le]
      simp only [UInt8.reduceToNat] at hlow hhigh
      omega
    have hstart : decodeFrom (some p) (String.utf8EncodeChar c ++ bytes) =
        replacement :: decodeFrom none (String.utf8EncodeChar c ++ bytes) := by
      rw [hcode, List.cons_append, decodeFrom, decodeFrom, step_of_out hout]; rfl
    rw [hstart, decodeFrom_char]
    show (decode bytes).length + 1 + 1 = 1 + 1 + (decode bytes).length
    omega

end Utf8

end LinkedViews.Text
