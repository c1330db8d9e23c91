-- Primitives come back as they were: from their bytes, and from the value they
-- are boxed as. Only a 32-bit pattern that is no number may come back as another,
-- since it goes through 64 bits.
import DeepCopy.Value

namespace DeepCopy

namespace Binary

/-! ## Patterns as signs and magnitudes -/

namespace Format

variable {f : Format} {magnitude : Nat}

theorem infinity_lt_signWeight (f : Format) : f.infinity < f.signWeight := by
  unfold infinity signWeight topField
  rw [Nat.pow_add]
  have := Nat.two_pow_pos f.exponentBits
  exact Nat.mul_lt_mul_of_pos_right (by omega) (Nat.two_pow_pos _)

theorem signed_mod (negative : Bool) (h : magnitude < f.signWeight) :
    f.signed negative magnitude % f.signWeight = magnitude := by
  cases negative <;> simp [signed, Nat.mod_eq_of_lt h]

theorem signWeight_le_signed (negative : Bool) (h : magnitude < f.signWeight) :
    (f.signWeight ≤ f.signed negative magnitude) = (negative = true) := by
  cases negative <;> simp [signed, Nat.not_le.mpr h]

/-- A magnitude below infinity reads as a finite number. -/
theorem read_signed (negative : Bool) (h : magnitude < f.infinity) :
    f.read (f.signed negative magnitude) =
      .finite negative
        (if magnitude / 2 ^ f.fractionBits = 0 then magnitude % 2 ^ f.fractionBits
          else 2 ^ f.fractionBits + magnitude % 2 ^ f.fractionBits)
        (f.minExponent + (magnitude / 2 ^ f.fractionBits - 1 : Nat)) := by
  have hlt := Nat.lt_trans h f.infinity_lt_signWeight
  have hfield : magnitude / 2 ^ f.fractionBits < f.topField := by
    apply Nat.div_lt_of_lt_mul
    rw [Nat.mul_comm]
    exact h
  unfold read
  simp only [signed_mod negative hlt, signWeight_le_signed negative hlt, Nat.ne_of_lt hfield,
    if_false]
  by_cases h0 : magnitude / 2 ^ f.fractionBits = 0 <;> simp [h0]

theorem read_infinity (negative : Bool) :
    f.read (f.signed negative f.infinity) = .infinite negative := by
  have hlt := f.infinity_lt_signWeight
  have hdiv : f.infinity / 2 ^ f.fractionBits = f.topField :=
    Nat.mul_div_cancel _ (Nat.two_pow_pos _)
  have hmod : f.infinity % 2 ^ f.fractionBits = 0 := Nat.mul_mod_left _ _
  unfold read
  simp [signed_mod negative hlt, signWeight_le_signed negative hlt, hdiv, hmod]

end Format

/-! ## Widening and narrowing -/

theorem shiftRounded_mul (n shift : Nat) : shiftRounded (n * 2 ^ shift) shift = n := by
  have hpos := Nat.two_pow_pos shift
  unfold shiftRounded
  simp only [Nat.mul_mod_left, Nat.mul_div_cancel _ hpos]
  rw [if_neg (by omega)]

theorem shifted_bounds {significand : Nat} (h0 : significand ≠ 0) (hs : significand < 2 ^ 24) :
    2 ^ 52 ≤ significand * 2 ^ (52 - Nat.log2 significand) ∧
      significand * 2 ^ (52 - Nat.log2 significand) < 2 ^ 53 := by
  have hl : Nat.log2 significand < 24 := (Nat.log2_lt h0).mpr hs
  have hpos := Nat.two_pow_pos (52 - Nat.log2 significand)
  have low : 2 ^ 52 = 2 ^ Nat.log2 significand * 2 ^ (52 - Nat.log2 significand) := by
    rw [← Nat.pow_add]
    congr 1
    omega
  have high : 2 ^ 53 = 2 ^ (Nat.log2 significand + 1) * 2 ^ (52 - Nat.log2 significand) := by
    rw [← Nat.pow_add]
    congr 1
    omega
  rw [low, high]
  exact ⟨Nat.mul_le_mul_right _ (Nat.log2_self_le h0),
    Nat.mul_lt_mul_of_pos_right Nat.lt_log2_self hpos⟩

/-- What a 32-bit number is in the 64-bit format: its significand is shifted to fill the wider
one. -/
theorem nearest_double {significand field : Nat} (h0 : significand ≠ 0) (hs : significand < 2 ^ 24)
    (hf : field < 254) :
    double.nearest significand (single.minExponent + field) =
      (Nat.log2 significand + field + 873) * 2 ^ 52 +
        significand * 2 ^ (52 - Nat.log2 significand) := by
  have hl : Nat.log2 significand < 24 := (Nat.log2_lt h0).mpr hs
  have hmin : single.minExponent = -149 := by decide
  have hmin' : double.minExponent = -1074 := by decide
  have hprec : double.precision = 53 := rfl
  have hstep : double.stepExponent significand (-149 + field) =
      (Nat.log2 significand : Int) + field - 201 := by
    simp only [Format.stepExponent, hmin', hprec]
    omega
  have hinf : double.infinity = 2047 * 2 ^ 52 := by decide
  obtain ⟨-, hlt⟩ := shifted_bounds h0 hs
  unfold Format.nearest
  simp only [h0, if_false, hmin, hstep, hmin', hinf]
  rw [if_pos (by omega)]
  have hup : ((-149 : Int) + field - (Nat.log2 significand + field - 201)).toNat =
      52 - Nat.log2 significand := by omega
  have hfield : ((Nat.log2 significand : Int) + field - 201 - -1074).toNat =
      Nat.log2 significand + field + 873 := by omega
  have hfb : double.fractionBits = 52 := rfl
  rw [hup, hfield, hfb]
  apply Nat.min_eq_left
  omega

/-- A number of 32 bits is found again from its 64 bits. -/
theorem nearest_single {significand field : Nat} (h0 : significand ≠ 0) (hs : significand < 2 ^ 24)
    (hf : field < 254) (hn : field ≠ 0 → 2 ^ 23 ≤ significand) :
    single.nearest (significand * 2 ^ (52 - Nat.log2 significand))
        (double.minExponent + (Nat.log2 significand + field + 873 : Nat)) =
      field * 2 ^ 23 + significand := by
  have hl : Nat.log2 significand < 24 := (Nat.log2_lt h0).mpr hs
  obtain ⟨hle, hlt⟩ := shifted_bounds h0 hs
  have hne : significand * 2 ^ (52 - Nat.log2 significand) ≠ 0 := by omega
  have hlog : Nat.log2 (significand * 2 ^ (52 - Nat.log2 significand)) = 52 :=
    (Nat.log2_eq_iff hne).mpr ⟨hle, hlt⟩
  have hmin : single.minExponent = -149 := by decide
  have hmin' : double.minExponent = -1074 := by decide
  have hinf : single.infinity = 255 * 2 ^ 23 := by decide
  have hfb : single.fractionBits = 23 := rfl
  have hprec : single.precision = 24 := rfl
  -- A normal number fills the significand; one below that is measured in the smallest step.
  have hlow : field ≠ 0 → Nat.log2 significand = 23 := fun h =>
    (Nat.log2_eq_iff h0).mpr ⟨hn h, hs⟩
  have hstep : single.stepExponent (significand * 2 ^ (52 - Nat.log2 significand))
      (-1074 + (Nat.log2 significand + field + 873 : Nat)) = -149 + field := by
    simp only [Format.stepExponent, hmin, hlog, hprec]
    by_cases h : field = 0
    · omega
    · have := hlow h
      omega
  unfold Format.nearest
  simp only [hne, if_false, hmin, hmin', hstep, hinf, hfb]
  rw [if_neg (by omega)]
  have hdown : ((-149 : Int) + field - (-1074 + (Nat.log2 significand + field + 873 : Nat))).toNat =
      52 - Nat.log2 significand := by omega
  have hup : ((-149 : Int) + field - -149).toNat = field := by omega
  rw [hdown, hup, shiftRounded_mul]
  apply Nat.min_eq_left
  omega

/-- A number of 64 bits that was widened from 32 reads as such. -/
theorem read_widened (negative : Bool) {significand field : Nat} (h0 : significand ≠ 0)
    (hs : significand < 2 ^ 24) (hf : field < 254) :
    double.read (double.signed negative ((Nat.log2 significand + field + 873) * 2 ^ 52 +
        significand * 2 ^ (52 - Nat.log2 significand))) =
      .finite negative (significand * 2 ^ (52 - Nat.log2 significand))
        (double.minExponent + (Nat.log2 significand + field + 873 : Nat)) := by
  have hl : Nat.log2 significand < 24 := (Nat.log2_lt h0).mpr hs
  obtain ⟨hle, hlt⟩ := shifted_bounds h0 hs
  have hinf : double.infinity = 2047 * 2 ^ 52 := by decide
  have hfb : double.fractionBits = 52 := rfl
  generalize significand * 2 ^ (52 - Nat.log2 significand) = wide at *
  have hdiv : ((Nat.log2 significand + field + 873) * 2 ^ 52 + wide) / 2 ^ 52 =
      Nat.log2 significand + field + 874 := by omega
  have hmod : ((Nat.log2 significand + field + 873) * 2 ^ 52 + wide) % 2 ^ 52 =
      wide - 2 ^ 52 := by omega
  have hwide : 2 ^ 52 + (wide - 2 ^ 52) = wide := by omega
  have hfield : Nat.log2 significand + field + 874 - 1 = Nat.log2 significand + field + 873 := by
    omega
  rw [Format.read_signed negative (by omega), hfb, hdiv, hmod, if_neg (by omega), hwide, hfield]

/-- Widening and narrowing lose nothing of a number. -/
theorem convert_convert (negative : Bool) {magnitude : Nat} (h : magnitude ≤ single.infinity) :
    double.convert single (single.convert double (single.signed negative magnitude)) =
      single.signed negative magnitude := by
  rcases Nat.lt_or_eq_of_le h with hlt | rfl
  · have hinf : single.infinity = 255 * 2 ^ 23 := by decide
    have hfb : single.fractionBits = 23 := rfl
    unfold Format.convert
    rw [Format.read_signed negative hlt, hfb]
    simp only
    by_cases hz : magnitude = 0
    · subst hz
      cases negative <;> decide
    · generalize hsig : (if magnitude / 2 ^ 23 = 0 then magnitude % 2 ^ 23
        else 2 ^ 23 + magnitude % 2 ^ 23) = significand
      generalize hfield : magnitude / 2 ^ 23 - 1 = field
      have h0 : significand ≠ 0 := by split at hsig <;> omega
      have hs : significand < 2 ^ 24 := by split at hsig <;> omega
      have hf : field < 254 := by omega
      have hn : field ≠ 0 → 2 ^ 23 ≤ significand := by split at hsig <;> omega
      have hm : field * 2 ^ 23 + significand = magnitude := by split at hsig <;> omega
      rw [nearest_double h0 hs hf, read_widened negative h0 hs hf]
      simp only
      rw [nearest_single h0 hs hf hn, hm]
  · unfold Format.convert
    rw [Format.read_infinity]
    simp only [Format.read_infinity]

theorem eq_signed_of_lt {f : Format} {pattern : Nat} (h : pattern < 2 * f.signWeight) :
    pattern = f.signed (decide (f.signWeight ≤ pattern)) (pattern % f.signWeight) := by
  by_cases hn : f.signWeight ≤ pattern
  · simp only [Format.signed, hn, decide_true, if_true]
    rw [Nat.mod_eq_sub_mod hn, Nat.mod_eq_of_lt (by omega)]
    omega
  · simp only [Format.signed, hn, decide_false]
    rw [Nat.mod_eq_of_lt (by omega)]
    rfl

theorem nearest_le_infinity (f : Format) (significand : Nat) (exponent : Int) :
    f.nearest significand exponent ≤ f.infinity := by
  unfold Format.nearest
  split
  · exact Nat.zero_le _
  · exact Nat.min_le_right _ _

theorem signed_lt {f : Format} (negative : Bool) {magnitude : Nat} (h : magnitude ≤ f.infinity) :
    f.signed negative magnitude < 2 * f.signWeight := by
  have := f.infinity_lt_signWeight
  cases negative <;> simp only [Format.signed] <;> simp <;> omega

theorem convert_single_lt (negative : Bool) {magnitude : Nat} (h : magnitude ≤ single.infinity) :
    single.convert double (single.signed negative magnitude) < 2 ^ 64 := by
  show _ < 2 * double.signWeight
  unfold Format.convert
  rcases Nat.lt_or_eq_of_le h with hlt | rfl
  · rw [Format.read_signed negative hlt]
    exact signed_lt negative (nearest_le_infinity _ _ _)
  · rw [Format.read_infinity]
    exact signed_lt negative (Nat.le_refl _)

/-- A 32-bit pattern that is a number, or infinite, is the same after it was widened. -/
theorem narrow_widen {bits : UInt32} (h : isNaN single bits.toNat = false) :
    narrow (widen bits) = bits := by
  have hw : single.signWeight = 2 ^ 31 := rfl
  have hlt := bits.toNat_lt
  have hlt' : bits.toNat < 2 * single.signWeight := by omega
  have heq := eq_signed_of_lt hlt'
  have hm : bits.toNat % single.signWeight ≤ single.infinity := by
    simpa [isNaN] using h
  apply UInt32.toNat_inj.mp
  have hc := convert_convert (decide (single.signWeight ≤ bits.toNat)) hm
  have hc' := convert_single_lt (decide (single.signWeight ≤ bits.toNat)) hm
  rw [← heq] at hc hc'
  unfold narrow widen
  rw [UInt64.toNat_ofNat', Nat.mod_eq_of_lt hc', hc]
  simp

-- The positive number nearest to zero has a shorter significand than 32 bits have room for.
example : widen 1 = 0x36a0000000000000 ∧ narrow 0x36a0000000000000 = 1 := by decide

end Binary

/-! ## Primitives -/

namespace Primitive

/-- Not a 32-bit pattern that is no number. -/
def IsNumber : Primitive → Prop
  | f32 bits => Binary.isNaN Binary.single bits.toNat = false
  | _ => True

theorem unbox?_box {p : Primitive} (h : p.IsNumber) : unbox? p.kind p.box = some p := by
  cases p with
  | bool b => rfl
  | i8 v =>
    have hr : inRange 8 v.toInt64 = true := by
      have := v.le_toInt
      have := v.toInt_lt
      simp [inRange]
      omega
    simp [unbox?, box, kind, hr]
  | i16 v =>
    have hr : inRange 16 v.toInt64 = true := by
      have := v.le_toInt
      have := v.toInt_lt
      simp [inRange]
      omega
    simp [unbox?, box, kind, hr]
  | i32 v =>
    have hr : inRange 32 v.toInt64 = true := by
      have := v.le_toInt
      have := v.toInt_lt
      simp [inRange]
      omega
    simp [unbox?, box, kind, hr]
  | i64 v => rfl
  | f32 bits => simp only [unbox?, box, kind, Binary.narrow_widen h]
  | f64 bits => rfl
  | char c => rfl

theorem decode_encode (p : Primitive) : decode p.kind p.encode = p := by
  have htake : ∀ p : Primitive, p.encode.take p.kind.width = p.encode := fun p =>
    List.take_of_length_le (Nat.le_of_eq (length_encode p))
  unfold decode
  rw [htake]
  cases p with
  | bool b => cases b <;> rfl
  | i8 v =>
    have hv : v.toBitVec.toNat < 256 ^ 1 := v.toBitVec.isLt
    simp only [encode, kind, Bytes.toNat_ofNat, Nat.mod_eq_of_lt hv, BitVec.ofNat_toNat,
      BitVec.setWidth_eq]
    rfl
  | i16 v =>
    have hv : v.toBitVec.toNat < 256 ^ 2 := v.toBitVec.isLt
    simp only [encode, kind, Bytes.toNat_ofNat, Nat.mod_eq_of_lt hv, BitVec.ofNat_toNat,
      BitVec.setWidth_eq]
    rfl
  | i32 v =>
    have hv : v.toBitVec.toNat < 256 ^ 4 := v.toBitVec.isLt
    simp only [encode, kind, Bytes.toNat_ofNat, Nat.mod_eq_of_lt hv, BitVec.ofNat_toNat,
      BitVec.setWidth_eq]
    rfl
  | i64 v =>
    have hv : v.toBitVec.toNat < 256 ^ 8 := v.toBitVec.isLt
    simp only [encode, kind, Bytes.toNat_ofNat, Nat.mod_eq_of_lt hv, BitVec.ofNat_toNat,
      BitVec.setWidth_eq]
    rfl
  | f32 bits => simp [encode, kind, Bytes.toNat_ofNat]
  | f64 bits => simp [encode, kind, Bytes.toNat_ofNat]
  | char c =>
    have hc : c.toNat < 256 ^ 4 := Nat.lt_of_lt_of_le c.val.toNat_lt (by decide)
    have hv : c.toNat.isValidChar := c.valid
    simp only [encode, kind, Bytes.toNat_ofNat, Nat.mod_eq_of_lt hc, if_pos hv, Char.ofNat_toNat]

end Primitive

end DeepCopy
