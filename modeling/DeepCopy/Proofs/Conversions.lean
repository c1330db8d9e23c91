-- A primitive is carried from one field to another as bytes or by its value, and
-- arrives the same. Bytes that no primitive is written as are set right when they
-- go by their value, and what is no number of 32 bits stays no number.
import DeepCopy.Proofs.InstanceWrites

namespace DeepCopy

/-! ## What is no number -/

namespace Binary

namespace Format

variable {f : Format} {magnitude pattern payload : Nat}

theorem signWeight_eq (f : Format) : f.signWeight = f.infinity + 2 ^ f.fractionBits := by
  have hpos := Nat.two_pow_pos f.exponentBits
  rw [signWeight, infinity, topField, Nat.pow_add, ← Nat.succ_mul]
  congr 1
  omega

/-- A magnitude above infinity reads as what is no number. -/
theorem read_signed_nan (negative : Bool) (h : f.infinity < magnitude)
    (hlt : magnitude < f.signWeight) :
    f.read (f.signed negative magnitude) = .nan negative (magnitude - f.infinity) := by
  obtain ⟨payload, rfl⟩ := Nat.exists_eq_add_of_le (Nat.le_of_lt h)
  have hpayload : payload < 2 ^ f.fractionBits := by
    rw [signWeight_eq] at hlt
    omega
  have hdiv : (f.infinity + payload) / 2 ^ f.fractionBits = f.topField := by
    rw [infinity, Nat.add_comm, Nat.add_mul_div_right _ _ (Nat.two_pow_pos _),
      Nat.div_eq_of_lt hpayload, Nat.zero_add]
  have hmod : (f.infinity + payload) % 2 ^ f.fractionBits = payload := by
    rw [infinity, Nat.add_comm, Nat.add_mul_mod_self_right, Nat.mod_eq_of_lt hpayload]
  have hne : payload ≠ 0 := by omega
  unfold read
  simp [signed_mod negative hlt, signWeight_le_signed negative hlt, hdiv, hmod, hne]

/-- A payload that is taken over in another width makes no number again. -/
theorem quiet_bounds {bits : Nat} (hbits : 0 < f.fractionBits) (h : payload < 2 ^ bits) :
    f.infinity < f.quiet bits payload ∧ f.quiet bits payload < f.signWeight := by
  rw [signWeight_eq]
  unfold quiet
  generalize hkept : (if bits ≤ f.fractionBits then payload * 2 ^ (f.fractionBits - bits)
    else payload / 2 ^ (bits - f.fractionBits)) = kept
  have hlt : kept < 2 ^ f.fractionBits := by
    split at hkept
    · rename_i hle
      rw [← hkept, ← Nat.add_sub_of_le hle, Nat.pow_add, Nat.add_sub_cancel_left]
      exact Nat.mul_lt_mul_of_pos_right h (Nat.two_pow_pos _)
    · rename_i hle
      rw [← hkept]
      apply Nat.div_lt_of_lt_mul
      rwa [← Nat.pow_add, Nat.sub_add_cancel (Nat.le_of_not_le hle)]
  have hor : kept ||| 2 ^ (f.fractionBits - 1) < 2 ^ f.fractionBits :=
    Nat.or_lt_two_pow hlt (Nat.pow_lt_pow_right (by decide) (by omega))
  have hpos : 2 ^ (f.fractionBits - 1) ≤ kept ||| 2 ^ (f.fractionBits - 1) := Nat.right_le_or
  have := Nat.two_pow_pos (f.fractionBits - 1)
  dsimp only
  omega

/-- What is no number in one format is none in another. -/
theorem isNaN_convert {source : Format} (target : Format) (hbits : 0 < target.fractionBits)
    (hlt : pattern < 2 * source.signWeight)
    (h : isNaN source pattern = true) :
    isNaN target (source.convert target pattern) = true ∧
      source.convert target pattern < 2 * target.signWeight := by
  have hpos : 0 < source.signWeight := Nat.two_pow_pos _
  have hm : pattern % source.signWeight < source.signWeight := Nat.mod_lt _ hpos
  have hinf : source.infinity < pattern % source.signWeight := by simpa [isNaN] using h
  have hpayload : pattern % source.signWeight - source.infinity < 2 ^ source.fractionBits := by
    have := source.signWeight_eq
    omega
  obtain ⟨hlow, hhigh⟩ := quiet_bounds hbits hpayload
  have hconvert : source.convert target pattern =
      target.signed (decide (source.signWeight ≤ pattern))
        (target.quiet source.fractionBits (pattern % source.signWeight - source.infinity)) := by
    unfold convert
    rw [eq_signed_of_lt hlt, read_signed_nan _ hinf hm, ← eq_signed_of_lt hlt]
  rw [hconvert, isNaN, signed_mod _ hhigh]
  refine ⟨decide_eq_true hlow, ?_⟩
  cases decide (source.signWeight ≤ pattern) <;> simp [signed] <;> omega

end Format

/-- What is no number of 32 bits is none after it was widened and narrowed. -/
theorem isNaN_narrow_widen {bits : UInt32} (h : isNaN single bits.toNat = true) :
    isNaN single (narrow (widen bits)).toNat = true := by
  have hlt : bits.toNat < 2 * single.signWeight := bits.toNat_lt
  obtain ⟨hwide, hwideLt⟩ := Format.isNaN_convert double (by decide) hlt h
  obtain ⟨hback, hbackLt⟩ := Format.isNaN_convert single (by decide) hwideLt hwide
  have hwiden : (widen bits).toNat = single.convert double bits.toNat := by
    rw [widen, UInt64.toNat_ofNat']
    exact Nat.mod_eq_of_lt hwideLt
  have hnarrow : (narrow (widen bits)).toNat =
      double.convert single (single.convert double bits.toNat) := by
    rw [narrow, hwiden, UInt32.toNat_ofNat']
    exact Nat.mod_eq_of_lt hbackLt
  rw [hnarrow]
  exact hback

end Binary

/-! ## Bytes that stand for themselves -/

namespace Primitive

variable {kind : Kind} {bytes : List UInt8}

/-- Bytes as a primitive of the kind is written: zero or one for a boolean and a code point for a
character. All bytes are a number. -/
def Canonical (kind : Kind) (bytes : List UInt8) : Prop :=
  match kind with
  | .bool => Bytes.toNat bytes ≤ 1
  | .char => (Bytes.toNat bytes).isValidChar
  | _ => True

instance (kind : Kind) (bytes : List UInt8) : Decidable (Canonical kind bytes) :=
  match kind with
  | .bool => inferInstanceAs (Decidable (Bytes.toNat bytes ≤ 1))
  | .char => inferInstanceAs (Decidable (Nat.isValidChar (Bytes.toNat bytes)))
  | .i8 | .i16 | .i32 | .i64 | .f32 | .f64 => .isTrue trivial

/-- What canonical bytes stand for is written as they are. -/
theorem encode_decode (hw : bytes.length = kind.width) (hc : Canonical kind bytes) :
    (decode kind bytes).encode = bytes := by
  have htake : bytes.take kind.width = bytes := List.take_of_length_le (Nat.le_of_eq hw)
  have hback : Bytes.ofNat kind.width (Bytes.toNat bytes) = bytes := hw ▸ Bytes.ofNat_toNat bytes
  have hlt : Bytes.toNat bytes < 256 ^ kind.width := hw ▸ Bytes.toNat_lt bytes
  unfold decode
  rw [htake]
  unfold Canonical at hc
  generalize Bytes.toNat bytes = n at *
  subst hback
  cases kind with
  | bool =>
    have hn : n = 0 ∨ n = 1 := Nat.le_one_iff_eq_zero_or_eq_one.mp hc
    rcases hn with rfl | rfl <;> rfl
  | char =>
    have hn : n.isValidChar := hc
    have hchar : (Char.ofNat n).toNat = n := by
      rw [Char.ofNat, dif_pos hn]
      rfl
    simp only [if_pos hn, encode, hchar, Kind.width]
  | f32 | f64 =>
    simp only [encode, UInt32.toNat_ofNat', UInt64.toNat_ofNat']
    exact congrArg _ (Nat.mod_eq_of_lt hlt)
  | i8 =>
    show Bytes.ofNat 1 (BitVec.ofNat 8 n).toNat = _
    rw [BitVec.toNat_ofNat]
    exact congrArg _ (Nat.mod_eq_of_lt hlt)
  | i16 =>
    show Bytes.ofNat 2 (BitVec.ofNat 16 n).toNat = _
    rw [BitVec.toNat_ofNat]
    exact congrArg _ (Nat.mod_eq_of_lt hlt)
  | i32 =>
    show Bytes.ofNat 4 (BitVec.ofNat 32 n).toNat = _
    rw [BitVec.toNat_ofNat]
    exact congrArg _ (Nat.mod_eq_of_lt hlt)
  | i64 =>
    show Bytes.ofNat 8 (BitVec.ofNat 64 n).toNat = _
    rw [BitVec.toNat_ofNat]
    exact congrArg _ (Nat.mod_eq_of_lt hlt)

/-- Other bytes of the width stand for true or for the zero character. -/
theorem decode_of_not_canonical (hw : bytes.length = kind.width) (hc : ¬ Canonical kind bytes) :
    kind = .bool ∧ decode kind bytes = .bool true ∨
      kind = .char ∧ decode kind bytes = .char '\x00' := by
  have htake : bytes.take kind.width = bytes := List.take_of_length_le (Nat.le_of_eq hw)
  unfold decode
  rw [htake]
  unfold Canonical at hc
  generalize Bytes.toNat bytes = n at *
  cases kind with
  | bool =>
    have hn : (n != 0) = true := by
      rw [bne_iff_ne]
      rintro rfl
      exact hc (Nat.zero_le 1)
    exact Or.inl ⟨rfl, congrArg Primitive.bool hn⟩
  | char =>
    have hn : ¬ n.isValidChar := hc
    exact Or.inr ⟨rfl, congrArg Primitive.char (if_neg hn)⟩
  | _ => exact absurd trivial hc

/-- What is no number of 32 bits is taken back as such. -/
theorem exists_unbox?_box_of_isNaN {bits : UInt32}
    (h : Binary.isNaN Binary.single bits.toNat = true) : ∃ bits',
    unbox? .f32 (f32 bits).box = some (f32 bits') ∧
      Binary.isNaN Binary.single bits'.toNat = true :=
  ⟨_, rfl, Binary.isNaN_narrow_widen h⟩

end Primitive

/-! ## Fields -/

namespace Backend

variable {m : Memory} {f : PlannedField} {source target : ObjectId} {offset : Nat}
  {kind : Primitive.Kind} {bytes : List UInt8}

/-- What a backend does to a primitive field of the target is to put certain bytes there. If they
have no place, that is refused. -/
def Lays (b : Backend) (f : PlannedField) (source target : ObjectId) (m : Memory) (offset : Nat)
    (bytes : List UInt8) : Prop :=
  Ends (b.copyPrimitive f source target) m
    (fun _ m' => ∃ body, (m.heap.body target).writeBytes offset bytes = .ok body ∧
      m' = { m with heap := m.heap.setBody target body })
    (fun _ m' => (∃ miss, (m.heap.body target).writeBytes offset bytes = .error miss) ∧ m' = m)

theorem ends_update_writeBytes {change : Heap → Except CloneError Write}
    (blame : Miss → CloneError)
    (h : change m.heap =
      Write.mk target <$> ((m.heap.body target).writeBytes offset bytes).mapError blame) :
    Ends (CopyM.update change) m
      (fun _ m' => ∃ body, (m.heap.body target).writeBytes offset bytes = .ok body ∧
        m' = { m with heap := m.heap.setBody target body })
      (fun _ m' =>
        (∃ miss, (m.heap.body target).writeBytes offset bytes = .error miss) ∧ m' = m) := by
  rw [ends_copy_update, h]
  cases (m.heap.body target).writeBytes offset bytes with
  | ok body => exact ⟨body, rfl, rfl⟩
  | error miss => exact ⟨⟨miss, rfl⟩, rfl⟩

theorem lays_carried (b : Backend) (target : ObjectId) (hp : f.place = .bytes offset kind)
    (hr : (m.heap.body source).readBytes offset kind.width = .ok bytes) :
    b.Lays f source target m offset (b.carried kind bytes) := by
  cases b with
  | fast =>
    refine ends_update_writeBytes (f.missed target) ?_
    simp only [Direct.copyPrimitive, hp, hr, carried]
    rfl
  | portable r =>
    obtain ⟨p, hu⟩ := Primitive.exists_unbox?_box (Primitive.decode kind bytes)
    rw [Primitive.kind_decode] at hu
    have hget : f.get m.heap source = .ok (Primitive.decode kind bytes).box := by
      rw [Field.get, Field.readFrom_of_bytes hp hr]
      rfl
    refine ends_update_writeBytes (fun miss => f.fault target (miss.error f.declaringName)) ?_
    simp only [hget, carried, hu]
    show (f.set m.heap target (Primitive.decode kind bytes).box).mapError (f.fault target) = _
    simp only [Field.set, Field.writeTo, hp, hu]
    cases (m.heap.body target).writeBytes offset p.encode <;> rfl

/-- What cannot be read is not carried, and that leaves everything as it is. -/
theorem fails_copyPrimitive (b : Backend) (hp : f.place = .bytes offset kind) {miss : Miss}
    (hr : (m.heap.body source).readBytes offset kind.width = .error miss) :
    Ends (b.copyPrimitive f source target) m (fun _ _ => False) (fun _ m' => m' = m) := by
  cases b with
  | fast =>
    simp only [copyPrimitive, ends_copy_update, Direct.copyPrimitive, hp, hr]
    exact trivial
  | portable r =>
    have hget : f.get m.heap source = .error (miss.error f.declaringName) := by
      simp only [Field.get, Field.readFrom, hp, hr]
      rfl
    simp only [copyPrimitive, ends_copy_update, hget]
    exact trivial

/-- Of bytes that are a number, checked access puts those at the target that the number is written
as. -/
theorem lays_portable (r : Registry) (target : ObjectId) (hp : f.place = .bytes offset kind)
    (hr : (m.heap.body source).readBytes offset kind.width = .ok bytes)
    (hn : (Primitive.decode kind bytes).IsNumber) :
    (portable r).Lays f source target m offset (Primitive.decode kind bytes).encode := by
  have hunbox := Primitive.unbox?_box hn
  rw [Primitive.kind_decode] at hunbox
  have hlays := lays_carried (portable r) target hp hr
  rwa [carried, hunbox] at hlays

theorem Lays.ok_iff {b : Backend} (h : b.Lays f source target m offset bytes) (m' : Memory) :
    b.copyPrimitive f source target m = .ok () m' ↔
      ∃ body, (m.heap.body target).writeBytes offset bytes = .ok body ∧
        m' = { m with heap := m.heap.setBody target body } := by
  constructor
  · intro hok
    exact (ends_of_ok hok).mp h
  · rintro ⟨body, hbody, rfl⟩
    cases hx : b.copyPrimitive f source target m with
    | ok u m' =>
      obtain ⟨body', hbody', rfl⟩ := (ends_of_ok hx).mp h
      cases hbody.symm.trans hbody'
      rfl
    | error e m' =>
      obtain ⟨⟨miss, hmiss⟩, -⟩ := (ends_of_error hx).mp h
      cases hbody.symm.trans hmiss

/-- What both backends put at the target is the same, if the source is canonical there and a number,
or cannot be read at all. -/
theorem copyPrimitive_ok_iff (r : Registry) (hp : f.place = .bytes offset kind)
    (hc : ∀ bytes, (m.heap.body source).readBytes offset kind.width = .ok bytes →
      Primitive.Canonical kind bytes ∧ (Primitive.decode kind bytes).IsNumber) (m' : Memory) :
    (portable r).copyPrimitive f source target m = .ok () m' ↔
      fast.copyPrimitive f source target m = .ok () m' := by
  cases hr : (m.heap.body source).readBytes offset kind.width with
  | ok bytes =>
    obtain ⟨hcanon, hn⟩ := hc bytes hr
    have hportable := lays_portable r target hp hr hn
    rw [Primitive.encode_decode (Body.length_of_readBytes hr) hcanon] at hportable
    rw [hportable.ok_iff, (lays_carried fast target hp hr).ok_iff]
    rfl
  | error miss =>
    have hnone : ∀ b : Backend, ¬ b.copyPrimitive f source target m = .ok () m' := fun b hok =>
      (ends_of_ok hok).mp (b.fails_copyPrimitive hp hr)
    exact iff_of_false (hnone _) (hnone _)

/-- A primitive goes through its bytes and through its value and comes back as it was, and so do
the bytes of every primitive. Other bytes come back as those of true or of the zero character, and
what is no number of 32 bits comes back as such. So checked access carries a field just as direct
access does, which puts the very bytes of the source at the target, if the bytes are canonical and
a number. -/
theorem checked_access_carries_the_same_bytes :
    (∀ p : Primitive, Primitive.decode p.kind p.encode = p) ∧
    (∀ p : Primitive, p.IsNumber → Primitive.unbox? p.kind p.box = some p) ∧
    (∀ bits : UInt32, Binary.isNaN Binary.single bits.toNat = true → ∃ bits',
      Primitive.unbox? .f32 (Primitive.f32 bits).box = some (.f32 bits') ∧
        Binary.isNaN Binary.single bits'.toNat = true) ∧
    (∀ (kind : Primitive.Kind) (bytes : List UInt8), bytes.length = kind.width →
      (Primitive.Canonical kind bytes → (Primitive.decode kind bytes).encode = bytes) ∧
      (¬ Primitive.Canonical kind bytes →
        kind = .bool ∧ (Primitive.decode kind bytes).encode = (Primitive.bool true).encode ∨
        kind = .char ∧ (Primitive.decode kind bytes).encode = (Primitive.char '\x00').encode)) ∧
    (∀ (r : Registry) (f : PlannedField) (source target : ObjectId) (m : Memory) (offset : Nat)
      (kind : Primitive.Kind), f.place = .bytes offset kind →
      (∀ bytes, (m.heap.body source).readBytes offset kind.width = .ok bytes →
        fast.Lays f source target m offset bytes ∧
        ((Primitive.decode kind bytes).IsNumber →
          (portable r).Lays f source target m offset (Primitive.decode kind bytes).encode)) ∧
      ((∀ bytes, (m.heap.body source).readBytes offset kind.width = .ok bytes →
          Primitive.Canonical kind bytes ∧ (Primitive.decode kind bytes).IsNumber) →
        ∀ m', (portable r).copyPrimitive f source target m = .ok () m' ↔
          fast.copyPrimitive f source target m = .ok () m')) := by
  refine ⟨Primitive.decode_encode, fun p => Primitive.unbox?_box, fun bits => ?_,
    fun kind bytes hw => ⟨Primitive.encode_decode hw, fun hc => ?_⟩,
    fun r f source target m offset kind hp => ⟨fun bytes hr => ⟨lays_carried fast target hp hr,
      lays_portable r target hp hr⟩, copyPrimitive_ok_iff r hp⟩⟩
  · exact Primitive.exists_unbox?_box_of_isNaN
  · obtain ⟨hk, hd⟩ | ⟨hk, hd⟩ := Primitive.decode_of_not_canonical hw hc
    · exact Or.inl ⟨hk, congrArg Primitive.encode hd⟩
    · exact Or.inr ⟨hk, congrArg Primitive.encode hd⟩

/-- A field of narrow floating-point numbers. -/
def weightField : PlannedField where
  declaring := 0
  declaringName := "Parcel"
  name := "weight"
  type := .primitive .f32
  place := .bytes 0 .f32
  marks := {}
  holder := "Parcel"

/-- Two instances, of which the first has the negative number nearest to zero in its field. -/
def twoParcels : Memory where
  heap := (Heap.add {} (Object.new 0 (.record [1, 0, 0, 128] []))).add
    (Object.new 0 (.record [0, 0, 0, 0] []))

/-- A number next to zero, the negative zero and infinity go through 64 bits and come back. A byte
that is no boolean comes back as true, and half of a surrogate pair as the zero character. -/
theorem conversions_at_the_edges :
    (∀ m', (portable .initial).copyPrimitive weightField 0 1 twoParcels = .ok () m' ↔
      fast.copyPrimitive weightField 0 1 twoParcels = .ok () m') ∧
    (after (fast.copyPrimitive weightField 0 1) twoParcels).heap.body 1 =
      .record [1, 0, 0, 128] [] ∧
    Primitive.unbox? .f32 (Primitive.f32 0x80000000).box = some (.f32 0x80000000) ∧
    Primitive.unbox? .f32 (Primitive.f32 0x7f800000).box = some (.f32 0x7f800000) ∧
    (Primitive.decode .bool [7]).encode = [1] ∧
    (Primitive.decode .char [0, 216, 0, 0]).encode = [0, 0, 0, 0] := by
  have h := checked_access_carries_the_same_bytes
  refine ⟨(h.2.2.2.2 .initial weightField 0 1 twoParcels 0 .f32 rfl).2 fun bytes hr => ?_,
    by decide, h.2.1 (.f32 0x80000000) (show Binary.isNaN _ _ = false by decide),
    h.2.1 (.f32 0x7f800000) (show Binary.isNaN _ _ = false by decide),
    by decide, by decide⟩
  have hbytes : bytes = [1, 0, 0, 128] := by
    have : ((twoParcels.heap.body 0).readBytes 0 4).toOption = some [1, 0, 0, 128] := by decide
    rw [show (twoParcels.heap.body 0).readBytes 0 4 = .ok bytes from hr] at this
    exact Option.some.inj this
  subst hbytes
  exact ⟨trivial, show Binary.isNaN Binary.single _ = false by decide⟩

end Backend

end DeepCopy
