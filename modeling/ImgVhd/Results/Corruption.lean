import ImgVhd.Creating.Built

/-! # One changed byte is noticed

Footer and header each store the one's complement of the sum of their bytes. One
byte that counts changes the sum, one in the checksum's own window changes what is
stored, and the cookie is compared before either.
-/

namespace ImgVhd

open Foundation

/-- `ys` is `xs` with one byte changed. -/
def OneByteOff (xs ys : Bytes) : Prop :=
  ∃ i v, i < xs.length ∧ xs[i]? ≠ some v ∧ ys = xs.set i v

section Set

variable {bytes : Bytes} {size a i : Nat} {v : UInt8}

theorem stored_checksum_set (whole : bytes.length = size)
    (stored : field bytes a 4 = onesComplementChecksum bytes size ⟨a, a + 4⟩)
    (inside : i < bytes.length) (differ : v ≠ bytes[i]) :
    field (bytes.set i v) a 4 ≠ onesComplementChecksum (bytes.set i v) size ⟨a, a + 4⟩ := by
  by_cases skipped : a ≤ i ∧ i < a + 4
  · have same : onesComplementChecksum (bytes.set i v) size ⟨a, a + 4⟩ =
        onesComplementChecksum bytes size ⟨a, a + 4⟩ := by
      apply checksum_congr (by simp)
      intro j outside
      apply List.getElem?_set_ne
      rintro rfl
      exact outside skipped
    rw [same, ← stored]
    intro equal
    apply slice_set_ne (n := 4) skipped.1 skipped.2 inside differ
    apply ofBe_injective _ equal
    simp
  · have same : field (bytes.set i v) a 4 = field bytes a 4 := by
      simp only [field]
      rw [slice_set_outside (by omega)]
    rw [same, stored]
    exact (checksum_set_ne (by omega) inside skipped differ).symm

theorem cookie_set {cookie : Bytes} (right : bytes.take 8 = cookie) (inside : i < bytes.length)
    (differ : v ≠ bytes[i]) : (bytes.set i v).take 8 ≠ cookie ↔ i < 8 := by
  rw [← right]
  constructor
  · intro changed
    by_contra above
    apply changed
    exact slice_set_outside (a := 0) (Or.inr (by omega))
  · intro below
    exact slice_set_ne (a := 0) (by omega) (by omega) inside differ

end Set

theorem Footer.parse_set {bytes : Bytes} {f : Footer} {i : Nat} {v : UInt8}
    (whole : bytes.length = footerSize) (ok : Footer.parse bytes = .ok f) (inside : i < bytes.length)
    (differ : v ≠ bytes[i]) : Footer.parse (bytes.set i v) = .err (if i < 8 then .notVhd
      else .badChecksum (field (bytes.set i v) 64 4) (footerChecksum (bytes.set i v)) "footer") := by
  obtain ⟨cookie, stored, -, -⟩ := Footer.parse_ok (Nat.le_of_eq whole.symm) ok
  have changed := cookie_set cookie inside differ
  have wrong : field (bytes.set i v) 64 4 ≠ footerChecksum (bytes.set i v) :=
    stored_checksum_set whole stored inside differ
  rw [Footer.parse_eq (by simp [whole])]
  by_cases below : i < 8
  · rw [if_pos below, if_pos (changed.mpr below)]
  · rw [if_neg below, if_neg fun bad => below (changed.mp bad), if_pos wrong]

theorem DynamicHeader.parse_set {bytes : Bytes} {h : DynamicHeader} {i : Nat} {v : UInt8}
    (whole : bytes.length = dynHeaderSize) (ok : DynamicHeader.parse bytes = .ok h)
    (inside : i < bytes.length) (differ : v ≠ bytes[i]) :
    DynamicHeader.parse (bytes.set i v) = .err (if i < 8 then .corrupt "dynamic header bad cookie"
      else .badChecksum (field (bytes.set i v) 36 4) (dynHeaderChecksum (bytes.set i v))
        "dynamic-header") := by
  obtain ⟨cookie, stored⟩ := DynamicHeader.parse_checked (Nat.le_of_eq whole.symm) ok
  have changed := cookie_set cookie inside differ
  have wrong : field (bytes.set i v) 36 4 ≠ dynHeaderChecksum (bytes.set i v) :=
    stored_checksum_set whole stored inside differ
  rw [DynamicHeader.parse_eq (by simp [whole])]
  by_cases below : i < 8
  · rw [if_pos below, if_pos (changed.mpr below)]
  · rw [if_neg below, if_neg fun bad => below (changed.mp bad), if_pos wrong]

/-- What one changed byte of an accepted footer or header comes to: an error of the
    cookie or of the checksum. -/
theorem one_changed_byte_is_refused {bytes bytes' : Bytes} (change : OneByteOff bytes bytes') :
    (bytes.length = footerSize → ∀ f, Footer.parse bytes = .ok f → ∃ e, Footer.parse bytes' = .err e ∧
      (e = .notVhd ∨ ∃ stored computed, e = .badChecksum stored computed "footer")) ∧
    (bytes.length = dynHeaderSize → ∀ h, DynamicHeader.parse bytes = .ok h →
      ∃ e, DynamicHeader.parse bytes' = .err e ∧ (e = .corrupt "dynamic header bad cookie" ∨
        ∃ stored computed, e = .badChecksum stored computed "dynamic-header")) := by
  obtain ⟨i, v, inside, other, rfl⟩ := change
  have differ : v ≠ bytes[i] := by
    rintro rfl
    exact other (List.getElem?_eq_getElem inside)
  constructor
  · intro whole f ok
    refine ⟨_, Footer.parse_set whole ok inside differ, ?_⟩
    split
    · exact Or.inl rfl
    · exact Or.inr ⟨_, _, rfl⟩
  · intro whole h ok
    refine ⟨_, DynamicHeader.parse_set whole ok inside differ, ?_⟩
    split
    · exact Or.inl rfl
    · exact Or.inr ⟨_, _, rfl⟩

/-- A composed header whose reserved last byte is changed. -/
theorem reserved_byte_is_checked : ∃ (bytes bytes' : Bytes) (h : DynamicHeader) (e : Error),
    OneByteOff bytes bytes' ∧ bytes.take 1023 = bytes'.take 1023 ∧
    DynamicHeader.parse bytes = .ok h ∧ DynamicHeader.parse bytes' = .err e := by
  have block : ValidBlockSize 512 := ⟨⟨9, rfl⟩, Nat.le_refl _, by decide⟩
  obtain ⟨length, h, parses, -⟩ := @parse_buildDynamicHeader 1536 1 512 (by decide)
    (by decide) block
  generalize buildDynamicHeader 1536 1 512 = bytes at *
  have change : OneByteOff bytes (bytes.set 1023 (if bytes[1023]? = some 0 then 1 else 0)) := by
    refine ⟨1023, _, by omega, ?_, rfl⟩
    split
    · rename_i zero
      simp [zero]
    · assumption
  obtain ⟨e, refused, -⟩ := (one_changed_byte_is_refused change).2 length h parses
  refine ⟨_, _, h, e, change, ?_, parses, refused⟩
  exact (slice_set_outside (a := 0) (by omega)).symm

end ImgVhd
