import ImgVhd.Dynamic

/-! # UTF-16 names

The encoding of a string as big-endian UTF-16 units, and that decoding undoes it.
A unit of a string without NUL is never zero, so the terminator is no unit of it.
-/

namespace ImgVhd

open Foundation

/-- The units of one character: itself, or a pair of surrogates. -/
def charUnits (c : Char) : List Nat :=
  if c.toNat < 0x10000 then [c.toNat]
  else [0xD800 + (c.toNat - 0x10000) / 0x400, 0xDC00 + (c.toNat - 0x10000) % 0x400]

def encodeUtf16 (s : List Char) : List Nat := s.flatMap charUnits

/-- The units as bytes. -/
def utf16Be (s : List Char) : Bytes := (encodeUtf16 s).flatMap (toBe 2)

theorem char_range (c : Char) :
    c.toNat < 0xD800 ∨ (0xE000 ≤ c.toNat ∧ c.toNat < 0x110000) := by
  rcases c.valid with low | ⟨above, below⟩
  · exact Or.inl low
  · exact Or.inr ⟨above, below⟩

theorem fromUtf16_charUnits (c : Char) (rest : List Nat) :
    fromUtf16 (charUnits c ++ rest) = (fromUtf16 rest).map (c :: ·) := by
  have range := char_range c
  unfold charUnits
  split
  · rename_i small
    have plain : c.toNat < 0xD800 ∨ 0xE000 ≤ c.toNat := by omega
    rw [List.singleton_append, fromUtf16.eq_def]
    simp only [if_pos plain, Char.ofNat_toNat]
  · rename_i large
    have high : ¬ (0xD800 + (c.toNat - 0x10000) / 0x400 < 0xD800 ∨
        0xE000 ≤ 0xD800 + (c.toNat - 0x10000) / 0x400) := by omega
    have code : 0x10000 + (0xD800 + (c.toNat - 0x10000) / 0x400 - 0xD800) * 0x400 +
        (0xDC00 + (c.toNat - 0x10000) % 0x400 - 0xDC00) = c.toNat := by omega
    simp only [List.cons_append, List.nil_append]
    rw [fromUtf16, if_neg high, if_pos (by omega), if_pos (by omega), code, Char.ofNat_toNat]

theorem fromUtf16_encodeUtf16 (s : List Char) : fromUtf16 (encodeUtf16 s) = some s := by
  induction s with
  | nil => rfl
  | cons c s ih =>
      rw [encodeUtf16, List.flatMap_cons, fromUtf16_charUnits, ← encodeUtf16, ih, Option.map_some]

theorem encodeUtf16_range {s : List Char} (plain : '\x00' ∉ s) {u : Nat} (unit : u ∈ encodeUtf16 s) :
    u ≠ 0 ∧ u < 2 ^ 16 := by
  obtain ⟨c, member, inside⟩ := List.mem_flatMap.mp unit
  have range := char_range c
  have some_ : c.toNat ≠ 0 := by
    intro zero
    have nul : c = '\x00' := Char.toNat_inj.mp zero
    exact plain (nul ▸ member)
  unfold charUnits at inside
  split at inside
  · rw [List.mem_singleton.mp inside]
    omega
  · simp only [List.mem_cons, List.not_mem_nil, or_false] at inside
    omega

theorem ofNat_ne_nul {n : Nat} (some_ : n ≠ 0) (valid : n.isValidChar) : Char.ofNat n ≠ '\x00' := by
  intro nul
  have value : (Char.ofNat n).toNat = n := by
    rw [Char.ofNat, dif_pos valid]
    rfl
  rw [nul] at value
  exact some_ value.symm

/-- Units that are not zero decode to no NUL. -/
theorem fromUtf16_plain {units : List Nat} {s : List Char} (range : ∀ u ∈ units, u ≠ 0 ∧ u < 2 ^ 16)
    (decoded : fromUtf16 units = some s) : '\x00' ∉ s := by
  induction units using fromUtf16.induct generalizing s with
  | case1 =>
      cases decoded
      simp
  | case2 u rest single ih =>
      rw [fromUtf16.eq_def] at decoded
      simp only [if_pos single, Option.map_eq_some_iff] at decoded
      obtain ⟨later, more, rfl⟩ := decoded
      obtain ⟨some_, word⟩ := range u List.mem_cons_self
      have first : Char.ofNat u ≠ '\x00' := ofNat_ne_nul some_ (by unfold Nat.isValidChar; omega)
      have rest_ := ih (fun v member => range v (List.mem_cons_of_mem _ member)) more
      simp [first.symm, rest_]
  | case3 u pair high v rest low ih =>
      rw [fromUtf16, if_neg pair, if_pos high, if_pos low, Option.map_eq_some_iff] at decoded
      obtain ⟨later, more, rfl⟩ := decoded
      have first : Char.ofNat (0x10000 + (u - 0xD800) * 0x400 + (v - 0xDC00)) ≠ '\x00' :=
        ofNat_ne_nul (by omega) (by unfold Nat.isValidChar; omega)
      have rest_ := ih (fun w member => range w (List.mem_cons_of_mem _ (List.mem_cons_of_mem _ member)))
        more
      simp [first.symm, rest_]
  | case4 u pair high v rest low =>
      rw [fromUtf16, if_neg pair, if_pos high, if_neg low] at decoded
      cases decoded
  | case5 u pair high =>
      rw [fromUtf16, if_neg pair, if_pos high] at decoded
      cases decoded
  | case6 u rest pair high =>
      rw [fromUtf16.eq_def] at decoded
      simp [pair, high] at decoded

theorem decodeUtf16Be_plain (bytes : Bytes) : '\x00' ∉ decodeUtf16Be bytes := by
  unfold decodeUtf16Be
  cases decoded : fromUtf16 (utf16Units bytes) with
  | none => simp
  | some s => exact fromUtf16_plain (fun u unit => utf16Units_range unit) decoded

/-- Bytes end a name where a zero unit or nothing follows. -/
def Terminates (bytes : Bytes) : Prop := utf16Units bytes = []

theorem terminates_nil : Terminates [] := rfl

theorem terminates_zero (rest : Bytes) : Terminates (0 :: 0 :: rest) := by
  simp [Terminates, utf16Units, ofBe]

theorem utf16Units_append {units : List Nat} (range : ∀ u ∈ units, u ≠ 0 ∧ u < 2 ^ 16) {rest : Bytes}
    (stop : Terminates rest) : utf16Units (units.flatMap (toBe 2) ++ rest) = units := by
  induction units with
  | nil => exact stop
  | cons u units ih =>
      obtain ⟨some_, word⟩ := range u List.mem_cons_self
      have value : ofBe (toBe 2 u) = u := ofBe_toBe (by omega)
      have later := ih fun v member => range v (List.mem_cons_of_mem _ member)
      simp only [List.flatMap_cons, toBe, List.nil_append, List.cons_append] at *
      rw [utf16Units, value, if_neg some_, later]

theorem decodeUtf16Be_encoded {s : List Char} (plain : '\x00' ∉ s) {rest : Bytes}
    (stop : Terminates rest) : decodeUtf16Be (utf16Be s ++ rest) = s := by
  have units := utf16Units_append (fun u unit => encodeUtf16_range plain unit) stop
  rw [decodeUtf16Be, utf16Be, units, fromUtf16_encodeUtf16, Option.getD_some]

theorem length_utf16Be (s : List Char) : (utf16Be s).length = 2 * (encodeUtf16 s).length := by
  unfold utf16Be
  induction encodeUtf16 s with
  | nil => rfl
  | cons u units ih =>
      rw [List.flatMap_cons, List.length_append, length_toBe, ih, List.length_cons]
      omega

end ImgVhd
