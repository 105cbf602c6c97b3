import ImgVhd.Error
import ImgVhd.Foundation.Bytes

/-! # The on-disk layout, named once

Field offsets of the 512-byte footer and the 1024-byte dynamic header, the
big-endian readers and the checksum both structures use (`format.rs`).
-/

namespace ImgVhd

open Foundation

/-- BAT entries count 512-byte sectors and bitmaps have one bit for each. -/
def sectorSize : Nat := 512

/-- A half-open range of byte offsets, `start..stop`. -/
structure Span where
  start : Nat
  stop : Nat
  deriving DecidableEq, Repr

namespace FooterOffsets

def cookie : Span := ⟨0, 8⟩
def features : Nat := 8
def fileFormatVersion : Nat := 12
def dataOffset : Nat := 16
def timestamp : Nat := 24
def creatorApplication : Nat := 28
def creatorVersion : Nat := 32
def creatorHostOs : Nat := 36
def originalSize : Nat := 40
def currentSize : Nat := 48
def diskGeometry : Nat := 56
def diskType : Nat := 60
/-- Taken as zero while the checksum over the footer is computed. -/
def checksum : Span := ⟨64, 68⟩
def uniqueId : Span := ⟨68, 84⟩

end FooterOffsets

namespace DynamicOffsets

def cookie : Span := ⟨0, 8⟩
def dataOffset : Nat := 8
def tableOffset : Nat := 16
def headerVersion : Nat := 24
def maxTableEntries : Nat := 28
def blockSize : Nat := 32
/-- Taken as zero while the checksum over the header is computed. -/
def checksum : Span := ⟨36, 40⟩
def parentUniqueId : Span := ⟨40, 56⟩
def parentTimestamp : Nat := 56
def parentUnicodeName : Span := ⟨64, 576⟩
def parentLocators : Nat := 576
def parentLocatorStride : Nat := 24
def parentLocatorCount : Nat := 8

end DynamicOffsets

namespace DiskTypeWire

def fixed : Nat := 2
def dynamic : Nat := 3
def differencing : Nat := 4

end DiskTypeWire

/-- `&bytes[span]`. -/
def spanOf (bytes : Bytes) (span : Span) : Outcome Error Bytes :=
  sliceOf bytes span.start span.stop

/-- A big-endian `u32`, each byte indexed as the source indexes it. -/
def readU32 (b : Bytes) (off : Nat) : Outcome Error Nat := do
  let b0 ← getAt b off
  let b1 ← getAt b (off + 1)
  let b2 ← getAt b (off + 2)
  let b3 ← getAt b (off + 3)
  return ofBe [b0, b1, b2, b3]

/-- A big-endian `u64`. -/
def readU64 (b : Bytes) (off : Nat) : Outcome Error Nat := do
  let b0 ← getAt b off
  let b1 ← getAt b (off + 1)
  let b2 ← getAt b (off + 2)
  let b3 ← getAt b (off + 3)
  let b4 ← getAt b (off + 4)
  let b5 ← getAt b (off + 5)
  let b6 ← getAt b (off + 6)
  let b7 ← getAt b (off + 7)
  return ofBe [b0, b1, b2, b3, b4, b5, b6, b7]

/-- One turn of the checksum's loop: bytes of `skip` count as zero. -/
def checksumStep (skip : Span) (sum : Nat) (entry : UInt8 × Nat) : Nat :=
  if skip.start ≤ entry.2 ∧ entry.2 < skip.stop then sum else (sum + entry.1.toNat) % 2 ^ 32

/-- The one's complement of the wrapping byte sum over the first `size` bytes. -/
def onesComplementChecksum (bytes : Bytes) (size : Nat) (skip : Span) : Nat :=
  2 ^ 32 - 1 - ((bytes.zipIdx.take size).foldl (checksumStep skip) 0)

/-- The BAT's bytes as `u32` entries (`chunks_exact(4)`, big-endian). -/
def decodeBat : Bytes → List Nat
  | b0 :: b1 :: b2 :: b3 :: rest => ofBe [b0, b1, b2, b3] :: decodeBat rest
  | _ => []

theorem slice_four {b : Bytes} {off : Nat} (h : off + 4 ≤ b.length) :
    (b.drop off).take 4 = [b[off], b[off + 1], b[off + 2], b[off + 3]] := by
  rw [List.drop_eq_getElem_cons (by omega), List.take_succ_cons,
    List.drop_eq_getElem_cons (by omega), List.take_succ_cons,
    List.drop_eq_getElem_cons (by omega), List.take_succ_cons,
    List.drop_eq_getElem_cons (by omega), List.take_succ_cons, List.take_zero]

theorem slice_eight {b : Bytes} {off : Nat} (h : off + 8 ≤ b.length) :
    (b.drop off).take 8 = [b[off], b[off + 1], b[off + 2], b[off + 3],
      b[off + 4], b[off + 5], b[off + 6], b[off + 7]] := by
  rw [show (8 : Nat) = 4 + 4 from rfl, List.take_add, slice_four (by omega), List.drop_drop,
    slice_four (by omega)]
  rfl

theorem readU32_eq {b : Bytes} {off : Nat} (h : off + 4 ≤ b.length) :
    readU32 b off = .ok (ofBe ((b.drop off).take 4)) := by
  rw [slice_four h]
  simp only [readU32, getAt_of_lt (show off < b.length by omega),
    getAt_of_lt (show off + 1 < b.length by omega), getAt_of_lt (show off + 2 < b.length by omega),
    getAt_of_lt (show off + 3 < b.length by omega), Outcome.ok_bind, Outcome.pure_eq_ok]

theorem readU64_eq {b : Bytes} {off : Nat} (h : off + 8 ≤ b.length) :
    readU64 b off = .ok (ofBe ((b.drop off).take 8)) := by
  rw [slice_eight h]
  simp only [readU64, getAt_of_lt (show off < b.length by omega),
    getAt_of_lt (show off + 1 < b.length by omega), getAt_of_lt (show off + 2 < b.length by omega),
    getAt_of_lt (show off + 3 < b.length by omega), getAt_of_lt (show off + 4 < b.length by omega),
    getAt_of_lt (show off + 5 < b.length by omega), getAt_of_lt (show off + 6 < b.length by omega),
    getAt_of_lt (show off + 7 < b.length by omega), Outcome.ok_bind, Outcome.pure_eq_ok]

theorem spanOf_eq {b : Bytes} {span : Span} (ordered : span.start ≤ span.stop)
    (h : span.stop ≤ b.length) :
    spanOf b span = .ok ((b.drop span.start).take (span.stop - span.start)) :=
  sliceOf_of_le ordered h

theorem slice_lt {b : Bytes} {off width : Nat} : ofBe ((b.drop off).take width) < 256 ^ width := by
  refine Nat.lt_of_lt_of_le (ofBe_lt _) (Nat.pow_le_pow_right (by decide) ?_)
  simp only [List.length_take]
  omega

/-- Only the bytes outside the skipped window count. -/
theorem checksum_congr {xs ys : Bytes} {size : Nat} {skip : Span} (length : xs.length = ys.length)
    (same : ∀ i, ¬ (skip.start ≤ i ∧ i < skip.stop) → xs[i]? = ys[i]?) :
    onesComplementChecksum xs size skip = onesComplementChecksum ys size skip := by
  have step : ∀ (k n sum : Nat) (us vs : Bytes), us.length = vs.length →
      (∀ i, ¬ (skip.start ≤ i + k ∧ i + k < skip.stop) → us[i]? = vs[i]?) →
      ((us.zipIdx k).take n).foldl (checksumStep skip) sum =
        ((vs.zipIdx k).take n).foldl (checksumStep skip) sum := by
    intro k n sum us
    induction us generalizing k n sum with
    | nil =>
        intro vs long _
        rw [List.length_nil] at long
        rw [List.length_eq_zero_iff.mp long.symm]
    | cons u us ih =>
        intro vs long agree
        cases vs with
        | nil => simp at long
        | cons v vs =>
            cases n with
            | zero => rfl
            | succ n =>
                have first : checksumStep skip sum (u, k) = checksumStep skip sum (v, k) := by
                  by_cases skipped : skip.start ≤ k ∧ k < skip.stop
                  · simp only [checksumStep, if_pos skipped]
                  · have byte := agree 0 (by simpa using skipped)
                    simp only [List.getElem?_cons_zero, Option.some.injEq] at byte
                    rw [byte]
                simp only [List.zipIdx_cons, List.take_succ_cons, List.foldl_cons, first]
                refine ih (k + 1) n _ vs (by simpa using long) fun i outside => ?_
                have shifted := agree (i + 1) (by rwa [Nat.add_right_comm, Nat.add_assoc])
                simpa using shifted
  simp only [onesComplementChecksum]
  rw [step 0 size 0 xs ys length (by simpa using same)]

theorem checksumStep_lt {skip : Span} {sum : Nat} (entry : UInt8 × Nat) (small : sum < 2 ^ 32) :
    checksumStep skip sum entry < 2 ^ 32 := by
  unfold checksumStep
  split
  · exact small
  · exact Nat.mod_lt _ (by decide)

theorem checksum_separates {skip : Span} {a b : Nat} (entries : List (UInt8 × Nat))
    (left : a < 2 ^ 32) (right : b < 2 ^ 32) (differ : a ≠ b) :
    entries.foldl (checksumStep skip) a ≠ entries.foldl (checksumStep skip) b := by
  induction entries generalizing a b with
  | nil => exact differ
  | cons entry entries ih =>
      apply ih (checksumStep_lt entry left) (checksumStep_lt entry right)
      simp only [checksumStep]
      split
      · exact differ
      · omega

theorem checksum_fold_lt (skip : Span) {sum : Nat} (entries : List (UInt8 × Nat))
    (small : sum < 2 ^ 32) : entries.foldl (checksumStep skip) sum < 2 ^ 32 := by
  induction entries generalizing sum with
  | nil => exact small
  | cons entry entries ih => exact ih (checksumStep_lt entry small)

/-- One changed byte that counts changes the checksum. -/
theorem checksum_set_ne {bytes : Bytes} {size i : Nat} {skip : Span} {v : UInt8} (counts : i < size)
    (inside : i < bytes.length) (outside : ¬ (skip.start ≤ i ∧ i < skip.stop)) (differ : v ≠ bytes[i]) :
    onesComplementChecksum (bytes.set i v) size skip ≠ onesComplementChecksum bytes size skip := by
  have step : ∀ (us : Bytes) (k n i sum : Nat) (inside : i < us.length), i < n → sum < 2 ^ 32 →
      ¬ (skip.start ≤ i + k ∧ i + k < skip.stop) → v ≠ us[i] →
      (((us.set i v).zipIdx k).take n).foldl (checksumStep skip) sum ≠
        ((us.zipIdx k).take n).foldl (checksumStep skip) sum := by
    intro us
    induction us with
    | nil =>
        intro k n i sum inside
        simp at inside
    | cons u us ih =>
        intro k n i sum inside counts small outside differ
        cases n with
        | zero => omega
        | succ n =>
            cases i with
            | zero =>
                simp only [List.set_cons_zero, List.zipIdx_cons, List.take_succ_cons, List.foldl_cons]
                apply checksum_separates _ (checksumStep_lt _ small) (checksumStep_lt _ small)
                rw [Nat.zero_add] at outside
                simp only [checksumStep, if_neg outside]
                have other : v.toNat ≠ u.toNat := fun same => differ (UInt8.toNat.inj same)
                have width := v.toNat_lt
                have width' := u.toNat_lt
                omega
            | succ i =>
                simp only [List.set_cons_succ, List.zipIdx_cons, List.take_succ_cons, List.foldl_cons]
                apply ih (k + 1) n i _ (by simpa using inside) (by omega) (checksumStep_lt _ small)
                · rwa [← Nat.add_assoc, Nat.add_right_comm]
                · simpa using differ
  have sums := step bytes 0 size i 0 inside counts (by decide) outside differ
  have below := checksum_fold_lt skip (((bytes.set i v).zipIdx).take size) (show 0 < 2 ^ 32 by decide)
  have below' := checksum_fold_lt skip ((bytes.zipIdx).take size) (show 0 < 2 ^ 32 by decide)
  unfold onesComplementChecksum
  omega

theorem checksum_lt (bytes : Bytes) (size : Nat) (skip : Span) :
    onesComplementChecksum bytes size skip < 2 ^ 32 := by
  unfold onesComplementChecksum
  omega

theorem length_decodeBat (n : Nat) :
    ∀ bytes : Bytes, bytes.length = 4 * n → (decodeBat bytes).length = n := by
  induction n with
  | zero =>
      intro bytes h
      rw [List.length_eq_zero_iff.mp (by omega : bytes.length = 0)]
      rfl
  | succ n ih =>
      intro bytes h
      match bytes, h with
      | _ :: _ :: _ :: _ :: rest, h =>
          simp only [decodeBat, List.length_cons]
          rw [ih rest (by simpa using by simp only [List.length_cons] at h; omega)]

theorem getElem?_decodeBat :
    ∀ (bytes : Bytes) (i : Nat), 4 * i + 4 ≤ bytes.length →
      (decodeBat bytes)[i]? = some (ofBe ((bytes.drop (4 * i)).take 4))
  | b0 :: b1 :: b2 :: b3 :: rest, 0, _ => rfl
  | b0 :: b1 :: b2 :: b3 :: rest, i + 1, h => by
      have more := getElem?_decodeBat rest i (by simp only [List.length_cons] at h; omega)
      rw [show 4 * (i + 1) = 4 * i + 1 + 1 + 1 + 1 by omega]
      simpa only [decodeBat, List.getElem?_cons_succ, List.drop_succ_cons] using more
  | [], _, h => by simp at h
  | [_], _, h => by simp at h
  | [_, _], _, h => by simp at h
  | [_, _, _], _, h => by simp at h

theorem decodeBat_lt {bytes : Bytes} {e : Nat} (h : e ∈ decodeBat bytes) : e < 2 ^ 32 := by
  induction bytes using decodeBat.induct with
  | case1 b0 b1 b2 b3 rest ih =>
      simp only [decodeBat, List.mem_cons] at h
      rcases h with rfl | later
      · simpa using ofBe_lt [b0, b1, b2, b3]
      · exact ih later
  | case2 bytes short =>
      rw [decodeBat.eq_2 bytes short] at h
      cases h

end ImgVhd
