import ImgVhd.Foundation.Outcome
import Mathlib.Data.List.GetD
import Mathlib.Data.List.Induction

/-! # Byte strings and byte stores

Big-endian integers, replacing a slice of a byte string, and `ByteStore`: a
growable array of bytes whose contents past its length are zero, so that growing
it is only a change of length.
-/

namespace ImgVhd.Foundation

abbrev Bytes := List UInt8

/-- The value of a big-endian byte string. -/
def ofBe : Bytes → Nat := List.foldl (fun acc b => acc * 256 + b.toNat) 0

/-- `width` big-endian bytes of `v`. -/
def toBe : (width : Nat) → (v : Nat) → Bytes
  | 0, _ => []
  | width + 1, v => toBe width (v / 256) ++ [UInt8.ofNat (v % 256)]

@[simp] theorem length_toBe (width v : Nat) : (toBe width v).length = width := by
  induction width generalizing v with
  | zero => rfl
  | succ width ih => simp only [toBe, List.length_append, ih, List.length_cons, List.length_nil]

theorem ofBe_append_singleton (bs : Bytes) (b : UInt8) :
    ofBe (bs ++ [b]) = ofBe bs * 256 + b.toNat := by
  simp only [ofBe, List.foldl_append, List.foldl_cons, List.foldl_nil]

theorem ofBe_toBe {width v : Nat} (h : v < 256 ^ width) : ofBe (toBe width v) = v := by
  induction width generalizing v with
  | zero => simp only [Nat.pow_zero, Nat.lt_one_iff] at h; subst h; rfl
  | succ width ih =>
      have high : v / 256 < 256 ^ width := by
        rw [Nat.div_lt_iff_lt_mul (by decide), ← Nat.pow_succ]; exact h
      have low : (UInt8.ofNat (v % 256)).toNat = v % 256 := by
        simp only [UInt8.toNat_ofNat']; omega
      rw [toBe, ofBe_append_singleton, ih high, low]
      omega

theorem ofBe_lt (bs : Bytes) : ofBe bs < 256 ^ bs.length := by
  induction bs using List.reverseRecOn with
  | nil => simp [ofBe]
  | append_singleton bs b ih =>
      have small := b.toNat_lt
      rw [ofBe_append_singleton, List.length_append, List.length_singleton, Nat.pow_succ]
      omega

theorem toBe_ofBe (bs : Bytes) : toBe bs.length (ofBe bs) = bs := by
  induction bs using List.reverseRecOn with
  | nil => rfl
  | append_singleton bs b ih =>
      have small := b.toNat_lt
      have high : (ofBe bs * 256 + b.toNat) / 256 = ofBe bs := by omega
      have low : (ofBe bs * 256 + b.toNat) % 256 = b.toNat := by omega
      rw [ofBe_append_singleton, List.length_append, List.length_singleton, toBe, high, low, ih,
        UInt8.ofNat_toNat]

theorem ofBe_injective {xs ys : Bytes} (length : xs.length = ys.length) (same : ofBe xs = ofBe ys) :
    xs = ys := by
  rw [← toBe_ofBe xs, length, same, toBe_ofBe]

/-- `xs` with the elements from `off` on replaced by `ys`. -/
def splice {α : Type} (xs : List α) (off : Nat) (ys : List α) : List α :=
  xs.take off ++ ys ++ xs.drop (off + ys.length)

section Splice

variable {α : Type} {xs ys : List α} {off i : Nat}

@[simp] theorem length_splice (h : off + ys.length ≤ xs.length) :
    (splice xs off ys).length = xs.length := by
  simp only [splice, List.length_append, List.length_take, List.length_drop]
  omega

theorem getElem?_splice_inside (h : off + ys.length ≤ xs.length) (low : off ≤ i)
    (high : i < off + ys.length) : (splice xs off ys)[i]? = ys[i - off]? := by
  have first : (xs.take off).length = off := by rw [List.length_take]; omega
  rw [splice, List.append_assoc, List.getElem?_append_right (by omega), first,
    List.getElem?_append_left (by omega)]

theorem getElem?_splice_below (h : off ≤ xs.length) (below : i < off) :
    (splice xs off ys)[i]? = xs[i]? := by
  have first : (xs.take off).length = off := by rw [List.length_take]; omega
  rw [splice, List.append_assoc, List.getElem?_append_left (by omega),
    List.getElem?_take_of_lt below]

theorem getElem?_splice_above (h : off + ys.length ≤ xs.length) (above : off + ys.length ≤ i) :
    (splice xs off ys)[i]? = xs[i]? := by
  have first : (xs.take off).length = off := by rw [List.length_take]; omega
  rw [splice, List.append_assoc, List.getElem?_append_right (by omega), first,
    List.getElem?_append_right (by omega), List.getElem?_drop]
  congr 1
  omega

theorem slice_splice_same (h : off + ys.length ≤ xs.length) :
    ((splice xs off ys).drop off).take ys.length = ys := by
  have first : (xs.take off).length = off := by rw [List.length_take]; omega
  rw [splice, List.append_assoc, List.drop_append_of_le_length (by omega),
    List.drop_of_length_le (by omega), List.nil_append, List.take_left']
  rfl

theorem slice_splice_disjoint {start len : Nat} (h : off + ys.length ≤ xs.length)
    (apart : start + len ≤ off ∨ off + ys.length ≤ start) :
    ((splice xs off ys).drop start).take len = (xs.drop start).take len := by
  apply List.ext_getElem?
  intro j
  by_cases inside : j < len
  · rw [List.getElem?_take_of_lt inside, List.getElem?_take_of_lt inside, List.getElem?_drop,
      List.getElem?_drop]
    rcases apart with before | after
    · exact getElem?_splice_below (by omega) (by omega)
    · exact getElem?_splice_above h (by omega)
  · rw [List.getElem?_take_eq_none (by omega), List.getElem?_take_eq_none (by omega)]

theorem slice_set_outside {a n : Nat} {v : α} (outside : i < a ∨ a + n ≤ i) :
    ((xs.set i v).drop a).take n = (xs.drop a).take n := by
  apply List.ext_getElem?
  intro j
  by_cases inside : j < n
  · rw [List.getElem?_take_of_lt inside, List.getElem?_take_of_lt inside, List.getElem?_drop,
      List.getElem?_drop, List.getElem?_set_ne (by omega)]
  · rw [List.getElem?_take_eq_none (by omega), List.getElem?_take_eq_none (by omega)]

theorem slice_set_ne {a n : Nat} {v : α} (low : a ≤ i) (high : i < a + n)
    (inside : i < xs.length) (differ : v ≠ xs[i]) :
    ((xs.set i v).drop a).take n ≠ (xs.drop a).take n := by
  intro same
  have here := congrArg (fun zs : List α => zs[i - a]?) same
  rw [List.getElem?_take_of_lt (by omega), List.getElem?_take_of_lt (by omega), List.getElem?_drop,
    List.getElem?_drop, Nat.add_sub_cancel' low, List.getElem?_set_self inside,
    List.getElem?_eq_getElem inside] at here
  exact differ (Option.some.inj here)

theorem slice_slice {k m n : Nat} (inside : k + m ≤ n) :
    (((xs.drop off).take n).drop k).take m = (xs.drop (off + k)).take m := by
  rw [List.drop_take, List.drop_drop, List.take_take, Nat.min_eq_left (by omega)]

/-- Windows `(start, length)` that share no element. -/
def Windowed (a b : Nat × Nat) : Prop := a.1 + a.2 ≤ b.1 ∨ b.1 + b.2 ≤ a.1

instance (a b : Nat × Nat) : Decidable (Windowed a b) :=
  inferInstanceAs (Decidable (_ ∨ _))

/-- One splice after the other. -/
def spliceAll (xs : List α) (parts : List (Nat × List α)) : List α :=
  parts.foldl (fun xs part => splice xs part.1 part.2) xs

/-- The windows of the parts. -/
def windows (parts : List (Nat × List α)) : List (Nat × Nat) :=
  parts.map fun part => (part.1, part.2.length)

theorem length_spliceAll {parts : List (Nat × List α)}
    (fits : ∀ w ∈ windows parts, w.1 + w.2 ≤ xs.length) : (spliceAll xs parts).length = xs.length := by
  induction parts generalizing xs with
  | nil => rfl
  | cons part parts ih =>
      have here : part.1 + part.2.length ≤ xs.length := fits _ List.mem_cons_self
      have same := length_splice here
      refine Eq.trans (ih fun w member => ?_) same
      rw [same]
      exact fits w (List.mem_cons_of_mem _ member)

theorem slice_spliceAll_disjoint {parts : List (Nat × List α)} {start len : Nat}
    (fits : ∀ w ∈ windows parts, w.1 + w.2 ≤ xs.length)
    (apart : ∀ w ∈ windows parts, Windowed (start, len) w) :
    ((spliceAll xs parts).drop start).take len = (xs.drop start).take len := by
  induction parts generalizing xs with
  | nil => rfl
  | cons part parts ih =>
      have here : part.1 + part.2.length ≤ xs.length := fits _ List.mem_cons_self
      refine Eq.trans (ih (fun w member => ?_) fun w member => apart w (List.mem_cons_of_mem _ member)) ?_
      · rw [length_splice here]
        exact fits w (List.mem_cons_of_mem _ member)
      · exact slice_splice_disjoint here (apart _ List.mem_cons_self)

theorem slice_spliceAll {parts : List (Nat × List α)} {start len : Nat}
    (fits : ∀ w ∈ windows parts, w.1 + w.2 ≤ xs.length) (apart : (windows parts).Pairwise Windowed)
    (member : (start, ys) ∈ parts) (length : ys.length = len) :
    ((spliceAll xs parts).drop start).take len = ys := by
  subst length
  induction parts generalizing xs with
  | nil => cases member
  | cons part parts ih =>
      have here : part.1 + part.2.length ≤ xs.length := fits _ List.mem_cons_self
      have rest : ∀ w ∈ windows parts, w.1 + w.2 ≤ (splice xs part.1 part.2).length := by
        intro w inside
        rw [length_splice here]
        exact fits w (List.mem_cons_of_mem _ inside)
      obtain ⟨first, later⟩ := List.pairwise_cons.mp apart
      cases member with
      | head => exact (slice_spliceAll_disjoint rest first).trans (slice_splice_same here)
      | tail _ inside => exact ih rest later inside

end Splice

/-- A growable array of bytes. Past its length it holds zeros. -/
structure ByteStore where
  size : Nat
  byte : Nat → UInt8
  size_lt : size < 2 ^ 64
  beyond : ∀ i, size ≤ i → byte i = 0

namespace ByteStore

@[ext] theorem ext {d d' : ByteStore} (size : d.size = d'.size)
    (byte : ∀ i, d.byte i = d'.byte i) : d = d' := by
  obtain ⟨n, f, _, _⟩ := d
  obtain ⟨n', f', _, _⟩ := d'
  obtain rfl : n = n' := size
  obtain rfl : f = f' := funext byte
  rfl

/-- The `len` bytes from `off` on. -/
@[irreducible] def read (d : ByteStore) (off len : Nat) : Bytes :=
  (List.range len).map fun i => d.byte (off + i)

/-- Replace the bytes from `off` on by `bs`, inside the store. -/
def write (d : ByteStore) (off : Nat) (bs : Bytes) : ByteStore where
  size := d.size
  byte i := if off ≤ i ∧ i < off + bs.length ∧ i < d.size then bs.getD (i - off) 0 else d.byte i
  size_lt := d.size_lt
  beyond i h := by
    rw [if_neg (by omega)]
    exact d.beyond i h

/-- Set the length: a shorter store loses its end, a longer one gains zeros. -/
def resize (d : ByteStore) (n : Nat) (fits : n < 2 ^ 64) : ByteStore where
  size := n
  byte i := if i < n then d.byte i else 0
  size_lt := fits
  beyond i h := if_neg (by omega)

/-- The empty store. -/
def empty : ByteStore where
  size := 0
  byte _ := 0
  size_lt := by decide
  beyond _ _ := rfl

/-- A byte string as a store. -/
def ofBytes (bs : Bytes) (fits : bs.length < 2 ^ 64) : ByteStore where
  size := bs.length
  byte i := bs.getD i 0
  size_lt := fits
  beyond i h := by simp only [List.getD_eq_default _ _ h]

variable {d : ByteStore} {off len : Nat} {bs : Bytes}

@[simp] theorem length_read : (d.read off len).length = len := by simp [read]

@[simp] theorem size_write : (d.write off bs).size = d.size := rfl

@[simp] theorem size_resize {n : Nat} {fits : n < 2 ^ 64} : (d.resize n fits).size = n := rfl

theorem getElem_read {i : Nat} (h : i < (d.read off len).length) :
    (d.read off len)[i] = d.byte (off + i) := by
  simp [read]

theorem getElem?_read {i : Nat} (h : i < len) : (d.read off len)[i]? = some (d.byte (off + i)) := by
  simp [read, h]

theorem getElem?_read_eq_some {i : Nat} {v : UInt8} :
    (d.read off len)[i]? = some v ↔ i < len ∧ v = d.byte (off + i) := by
  constructor
  · intro at_
    obtain ⟨lt, -⟩ := List.getElem?_eq_some_iff.mp at_
    rw [length_read] at lt
    rw [getElem?_read lt] at at_
    exact ⟨lt, (Option.some.inj at_).symm⟩
  · rintro ⟨lt, rfl⟩
    exact getElem?_read lt

theorem read_congr {d' : ByteStore} (h : ∀ i, i < len → d.byte (off + i) = d'.byte (off + i)) :
    d.read off len = d'.read off len := by
  simp only [read]
  apply List.map_congr_left
  intro i member
  exact h i (List.mem_range.mp member)

theorem read_eq_iff (h : bs.length = len) :
    d.read off len = bs ↔ ∀ i (inside : i < len), d.byte (off + i) = bs[i] := by
  constructor
  · intro same i inside
    subst same
    exact (getElem_read _).symm
  · intro bytes
    apply List.ext_getElem (by simp [h])
    intro i low high
    rw [getElem_read]
    exact bytes i (by simpa using low)

theorem byte_write_inside {i : Nat} (fits : off + bs.length ≤ d.size) (low : off ≤ i)
    (high : i < off + bs.length) : (d.write off bs).byte i = bs.getD (i - off) 0 :=
  if_pos ⟨low, high, by omega⟩

theorem byte_write_outside {i : Nat} (h : i < off ∨ off + bs.length ≤ i) :
    (d.write off bs).byte i = d.byte i := if_neg (by omega)

theorem byte_resize {n i : Nat} {fits : n < 2 ^ 64} (grows : d.size ≤ n) :
    (d.resize n fits).byte i = d.byte i := by
  unfold resize
  simp only
  split
  · rfl
  · exact (d.beyond i (by omega)).symm

theorem byte_resize_below {n i : Nat} {fits : n < 2 ^ 64} (below : i < n) :
    (d.resize n fits).byte i = d.byte i := if_pos below

theorem read_write_same (d : ByteStore) (off : Nat) (bs : Bytes) (fits : off + bs.length ≤ d.size) :
    (d.write off bs).read off bs.length = bs := by
  refine (read_eq_iff rfl).mpr fun i inside => ?_
  rw [byte_write_inside fits (by omega) (by omega), Nat.add_sub_cancel_left]
  exact List.getD_eq_getElem _ _ inside

theorem read_write_disjoint {start : Nat} (apart : start + len ≤ off ∨ off + bs.length ≤ start) :
    (d.write off bs).read start len = d.read start len :=
  read_congr fun _ inside => byte_write_outside (by omega)

theorem write_append (d : ByteStore) (off : Nat) (bs more : Bytes) :
    (d.write off bs).write (off + bs.length) more = d.write off (bs ++ more) := by
  refine ByteStore.ext (by rfl) fun i => ?_
  unfold write
  simp only [List.length_append]
  by_cases first : off ≤ i ∧ i < off + bs.length ∧ i < d.size
  · rw [if_neg (by omega), if_pos first, if_pos (by omega), List.getD_append _ _ _ _ (by omega)]
  · by_cases second : off + bs.length ≤ i ∧ i < off + bs.length + more.length ∧ i < d.size
    · rw [if_pos second, if_pos (by omega), List.getD_append_right _ _ _ _ (by omega)]
      congr 1
      omega
    · rw [if_neg second, if_neg first, if_neg (by omega)]

@[simp] theorem write_nil : d.write off [] = d := by
  refine ByteStore.ext (by rfl) fun i => ?_
  exact if_neg (by simp only [List.length_nil]; omega)

theorem read_drop_take {start n : Nat} (h : start + n ≤ len) :
    ((d.read off len).drop start).take n = d.read (off + start) n := by
  apply List.ext_getElem?
  intro j
  by_cases inside : j < n
  · rw [List.getElem?_take_of_lt inside, List.getElem?_drop, getElem?_read (by omega),
      getElem?_read inside, Nat.add_assoc]
  · rw [List.getElem?_take_eq_none (by omega), List.getElem?_eq_none (by simp; omega)]

end ByteStore

end ImgVhd.Foundation
