import ImgVhd.Cli.Size

/-! # The byte counts that are read

A parse reads the documented byte counts, and the hexadecimal ones with a sign
that the standard library lets through.
-/

namespace ImgVhd.Size

section Digits

variable {radix : Nat} {digits : List Char} {acc n : Nat}

theorem le_foldl (positive : 0 < radix) (digits : List Char) (acc : Nat) :
    acc ≤ digits.foldl (fun acc c => acc * radix + (toDigit radix c).getD 0) acc := by
  induction digits generalizing acc with
  | nil => exact Nat.le_refl _
  | cons c digits ih =>
      have grows : acc ≤ acc * radix := Nat.le_mul_of_pos_right acc positive
      exact Nat.le_trans (Nat.le_trans grows (Nat.le_add_right _ _)) (ih _)

/-- No turn overflows if the value does not. -/
theorem readDigits_ok (positive : 0 < radix) (small : acc < 2 ^ 64) :
    readDigits radix digits acc = .ok n ↔ (∀ c ∈ digits, (toDigit radix c).isSome) ∧
      digits.foldl (fun acc c => acc * radix + (toDigit radix c).getD 0) acc = n ∧ n < 2 ^ 64 := by
  induction digits generalizing acc with
  | nil =>
      simp only [readDigits, Except.ok.injEq, List.foldl_nil, List.not_mem_nil, false_implies,
        implies_true, true_and]
      constructor
      · rintro rfl
        exact ⟨rfl, small⟩
      · exact And.left
  | cons c digits ih =>
      cases digit : toDigit radix c with
      | none => simp [readDigits, digit]
      | some d =>
          have later := le_foldl positive digits (acc * radix + d)
          simp only [readDigits, digit, List.foldl_cons, Option.getD_some, List.forall_mem_cons,
            Option.isSome_some, true_and]
          split
          · simp only [reduceCtorEq, false_iff]
            rintro ⟨-, same, fits⟩
            omega
          split
          · simp only [reduceCtorEq, false_iff]
            rintro ⟨-, same, fits⟩
            omega
          · rename_i fits
            exact ih (by omega)

theorem toDigit_plus : toDigit radix '+' = none := by
  simp [toDigit]

theorem toDigit_minus : toDigit radix '-' = none := by
  simp [toDigit]

/-- An integer is a run of digits, or one behind a plus sign. -/
theorem fromStrRadix_ok {src : List Char} (positive : 0 < radix) :
    fromStrRadix src radix = .ok n ↔ ∃ digits, (src = digits ∨ src = '+' :: digits) ∧
      Digits radix digits ∧ numeral radix digits = n ∧ n < 2 ^ 64 := by
  have run (digits : List Char) (some_ : digits ≠ []) : readDigits radix digits 0 = .ok n ↔
      Digits radix digits ∧ numeral radix digits = n ∧ n < 2 ^ 64 := by
    rw [readDigits_ok positive (by decide), Digits, and_assoc]
    simp [some_, numeral]
  constructor
  · intro read
    unfold fromStrRadix at read
    split at read
    · cases read
    · cases read
    · cases read
    · rename_i digits some_
      have more : digits ≠ [] := by
        rintro rfl
        exact some_ rfl
      exact ⟨digits, Or.inr rfl, (run digits more).mp read⟩
    · rename_i some_ _ _ _
      exact ⟨src, Or.inl rfl, (run src some_).mp read⟩
  · rintro ⟨digits, which, is⟩
    have digit : ∀ c ∈ digits, (toDigit radix c).isSome := is.1.2
    have read := (run digits is.1.1).mpr is
    unfold fromStrRadix
    rcases which with rfl | rfl
    · split
      · exact absurd rfl is.1.1
      · simp [toDigit_plus] at digit
      · simp [toDigit_minus] at digit
      · simp [toDigit_plus] at digit
      · exact read
    · cases digits with
      | nil => exact absurd rfl is.1.1
      | cons c rest => exact read

end Digits

section Parts

variable {c : Char} {s : List Char} {k n : Nat}

theorem stripPrefix_eq {text start rest : List Char} :
    stripPrefix text start = some rest ↔ text = start ++ rest := by
  unfold stripPrefix
  split
  · rename_i starts
    obtain ⟨tail, rfl⟩ := starts
    simp [eq_comm]
  · rename_i other
    simp only [reduceCtorEq, false_iff]
    rintro rfl
    exact other (List.prefix_append _ _)

theorem isAsciiDigit_eq (c : Char) : isAsciiDigit c = (toDigit 10 c).isSome := by
  unfold isAsciiDigit toDigit
  by_cases digit : '0' ≤ c ∧ c ≤ '9'
  · have top : c.toNat ≤ 57 := digit.2
    have low : 48 ≤ c.toNat := digit.1
    have small : c.toNat - 48 < 10 := by omega
    simp [digit, small]
  · have none_ : (decide ('0' ≤ c) && decide (c ≤ '9')) = false := by
      simpa using digit
    simp only [if_neg digit, none_]
    split
    · simp
    · split <;> simp

theorem Suffix.head {rest : List Char} (is : Suffix (c :: rest) k) :
    toAsciiLowercase c ∈ ['b', 'k', 'm', 'g', 't'] := by
  cases is with
  | byte is =>
      simp only [List.map_cons, List.cons.injEq] at is
      simp [is.1]
  | scaled unit tail is =>
      simp only [List.map_cons, List.cons.injEq] at is
      simp only [List.mem_cons, Prod.mk.injEq, List.not_mem_nil, or_false] at unit
      rcases unit with ⟨rfl, -⟩ | ⟨rfl, -⟩ | ⟨rfl, -⟩ | ⟨rfl, -⟩ <;> simp [is.1]

theorem Suffix.not_digit {rest : List Char} (is : Suffix (c :: rest) k) : isAsciiDigit c = false := by
  by_contra digit
  rw [Bool.not_eq_false, isAsciiDigit, Bool.and_eq_true, decide_eq_true_eq, decide_eq_true_eq] at digit
  have top : c.toNat ≤ 57 := digit.2
  have same : toAsciiLowercase c = c := by
    apply if_neg
    rintro ⟨upper, -⟩
    have low : 65 ≤ c.toNat := upper
    omega
  have letter := is.head
  rw [same] at letter
  simp only [List.mem_cons, List.not_mem_nil, or_false] at letter
  rcases letter with rfl | rfl | rfl | rfl | rfl
  all_goals exact absurd top (by decide)

/-- The table of shifts is the table of suffixes. -/
theorem shiftOf_eq {shift : Nat} :
    shiftOf (s.map toAsciiLowercase) = some shift ↔ ∃ k, Suffix s k ∧ shift = 10 * k := by
  have scaled (letter : Char) (k : Nat)
      (unit : (letter, k) ∈ [('k', 1), ('m', 2), ('g', 3), ('t', 4)])
      (known : s.map toAsciiLowercase ∈ [[letter], [letter, 'b'], [letter, 'i', 'b']]) :
      Suffix s k := by
    obtain ⟨tail, rest, is⟩ : ∃ tail ∈ [[], ['b'], ['i', 'b']],
        s.map toAsciiLowercase = letter :: tail := by simpa using known
    exact .scaled unit rest is
  constructor
  · intro found
    unfold shiftOf at found
    split at found
    · rename_i known
      cases found
      rw [List.mem_cons, List.mem_singleton, List.map_eq_nil_iff] at known
      rcases known with rfl | is
      · exact ⟨0, .none, rfl⟩
      · exact ⟨0, .byte is, rfl⟩
    split at found
    · rename_i known
      cases found
      exact ⟨1, scaled 'k' 1 (by simp) known, rfl⟩
    split at found
    · rename_i known
      cases found
      exact ⟨2, scaled 'm' 2 (by simp) known, rfl⟩
    split at found
    · rename_i known
      cases found
      exact ⟨3, scaled 'g' 3 (by simp) known, rfl⟩
    split at found
    · rename_i known
      cases found
      exact ⟨4, scaled 't' 4 (by simp) known, rfl⟩
    · cases found
  · rintro ⟨k, suffix, rfl⟩
    cases suffix with
    | none => rfl
    | byte is =>
        rw [is]
        rfl
    | scaled unit rest is =>
        rw [is]
        simp only [List.mem_cons, Prod.mk.injEq, List.not_mem_nil, or_false] at unit rest
        rcases unit with ⟨rfl, rfl⟩ | ⟨rfl, rfl⟩ | ⟨rfl, rfl⟩ | ⟨rfl, rfl⟩
        all_goals
          rcases rest with rfl | rfl | rfl
          all_goals decide

theorem split_digits {digits suffix : List Char} (run : Digits 10 digits) (unit : Suffix suffix k) :
    (digits ++ suffix).takeWhile isAsciiDigit = digits ∧
      (digits ++ suffix).dropWhile isAsciiDigit = suffix := by
  have all : ∀ c ∈ digits, isAsciiDigit c = true := by
    intro c member
    rw [isAsciiDigit_eq]
    exact run.2 c member
  rw [List.takeWhile_append_of_pos all, List.dropWhile_append_of_pos all]
  cases suffix with
  | nil => simp
  | cons c rest => simp [unit.not_digit]

theorem fromStrRadix_digits {digits : List Char} (all : ∀ c ∈ digits, isAsciiDigit c = true) :
    fromStrRadix digits 10 = .ok n ↔
      Digits 10 digits ∧ numeral 10 digits = n ∧ n < 2 ^ 64 := by
  rw [fromStrRadix_ok (by decide)]
  constructor
  · rintro ⟨digits', rfl | rfl, is⟩
    · exact is
    · exact absurd (all '+' List.mem_cons_self) (by decide)
  · exact fun is => ⟨digits, Or.inl rfl, is⟩

theorem quoted_ok {text : List Char} {x : Except IntErrorKind Nat} :
    quoted text x = .ok n ↔ x = .ok n := by
  cases x <;> simp [quoted]

end Parts

theorem hex_rest {text hex : List Char} :
    (stripPrefix text ['0', 'x']).or (stripPrefix text ['0', 'X']) = some hex ↔
      ∃ mark, (mark = 'x' ∨ mark = 'X') ∧ text = '0' :: mark :: hex := by
  rw [Option.or_eq_some_iff, stripPrefix_eq, stripPrefix_eq]
  constructor
  · rintro (rfl | ⟨-, rfl⟩)
    · exact ⟨'x', Or.inl rfl, rfl⟩
    · exact ⟨'X', Or.inr rfl, rfl⟩
  · rintro ⟨mark, rfl | rfl, rfl⟩
    · exact Or.inl rfl
    · exact Or.inr ⟨rfl, rfl⟩

theorem decimal_unmarked {mark : Char} {hex digits suffix : List Char} {k : Nat}
    (marked : mark = 'x' ∨ mark = 'X') (run : Digits 10 digits) (unit : Suffix suffix k) :
    digits ++ suffix ≠ '0' :: mark :: hex := by
  intro same
  obtain ⟨-, rest⟩ := split_digits run unit
  rw [same] at rest
  have left : ('0' :: mark :: hex).dropWhile isAsciiDigit = mark :: hex := by
    rcases marked with rfl | rfl <;> rfl
  rw [left] at rest
  subst rest
  have letter := unit.head
  rcases marked with rfl | rfl <;> exact absurd letter (by decide)

/-- What is read is a documented count, or a signed hexadecimal one. -/
theorem parse_ok {text : List Char} {n : Nat} :
    parse text = .ok n ↔ ByteCount (trim text) n ∨ SignedHex (trim text) n := by
  unfold parse
  generalize trim text = t
  simp only
  split
  · rename_i hex found
    obtain ⟨mark, marked, rfl⟩ := hex_rest.mp found
    rw [quoted_ok, fromStrRadix_ok (by decide)]
    constructor
    · rintro ⟨digits, rfl | rfl, run, rfl, fits⟩
      · exact Or.inl (.hex marked run fits)
      · exact Or.inr (.mk marked run fits)
    · rintro (count | signed)
      · generalize same : '0' :: mark :: hex = whole at count
        cases count with
        | @hex mark' digits marked' run fits =>
            cases same
            exact ⟨hex, Or.inl rfl, run, rfl, fits⟩
        | decimal run unit fits => exact absurd same.symm (decimal_unmarked marked run unit)
      · cases signed with
        | @mk mark' digits marked' run fits => exact ⟨digits, Or.inr rfl, run, rfl, fits⟩
  · rename_i none_
    have unmarked {mark : Char} {hex : List Char} (marked : mark = 'x' ∨ mark = 'X') :
        t ≠ '0' :: mark :: hex := by
      intro same
      rw [hex_rest.mpr ⟨mark, marked, same⟩] at none_
      cases none_
    constructor
    · intro read
      split at read
      · cases read
      cases value : quoted t (fromStrRadix (t.takeWhile isAsciiDigit) 10) with
      | error e =>
          rw [value] at read
          cases read
      | ok m =>
          rw [value] at read
          have digits : ∀ c ∈ t.takeWhile isAsciiDigit, isAsciiDigit c = true :=
            fun c member => List.mem_takeWhile_imp member
          obtain ⟨run, rfl, -⟩ := (fromStrRadix_digits digits).mp (quoted_ok.mp value)
          simp only [bind, Except.bind] at read
          split at read
          · cases read
          rename_i shift found
          obtain ⟨k, unit, rfl⟩ := shiftOf_eq.mp found
          rw [Nat.pow_mul] at read
          split at read
          · rename_i fits
            cases read
            have count := ByteCount.decimal run unit fits
            rw [List.takeWhile_append_dropWhile] at count
            exact Or.inl count
          · cases read
    · rintro (count | signed)
      · cases count with
        | hex marked run fits => exact absurd rfl (unmarked marked)
        | @decimal digits suffix k run unit fits =>
            obtain ⟨first, rest⟩ := split_digits run unit
            have all : ∀ c ∈ digits, isAsciiDigit c = true := by
              intro c member
              rw [isAsciiDigit_eq]
              exact run.2 c member
            have small : numeral 10 digits < 2 ^ 64 :=
              Nat.lt_of_le_of_lt (Nat.le_mul_of_pos_right _ (Nat.pow_pos (by decide))) fits
            have value := (fromStrRadix_digits all).mpr ⟨run, rfl, small⟩
            rw [first, rest, if_neg run.1, quoted_ok.mpr value, shiftOf_eq.mpr ⟨k, unit, rfl⟩]
            simp only [bind, Except.bind, Nat.pow_mul]
            exact if_pos fits
      · cases signed with
        | mk marked run fits => exact absurd rfl (unmarked marked)

theorem SignedHex.undocumented {t : List Char} {n m : Nat} (signed : SignedHex t n) :
    ¬ ByteCount t m := by
  intro count
  cases signed with
  | @mk mark digits marked run fits =>
      generalize same : '0' :: mark :: '+' :: digits = whole at count
      cases count with
      | hex marked' run' fits' =>
          cases same
          have digit := run'.2 '+' List.mem_cons_self
          rw [toDigit_plus] at digit
          cases digit
      | decimal run' unit fits' => exact absurd same.symm (decimal_unmarked marked run' unit)

/-- A text is read as the documentation has it unless it is a hexadecimal count with a
    sign. -/
theorem documented_unless_signed (text : List Char) :
    (∀ n, parse text = .ok n ↔ ByteCount (trim text) n) ↔ ¬ ∃ n, SignedHex (trim text) n := by
  constructor
  · rintro documented ⟨n, signed⟩
    exact signed.undocumented ((documented n).mp (parse_ok.mpr (Or.inr signed)))
  · intro unsigned n
    rw [parse_ok]
    constructor
    · rintro (count | signed)
      · exact count
      · exact absurd ⟨n, signed⟩ unsigned
    · exact Or.inl

/-- `0x+10` is read as 16, and is no documented count. -/
theorem signed_hex_is_read : parse "0x+10".toList = .ok 16 ∧
    ¬ ∀ n, parse "0x+10".toList = .ok n ↔ ByteCount (trim "0x+10".toList) n := by
  have trimmed : trim "0x+10".toList = ['0', 'x', '+', '1', '0'] := by decide +kernel
  have digits : ∀ c ∈ ['1', '0'], (toDigit 16 c).isSome = true :=
    List.forall_mem_cons.mpr ⟨by decide, List.forall_mem_singleton.mpr (by decide)⟩
  have signed : SignedHex (trim "0x+10".toList) 16 := by
    rw [trimmed]
    exact .mk (Or.inl rfl) ⟨by decide, digits⟩ (by decide)
  have read := parse_ok.mpr (Or.inr signed)
  exact ⟨read, fun documented => signed.undocumented ((documented 16).mp read)⟩

end ImgVhd.Size
