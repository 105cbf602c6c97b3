import ImgVhd.Layout

/-! # The read walk's specification

`Served` is what a sparse read relies on: how the image behind the reader may
drift while the read is going on, and what each answer is worth from then on.
Under it, a read fills its buffer with acceptable bytes. An image nobody writes
to serves exactly its contents; one with writers at work serves less, and the
walk is the same.
-/

namespace ImgVhd

open Foundation

section Fill

variable {A : Nat → UInt8 → Prop} {off written n : Nat} {buf out : Bytes}

/-- The first `written` bytes of a buffer are acceptable for the virtual bytes
    from `off` on. -/
def Accepted (A : Nat → UInt8 → Prop) (off written : Nat) (buf : Bytes) : Prop :=
  ∀ j v, j < written → buf[j]? = some v → A (off + j) v

theorem Accepted.splice (h : Accepted A off written buf) (fits : written + out.length ≤ buf.length)
    (more : ∀ j v, out[j]? = some v → A (off + written + j) v) :
    Accepted A off (written + out.length) (splice buf written out) := by
  intro j v lt there
  by_cases earlier : j < written
  · rw [getElem?_splice_below (by omega) earlier] at there
    exact h j v earlier there
  · rw [getElem?_splice_inside fits (by omega) lt] at there
    have accepted := more _ _ there
    rwa [Nat.add_assoc, Nat.add_sub_cancel' (by omega)] at accepted

end Fill

/-- The end of a run: every sector up to it has the same bit. -/
theorem runEndSector_eq (bitmap : Bytes) (bit : Bool) (last : Nat) (covered : last / 8 < bitmap.length) :
    ∀ fuel sector, sector ≤ last + 1 → last + 1 < fuel + sector →
      ∃ stop, runEndSector bitmap bit last fuel sector = .ok stop ∧ sector ≤ stop ∧
        stop ≤ last + 1 ∧ ∀ n, sector ≤ n → n < stop → present bitmap n = bit := by
  intro fuel
  induction fuel with
  | zero =>
      intro sector start enough
      omega
  | succ fuel ih =>
      intro sector start enough
      unfold runEndSector
      by_cases more : sector ≤ last
      · rw [if_pos more, bitmapGet_eq (by omega), Outcome.ok_bind]
        by_cases same : present bitmap sector = bit
        · rw [if_pos same]
          obtain ⟨stop, run, low, high, all⟩ := ih (sector + 1) (by omega) (by omega)
          refine ⟨stop, run, by omega, high, fun n from_ upto => ?_⟩
          by_cases first : n = sector
          · rw [first]
            exact same
          · exact all n (by omega) upto
        · rw [if_neg same]
          exact ⟨sector, rfl, Nat.le_refl _, start, fun n _ _ => by omega⟩
      · rw [if_neg more]
        exact ⟨sector, rfl, Nat.le_refl _, start, fun n _ _ => by omega⟩

section Served

variable {σ δ : Type}

/-- What a sparse read relies on. `V` is how the state may drift, `Entry` and
    `Bits` are what the read learns and keeps, `D b` is a license to treat byte
    `b` as absent, and `A b v` accepts the value `v` for byte `b`. -/
structure Served (R : Handler σ (Op δ) Op.Res) (G : σ → Op δ → Prop) (L : Layout) (dev : δ)
    (parent : Option (ParentView δ)) (V : σ → σ → Prop) (I : σ → Prop)
    (Entry : Nat → Nat → σ → Prop) (Bits : Nat → Nat → Bytes → σ → Prop) (D : Nat → Prop)
    (A : Nat → UInt8 → Prop) (E : Error → σ → Prop) : Prop where
  refl : ∀ s, V s s
  trans : ∀ s s' s'', V s s' → V s' s'' → V s s''
  keeps : ∀ s s', V s s' → I s → I s'
  keepsEntry : ∀ k e s s', V s s' → Entry k e s → Entry k e s'
  keepsBits : ∀ k e bits s s', V s s' → Bits k e bits s → Bits k e bits s'
  length : ∀ k e bits s, Bits k e bits s → bits.length = L.bitmapSize
  word : ∀ k e s, Entry k e s → e < 2 ^ 32
  fetch : ∀ k s, I s → k < L.entries → G s (.on dev .fetchBat) ∧
    ∀ r s', R s (.on dev .fetchBat) r s' → V s s' ∧ ∃ bat e, r = some bat ∧ bat[k]? = some e ∧
      (e = batUnallocated → ∀ b, b / L.blockSize = k → D b) ∧ (e ≠ batUnallocated → Entry k e s')
  bitmap : ∀ k e s, I s → Entry k e s → G s (.on dev (.readAt (hostOff e) L.bitmapSize)) ∧
    ∀ r s', R s (.on dev (.readAt (hostOff e) L.bitmapSize)) r s' → V s s' ∧
      (∀ bits, r = (.ok bits : Except FsCoreError Bytes) → Bits k e bits s') ∧
      (∀ err, r = (.error err : Except FsCoreError Bytes) → E (fsCoreToVhdError err) s')
  data : ∀ k e bits p n s, I s → Entry k e s → Bits k e bits s → 0 < n → p + n ≤ L.blockSize →
    (∀ q, p ≤ q → q < p + n → present bits (q / 512) = true) →
    G s (.on dev (.readAt (hostOff e + L.bitmapSize + p) n)) ∧
    ∀ r s', R s (.on dev (.readAt (hostOff e + L.bitmapSize + p) n)) r s' → V s s' ∧
      (∀ out, r = (.ok out : Except FsCoreError Bytes) → out.length = n ∧
        ∀ j v, out[j]? = some v → A (k * L.blockSize + p + j) v) ∧
      (∀ err, r = (.error err : Except FsCoreError Bytes) → E (fsCoreToVhdError err) s')
  absent : ∀ k e bits s n, Bits k e bits s → n < L.blockSize / 512 → present bits n = false →
    ∀ q, q / 512 = n → D (k * L.blockSize + q)
  defer : ∀ virt dst s, I s → 0 < dst.length → virt + dst.length ≤ L.virtualSize →
    (∀ j < dst.length, D (virt + j)) →
    Code.wp R G (readBlockUnallocated parent virt dst)
      (fun out s' => V s s' ∧ out.length = dst.length ∧ ∀ j v, out[j]? = some v → A (virt + j) v)
      E s

variable {R : Handler σ (Op δ) Op.Res} {G : σ → Op δ → Prop} {L : Layout} {dev : δ}
  {parent : Option (ParentView δ)} {V : σ → σ → Prop} {I : σ → Prop}
  {Entry : Nat → Nat → σ → Prop} {Bits : Nat → Nat → Bytes → σ → Prop} {D : Nat → Prop}
  {A : Nat → UInt8 → Prop} {E : Error → σ → Prop} {off : Nat} {s₀ : σ}

theorem deferInto_wp (served : Served R G L dev parent V I Entry Bits D A E) {s : σ}
    {buf : Bytes} {written len : Nat} (holds : I s) (positive : 0 < len)
    (fits : written + len ≤ buf.length) (within : off + written + len ≤ L.virtualSize)
    (absent : ∀ j < len, D (off + written + j)) (accepted : Accepted A off written buf) :
    Code.wp R G (deferInto parent (off + written) buf written len)
      (fun buf' s' => V s s' ∧ buf'.length = buf.length ∧ Accepted A off (written + len) buf') E s := by
  have sliced : ((buf.drop written).take len).length = len := by
    rw [List.length_take, List.length_drop]
    omega
  unfold deferInto
  rw [sliceOf_of_le (by omega) fits, Code.lift_ok_bind, Nat.add_sub_cancel_left]
  refine Code.wp_seq (served.defer (off + written) _ s holds (by omega) (by omega) fun j lt =>
    absent j (by omega)) ?_
  rintro out s' ⟨drift, length, good⟩
  rw [sliced] at length
  refine ⟨drift, length_splice (by omega), ?_⟩
  rw [← length]
  exact accepted.splice (by omega) good

theorem readInto_wp (served : Served R G L dev parent V I Entry Bits D A E) {s : σ}
    {buf bits : Bytes} {written len k e p : Nat} (holds : I s) (entry : Entry k e s)
    (known : Bits k e bits s) (positive : 0 < len) (fits : written + len ≤ buf.length)
    (inside : p + len ≤ L.blockSize) (virt : off + written = k * L.blockSize + p)
    (there : ∀ q, p ≤ q → q < p + len → present bits (q / 512) = true)
    (accepted : Accepted A off written buf) :
    Code.wp R G (readInto dev (hostOff e + L.bitmapSize + p) buf written len)
      (fun buf' s' => V s s' ∧ buf'.length = buf.length ∧ Accepted A off (written + len) buf') E s := by
  have sliced : ((buf.drop written).take len).length = len := by
    rw [List.length_take, List.length_drop]
    omega
  obtain ⟨guard, answers⟩ := served.data k e bits p len s holds entry known positive inside there
  unfold readInto
  rw [sliceOf_of_le (by omega) fits, Code.lift_ok_bind, Nat.add_sub_cancel_left, sliced]
  refine (Code.wp_bind _ _).mpr ((Code.wp_bind _ _).mpr ((Code.wp_perform _).mpr ⟨guard, ?_⟩))
  intro r s' stepped
  obtain ⟨drift, good, bad⟩ := answers r s' stepped
  cases r with
  | error err => exact bad err rfl
  | ok out =>
      obtain ⟨length, values⟩ := good out rfl
      refine ⟨drift, length_splice (by omega), ?_⟩
      rw [← length]
      refine accepted.splice (by omega) fun j v at_ => ?_
      rw [virt]
      exact values j v at_

/-- Where a read stands inside block `k`: `written` bytes of the buffer are done,
    and the next one is byte `p` of the block. -/
structure Standing (A : Nat → UInt8 → Prop) (off k bs : Nat) (length p written : Nat) (buf : Bytes) :
    Prop where
  length : buf.length = length
  virt : off + written = k * bs + p
  accepted : Accepted A off written buf

theorem readRun_wp (served : Served R G L dev parent V I Entry Bits D A E) {s : σ}
    {bits : Bytes} {k e stop total : Nat} {t : RunCursor} (index : k < L.entries)
    (entry : Entry k e s) (known : Bits k e bits s) (holds : I s)
    (standing : Standing A off k L.blockSize total t.blockCursor t.written t.buf)
    (more : t.blockCursor < stop) (inside : stop ≤ L.blockSize)
    (fits : t.written + (stop - t.blockCursor) ≤ total)
    (within : k * L.blockSize + stop ≤ L.virtualSize) :
    Code.wp R G (readRun dev parent L.blockSize L.bitmapSize bits k (hostOff e) stop t)
      (fun t' s' => V s s' ∧ t.blockCursor < t'.blockCursor ∧ t'.blockCursor ≤ stop ∧
        Standing A off k L.blockSize total t'.blockCursor t'.written t'.buf) E s := by
  have covers := L.bitmapSize_covers
  have small := L.blockSize_le
  have bitmap := L.bitmapSize_le
  have whole := L.blockSize_mod
  have long := served.length k e bits s known
  have word := hostOff_lt (served.word k e s entry)
  have indexed := L.blockStart_lt index
  have virt := standing.virt
  have length := standing.length
  have last : (stop - 1) / 512 < L.blockSize / 512 := by omega
  have here : t.blockCursor / 512 ≤ (stop - 1) / 512 := by omega
  unfold readRun
  delta sectorSize
  simp only
  rw [bitmapGet_eq (by omega), Code.lift_ok_bind, sub64_of_le (by omega), Code.lift_ok_bind]
  obtain ⟨runEnd, run, low, high, same⟩ := runEndSector_eq bits
    (present bits (t.blockCursor / 512)) ((stop - 1) / 512) (by omega)
    ((stop - 1) / 512 + 2 - t.blockCursor / 512) (t.blockCursor / 512 + 1) (by omega) (by omega)
  rw [run, Code.lift_ok_bind, mul64_of_lt (by omega), Code.lift_ok_bind, sub64_of_le (by omega),
    Code.lift_ok_bind, sub64_of_le (by omega), Code.lift_ok_bind]
  have forward : t.blockCursor < runEnd * 512 := by omega
  generalize length_ : min (runEnd * 512 - t.blockCursor) (stop - t.blockCursor) = n
  have positive : 0 < n := by omega
  have inRun : t.blockCursor + n ≤ runEnd * 512 := by omega
  have inChunk : t.blockCursor + n ≤ stop := by omega
  -- the whole slice shares the bit of its first sector
  have bit (q : Nat) (from_ : t.blockCursor ≤ q) (upto : q < t.blockCursor + n) :
      present bits (q / 512) = present bits (t.blockCursor / 512) := by
    by_cases first : q / 512 = t.blockCursor / 512
    · rw [first]
    · exact same _ (by omega) (by omega)
  have finish (buf' : Bytes) (s' : σ) (drift : V s s') (length' : buf'.length = t.buf.length)
      (accepted : Accepted A off (t.written + n) buf') :
      Code.wp R G (do
        let blockCursor ← liftM (add64 t.blockCursor n : Checked Nat)
        let written ← liftM (add64 t.written n : Checked Nat)
        pure { blockCursor := blockCursor, written := written, buf := buf' } : Io δ RunCursor)
        (fun t' s' => V s s' ∧ t.blockCursor < t'.blockCursor ∧ t'.blockCursor ≤ stop ∧
          Standing A off k L.blockSize total t'.blockCursor t'.written t'.buf) E s' := by
    rw [add64_of_lt (by omega), Code.lift_ok_bind, add64_of_lt (by omega), Code.lift_ok_bind]
    exact ⟨drift, by simp only; omega, inChunk, length'.trans length, by simp only; omega, accepted⟩
  split
  · rename_i there
    have offset : t.blockCursor / 512 * 512 + (t.blockCursor &&& (512 - 1)) = t.blockCursor := by
      rw [show (512 - 1 : Nat) = 2 ^ 9 - 1 from rfl, Nat.and_two_pow_sub_one_eq_mod]
      omega
    have bound : t.blockCursor &&& (512 - 1) < 512 := by
      rw [show (512 - 1 : Nat) = 2 ^ 9 - 1 from rfl, Nat.and_two_pow_sub_one_eq_mod]
      omega
    rw [add64_of_lt (by omega), Code.lift_ok_bind, mul64_of_lt (by omega), Code.lift_ok_bind,
      add64_of_lt (by omega), Code.lift_ok_bind, add64_of_lt (by omega), Code.lift_ok_bind,
      Nat.add_assoc (hostOff e + L.bitmapSize), offset]
    refine Code.wp_seq (readInto_wp served holds entry known positive (by omega) (by omega) virt
      (fun q from_ upto => (bit q from_ upto).trans there) standing.accepted) ?_
    rintro buf' s' ⟨drift, length', accepted⟩
    exact finish buf' s' drift length' accepted
  · rename_i clear
    rw [mul64_of_lt (by omega), Code.lift_ok_bind, add64_of_lt (by omega), Code.lift_ok_bind, ← virt]
    refine Code.wp_seq (deferInto_wp served holds positive (by omega) (by omega) (fun j lt => ?_)
      standing.accepted) ?_
    · rw [virt, Nat.add_assoc]
      refine served.absent k e bits s ((t.blockCursor + j) / 512) known (by omega) ?_ _ rfl
      rw [bit _ (by omega) (by omega)]
      exact Bool.eq_false_iff.mpr clear
    · rintro buf' s' ⟨drift, length', accepted⟩
      exact finish buf' s' drift length' accepted

/-- All the runs of `[p, p + n)` of a block. -/
theorem readRuns_wp (served : Served R G L dev parent V I Entry Bits D A E) {s : σ}
    {bits buf : Bytes} {k e p n total written : Nat} (index : k < L.entries) (entry : Entry k e s)
    (known : Bits k e bits s) (holds : I s)
    (standing : Standing A off k L.blockSize total p written buf) (inside : p + n ≤ L.blockSize)
    (fits : written + n ≤ total) (within : k * L.blockSize + (p + n) ≤ L.virtualSize) :
    Code.wp R G (Code.whileLoop (fun t => decide (t.blockCursor < p + n))
      (readRun dev parent L.blockSize L.bitmapSize bits k (hostOff e) (p + n)) n
      { blockCursor := p, written, buf })
      (fun t s' => V s s' ∧ Standing A off k L.blockSize total (p + n) t.written t.buf) E s := by
  have start := standing.virt
  refine Code.wp_whileLoop (fun t s' => V s s' ∧ t.blockCursor ≤ p + n ∧
      Standing A off k L.blockSize total t.blockCursor t.written t.buf)
    (fun t => p + n - t.blockCursor) ?_ ?_ ?_ _ _ _
    ⟨served.refl s, Nat.le_add_right p n, standing⟩ (by simp only; omega)
  · rintro t s' - more
    have more := of_decide_eq_true more
    omega
  · rintro t s' ⟨drift, le, standing⟩ more
    have more := of_decide_eq_true more
    have virt := standing.virt
    refine Code.wp_mono (readRun_wp served index (served.keepsEntry _ _ _ _ drift entry)
      (served.keepsBits _ _ _ _ _ drift known) (served.keeps _ _ drift holds) standing more inside
      (by omega) within) (fun _ _ g => g) ?_ fun _ _ e => e
    rintro t' s'' ⟨drift', forward, le', standing'⟩
    exact ⟨⟨served.trans _ _ _ drift drift', le', standing'⟩, by omega⟩
  · rintro t s' ⟨drift, le, standing⟩ stop
    have stop := of_decide_eq_false stop
    rw [show t.blockCursor = p + n by omega] at standing
    exact ⟨drift, standing⟩

theorem readBlock_wp (served : Served R G L dev parent V I Entry Bits D A E) {w fm : Bool}
    {s : σ} {stop total : Nat} {t : ReadCursor} (holds : I s) (reached : off + t.written = t.cursor)
    (more : t.cursor < stop) (within : stop ≤ L.virtualSize) (length : t.buf.length = total)
    (fits : off + total = stop) (accepted : Accepted A off t.written t.buf) :
    Code.wp R G (readBlock (L.core dev w fm) parent L.blockSize (L.blockSize - 1) stop t)
      (fun t' s' => V s s' ∧ t.cursor < t'.cursor ∧ t'.cursor ≤ stop ∧
        off + t'.written = t'.cursor ∧ t'.buf.length = total ∧ Accepted A off t'.written t'.buf)
      E s := by
  have small := L.virtualSize_lt
  have inBlock : t.cursor % L.blockSize < L.blockSize := Nat.mod_lt _ L.blockSize_pos
  have split := Nat.div_add_mod t.cursor L.blockSize
  have index : t.cursor / L.blockSize < L.entries := L.block_lt (by omega)
  unfold readBlock
  simp only [L.validBlockSize.mask]
  rw [sub64_of_le (by omega), Code.lift_ok_bind, sub64_of_le (by omega), Code.lift_ok_bind]
  generalize chunk : min (L.blockSize - t.cursor % L.blockSize) (stop - t.cursor) = n
  have positive : 0 < n := by omega
  have inside : t.cursor % L.blockSize + n ≤ L.blockSize := by omega
  have upto : t.cursor + n ≤ stop := by omega
  obtain ⟨guard, answers⟩ := served.fetch (t.cursor / L.blockSize) s holds index
  refine (Code.wp_bind _ _).mpr ((Code.wp_perform _).mpr ⟨guard, ?_⟩)
  intro r s₁ fetched
  obtain ⟨drift₁, bat, e, rfl, slot, free, allocated⟩ := answers r s₁ fetched
  obtain ⟨lt, rfl⟩ := List.getElem?_eq_some_iff.mp slot
  simp only [okOr, Code.lift_ok_bind]
  rw [if_neg (by omega), getAt_of_lt lt, Code.lift_ok_bind]
  split
  · rename_i unallocated
    rw [← reached]
    refine Code.wp_seq (deferInto_wp served (served.keeps _ _ drift₁ holds) positive (by omega)
      (by omega) (fun j lt => ?_) accepted) ?_
    · refine free unallocated _ ?_
      rw [reached]
      refine Nat.div_eq_of_lt_le ?_ ?_
      · rw [Nat.mul_comm]; omega
      · rw [Nat.succ_mul, Nat.mul_comm]; omega
    · rintro buf' s₂ ⟨drift₂, length', accepted'⟩
      rw [add64_of_lt (by omega), Code.lift_ok_bind, add64_of_lt (by omega), Code.lift_ok_bind]
      exact ⟨served.trans _ _ _ drift₁ drift₂, by simp only; omega, by simp only; omega,
        by simp only; omega, length'.trans length, accepted'⟩
  · rename_i present_
    have entry := allocated present_
    rw [mul64_hostOff (served.word _ _ _ entry), Code.lift_ok_bind]
    obtain ⟨guard', answers'⟩ := served.bitmap _ _ s₁ (served.keeps _ _ drift₁ holds) entry
    refine (Code.wp_bind _ _).mpr ((Code.wp_bind _ _).mpr ((Code.wp_perform _).mpr ⟨guard', ?_⟩))
    intro r s₂ answered
    obtain ⟨drift₂, good, bad⟩ := answers' r s₂ answered
    cases r with
    | error err => exact bad err rfl
    | ok bits =>
        have known := good bits rfl
        simp only [lifted]
        change Code.wp R G (liftM (add64 (t.cursor % L.blockSize) n : Checked Nat) >>= _) _ E s₂
        rw [add64_of_lt (by omega), Code.lift_ok_bind]
        have drift := served.trans _ _ _ drift₁ drift₂
        have standing : Standing A off (t.cursor / L.blockSize) L.blockSize total
            (t.cursor % L.blockSize) t.written t.buf := by
          refine ⟨length, ?_, accepted⟩
          rw [reached, Nat.mul_comm]
          exact split.symm
        refine Code.wp_seq (readRuns_wp served index (served.keepsEntry _ _ _ _ drift₂ entry) known
          (served.keeps _ _ drift holds) standing inside (by omega) (by rw [Nat.mul_comm]; omega)) ?_
        rintro t' s' ⟨drift', standing'⟩
        have virt := standing'.virt
        rw [Nat.mul_comm] at virt
        rw [add64_of_lt (by omega), Code.lift_ok_bind]
        exact ⟨served.trans _ _ _ drift drift', by simp only; omega, by simp only; omega,
          by simp only; omega, standing'.length, standing'.accepted⟩

/-- A sparse read fills its buffer with acceptable bytes. -/
theorem readSparse_wp (served : Served R G L dev parent V I Entry Bits D A E) {w fm : Bool}
    {s : σ} {buf : Bytes} (holds : I s) (within : off + buf.length ≤ L.virtualSize) :
    Code.wp R G (readSparse (L.core dev w fm) parent off buf)
      (fun out s' => V s s' ∧ out.length = buf.length ∧ ∀ j v, out[j]? = some v → A (off + j) v)
      E s := by
  have small := L.virtualSize_lt
  have positive := L.blockSize_pos
  unfold readSparse
  change Code.wp R G (liftM (okOr _ (some L.header)) >>= _) _ E s
  simp only [okOr, Code.lift_ok_bind]
  rw [sub64_of_le (show 1 ≤ L.header.blockSize from positive), Code.lift_ok_bind,
    add64_of_lt (by omega), Code.lift_ok_bind]
  refine (Code.wp_bind _ _).mpr (Code.wp_whileLoop
    (fun t s' => V s s' ∧ off + t.written = t.cursor ∧ t.cursor ≤ off + buf.length ∧
      t.buf.length = buf.length ∧ Accepted A off t.written t.buf)
    (fun t => off + buf.length - t.cursor) ?positive ?turn ?done _ _ _ ?start
    (by simp only; omega))
  case start =>
    exact ⟨served.refl s, by simp, by simp, rfl, fun j v lt => absurd lt (by simp)⟩
  case positive =>
    rintro t s' - more
    have more := of_decide_eq_true more
    omega
  case turn =>
    rintro t s' ⟨drift, reached, le, length, accepted⟩ more
    have more := of_decide_eq_true more
    refine Code.wp_mono (readBlock_wp served (served.keeps _ _ drift holds) reached more within
      length rfl accepted) (fun _ _ g => g) ?_ fun _ _ e => e
    rintro t' s'' ⟨drift', forward, le', reached', length', accepted'⟩
    exact ⟨⟨served.trans _ _ _ drift drift', reached', le', length', accepted'⟩, by omega⟩
  case done =>
    rintro t s' ⟨drift, reached, le, length, accepted⟩ stop
    have stop := of_decide_eq_false stop
    refine ⟨drift, length, fun j v at_ => accepted j v ?_ at_⟩
    obtain ⟨lt, _⟩ := List.getElem?_eq_some_iff.mp at_
    omega

theorem readAt_wp (served : Served R G L dev parent V I Entry Bits D A E) {w fm : Bool}
    {s : σ} {buf : Bytes} (holds : I s) (within : off + buf.length ≤ L.virtualSize) :
    Code.wp R G ((L.core dev w fm).readAt parent off buf)
      (fun out s' => V s s' ∧ out.length = buf.length ∧ ∀ j v, out[j]? = some v → A (off + j) v)
      E s := by
  have small := L.virtualSize_lt
  unfold Core.readAt
  by_cases empty : buf.length = 0
  · rw [if_pos empty]
    refine ⟨served.refl s, rfl, fun j v at_ => ?_⟩
    rw [List.length_eq_zero_iff.mp empty] at at_
    cases at_
  rw [if_neg empty, checkedAdd_of_lt (by omega), Code.lift_ok_bind,
    if_neg (show ¬ (L.core dev w fm).virtualSize < off + buf.length from Nat.not_lt.mpr within)]
  have same : (L.core dev w fm).footer.diskType = L.footer.diskType := rfl
  cases kind : L.footer.diskType with
  | fixed => exact absurd kind L.sparse
  | dynamic =>
      rw [same, kind]
      exact readSparse_wp served holds within
  | differencing =>
      rw [same, kind]
      exact readSparse_wp served holds within

end Served

end ImgVhd
