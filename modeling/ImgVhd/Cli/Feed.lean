import ImgVhd.Cli.Img
import ImgVhd.Session.Guest

/-! # Standard input, written into the guest

A pipe is read whole and cut into chunks, a file is passed on in the pieces it comes
in. Both put the same bytes one behind the other.
-/

namespace ImgVhd.Img

open Foundation

section Feed

variable {σ δ : Type} {L : Handler σ (Op δ) Op.Res} {G : σ × Host → Op δ ⊕ HostOp → Prop} {s : σ}
  {h : Host} {str : Bytes}

/-- A piece that came of what was left, no longer than `left`. -/
structure Delivered (left : Nat) (h : Host) (piece : Bytes) (h' : Host) : Prop where
  rest : piece ++ h'.stdin.remaining = h.stdin.remaining
  few : piece.length ≤ left
  last : piece = [] → left = 0 ∨ h.stdin.remaining = []

theorem takeRead_wp {left max : Nat} (some_ : 0 < max) :
    Code.wp (L.sides (Host.handler False)) (fun _ _ => True) (takeRead left max : Cli δ Bytes)
      (fun piece x => x.1 = s ∧ Delivered left h piece x.2) (fun _ _ => False) (s, h) := by
  unfold takeRead
  split
  · rename_i limit
    exact ⟨rfl, rfl, Nat.zero_le _, fun _ => Or.inl limit⟩
  · rename_i more
    refine (Code.wp_bind _ _).mpr ((Code.wp_perform _).mpr ⟨trivial, ?_⟩)
    rintro answer ⟨s', h'⟩ ⟨⟨k, asked, there, empty, rfl, rfl⟩ | ⟨never, -⟩, same⟩
    · have there : k ≤ h.stdin.remaining.length := there
      refine ⟨same, ?_, ?_, fun none_ => ?_⟩
      · show h.stdin.remaining.take k ++ h.stdin.content.drop (h.stdin.pos + k) = h.stdin.remaining
        rw [← List.drop_drop]
        exact List.take_append_drop k _
      · rw [List.length_take]
        omega
      · have nothing : (h.stdin.remaining.take k).length = 0 := by rw [none_]; rfl
        rw [List.length_take] at nothing
        rcases empty (by omega) with stopped | rest
        · omega
        · exact Or.inr rest
    · exact never.elim

/-- Whatever pieces it comes in, it is all there is up to the limit. -/
theorem readToEnd_wp {limit : Nat} (some_ : 0 < limit) :
    Code.wp (L.sides (Host.handler False)) (fun _ _ => True) (readToEnd limit : Cli δ Bytes)
      (fun got x => x.1 = s ∧ got = h.stdin.remaining.take limit) (fun _ _ => False) (s, h) := by
  unfold readToEnd
  refine (Code.wp_bind _ _).mpr (Code.wp_whileLoop
    (fun t x => x.1 = s ∧ t.1 ++ x.2.stdin.remaining = h.stdin.remaining ∧ t.1.length ≤ limit ∧
      (t.2 = false → t.1.length = limit ∨ x.2.stdin.remaining = []))
    (fun t => if t.2 then limit - t.1.length + 1 else 0) ?positive ?turn ?done _ _ _
    ⟨rfl, rfl, Nat.zero_le _, nofun⟩ (Nat.le_refl _))
  case positive =>
    intro t x _ more
    rw [if_pos more]
    exact Nat.succ_pos _
  case turn =>
    rintro t ⟨s', h'⟩ ⟨same, there, short, -⟩ more
    have more : t.2 = true := more
    obtain rfl : s' = s := same
    refine Code.wp_seq (takeRead_wp some_) ?_
    rintro piece ⟨s'', h''⟩ ⟨same, delivered⟩
    have few := delivered.few
    have rest := delivered.rest
    refine ⟨⟨same, ?_, ?_, fun stopped => ?_⟩, ?_⟩
    · rw [List.append_assoc, rest]
      exact there
    · simp only [List.length_append]
      omega
    · obtain rfl : piece = [] := by simpa using stopped
      rw [List.append_nil]
      rcases delivered.last rfl with limit' | nothing
      · have full : t.1.length = limit := by omega
        exact Or.inl full
      · exact Or.inr (by rwa [nothing] at rest)
    · show (if decide (piece ≠ []) = true then limit - (t.1 ++ piece).length + 1 else 0) <
        if t.2 = true then limit - t.1.length + 1 else 0
      rw [if_pos more, List.length_append]
      split
      · rename_i arrived
        have positive := List.length_pos_iff.mpr (of_decide_eq_true arrived)
        omega
      · omega
  case done =>
    rintro t ⟨s', h'⟩ ⟨same, there, short, stopped⟩ ended
    refine ⟨same, ?_⟩
    rw [← there]
    rcases stopped ended with limit' | nothing
    · rw [← limit', List.take_left]
    · rw [nothing, List.append_nil, List.take_of_length_le short]

/-- What standard input holds, however it is presented, and that it is not the
    image itself. -/
structure Presents (h : Host) (str : Bytes) : Prop where
  bytes : h.stdin.remaining = str
  other : h.stdin.isImage = false

/-- Pipe or file, it is refused by its length alone. -/
theorem openInput_wp {image : Path} {offset size room : Nat} (presents : Presents h str)
    (small : room + 1 < 2 ^ 64) :
    Code.wp (L.sides (Host.handler False)) (fun _ _ => True)
      (openInput image offset size room : Cli δ Input)
      (fun input x => x.1 = s ∧ str.length ≤ room ∧ match input with
        | .file n => n = str.length ∧ x.2.stdin.remaining = str
        | .buffered data => data = str)
      (fun _ x => x.1 = s ∧ room < str.length) (s, h) := by
  have bytes := presents.bytes
  unfold openInput
  refine (Code.wp_bind _ _).mpr ((Code.wp_perform _).mpr ⟨trivial, ?_⟩)
  rintro isFile ⟨s₁, h₁⟩ ⟨⟨-, rfl⟩, same⟩
  obtain rfl : s₁ = s := same
  split
  · refine (Code.wp_bind _ _).mpr ((Code.wp_perform _).mpr ⟨trivial, ?_⟩)
    rintro isImage ⟨s₂, h₂⟩ ⟨⟨is, rfl⟩, same⟩
    obtain rfl : s₂ = s₁ := same
    obtain rfl : isImage = false := is.trans presents.other
    rw [if_neg Bool.false_ne_true]
    refine (Code.wp_bind _ _).mpr ((Code.wp_perform _).mpr ⟨trivial, ?_⟩)
    rintro len ⟨s₃, h₃⟩ ⟨⟨rfl | ⟨never, -⟩, rfl⟩, same⟩
    case inr => exact never.elim
    obtain rfl : s₃ = s₂ := same
    simp only [reported, Code.lift_ok_bind]
    refine (Code.wp_bind _ _).mpr ((Code.wp_perform _).mpr ⟨trivial, ?_⟩)
    rintro pos ⟨s₄, h₄⟩ ⟨⟨rfl | ⟨never, -⟩, rfl⟩, same⟩
    case inr => exact never.elim
    obtain rfl : s₄ = s₃ := same
    have length : h₄.stdin.content.length - h₄.stdin.pos = str.length := by
      rw [← bytes, Stdin.remaining, List.length_drop]
    simp only [Code.lift_ok_bind, length]
    split
    · rename_i long
      exact ⟨rfl, long⟩
    · exact ⟨rfl, by omega, rfl, bytes⟩
  · rw [show min (room + 1) (2 ^ 64 - 1) = room + 1 by omega]
    refine Code.wp_seq (Code.wp_mono (readToEnd_wp (Nat.succ_pos room)) (fun _ _ g => g)
      (fun _ _ post => post) fun _ _ never => never.elim) ?_
    rintro data ⟨s₂, h₂⟩ ⟨same, rfl⟩
    rw [bytes]
    split
    · rename_i long
      rw [List.length_take] at long
      exact ⟨same, by omega⟩
    · rename_i short
      rw [List.length_take] at short
      have whole : str.take (room + 1) = str := List.take_of_length_le (by omega)
      exact ⟨same, by omega, whole⟩

end Feed

section Written

variable {image : Path} {r : VhdReader Unit} {stop offset : Nat}
  {keeps : Nat → (Nat → UInt8) → Image → Prop} {held : Nat → UInt8} {s : Image} {h : Host} {str : Bytes}

theorem writePiece_wp {done piece : Bytes} (writes : WritesOn r stop keeps)
    (kept : keeps (offset + done.length) (overlay offset done held) s)
    (room : offset + (done ++ piece).length ≤ stop) :
    Code.wp (Faults.none.handler.sides (Host.handler False)) (fun _ _ => True)
      (onImage image (r.writeAt (offset + done.length) piece))
      (fun _ x => keeps (offset + (done ++ piece).length) (overlay offset (done ++ piece) held) x.1 ∧ x.2 = h)
      (fun _ _ => False) (s, h) := by
  rw [List.length_append] at room ⊢
  refine onImage_wp (writes.write _ _ _ piece kept (by omega)) (fun _ _ _ => trivial) ?_
    fun _ _ never => never
  rintro - x' kept'
  rw [overlay_append, Nat.add_assoc] at kept'
  exact ⟨kept', rfl⟩

theorem writeChunks_wp (writes : WritesOn r stop keeps) (small : stop < 2 ^ 64)
    (kept : keeps offset held s) (room : offset + str.length ≤ stop) :
    Code.wp (Faults.none.handler.sides (Host.handler False)) (fun _ _ => True)
      (writeChunks image r offset str)
      (fun _ x => keeps (offset + str.length) (overlay offset str held) x.1) (fun _ _ => False) (s, h) := by
  have positive : 0 < chunkSize := Nat.two_pow_pos 20
  unfold writeChunks
  refine (Code.wp_bind _ _).mpr (Code.wp_whileLoop
    (fun i x => keeps (offset + (str.take (i * chunkSize)).length)
      (overlay offset (str.take (i * chunkSize)) held) x.1)
    (fun i => str.length - i * chunkSize) ?positive ?turn ?done _ _ _ ?start (Nat.sub_le _ _))
  case start => simpa using kept
  case positive =>
    intro i x _ more
    have more := of_decide_eq_true more
    omega
  case turn =>
    rintro i ⟨s', h'⟩ kept more
    have more := of_decide_eq_true more
    have here : (str.take (i * chunkSize)).length = i * chunkSize := by
      rw [List.length_take]
      omega
    have next : str.take (i * chunkSize) ++ (str.drop (i * chunkSize)).take chunkSize =
        str.take ((i + 1) * chunkSize) := by
      rw [Nat.succ_mul, List.take_add]
    rw [mul64_of_lt (by omega), Code.lift_ok_bind, add64_of_lt (by omega), Code.lift_ok_bind, ← here]
    refine Code.wp_seq (writePiece_wp writes kept ?_) ?_
    · rw [here, next, List.length_take]
      omega
    · rintro - ⟨s'', h''⟩ ⟨kept', -⟩
      rw [here, next] at kept'
      refine ⟨kept', ?_⟩
      rw [Nat.succ_mul]
      omega
  case done =>
    rintro i ⟨s', h'⟩ kept stopped
    have stopped := of_decide_eq_false stopped
    rw [List.take_of_length_le (by omega)] at kept
    exact kept

/-- How far a stream has come: `done` is written, the rest is still to be read. -/
structure Streamed (keeps : Nat → (Nat → UInt8) → Image → Prop) (held : Nat → UInt8) (offset : Nat)
    (str done : Bytes) (t : StreamCursor) (x : Image × Host) : Prop where
  pos : t.pos = offset + done.length
  left : done.length + t.left = str.length
  rest : done ++ x.2.stdin.remaining = str
  kept : keeps (offset + done.length) (overlay offset done held) x.1
  last : t.more = false → t.left = 0 ∨ x.2.stdin.remaining = []

theorem streamTurn_wp {t : StreamCursor} {done : Bytes} (writes : WritesOn r stop keeps)
    (small : stop < 2 ^ 64) (room : offset + str.length ≤ stop)
    (streamed : Streamed keeps held offset str done t (s, h)) :
    Code.wp (Faults.none.handler.sides (Host.handler False)) (fun _ _ => True) (streamTurn image r t)
      (fun t' x => ∃ done', Streamed keeps held offset str done' t' x ∧
        (t'.more = true → t'.left < t.left)) (fun _ _ => False) (s, h) := by
  have left := streamed.left
  unfold streamTurn
  refine Code.wp_seq (takeRead_wp (Nat.two_pow_pos 20)) ?_
  rintro piece ⟨s', h'⟩ ⟨same, delivered⟩
  obtain rfl : s' = s := same
  have few := delivered.few
  have rest := delivered.rest
  split
  · rename_i nothing
    obtain rfl := nothing
    rw [List.nil_append] at rest
    refine ⟨done, ⟨streamed.pos, left, ?_, streamed.kept, fun _ => ?_⟩, nofun⟩
    · rw [show h'.stdin.remaining = h.stdin.remaining from rest]
      exact streamed.rest
    · rw [show h'.stdin.remaining = h.stdin.remaining from rest]
      exact delivered.last rfl
  · rename_i some_
    have positive := List.length_pos_iff.mpr some_
    have inside : offset + (done ++ piece).length ≤ stop := by
      rw [List.length_append]
      omega
    rw [streamed.pos]
    refine Code.wp_seq (writePiece_wp writes streamed.kept inside) ?_
    rintro - ⟨s'', h''⟩ ⟨kept, same⟩
    obtain rfl : h'' = h' := same
    rw [List.length_append] at inside
    rw [add64_of_lt (by omega), Code.lift_ok_bind]
    refine ⟨done ++ piece, ⟨?_, ?_, ?_, kept, nofun⟩, fun _ => ?_⟩
    · simp only [List.length_append]
      omega
    · simp only [List.length_append]
      omega
    · rw [List.append_assoc, rest]
      exact streamed.rest
    · simp only
      omega

theorem streamed_wp (writes : WritesOn r stop keeps) (small : stop < 2 ^ 64)
    (kept : keeps offset held s) (room : offset + str.length ≤ stop)
    (presented : h.stdin.remaining = str) :
    Code.wp (Faults.none.handler.sides (Host.handler False)) (fun _ _ => True)
      (writeInput image r offset (.file str.length))
      (fun written x => written = str.length ∧ keeps (offset + str.length) (overlay offset str held) x.1)
      (fun _ _ => False) (s, h) := by
  unfold writeInput
  refine (Code.wp_bind _ _).mpr (Code.wp_whileLoop
    (fun t x => ∃ done, Streamed keeps held offset str done t x)
    (fun t => if t.more = true then t.left + 1 else 0) ?positive ?turn ?done _ _ _ ?start
    (Nat.le_refl _))
  case start => exact ⟨[], rfl, Nat.zero_add _, presented, by simpa using kept, nofun⟩
  case positive =>
    intro t x _ more
    rw [if_pos more]
    exact Nat.succ_pos _
  case turn =>
    rintro t ⟨s', h'⟩ ⟨done, streamed⟩ more
    refine Code.wp_mono (streamTurn_wp writes small room streamed) (fun _ _ g => g) ?_ fun _ _ e => e
    rintro t' x ⟨done', streamed', less⟩
    refine ⟨⟨done', streamed'⟩, ?_⟩
    rw [if_pos more]
    split
    · rename_i more'
      have less := less more'
      omega
    · exact Nat.succ_pos _
  case done =>
    rintro t ⟨s', h'⟩ ⟨done, streamed⟩ stopped
    have left := streamed.left
    have rest := streamed.rest
    have finished : h'.stdin.remaining = [] := by
      rcases streamed.last stopped with limit | nothing
      · have length := congrArg List.length rest
        rw [List.length_append] at length
        apply List.length_eq_zero_iff.mp
        simp only at length
        omega
      · exact nothing
    have whole : done = str := by
      rw [← rest, finished, List.append_nil]
    have kept := streamed.kept
    rw [whole] at kept
    rw [streamed.pos, sub64_of_le (Nat.le_add_right _ _), Nat.add_sub_cancel_left, whole]
    exact ⟨rfl, kept⟩

/-- A write of the string on standard input: refused by its length before anything
    is written, or done. -/
theorem write_wp (offset : Nat) (held : Nat → UInt8) {s₀ : Image}
    (writes : WritesOn r stop keeps) (presents : Presents h str)
    (opening : Code.wp Faults.none.handler (fun _ _ => True) (VhdReader.openRw image)
      (fun r' x => r' = r ∧ x = s₀) (fun _ _ => False) s)
    (small : r.virtualSize + 1 < 2 ^ 64)
    (start : offset + str.length ≤ r.virtualSize → stop = offset + str.length ∧ keeps offset held s₀) :
    Code.wp (Faults.none.handler.sides (Host.handler False)) (fun _ _ => True) (write image offset)
      (fun done x => offset + str.length ≤ r.virtualSize ∧ done = (offset, str.length) ∧
        keeps (offset + str.length) (overlay offset str held) x.1)
      (fun _ x => r.virtualSize < offset + str.length ∧ x.1 = s₀) (s, h) := by
  unfold write
  refine (Code.wp_bind _ _).mpr (onImage_wp opening (fun _ _ _ => trivial) ?_ fun _ _ never => never.elim)
  rintro r' x ⟨rfl, rfl⟩
  simp only [writes.writable, Bool.not_true, Bool.false_eq_true, if_false]
  split
  · rename_i past
    exact ⟨by omega, rfl⟩
  · rename_i low
    refine (Code.wp_bind _ _).mpr (Code.wp_mono (openInput_wp presents (by omega)) (fun _ _ g => g) ?_ ?_)
    · rintro input ⟨s₁, h₁⟩ ⟨same, fits, holds⟩
      obtain rfl : s₁ = x := same
      have inside : offset + str.length ≤ r'.virtualSize := by omega
      obtain ⟨stops, kept⟩ := start inside
      have written : Code.wp (Faults.none.handler.sides (Host.handler False)) (fun _ _ => True)
          (writeInput image r' offset input)
          (fun written x => written = str.length ∧
            keeps (offset + str.length) (overlay offset str held) x.1) (fun _ _ => False) (s₁, h₁) := by
        cases input with
        | file n =>
            obtain ⟨rfl, presented⟩ := holds
            exact streamed_wp writes (by omega) kept (by omega) presented
        | buffered data =>
            obtain rfl : data = str := holds
            refine Code.wp_seq (writeChunks_wp writes (by omega) kept (by omega)) ?_
            rintro - x' kept'
            exact ⟨rfl, kept'⟩
      refine (Code.wp_bind _ _).mpr (Code.wp_mono written (fun _ _ g => g) ?_ fun _ _ never => never.elim)
      rintro n ⟨s₂, h₂⟩ ⟨rfl, kept'⟩
      refine (Code.wp_bind _ _).mpr (onImage_wp (flushWrites_ideal (s := s₂)) (fun _ _ _ => trivial) ?_
        fun _ _ never => never.elim)
      rintro - x' rfl
      exact ⟨inside, rfl, kept'⟩
    · rintro e x' ⟨same, long⟩
      exact ⟨by omega, same⟩

end Written

end ImgVhd.Img
