import ImgVhd.Chain.Read

/-! # A chain reads as its images say

Whatever the block grids, sizes, tables and bitmaps of the images of a chain, a
read answers each byte from the first image that holds it.
-/

namespace ImgVhd

open Foundation

section ChainReads

variable {f : Faults} {how : Option Path} {dev : Nat} {wr : Bool} {w w' w'' : World}
  {r : VhdReader Nat} {off : Nat} {buf : Bytes} {t t' : List (Event (Op Nat) Op.Res)}
  {out : Outcome Error Bytes}

/-- A read that no device refused answers every byte, and depends on nothing of
    the buffer but its length. -/
theorem chain_reads_reference (known : how = none → dev < w.next)
    (opened : Prog.Runs (World.handler f) (openAs dev wr how) w t (.ret (.ok r)) w')
    (within : off + buf.length ≤ r.virtualSize)
    (run : Prog.Runs (World.handler f) (r.readAt off buf) w' t' (.ret out) w'')
    (answered : ∀ e ∈ t', ¬ e.op.Refused e.result) :
    out = .ok ((List.range buf.length).map fun i => r.value w'.disk (off + i)) := by
  obtain ⟨chain, -⟩ := Prog.wp_finished (openAs_chain wr known) opened
  have whole := chain.readAt_wp (G := fun _ _ => True) (E := fun _ _ => False)
    (World.looks_answered f) (fun _ => trivial) (fun _ _ _ _ _ => trivial)
    (fun _ _ _ _ never => never.elim) within
  rcases Code.wp_finished whole (run.restrict answered) with
    ⟨bytes, rfl, -, length, values⟩ | ⟨e, rfl, never⟩
  · refine congrArg Outcome.ok (List.ext_getElem (by rw [length]; simp) fun i low high => ?_)
    rw [values i _ (List.getElem?_eq_getElem low)]
    simp
  · exact never.elim

/-- A read of the delta that begins in what its parent holds, goes past the parent's
    end, through the sector the delta holds itself, and into a block it lacks. -/
theorem pair_reads_reference : ∃ (r : VhdReader Nat) (w' : World) (t t' : List (Event (Op Nat) Op.Res))
    (buf : Bytes), buf.length = 540 ∧
    Prog.Runs (World.handler .none) (openAs 0 false (some [.normal ['d', 'e', 'l', 't', 'a']])) pair t
      (.ret (.ok r)) w' ∧ r.diskType = .differencing ∧
    Prog.Runs (World.handler .none) (r.readAt 500 buf) w' t' (.ret (.ok (List.replicate 8 7 ++
      List.replicate 4 0 ++ List.replicate 512 9 ++ List.replicate 16 0))) w' := by
  obtain ⟨buf, length⟩ : ∃ buf : Bytes, buf.length = 540 :=
    ⟨List.replicate 540 1, List.length_replicate⟩
  obtain ⟨w', ended, top, bottom⟩ := pair_opens
  have opened := Prog.run_trace World.idealStep (World.idealStep_allowed .none)
    (openAs 0 false (some [.normal ['d', 'e', 'l', 't', 'a']])) pair
  rw [ended] at opened
  have known : (some [.normal ['d', 'e', 'l', 't', 'a']] : Option Path) = none → 0 < pair.next :=
    fun no => by cases no
  obtain ⟨chain, -⟩ := Prog.wp_finished (openAs_chain false known) opened
  have within : 500 + buf.length ≤ deltaLayout.virtualSize := by
    rw [length]
    decide
  obtain ⟨out, t', run⟩ : ∃ out t', Prog.Runs (fun w op r w' => World.handler .none w op r w' ∧
      ¬ op.Refused r) (pairReader.readAt 500 buf) w' t' (.ret out) w' :=
    ⟨_, chain.answers (fun _ _ _ => pair_asks) within⟩
  have reads := run.mono fun _ _ _ _ both => both.1
  have same := chain_reads_reference known opened within reads (run.events fun _ _ _ _ both => both.2)
  rw [length] at same
  obtain rfl := same.trans (congrArg Outcome.ok (pair_values top bottom))
  exact ⟨pairReader, w', _, t', buf, length, opened, rfl, reads⟩

end ChainReads

end ImgVhd
