import ImgVhd.Session.Adding

/-! # The footer at the end of the file

Calls that add no block keep the footer in place at every instant.
-/

namespace ImgVhd

open Foundation

section TrailingFooter

variable {s s₀ s₁ : Image} {offset : Nat} {buf : Bytes} {r : VhdReader Unit}

/-- A call keeps the footer at the end of the file, wherever it is cut, exactly
    when it adds no block; all calls before it were such. -/
theorem footer_at_every_instant {t : List (Event (Op Unit) Op.Res)} {log : List Attempt}
    {trace : List (Event (Op Unit) Op.Res)}
    (opened : Prog.Runs Faults.clean.handler (VhdReader.openRwOnDevice ()) s t (.ret (.ok r)) s₀)
    (dynamic : r.diskType = .dynamic)
    (trailing : Footer.parse (tailSector s.disk) = .ok r.core.footer)
    (burst : Burst .clean r s₀ log trace s₁)
    (spared : ∀ a ∈ log, ¬ Adds r s₀ a.offset a.buf) :
    (∀ t p s₂, Prog.Runs Faults.clean.handler (r.writeAt offset buf) s₁ t p s₂ →
      Footer.parse (tailSector s₂.disk) = .ok r.core.footer) ↔ ¬ Adds r s₀ offset buf := by
  obtain ⟨L, fm, dataEnd, off, opens, kind, rfl, rfl⟩ :=
    (openRwOnDevice_opened opened).layout dynamic
  cases fm with
  | true =>
      obtain ⟨⟨err, damaged⟩, -⟩ := opens.footer.damaged rfl
      rw [trailing] at damaged
      cases damaged
  | false =>
      have unadded := burst.unadded opens kind spared
      constructor
      · intro always adds
        obtain ⟨t, p, s₂, run, broken⟩ := unadded.breaks opens kind adds
        exact broken _ (always t p s₂ (run.mono fun _ _ _ _ => ideal_allowed .clean))
      · intro spares t p s₂ run
        rw [(unadded.call opens kind spares run).last]
        exact trailing

theorem small_disk_adds : ∃ (s s₀ : Image) (r : VhdReader Unit)
    (t : List (Event (Op Unit) Op.Res)) (buf : Bytes) (L : Layout) (off : Nat),
    Prog.Runs Faults.clean.handler (VhdReader.openRwOnDevice ()) s t (.ret (.ok r)) s₀ ∧
    r.diskType = .dynamic ∧ Footer.parse (tailSector s.disk) = .ok r.core.footer ∧
    r = .base (L.core () true false) ∧ L.footer.diskType = .dynamic ∧
    Opens s.disk L false off off ∧ s₀ = L.opened s.disk off ∧ buf = List.replicate 700 7 ∧ Adds r s₀ 300 buf := by
  obtain ⟨s, t, L, off, opened, created, size, block⟩ := small_reopened .clean
  obtain ⟨buf, sevens, length⟩ := small_buffer
  have opens := created.opens
  have trailing := opens.footer.parses.2
  rw [← opens.footer.at_tail rfl] at trailing
  have adds : Adds (.base (L.core () true false)) (L.opened s.disk off) 300 buf := by
    refine adds_iff.mpr ⟨by omega, created.nameable, 300, Nat.le_refl _, by omega, ?_⟩
    have slot := Layout.getElem?_table (L := L) (d := s.disk) (L.block_lt (b := 300) (by omega))
    rwa [created.empty _ (List.mem_of_getElem? slot)] at slot
  rw [← created.image] at adds
  exact ⟨⟨s.disk, none, none⟩, s, _, t, buf, L, off, opened, created.dynamic, trailing, rfl,
    created.dynamic, opens, created.image, sevens, adds⟩

/-- A write across two blocks of the small disk can be cut where the file ends in
    no footer. -/
theorem growing_disk_loses_its_footer : ∃ (s s₀ s₂ : Image) (r : VhdReader Unit)
    (t t' : List (Event (Op Unit) Op.Res)) (p : Io Unit Unit) (buf : Bytes),
    Prog.Runs Faults.clean.handler (VhdReader.openRwOnDevice ()) s t (.ret (.ok r)) s₀ ∧
    r.diskType = .dynamic ∧ Footer.parse (tailSector s.disk) = .ok r.core.footer ∧
    buf = List.replicate 700 7 ∧ Prog.Runs Faults.clean.handler (r.writeAt 300 buf) s₀ t' p s₂ ∧
    ∀ footer, Footer.parse (tailSector s₂.disk) ≠ .ok footer := by
  obtain ⟨s, s₀, r, t, buf, L, off, opened, dynamic, trailing, rfl, kind, opens, rfl, sevens, adds⟩ :=
    small_disk_adds
  obtain ⟨t', p, s₂, run, broken⟩ := Unadded.opened.breaks opens kind adds
  exact ⟨s, _, s₂, _, t, t', p, buf, opened, dynamic, trailing, sevens,
    run.mono fun _ _ _ _ => ideal_allowed .clean, broken⟩

/-- On the small disk with its first two blocks, a write that reaches a third can
    lose the footer, and one inside the two cannot. -/
theorem small_disk_keeps_its_footer : ∃ (s₀ : Image) (r : VhdReader Unit) (buf : Bytes),
    buf = List.replicate 700 7 ∧
    (¬ ∀ t p s₂, Prog.Runs Faults.clean.handler (r.writeAt 2000 buf) s₀ t p s₂ →
      Footer.parse (tailSector s₂.disk) = .ok r.core.footer) ∧
    ∀ t p s₂, Prog.Runs Faults.clean.handler (r.writeAt 100 buf) s₀ t p s₂ →
      Footer.parse (tailSector s₂.disk) = .ok r.core.footer := by
  obtain ⟨buf, sevens, length⟩ := small_buffer
  obtain ⟨-, L, -, -, -, s, bat, off, -, -, -, filled⟩ := small_filled length
  have size := filled.size
  have opens := filled.order.opens
  have trailing := opens.footer.parses.2
  rw [← opens.footer.at_tail rfl] at trailing
  obtain ⟨t, opened⟩ := reopen_runs .clean none opens filled.dynamic
  have none_ : ∀ a ∈ ([] : List Attempt),
      ¬ Adds (.base (L.core () true false)) (L.opened s.disk off) a.offset a.buf := fun a member => by
    cases member
  have adds : Adds (.base (L.core () true false)) (L.opened s.disk off) 2000 buf :=
    filled.adds (by omega) (Nat.le_refl _) (by omega) (by decide)
  have spares : ¬ Adds (.base (L.core () true false)) (L.opened s.disk off) 100 buf :=
    filled.not_adds (by omega)
  exact ⟨_, _, buf, sevens, fun always =>
    (footer_at_every_instant opened filled.dynamic trailing .start none_).mp always adds,
    (footer_at_every_instant opened filled.dynamic trailing .start none_).mpr spares⟩

end TrailingFooter

end ImgVhd
