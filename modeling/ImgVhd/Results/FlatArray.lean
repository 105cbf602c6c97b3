import ImgVhd.Session.Order

/-! # A dynamic image is a flat byte array

On an ideal device, in any session whose writes all return, what the image holds
is the log, read by any reader of it.
-/

namespace ImgVhd

open Foundation

section FlatArray

variable {s : Image} {log : List Attempt}

/-- Every read of every session answers the flat disk its writes make, and every
    open finds the same disk again, by its tail. -/
theorem dynamic_image_is_flat {env : BuildEnv} {path : Path} {size bs : Nat} {s₀ s₁ : Image}
    {r₀ : VhdReader Unit} {t : List (Event (Op Unit) Op.Res)} {last : Option (VhdReader Unit)}
    (word : bs < 2 ^ 32)
    (create : Prog.Runs Faults.none.handler (createDynamic env path size bs) s₀ t (.ret (.ok r₀)) s₁)
    (session : Session .none (r₀, s₁) log last s) (done : ∀ a ∈ log, a.done = true) :
    (∀ r offset buf, last = some r → offset + buf.length ≤ r₀.virtualSize →
      (r.readAt offset buf).run idealStep s =
        (.ok ((List.range buf.length).map fun i => flat log (offset + i)), s)) ∧
    ∀ how, ∃ r s', (reopen () how).run idealStep s = (.ok r, s') ∧
      r.virtualSize = r₀.virtualSize ∧ r.footerRecoveredFromMirror = false := by
  obtain ⟨L, off₀, created, rfl, -, -⟩ := createDynamic_created word create
  obtain ⟨⟨bat, off, order⟩, readers⟩ := session.in_order created rfl done
  refine ⟨fun r offset buf is within => ?_, fun how => ?_⟩
  · obtain ⟨fm, rfl⟩ := readers r is
    exact reads_as _ order.sound.ready order.sound.cached order.values within
  · exact ⟨_, _, reopen_ideal _ order.opens created.dynamic, rfl, rfl⟩

/-- The small disk gives back what was written across two of its blocks, also
    once it was opened again. -/
theorem small_disk_is_flat : ∃ (r : VhdReader Unit) (s s' : Image) (buf : Bytes), buf = List.replicate 700 7 ∧
    (r.readAt 300 buf).run idealStep s = (.ok buf, s) ∧
    (reopen () none).run idealStep s = (.ok r, s') ∧ r.footerRecoveredFromMirror = false ∧
    (r.readAt 300 buf).run idealStep s' = (.ok buf, s') := by
  obtain ⟨buf, sevens, length⟩ := small_buffer
  obtain ⟨t₀, L, s₁, off₀, t₁, s, bat, off, create, -, write, filled⟩ := small_filled length
  have size := filled.size
  have inside : 300 + buf.length ≤ (VhdReader.base (L.core () true false)).virtualSize := by
    change 300 + buf.length ≤ L.virtualSize
    omega
  have session := Session.written inside write
  have done : ∀ a ∈ ([⟨300, buf, succeeded (.ret (.ok ()))⟩] : List Attempt),
      a.done = true := fun a member => by
    cases List.mem_singleton.mp member
    rfl
  have ended := reopen_ideal none filled.order.opens filled.dynamic
  obtain ⟨t₂, run⟩ := reopen_runs .none none filled.order.opens filled.dynamic
  have before := (dynamic_image_is_flat (by decide) create session done).1 _ 300 buf rfl inside
  have after := (dynamic_image_is_flat (by decide) create (session.reopen run) done).1 _ 300 buf rfl
    inside
  exact ⟨_, s, _, buf, sevens, before.trans (by rw [flat_written]), ended, rfl,
    after.trans (by rw [flat_written])⟩

end FlatArray

end ImgVhd
