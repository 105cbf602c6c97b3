import ImgVhd.Session.Answers

/-! # A guest disk for a caller that writes on

What a caller that writes one stretch of an opened image piece by piece relies on,
whatever the type of the image; and what a file shows to everyone who opens it.
-/

namespace ImgVhd

open Foundation

/-- The disk `held` with `buf` over it from `offset` on. -/
def overlay (offset : Nat) (buf : Bytes) (held : Nat → UInt8) (b : Nat) : UInt8 :=
  (payload offset buf b).getD (held b)

/-- On an ideal device, everyone who opens the file finds the disk `held`. -/
def Shows (d : ByteStore) (size : Nat) (held : Nat → UInt8) : Prop :=
  ∀ wr how, ∃ u x, (openAs () wr how).run idealStep ⟨d, none, none⟩ = (.ok u, x) ∧
    u.virtualSize = size ∧ ∀ o b, o + b.length ≤ size → (u.readAt o b).run idealStep x =
      (.ok ((List.range b.length).map fun i => held (o + i)), x)

/-- A disk that can be written on as far as `stop`: `keeps c held` says that it is
    `held` and that the next byte to be written is `c`. -/
structure WritesOn (r : VhdReader Unit) (stop : Nat) (keeps : Nat → (Nat → UInt8) → Image → Prop) :
    Prop where
  writable : r.core.writable_ = true
  write : ∀ c held x buf, keeps c held x → c + buf.length ≤ stop →
    Code.wp Faults.none.handler (fun _ _ => True) (r.writeAt c buf)
      (fun _ x' => keeps (c + buf.length) (overlay c buf held) x') (fun _ _ => False) x
  shows : ∀ c held x, keeps c held x → Shows x.disk r.virtualSize held

section Overlay

variable {offset : Nat} {a b : Bytes} {held : Nat → UInt8}

@[simp] theorem overlay_nil : overlay offset [] held = held := by
  funext x
  simp [overlay, payload]

theorem overlay_append :
    overlay (offset + a.length) b (overlay offset a held) = overlay offset (a ++ b) held := by
  funext x
  unfold overlay payload
  by_cases behind : offset + a.length ≤ x
  · have past : a[x - offset]? = none := List.getElem?_eq_none (by omega)
    rw [if_pos behind, if_pos (by omega), if_pos (by omega), past,
      List.getElem?_append_right (by omega), show x - offset - a.length = x - (offset + a.length) by omega]
    rfl
  · rw [if_neg behind]
    by_cases within : offset ≤ x
    · rw [if_pos within, if_pos within, List.getElem?_append_left (by omega)]
      rfl
    · rw [if_neg within, if_neg within]
      rfl

end Overlay

theorem flushWrites_ideal {r : VhdReader Unit} {s : Image} :
    Code.wp Faults.none.handler (fun _ _ => True) r.flushWrites (fun _ x => x = s) (fun _ _ => False) s := by
  unfold VhdReader.flushWrites
  split
  · exact (Code.wp_pure _).mpr rfl
  · refine (Code.wp_bind _ _).mpr ((Code.wp_perform _).mpr ⟨trivial, fun r x flushed => ?_⟩)
    obtain ⟨rfl, rfl⟩ := Prod.mk.inj (idealStep_only flushed)
    rfl

end ImgVhd
