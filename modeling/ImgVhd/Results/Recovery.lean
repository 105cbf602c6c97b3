import ImgVhd.Results.Crash
import ImgVhd.Session.Answers
import ImgVhd.Session.Order

/-! # Recovery by the mirror

A file that lost its last sector, or had it overwritten, opens by the mirror and
reads as before.
-/

namespace ImgVhd

open Foundation

/-- The last sector replaced by one that is no footer, or cut off where what then
    ends the file does not begin as a footer. -/
inductive Damaged (d : ByteStore) : ByteStore → Prop where
  | replaced {tail : Bytes} {err : Error} (length : tail.length = 512)
      (rejected : Footer.parse tail = .err err) : Damaged d (d.write (d.size - 512) tail)
  | cut {fits : d.size - 512 < 2 ^ 64}
      (absent : (tailSector (d.resize (d.size - 512) fits)).take 8 ≠ footerCookie) :
      Damaged d (d.resize (d.size - 512) fits)

section Recovery

variable {L : Layout} {log : List Attempt} {s : Image} {bat : List Nat} {off : Nat} {d : ByteStore}
  {fm : Bool}

theorem Durable.damaged (durable : Durable L log s bat off) (damaged : Damaged s.disk d) :
    d.size % 512 = 0 ∧ off ≤ d.size ∧ (∀ x < off, d.byte x = s.disk.byte x) ∧
      (∃ err, Footer.parse (tailSector d) = .err err) ∧
      (off + 512 ≤ d.size ∨ tailHasCookie d = false) := by
  obtain ⟨aligned, room, -⟩ := durable.trailed.last
  cases damaged with
  | @replaced tail err length rejected =>
      have last : tailSector (s.disk.write (s.disk.size - 512) tail) = tail := by
        have back := ByteStore.read_write_same s.disk (s.disk.size - 512) tail
          (by omega)
        rw [length] at back
        unfold tailSector
        rw [ByteStore.size_write]
        exact back
      rw [last, ByteStore.size_write]
      exact ⟨aligned, by omega, fun x below => ByteStore.byte_write_outside (Or.inl (by omega)),
        ⟨err, rejected⟩, Or.inl room⟩
  | @cut fits absent =>
      have absent : tailHasCookie (s.disk.resize (s.disk.size - 512) fits) = false :=
        decide_eq_false absent
      rw [ByteStore.size_resize]
      exact ⟨by omega, by omega, fun x below => ByteStore.byte_resize_below (by omega),
        ⟨_, parse_without_cookie absent⟩, Or.inr absent⟩

theorem Sound.below (sound : Sound L s bat off) (room : off ≤ d.size)
    (same : ∀ x < off, d.byte x = s.disk.byte x) :
    Sound L { s with disk := d } bat off ∧ ∀ b < L.virtualSize, L.value d bat b = L.value s.disk bat b := by
  have top := sound.metadata_lt
  have header := L.headerEnd_le_metadataEnd
  have table := L.tableEnd_le_metadataEnd
  refine ⟨sound.disk room (fun x _ high => same x (by omega)) (fun x _ high => same x (by omega))
    fun i e free there live => ?_, fun b inside => ?_⟩
  · have place := sound.placed e (List.mem_of_getElem? there) live
    exact blank_congr fun j lt => same _ (by omega)
  · refine congrArg (Option.getD · 0) (Layout.own_congr rfl fun e entry live j lt => ?_)
    have place := sound.live_slot entry live
    exact same _ (by omega)

theorem Durable.recovers (durable : Durable L log s bat off) (damaged : Damaged s.disk d) :
    ∃ dataEnd off', Opens d L true dataEnd off' ∧
      ∀ b < L.virtualSize, L.value d (L.table d) b = L.value s.disk bat b := by
  obtain ⟨aligned, room, same, ⟨err, unparsed⟩, within⟩ := durable.damaged damaged
  obtain ⟨sound, values⟩ := durable.sound.below room same
  have top := durable.sound.metadata_lt
  have long : 1024 ≤ L.headerEnd := Nat.le_add_left _ _
  have header := L.headerEnd_le_metadataEnd
  have mirror : d.read 0 512 = L.footerBytes := by
    rw [← durable.mirror]
    exact ByteStore.read_congr fun i lt => same _ (by omega)
  obtain ⟨dataEnd, off', opens⟩ := sound.opens_mirror aligned (show 1024 ≤ d.size by omega) unparsed
    mirror within
  exact ⟨dataEnd, off', opens, fun b inside => (sound.value_table b inside).trans (values b inside)⟩

/-- Whatever happened between the writes, as long as they all returned: the
    damaged file opens by its mirror, however it is opened, and reads as the
    undamaged one does. -/
theorem recovery_serves_the_same_disk {env : BuildEnv} {path : Path} {size bs : Nat} {s₀ s₁ : Image}
    {r₀ : VhdReader Unit} {t : List (Event (Op Unit) Op.Res)} {last : Option (VhdReader Unit)}
    {f : Faults} (word : bs < 2 ^ 32)
    (create : Prog.Runs f.handler (createDynamic env path size bs) s₀ t (.ret (.ok r₀)) s₁)
    (session : Session f (r₀, s₁) log last s) (done : ∀ a ∈ log, a.done = true)
    (damaged : Damaged s.disk d) (wr : Bool) (how : Option Path) :
    ∃ r x u y, (openAs () wr how).run idealStep ⟨d, none, none⟩ = (.ok r, x) ∧
      (openAs () wr how).run idealStep ⟨s.disk, none, none⟩ = (.ok u, y) ∧
      r.footerRecoveredFromMirror = true ∧ r.virtualSize = r₀.virtualSize ∧
      ∀ offset buf, offset + buf.length ≤ r.virtualSize →
        (r.readAt offset buf).run idealStep x =
          (.ok ((List.range buf.length).map fun i => flat log (offset + i)), x) ∧
        (u.readAt offset buf).run idealStep y =
          (.ok ((List.range buf.length).map fun i => flat log (offset + i)), y) := by
  obtain ⟨L, off₀, created, rfl, -, -⟩ := createDynamic_created word create
  obtain ⟨⟨bat, off, durable⟩, -⟩ := session.durable created rfl
  have held (b : Nat) (inside : b < L.virtualSize) : L.value s.disk bat b = flat log b :=
    (durable.values b inside).flat done
  obtain ⟨dataEnd, off', opens, values⟩ := durable.recovers damaged
  obtain ⟨fm, dataEnd₁, off₁, whole, -⟩ := durable.opens
  refine ⟨_, _, _, _, openAs_ideal (s := ⟨d, none, none⟩) opens created.dynamic,
    openAs_ideal (s := ⟨s.disk, none, none⟩) whole created.dynamic, rfl, rfl,
    fun offset buf within => ⟨?_, ?_⟩⟩
  · exact reads_as _ opens.ready rfl (fun b inside => (values b inside).trans (held b inside)) within
  · exact reads_as _ whole.ready rfl
      (fun b inside => (durable.sound.value_table b inside).trans (held b inside)) within

/-- The small disk, written to, with zeros where its footer was. -/
theorem small_disk_is_recovered : ∃ (s : Image) (r : VhdReader Unit) (x : Image) (buf : Bytes),
    buf = List.replicate 700 7 ∧
    (openAs () true none).run idealStep
      ⟨s.disk.write (s.disk.size - 512) (List.replicate 512 0), none, none⟩ = (.ok r, x) ∧
    r.footerRecoveredFromMirror = true ∧
    (r.readAt 300 buf).run idealStep x = (.ok buf, x) := by
  obtain ⟨buf, sevens, length⟩ := small_buffer
  obtain ⟨t₀, L, s₁, off₀, t₁, s, create, -, size, -, run⟩ := small_written length
  have inside : 300 + buf.length ≤ L.virtualSize := by omega
  have session := Session.written (show 300 + buf.length ≤ L.virtualSize from inside) run
  obtain ⟨r, x, u, y, again, -, mirror, same, reads⟩ := recovery_serves_the_same_disk (by decide) create
    session (fun a member => by
      cases List.mem_singleton.mp member
      rfl) (.replaced List.length_replicate Footer.parse_zeros) true none
  exact ⟨s, r, x, buf, sevens, again, mirror,
    (reads 300 buf (same ▸ inside)).1.trans (by rw [flat_written])⟩

end Recovery

end ImgVhd
