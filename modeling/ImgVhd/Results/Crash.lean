import ImgVhd.Session.Adding

/-! # Crashes and failures

Every operation may fail, with or without its effect, and every run may be cut
between two operations. The file still opens, by its tail or by its mirror, as
the same disk, and no byte is lost or invented.
-/

namespace ImgVhd

open Foundation

/-- The file ends right behind the tail, in the footer or in zeros. -/
def AtTail (L : Layout) (d : ByteStore) (off : Nat) : Prop :=
  d.size = off + 512 ∧ (d.read off 512 = L.footerBytes ∨ d.read off 512 = List.replicate 512 0)

theorem trail_atTail (L : Layout) : Trail L (AtTail L) where
  short _ _ rest := Nat.le_of_eq rest.1
  stable d d' off size same rest := by
    have last : d'.read off 512 = d.read off 512 :=
      ByteStore.read_congr fun i _ => same _ (Nat.le_add_right _ _)
    exact ⟨size.trans rest.1, by rw [last]; exact rest.2⟩
  moved _ _ _ size last := ⟨size, Or.inl last⟩

/-- An image that will open, and reads within what the log allows. -/
structure Durable (L : Layout) (log : List Attempt) (s : Image) (bat : List Nat) (off : Nat) :
    Prop where
  sound : Sound L s bat off
  trailed : Trailed L (AtTail L) s.disk off
  mirror : s.disk.read 0 512 = L.footerBytes
  values : ∀ b < L.virtualSize, Allowed log b (L.value s.disk bat b)

section Durable

variable {L : Layout} {log : List Attempt} {s s' : Image} {bat : List Nat} {off : Nat}

theorem Created.durable (created : Created L s off) : Durable L [] s (L.table s.disk) off := by
  obtain ⟨sound, aligned, size, last⟩ := created.rests
  exact ⟨sound, ⟨aligned, Or.inl ⟨size, Or.inl last⟩⟩, created.mirror,
    fun b inside => created.value_zero inside⟩

theorem Trailed.last (trailed : Trailed L (AtTail L) s.disk off) :
    s.disk.size % 512 = 0 ∧ off + 512 ≤ s.disk.size ∧
      (tailSector s.disk = L.footerBytes ∨ tailSector s.disk = List.replicate 512 0) := by
  have aligned := trailed.aligned
  have whole := L.blockTotal_mod
  have sector (at_ : Nat) (size : s.disk.size = at_ + 512) : tailSector s.disk = s.disk.read at_ 512 := by
    unfold tailSector
    rw [size, show at_ + 512 - footerSize = at_ from Nat.add_sub_cancel _ _]
    rfl
  rcases trailed.ends with ⟨size, last⟩ | ⟨size, last⟩
  · exact ⟨by omega, by omega, by rw [sector _ size]; exact last⟩
  · exact ⟨by omega, by omega, by rw [sector _ size]; exact last⟩

theorem Durable.opens (durable : Durable L log s bat off) :
    ∃ fm dataEnd off', Opens s.disk L fm dataEnd off' ∧ s.disk.size = off' + 512 := by
  obtain ⟨aligned, room, last⟩ := durable.trailed.last
  have top := durable.sound.metadata_lt
  have footer := L.footer_le_metadataEnd
  have behind {fm : Bool} {dataEnd off' : Nat} (opens : Opens s.disk L fm dataEnd off') :
      s.disk.size = off' + 512 := by
    have least : s.disk.size - 512 ≤ off' := opens.tail.least
    rcases opens.tail.reached with here | ⟨-, e, member, live, here⟩
    · have here : off' = s.disk.size - 512 := here
      omega
    · have place := durable.sound.placed e member live
      omega
  rcases last with tail | zeros
  · have opens := durable.sound.opens_tail aligned room tail
    exact ⟨false, _, _, opens, behind opens⟩
  · obtain ⟨dataEnd, off', opens⟩ := durable.sound.opens_mirror aligned (by omega)
      (by rw [zeros]; exact Footer.parse_zeros) durable.mirror (Or.inl room)
    exact ⟨true, dataEnd, off', opens, behind opens⟩

theorem Durable.reopened {fm : Bool} {dataEnd off' : Nat} (durable : Durable L log s bat off)
    (opens : Opens s.disk L fm dataEnd off') (behind : s.disk.size = off' + 512) :
    Durable L log (L.opened s.disk off') (L.table s.disk) off' := by
  obtain ⟨aligned, room, last⟩ := durable.trailed.last
  have start := durable.sound.start
  refine ⟨opens.sound (by omega), ⟨by omega, Or.inl ⟨behind, ?_⟩⟩, durable.mirror, fun b inside => ?_⟩
  · have same : s.disk.read off' 512 = tailSector s.disk := by
      unfold tailSector
      rw [behind, show off' + 512 - footerSize = off' from Nat.add_sub_cancel _ _]
      rfl
    show s.disk.read off' 512 = _ ∨ s.disk.read off' 512 = _
    rw [same]
    exact last
  · show Allowed log b (L.value s.disk (L.table s.disk) b)
    rw [durable.sound.value_table b inside]
    exact durable.values b inside

/-- A write, wherever it is cut. -/
theorem Durable.write_cut {f : Faults} {offset : Nat} {buf : Bytes} {fm : Bool} {p : Io Unit Unit} {t}
    (durable : Durable L log s bat off) (clear : Clear L) (dynamic : L.footer.diskType = .dynamic)
    (within : offset + buf.length ≤ L.virtualSize)
    (run : Prog.Runs f.handler ((VhdReader.base (L.core () true fm)).writeAt offset buf) s t p s') :
    ∃ bat' off', Durable L (⟨offset, buf, succeeded p⟩ :: log) s' bat' off' := by
  have mirrored {bat' : List Nat} {off' : Nat}
      (intact : Intact L (AtTail L) (payload offset buf) s bat s' bat' off') :
      s'.disk.read 0 512 = L.footerBytes := by
    rw [← durable.mirror]
    exact ByteStore.read_congr fun i lt => intact.evolves.mirror _ (by omega)
  obtain ⟨anywhere, finished⟩ := ImgVhd.write_cut clear (trail_atTail L) dynamic within durable.sound
    durable.trailed run
  cases returned : succeeded p with
  | false =>
      obtain ⟨bat', off', intact⟩ := anywhere
      exact ⟨bat', off', intact.sound, intact.trailed, mirrored intact, fun b inside =>
        (durable.values b inside).attempted (intact.evolves.value b)⟩
  | true =>
      obtain ⟨bat', off', intact, -, written⟩ := finished (succeeded_iff.mp returned)
      exact ⟨bat', off', intact.sound, intact.trailed, mirrored intact, fun b inside =>
        (durable.values b inside).written (intact.evolves.value b) fun u carried =>
          Layout.value_of_own (written b u carried)⟩

theorem Session.durable {f : Faults} {r₀ : VhdReader Unit} {s₀ : Image} {off₀ : Nat}
    {last : Option (VhdReader Unit)} (created : Created L s₀ off₀)
    (reader : r₀ = .base (L.core () true false)) (session : Session f (r₀, s₀) log last s) :
    (∃ bat off, Durable L log s bat off) ∧
      ∀ r, last = some r → ∃ fm, r = .base (L.core () true fm) := by
  refine session.keeps (K := fun _ => True) (I := fun log s => ∃ bat off, Durable L log s bat off)
    trivial (fun _ _ _ => trivial) ⟨_, _, created.durable⟩ ⟨false, reader⟩ ?_ ?_
  · rintro log _ s call t p s' - ⟨bat, off, durable⟩ ⟨fm, rfl⟩ inside run
    cases call with
    | write offset buf => exact durable.write_cut created.clear created.dynamic inside run
    | read offset buf =>
        rw [read_cut durable.sound.ready inside run]
        exact ⟨bat, off, durable⟩
  · rintro log s how t p s' ⟨bat, off, durable⟩ run
    obtain ⟨fm, dataEnd, off', opens, behind⟩ := durable.opens
    rcases reopen_cut opens created.dynamic run with ⟨none_, same⟩ | ⟨some_, same⟩
    · rw [none_, same]
      exact ⟨⟨bat, off, durable⟩, nofun⟩
    · rw [some_, same]
      exact ⟨⟨_, _, durable.reopened opens behind⟩, fun r is => ⟨fm, (Option.some.inj is).symm⟩⟩

/-- Wherever a session stops, the file opens as the same disk, and every byte is
    the last that was written, or a later one that was being written. -/
theorem crash_consistent {env : BuildEnv} {path : Path} {size bs : Nat} {s₀ s₁ : Image}
    {r₀ : VhdReader Unit} {t : List (Event (Op Unit) Op.Res)} {last : Option (VhdReader Unit)}
    (word : bs < 2 ^ 32)
    (create : Prog.Runs Faults.any.handler (createDynamic env path size bs) s₀ t (.ret (.ok r₀)) s₁)
    (session : Session .any (r₀, s₁) log last s) (how : Option Path) :
    ∃ r s', (reopen () how).run idealStep s = (.ok r, s') ∧ r.virtualSize = r₀.virtualSize ∧
      ∀ offset buf, offset + buf.length ≤ r.virtualSize →
        ∃ out, (r.readAt offset buf).run idealStep s' = (.ok out, s') ∧ out.length = buf.length ∧
          ∀ i v, out[i]? = some v → Allowed log (offset + i) v := by
  obtain ⟨L, off₀, created, rfl, -, -⟩ := createDynamic_created word create
  obtain ⟨⟨bat, off, durable⟩, -⟩ := session.durable created rfl
  obtain ⟨fm, dataEnd, off', opens, behind⟩ := durable.opens
  refine ⟨_, _, reopen_ideal _ opens created.dynamic, rfl, fun offset buf within => ?_⟩
  have again := durable.reopened opens behind
  refine ⟨_, read_ideal again.sound.ready again.sound.cached within, by simp, fun i v at_ => ?_⟩
  obtain ⟨lt, same⟩ := List.getElem?_eq_some_iff.mp at_
  simp only [List.length_map, List.length_range] at lt
  simp only [List.getElem_map, List.getElem_range] at same
  rw [← same]
  have size : (VhdReader.base (L.core () true fm)).virtualSize = L.virtualSize := rfl
  exact again.values _ (by omega)

/-- The small disk, opened again after a write across two of its blocks and cut
    off in a second write while the file ends in no footer, still gives back the
    first. -/
theorem small_disk_survives : ∃ (r₀ r : VhdReader Unit) (s₁ s s' : Image) (buf : Bytes) (done : Bool)
    (last : Option (VhdReader Unit)), buf = List.replicate 700 7 ∧
    Session .any (r₀, s₁) [⟨2000, buf, done⟩, ⟨300, buf, true⟩] last s ∧
    (∀ footer, Footer.parse (tailSector s.disk) ≠ .ok footer) ∧
    (reopen () none).run idealStep s = (.ok r, s') ∧ (r.readAt 300 buf).run idealStep s' = (.ok buf, s') := by
  obtain ⟨buf, sevens, length⟩ := small_buffer
  obtain ⟨t₀, L, s₁, off₀, t₁, s₂, bat, off, create, created, write, filled⟩ := small_filled length
  have size := filled.size
  have create := create.mono fun _ _ _ _ => ideal_allowed .any
  have within : 300 + buf.length ≤ L.virtualSize := by omega
  have beyond : 2000 + buf.length ≤ L.virtualSize := by omega
  obtain ⟨t₂, again⟩ := reopen_runs .any none filled.order.opens filled.dynamic
  obtain ⟨t₃, p, s₃, cut, torn⟩ := Unadded.opened.breaks filled.order.opens filled.dynamic
    (filled.adds beyond (Nat.le_refl 2000) (by omega) (by decide))
  have session := ((Session.written within (write.mono fun _ _ _ _ => ideal_allowed .any)).reopen again).call
    (show (Call.write 2000 buf).InRange (VhdReader.base (L.core () true false)).virtualSize from beyond)
    (cut.mono fun _ _ _ _ => ideal_allowed .any)
  obtain ⟨r, s', opens, same, reads⟩ := crash_consistent (by decide) create session none
  obtain ⟨out, read, long, allowed⟩ := reads 300 buf (same ▸ within)
  have alone : ((List.range buf.length).map fun i => flat [⟨300, buf, true⟩] (300 + i)) = buf :=
    flat_written
  have whole : out = buf := by
    refine Eq.trans (List.ext_getElem (by simpa using long) fun i low high => ?_) alone
    have seen := allowed i _ (List.getElem?_eq_getElem low)
    have apart : payload 2000 buf (300 + i) = none := if_neg (by omega)
    simp only [Call.attempts, List.singleton_append, Allowed, apart] at seen
    rw [List.getElem_map, List.getElem_range]
    exact Allowed.flat (by simp) seen
  exact ⟨_, r, s₁, s₃, s', buf, _, _, sevens, session, torn, opens, whole ▸ read⟩

end Durable

end ImgVhd
