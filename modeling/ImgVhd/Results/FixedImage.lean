import ImgVhd.Chain.Read
import ImgVhd.Creating.Created
import ImgVhd.Session.Fixed

/-! # The guest area of a fixed image

A fixed image maps virtual bytes to host bytes one to one, and no open compares
its virtual size with the length of its device. Where the footer starts behind
the guest area, reads and writes keep clear of it; where it does not, the guest
reads and writes the footer.
-/

namespace ImgVhd

open Foundation

/-- Reads that succeed without touching the trailing footer, and writes that
    leave it and the disk it describes as they were. -/
structure GuestAreaSafe (r : VhdReader Nat) (w : World) : Prop where
  read : ∀ off buf, off + buf.length ≤ r.virtualSize → ∀ t out w',
    Prog.Runs (World.handler .none) (r.readAt off buf) w t (.ret out) w' →
    (∃ bytes, out = .ok bytes) ∧ ∀ e ∈ t, ∀ o n, e.op = .on r.core.dev (.readAt o n) →
      o + n ≤ (w.disk r.core.dev).size - footerSize
  write : r.core.writable = true → ∀ off buf, off + buf.length ≤ r.virtualSize → ∀ t out w',
    Prog.Runs (World.handler .none) (r.writeAt off buf) w t (.ret out) w' →
    tailSector (w'.disk r.core.dev) = tailSector (w.disk r.core.dev) ∧
    ∃ t r' w'', Prog.Runs (World.handler .none) (openAs r.core.dev false none) w' t
      (.ret (.ok r')) w'' ∧ r'.core = { r.core with writable := false }

section Fixed

variable {dev : Nat} {wr : Bool} {found : FoundFooter} {w w' : World} {off : Nat} {buf : Bytes}
  {t : List (Event (Op Nat) Op.Res)}

theorem World.open_fixed (w : World) (dev : Nat) (wr : Bool) (is : FooterOf (w.disk dev) found)
    (long : footerSize ≤ (w.disk dev).size) (fixed : found.footer.diskType = .fixed) :
    ∃ t w', Prog.Runs (handler .none) (openAs dev wr none) w t
      (.ret (.ok (.base (fixedCore dev wr found)))) w' ∧ w'.disk dev = w.disk dev := by
  have sees : Sees (handler .none) (fun _ _ => True) dev w (w.disk dev) Faults.none.Faulty :=
    World.sees trivial fun _ _ => trivial
  have whole : Code.wp (handler .none) (fun _ _ => True) (openAs dev wr none)
      (fun r x => r = .base (fixedCore dev wr found) ∧ x.disk dev = w.disk dev) (fun _ _ => False)
      w := by
    refine openOn_wp trivial (openInner_fixed_wp sees is long fixed
      ⟨trivial, fun r x shared => ⟨rfl, ?_⟩⟩ fun faulty _ _ => Faults.none_not_faulty faulty)
    rw [handler_share shared]
    unfold World.disk
    rw [image_put]
  obtain ⟨r, w', ⟨t, run⟩, rfl, same⟩ := Code.wp_reaches whole
    (fun w op => ⟨_, _, idealStep_allowed .none w op⟩) fun _ _ never => never
  exact ⟨t, w', run, same⟩

/-- What a write leaves of the footer behind the guest area. -/
theorem write_fixed {out : Outcome Error Unit}
    (fixed : found.footer.diskType = .fixed)
    (behind : found.footer.currentSize + footerSize ≤ (w.disk dev).size)
    (within : off + buf.length ≤ found.footer.currentSize)
    (run : Prog.Runs (World.handler .none)
      ((VhdReader.base (fixedCore dev true found)).writeAt off buf) w t (.ret out) w') :
    (w'.disk dev).size = (w.disk dev).size ∧ tailSector (w'.disk dev) = tailSector (w.disk dev) := by
  have disk := (w.disk dev).size_lt
  by_cases positive : 0 < buf.length
  case neg =>
    have idle : (VhdReader.base (fixedCore dev true found)).writeAt off [] = .ret (.ok ()) :=
      writeAt_fixed_nil fixed
    rw [← List.length_eq_zero_iff.mp (Nat.eq_zero_of_not_pos positive)] at idle
    rw [idle] at run
    cases run
    exact ⟨rfl, rfl⟩
  rw [writeAt_fixed fixed (by omega) positive within] at run
  have whole : Code.wp (World.handler .none) (fun _ _ => True) (devWrite dev .payload off buf)
      (fun _ x => x.disk dev = (w.disk dev).write off buf) (fun _ _ => False) w := by
    refine (Code.wp_bind _ _).mpr ((Code.wp_perform _).mpr ⟨trivial, ?_⟩)
    rintro r x ⟨im, ideal | ⟨never, -⟩ | ⟨never, -⟩, rfl⟩
    · rw [Image.step_writeAt (show off + buf.length ≤ (w.disk dev).size by omega)] at ideal
      cases ideal
      exact congrArg Image.disk World.image_put
    · exact never.elim
    · exact never.elim
  rcases Code.wp_finished whole run with ⟨done, rfl, same⟩ | ⟨e, rfl, never⟩
  · rw [show w'.disk dev = (w.disk dev).write off buf from same]
    refine ⟨rfl, ?_⟩
    unfold tailSector
    exact ByteStore.read_write_disjoint (Or.inr (by rw [ByteStore.size_write]; omega))
  · exact never.elim

end Fixed

section Results

variable {f : Faults} {how : Option Path} {dev : Nat} {wr : Bool} {w w' : World}
  {r : VhdReader Nat} {t : List (Event (Op Nat) Op.Res)}

/-- The guest area is safe exactly where the device is long enough for the guest
    area and the footer. -/
theorem fixed_guest_area_is_safe (known : how = none → dev < w.next)
    (opened : Prog.Runs (World.handler f) (openAs dev wr how) w t (.ret (.ok r)) w')
    (fixed : r.diskType = .fixed) :
    GuestAreaSafe r w' ↔ r.virtualSize + footerSize ≤ (w'.disk r.core.dev).size := by
  obtain ⟨chain, writable⟩ := Prog.wp_finished (openAs_chain wr known) opened
  cases chain with
  | dynamic opens kind cached => exact absurd fixed (by
      rw [show (VhdReader.base (Layout.core _ _ _ _)).diskType = .dynamic from kind]; simp)
  | above opens kind cached parent apart => exact absurd fixed (by
      rw [show (VhdReader.above (Layout.core _ _ _ _) _).diskType = .differencing from kind]; simp)
  | @fixed dev wr' found is long kind =>
      have disk := (w'.disk dev).size_lt
      have long : footerSize ≤ (w'.disk dev).size := long
      have small : found.footer.currentSize < 2 ^ 64 :=
        (Footer.fields_lt (Nat.le_of_eq is.parses.1.symm) is.parses.2).1
      change GuestAreaSafe _ w' ↔ found.footer.currentSize + footerSize ≤ (w'.disk dev).size
      constructor
      · intro safe
        by_contra short
        -- the first byte of the footer is then a byte of the guest
        obtain ⟨byte, one⟩ : ∃ byte : Bytes, byte.length = 1 := ⟨[0], rfl⟩
        have within : (w'.disk dev).size - footerSize + byte.length ≤ found.footer.currentSize := by
          omega
        have run := Prog.run_trace World.idealStep (World.idealStep_allowed .none)
          ((VhdReader.base (fixedCore dev wr' found)).readAt ((w'.disk dev).size - footerSize) byte) w'
        have clear := (safe.read _ byte within _ _ _ run).2
          ⟨.on dev (.readAt ((w'.disk dev).size - footerSize) byte.length),
            ((w'.image dev).step (.readAt ((w'.disk dev).size - footerSize) byte.length)).1⟩
          (by
            rw [readAt_fixed kind small (by omega) within]
            exact List.mem_cons_self) _ _ rfl
        have clear : (w'.disk dev).size - footerSize + byte.length ≤ (w'.disk dev).size - footerSize :=
          clear
        omega
      · intro behind
        have asked {d o n : Nat} (asks : (VhdReader.base (fixedCore dev wr' found)).Asks w'.disk d o n) :
            d = dev ∧ o + n ≤ found.footer.currentSize := asks
        refine ⟨fun off buf within t out w'' run => ?_, fun writes off buf within t out w'' run => ?_⟩
        · obtain ⟨asks, ended⟩ := (Chain.fixed is long kind).read_runs within run
          refine ⟨?_, fun e member o n same => ?_⟩
          · rcases ended out rfl with ok | ⟨e, -, -, faulty | ⟨d, o, n, asks, outside⟩⟩
            · exact ok
            · exact absurd faulty Faults.none_not_faulty
            · obtain ⟨rfl, inside⟩ := asked asks
              omega
          · have inside := (asked (asks e member dev o n same)).2
            change o + n ≤ (w'.disk dev).size - footerSize
            omega
        · obtain rfl : wr' = true := writes
          obtain ⟨size, tail⟩ := write_fixed kind behind within run
          refine ⟨tail, ?_⟩
          obtain ⟨t, w₂, reopened, -⟩ := World.open_fixed w'' dev false
            (is.tail_congr kind tail) (by rw [size]; exact long) kind
          exact ⟨t, _, w₂, reopened, rfl⟩

theorem fixed_disk (guest : Bytes) (small : guest.length < 2 ^ 20) :
    ∃ footer d found, buildFixedFooter smallEnv 512 = .ok footer ∧
      (∃ fits, d = ByteStore.ofBytes (guest ++ footer) fits) ∧ FooterOf d found ∧
      d.size = guest.length + 512 ∧ found.footer.diskType = .fixed ∧
      found.footer.currentSize = 512 := by
  obtain ⟨footer, built⟩ :=
    Outcome.ok_of_isSome (x := buildFixedFooter smallEnv 512) (by decide +kernel)
  obtain ⟨length, parses⟩ := parse_buildFooter (t := .fixed) built (by decide) (by decide)
    (by decide) (by decide)
  have whole : (guest ++ footer).length = guest.length + 512 := by rw [List.length_append, length]
  have tail : tailSector (.ofBytes (guest ++ footer) (by omega)) = footer := by
    refine (ByteStore.read_eq_iff length).mpr fun i lt => ?_
    show (guest ++ footer).getD ((guest ++ footer).length - 512 + i) 0 = footer[i]
    rw [whole, Nat.add_sub_cancel, List.getD_eq_getElem _ _ (by omega),
      List.getElem_append_right (by omega)]
    congr 1
    omega
  refine ⟨footer, _, _, built, ⟨by omega, rfl⟩, .tail (by rw [tail]; exact parses), whole, rfl, rfl⟩

/-- The footer of a fixed disk with nothing before it opens as that disk, which
    lies on its own footer. -/
theorem footer_alone_is_unsafe : ∃ footer fits t r w',
    buildFixedFooter smallEnv 512 = .ok footer ∧
    Prog.Runs (World.handler .none) (openAs 0 true none)
      ⟨fun _ => none, fun _ => ⟨.ofBytes footer fits, none, none⟩, 1⟩ t (.ret (.ok r)) w' ∧
    r.diskType = .fixed ∧ ¬ GuestAreaSafe r w' := by
  obtain ⟨footer, d, found, built, ⟨fits, same⟩, is, size, fixed, current⟩ := fixed_disk [] (by decide)
  have long : footerSize ≤ d.size := Nat.le_of_eq size.symm
  subst same
  obtain ⟨t, w', opened, disk⟩ := World.open_fixed
    ⟨fun _ => none, fun _ => ⟨.ofBytes footer fits, none, none⟩, 1⟩ 0 true is long fixed
  refine ⟨footer, fits, t, _, w', built, opened, fixed, fun safe => ?_⟩
  -- the read of the last sector is a read of the guest
  obtain ⟨buf, one⟩ : ∃ buf : Bytes, buf.length = 512 := ⟨List.replicate 512 0, List.length_replicate⟩
  have within : 0 + buf.length ≤ found.footer.currentSize := by omega
  have run := Prog.run_trace World.idealStep (World.idealStep_allowed .none)
    ((VhdReader.base (fixedCore 0 true found)).readAt 0 buf) w'
  have clear := (safe.read 0 buf within _ _ _ run).2
    ⟨.on 0 (.readAt 0 buf.length), ((w'.image 0).step (.readAt 0 buf.length)).1⟩
    (by
      rw [readAt_fixed fixed (by omega) (by omega) within]
      exact List.mem_cons_self) _ _ rfl
  have clear : 0 + buf.length ≤ (w'.disk 0).size - footerSize := clear
  have size : (w'.disk 0).size = 512 := by rw [disk]; exact size
  rw [size, one] at clear
  exact absurd clear (by decide)

/-- With its one sector of guest before it, it is safe. -/
theorem whole_fixed_image_is_safe : ∃ r w', GuestAreaSafe r w' ∧ r.virtualSize = 512 := by
  obtain ⟨footer, d, found, -, -, is, size, fixed, current⟩ :=
    fixed_disk (List.replicate 512 0) (by rw [List.length_replicate]; decide)
  rw [List.length_replicate] at size
  have long : footerSize ≤ d.size := by rw [size]; decide
  obtain ⟨t, w', opened, disk⟩ := World.open_fixed
    ⟨fun _ => none, fun _ => ⟨d, none, none⟩, 1⟩ 0 true is long fixed
  refine ⟨_, w', (fixed_guest_area_is_safe (fun _ => Nat.one_pos) opened fixed).mpr ?_, current⟩
  change found.footer.currentSize + 512 ≤ (w'.disk 0).size
  rw [disk, current,
    show (World.disk ⟨fun _ => none, fun _ => ⟨d, none, none⟩, 1⟩ 0).size = 1024 from size]

end Results

end ImgVhd
