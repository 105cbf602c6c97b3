import ImgVhd.Creating.Fixed
import ImgVhd.Reading.Fixed
import ImgVhd.Session.Guest
import ImgVhd.Session.Run

/-! # A fixed image over its life

The guest area of a fixed image is the front of its file, and its footer lies behind
it, so nothing a session does to one touches the other.
-/

namespace ImgVhd

open Foundation

theorem FooterOf.tail_congr {found : FoundFooter} {d d' : ByteStore} (is : FooterOf d found)
    (fixed : found.footer.diskType = .fixed) (same : tailSector d' = tailSector d) :
    FooterOf d' found := by
  cases is with
  | tail parses =>
      have cookie : tailHasCookie d' = tailHasCookie d := by
        unfold tailHasCookie
        rw [same]
      rw [← same] at parses ⊢
      rw [← cookie]
      exact .tail parses
  | mirror damaged long parses sparse => exact absurd fixed sparse

/-- A fixed image whose file is the guest area and the footer. -/
structure Plain (found : FoundFooter) (d : ByteStore) : Prop where
  is : FooterOf d found
  kind : found.footer.diskType = .fixed
  size : d.size = found.footer.currentSize + 512

section Plain

variable {f : Faults} {found : FoundFooter} {d : ByteStore} {s s' : Image} {off stop : Nat} {buf : Bytes}
  {G : Image → Op Unit → Prop}

theorem Plain.write (plain : Plain found d) (within : off + buf.length ≤ found.footer.currentSize) :
    Plain found (d.write off buf) := by
  have size := plain.size
  refine ⟨plain.is.tail_congr plain.kind ?_, plain.kind, size⟩
  unfold tailSector
  refine ByteStore.read_write_disjoint (Or.inr ?_)
  rw [ByteStore.size_write, size, show found.footer.currentSize + 512 - footerSize =
    found.footer.currentSize from Nat.add_sub_cancel _ _]
  exact within

theorem Plain.small (plain : Plain found d) : found.footer.currentSize + 512 < 2 ^ 64 := by
  rw [← plain.size]
  exact d.size_lt

theorem createFixed_plain {env : BuildEnv} {path : Path} {size : Nat} {t} {r : VhdReader Unit}
    (word : size < 2 ^ 64)
    (run : Prog.Runs f.handler (createFixed env path size) s t (.ret (.ok r)) s') :
    ∃ found, r = .base (fixedCore () true found) ∧ Plain found s'.disk := by
  obtain ⟨v, bytes, created⟩ := createFixed_created word run
  have whole := f.filing.createFixed_wp path created.toMadeFixed (x := s) (Q := fun r s' =>
    ∃ found, r = .base (fixedCore () true found) ∧ Plain found s'.disk)
    fun d found created is kind current => ⟨found, rfl, is, kind, by rw [current]; exact created.size⟩
  have left := Prog.wp_finished whole run
  exact left

theorem openAs_plain {wr : Bool} {how : Option Path} (plain : Plain found s.disk)
    (asks : ∀ op, G s op) :
    Code.wp f.handler G (openAs () wr how)
      (fun r x => r = .base (fixedCore () wr found) ∧ x = ⟨s.disk, none, none⟩)
      (fun _ x => x = s ∧ f.Faulty) s := by
  refine openAs_wp asks fun path => openInner_fixed_wp (Faults.sees fun _ _ => asks _) plain.is
    (by rw [plain.size]; exact Nat.le_add_left _ _) plain.kind ⟨asks _, fun r x shared => ?_⟩
    fun faulty _ _ => ⟨rfl, faulty⟩
  exact ⟨rfl, Faults.handler_share shared⟩

theorem openAs_plain_ideal (plain : Plain found s.disk) (wr : Bool) (how : Option Path) :
    (openAs () wr how).run idealStep s = (.ok (.base (fixedCore () wr found)), ⟨s.disk, none, none⟩) := by
  have whole : Code.wp Faults.none.handler anything (openAs () wr how)
      (fun r x => r = .base (fixedCore () wr found) ∧ x = ⟨s.disk, none, none⟩)
      (fun _ x => x = s ∧ Faults.none.Faulty) s := openAs_plain plain fun _ => trivial
  rcases Code.wp_run idealStep whole (idealStep_allowed .none) with
    ⟨r, ended, rfl, same⟩ | ⟨e, -, -, faulty⟩
  · exact Prod.ext ended same
  · exact absurd faulty Faults.none_not_faulty

theorem writeAt_plain (plain : Plain found s.disk) (within : off + buf.length ≤ found.footer.currentSize)
    (asks : ∀ op, G s op) :
    Code.wp f.handler G ((VhdReader.base (fixedCore () true found)).writeAt off buf)
      (fun _ x => x.disk = s.disk.write off buf)
      (fun _ x => f.Faulty ∧ (x.disk = s.disk ∨ x.disk = s.disk.write off buf)) s := by
  have small := plain.small
  by_cases positive : 0 < buf.length
  · rw [writeAt_fixed plain.kind (by omega) positive within]
    refine (Code.wp_bind _ _).mpr ((Code.wp_perform _).mpr ⟨asks _, fun r x stepped => ?_⟩)
    have inside : off + buf.length ≤ s.disk.size := by
      rw [plain.size]
      omega
    rcases Faults.handler_on stepped with ideal | ⟨⟨e, rfl⟩, fault⟩
    · rw [Image.step_writeAt inside] at ideal
      cases ideal
      rfl
    · refine ⟨Faults.faulty_of fault, ?_⟩
      rcases fault with ⟨-, same⟩ | ⟨-, landed⟩
      · exact Or.inl (congrArg Image.disk same)
      · rw [landed, Image.step_writeAt inside]
        exact Or.inr rfl
  · obtain rfl := List.length_eq_zero_iff.mp (Nat.eq_zero_of_not_pos positive)
    rw [writeAt_fixed_nil plain.kind]
    exact ByteStore.write_nil.symm

theorem readAt_plain {wr : Bool} (plain : Plain found s.disk)
    (within : off + buf.length ≤ found.footer.currentSize) (asks : ∀ op, G s op) :
    Code.wp f.handler G ((VhdReader.base (fixedCore () wr found)).readAt off buf)
      (fun out x => x = s ∧ out = s.disk.read off buf.length) (fun _ x => x = s ∧ f.Faulty) s := by
  have small := plain.small
  by_cases positive : 0 < buf.length
  · rw [readAt_fixed plain.kind (by omega) positive within]
    refine (Code.wp_bind _ _).mpr ((Code.wp_perform _).mpr ⟨asks _, fun r x stepped => ?_⟩)
    have inside : off + buf.length ≤ s.disk.size := by
      rw [plain.size]
      omega
    obtain ⟨rfl, rfl | ⟨faulty, e, rfl⟩⟩ := Faults.handler_quiet (.readAt off buf.length) rfl stepped
    · rw [Image.step_readAt inside]
      exact ⟨rfl, rfl⟩
    · exact ⟨rfl, faulty⟩
  · obtain rfl := List.length_eq_zero_iff.mp (Nat.eq_zero_of_not_pos positive)
    exact ⟨rfl, (List.length_eq_zero_iff.mp ByteStore.length_read).symm⟩

/-- No session changes the type or the length of a fixed image. -/
theorem Session.plain {r₀ : VhdReader Unit} {log : List Attempt} {last : Option (VhdReader Unit)}
    (created : Plain found s.disk) (reader : r₀ = .base (fixedCore () true found))
    (session : Session f (r₀, s) log last s') :
    Plain found s'.disk ∧ ∀ r, last = some r → r = .base (fixedCore () true found) := by
  refine session.keeps (K := fun _ => True) (I := fun _ s => Plain found s.disk) trivial
    (fun _ _ _ => trivial) created reader ?_ ?_
  · rintro log _ s call t p s' - plain rfl inside run
    cases call with
    | write offset buf =>
        refine Code.wp_cut (I := fun x => Plain found x.disk)
          (writeAt_plain (G := fun x _ => x = s) plain inside fun _ => rfl) run ?_ ?_ ?_
        · rintro x op rfl
          exact plain
        · intro _ x written
          rw [written]
          exact plain.write inside
        · rintro e x ⟨-, same | landed⟩
          · rw [same]
            exact plain
          · rw [landed]
            exact plain.write inside
    | read offset buf =>
        have whole : Code.wp f.handler (fun x _ => x = s)
            ((Call.read offset buf).code (.base (fixedCore () true found))) (fun _ x => x = s)
            (fun _ x => x = s) s :=
          (Code.wp_bind _ _).mpr (Code.wp_mono (readAt_plain plain inside fun _ => rfl)
            (fun _ _ g => g) (fun _ _ post => post.1) fun _ _ e => e.1)
        obtain rfl : s' = s := Code.wp_cut (I := fun x => x = s) whole run (fun _ _ same => same)
          (fun _ _ same => same) fun _ _ same => same
        exact plain
  · intro log s how t p s' plain run
    rw [reopen_eq_openAs] at run
    cases p with
    | call op next =>
        obtain rfl : s' = s :=
          (Prog.wp_runs (openAs_plain (G := fun x _ => x = s) plain fun _ => rfl) run).1
        exact ⟨plain, nofun⟩
    | ret out =>
        rcases Code.wp_finished (openAs_plain (G := fun x _ => x = s) plain fun _ => rfl) run with
          ⟨r, rfl, rfl, rfl⟩ | ⟨e, rfl, rfl, -⟩
        · refine ⟨plain, ?_⟩
          rintro r ⟨⟩
          rfl
        · exact ⟨plain, nofun⟩

theorem Plain.shows {held : Nat → UInt8} (plain : Plain found d)
    (values : ∀ b < found.footer.currentSize, d.byte b = held b) :
    Shows d found.footer.currentSize held := by
  intro wr how
  have opening : Code.wp Faults.none.handler (fun _ _ => True) (openAs () wr how)
      (fun r x => r = .base (fixedCore () wr found) ∧ x = ⟨d, none, none⟩)
      (fun _ x => x = ⟨d, none, none⟩ ∧ Faults.none.Faulty) ⟨d, none, none⟩ :=
    openAs_plain (s := ⟨d, none, none⟩) plain fun _ => trivial
  rcases Code.wp_run idealStep opening (idealStep_allowed .none) with
    ⟨r, ended, rfl, same⟩ | ⟨e, -, -, faulty⟩
  · refine ⟨_, _, Prod.ext ended same, rfl, fun o b inside => ?_⟩
    have reading : Code.wp Faults.none.handler (fun _ _ => True)
        ((VhdReader.base (fixedCore () wr found)).readAt o b)
        (fun out x => x = ⟨d, none, none⟩ ∧ out = d.read o b.length)
        (fun _ x => x = ⟨d, none, none⟩ ∧ Faults.none.Faulty) ⟨d, none, none⟩ :=
      readAt_plain (s := ⟨d, none, none⟩) plain inside fun _ => trivial
    rcases Code.wp_run idealStep reading (idealStep_allowed .none) with
      ⟨out, ended, same, rfl⟩ | ⟨e, -, -, faulty⟩
    · refine Prod.ext (ended.trans (congrArg Outcome.ok ?_)) same
      refine (ByteStore.read_eq_iff (by simp)).mpr fun i low => ?_
      simp only [List.getElem_map, List.getElem_range]
      exact values (o + i) (by omega)
    · exact absurd faulty Faults.none_not_faulty
  · exact absurd faulty Faults.none_not_faulty

/-- A fixed image takes whatever is written on it. -/
theorem writesOn_fixed (fixed : found.footer.diskType = .fixed)
    (within : stop ≤ found.footer.currentSize) :
    WritesOn (.base (fixedCore () true found)) stop fun _ held x =>
      Plain found x.disk ∧ ∀ b < found.footer.currentSize, x.disk.byte b = held b where
  writable := fixedCore_writable fixed
  write c held x buf := by
    rintro ⟨plain, values⟩ inside
    have size := plain.size
    refine Code.wp_mono (writeAt_plain (G := fun _ _ => True) plain (by omega) fun _ => trivial)
      (fun _ _ g => g) ?_ fun e _ failed => Faults.none_not_faulty failed.1
    rintro - x' written
    rw [written]
    refine ⟨plain.write (by omega), fun b low => ?_⟩
    unfold overlay payload
    by_cases reached : c ≤ b ∧ b < c + buf.length
    · rw [ByteStore.byte_write_inside (by omega) reached.1 reached.2, if_pos reached.1]
      have inBuf : b - c < buf.length := by omega
      rw [List.getD_eq_getElem _ _ inBuf, List.getElem?_eq_getElem inBuf]
      rfl
    · rw [ByteStore.byte_write_outside (by omega), values b low]
      split
      · rw [List.getElem?_eq_none (by omega)]
        rfl
      · rfl
  shows c held x := by
    rintro ⟨plain, values⟩
    exact plain.shows values

end Plain

end ImgVhd
