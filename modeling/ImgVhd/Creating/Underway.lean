import ImgVhd.Chain.Calm
import ImgVhd.Creating.Fixed
import ImgVhd.Session.Outlasts

/-! # A create underway

A create writes whole sectors of the file it will leave, once the file has its
length. So what a power loss leaves of it, whatever failed before, has each sector
either blank or as it was to be.
-/

namespace ImgVhd

open Foundation

/-- What a create of the file `d` may do: give it its length, and then write whole
    sectors of it. -/
def Lays (d : ByteStore) (s : Image) : Op Unit → Prop
  | .on _ (.fileSetLen len) => len = d.size
  | .on _ (.fileWriteAll off bytes) => s.disk.size = d.size ∧ off % 512 = 0 ∧
      bytes.length % 512 = 0 ∧ off + bytes.length ≤ d.size ∧ bytes = d.read off bytes.length
  | .on _ .fileSyncData => True
  | .on _ op => op.Quiet ∨ ∃ bat off, op = .share bat off
  | _ => True

section Lays

variable {f : Faults} {s s' : Image} {d : ByteStore}

/-- One step of a create keeps every sector blank or as it is to be. -/
theorem Lays.step {op : Op Unit} {r : op.Res} (lays : Lays d s op) (partly : ByteStore.Partly 512 d s.disk)
    (stepped : f.handler s op r s') : ByteStore.Partly 512 d s'.disk := by
  cases op with
  | pathExists path => rwa [stepped.2]
  | openFile path writable => rwa [stepped.2]
  | createFile path =>
      rw [stepped.2]
      exact .empty
  | on dev op =>
      have effect : s' = s ∨ s' = (s.step op).2 := by
        rcases Faults.handler_on stepped with ideal | ⟨-, ⟨-, same⟩ | ⟨-, landed⟩⟩
        · exact Or.inr (congrArg Prod.snd ideal)
        · exact Or.inl same
        · exact Or.inr landed
      rcases effect with rfl | rfl
      · exact partly
      have shared {bat off} (is : op = .share bat off) :
          ByteStore.Partly 512 d (s.step op).2.disk := by
        subst is
        exact partly
      have quiet (quiet : op.Quiet ∨ ∃ bat off, op = .share bat off) :
          ByteStore.Partly 512 d (s.step op).2.disk := by
        rcases quiet with quiet | ⟨bat, off, is⟩
        · rwa [quiet_step quiet]
        · exact shared is
      cases op with
      | fileSetLen len =>
          subst lays
          rw [show s.step (.fileSetLen d.size) =
            (.ok (), { s with disk := s.disk.resize d.size d.size_lt }) from dif_pos d.size_lt]
          exact partly.sized
      | fileWriteAll off bytes =>
          obtain ⟨sized, start, whole, inside, content⟩ := lays
          have small := d.size_lt
          rw [show s.step (.fileWriteAll off bytes) =
            (.ok (), { s with disk := s.disk.write off bytes }) from
              (dif_pos (by omega)).trans (if_pos (by omega))]
          have written := partly.write start whole (by rw [sized]; exact inside)
          rw [← content] at written
          exact written
      | fileSyncData => exact partly
      | _ => exact quiet lays

variable {α : Type} {c : Io Unit α} {cell : Nat}

theorem Lays.survives {x x' : Image × List ByteStore} {e : ByteStore} {t} {p : Io Unit α}
    (lays : Code.wlp f.handler (Lays d) c (fun _ _ => True) x.1) (run : Prog.Runs f.cached c x t p x')
    (here : ByteStore.Partly 512 d x.1.disk) (before : ∀ e ∈ x.2, ByteStore.Partly 512 d e)
    (survives : e.Survives (sectorSize * cell) x'.2) : ByteStore.Partly 512 d e := by
  unfold Code.wlp at lays
  have kept := Prog.wp_invariant (H := f.cached)
    (I := fun x => ByteStore.Partly 512 d x.1.disk ∧ ∀ e ∈ x.2, ByteStore.Partly 512 d e)
    (Prog.wp_part (H := f.cached) (x := x) Prod.fst lays fun x op r x' stepped => stepped.1)
    (fun _ _ _ _ _ _ stepped => stepped) ?_ ⟨here, before⟩
  · have all : ∀ e ∈ x'.2, ByteStore.Partly 512 d e :=
      (Prog.wp_cut (I := fun x => ByteStore.Partly 512 d x.1.disk ∧
        ∀ e ∈ x.2, ByteStore.Partly 512 d e) kept run (fun _ _ guard => guard.2)
        fun _ _ post => post.2).2
    exact survives.finer.partly all
  · rintro x op r x' guard ⟨partly, all⟩ stepped
    have next := Lays.step guard partly stepped.1
    refine ⟨next, fun e member => ?_⟩
    rcases Handler.volatile_subset stepped e member with rfl | earlier
    · exact next
    · exact all e earlier

/-! ## The steps of a create -/

variable {Q : Unit → Image → Prop}

theorem fileSetLen_lays (done : ∀ s', s'.disk.size = d.size → Q () s') :
    Code.wlp f.handler (Lays d) (fileSetLen () d.size) Q s := by
  refine Code.wlp_bind (Code.wlp_perform rfl fun r s' stepped => Code.wlp_lift ?_)
  rintro ⟨⟩ is
  rcases Faults.handler_on stepped with ideal | ⟨⟨e, rfl⟩, -⟩
  · rw [show s.step (.fileSetLen d.size) =
      (.ok (), { s with disk := s.disk.resize d.size d.size_lt }) from dif_pos d.size_lt] at ideal
    cases ideal
    exact done _ rfl
  · cases is

theorem fileWrite_lays {off : Nat} {bytes : Bytes} (sized : s.disk.size = d.size)
    (start : off % 512 = 0) (whole : bytes.length % 512 = 0) (inside : off + bytes.length ≤ d.size)
    (content : bytes = d.read off bytes.length) (done : ∀ s', s'.disk.size = d.size → Q () s') :
    Code.wlp f.handler (Lays d) (fileWrite () off bytes) Q s := by
  refine Code.wlp_bind (Code.wlp_perform ⟨sized, start, whole, inside, content⟩ fun r s' stepped =>
    Code.wlp_lift ?_)
  rintro ⟨⟩ is
  rcases Faults.handler_on stepped with ideal | ⟨⟨e, rfl⟩, -⟩
  · have small := d.size_lt
    rw [show s.step (.fileWriteAll off bytes) =
      (.ok (), { s with disk := s.disk.write off bytes }) from
        (dif_pos (by omega)).trans (if_pos (by omega))] at ideal
    cases ideal
    exact done _ sized
  · cases is

theorem writeEmptyBat_lays {off len : Nat} (sized : s.disk.size = d.size) (start : off % 512 = 0)
    (whole : len % 512 = 0) (inside : off + len ≤ d.size)
    (content : ∀ x, off ≤ x → x < off + len → d.byte x = 0xFF)
    (done : ∀ s', s'.disk.size = d.size → Q () s') :
    Code.wlp f.handler (Lays d) (writeEmptyBat () off len) Q s := by
  refine Code.wlp_bind (Code.wlp_whileLoop
    (fun left s' => left ≤ len ∧ left % 512 = 0 ∧ s'.disk.size = d.size) ?turn ?stop _ _ _
    ⟨Nat.le_refl _, whole, sized⟩)
  case turn =>
    rintro left s' ⟨le, aligned, sized⟩ more
    have more : 0 < left := of_decide_eq_true more
    refine Code.wlp_bind (fileWrite_lays sized (by omega) ?_ ?_ ?_ fun s'' sized =>
      Code.wlp_pure ⟨by omega, by omega, sized⟩)
    · rw [List.length_replicate]
      omega
    · rw [List.length_replicate]
      omega
    · rw [List.length_replicate]
      refine (ByteStore.read_eq_iff List.length_replicate).mpr ?_ |>.symm
      intro i low
      rw [List.getElem_replicate]
      exact content _ (by omega) (by omega)
  case stop =>
    rintro left s' ⟨-, -, sized⟩ _
    exact Code.wlp_pure (done s' sized)

theorem fileSyncData_lays (done : ∀ s', s'.disk.size = s.disk.size → Q () s') :
    Code.wlp f.handler (Lays d) (fileSyncData ()) Q s := by
  refine Code.wlp_bind (Code.wlp_perform trivial fun r s' stepped => Code.wlp_lift ?_)
  rintro ⟨⟩ -
  exact done s' (congrArg (fun x => x.disk.size) (Faults.handler_quiet .fileSyncData rfl stepped).1)

theorem openRw_lays {path : Path} {Q : VhdReader Unit → Image → Prop} (done : ∀ r s', Q r s') :
    Code.wlp f.handler (Lays d) (VhdReader.openRw path) Q s := by
  refine Code.wlp_bind (Code.wlp_perform trivial fun r s' _ => Code.wlp_bind (Code.wlp_lift fun dev _ => ?_))
  refine Code.wlp_mono (Code.wlp_asks (I := fun _ => True) openInner_calm ?_ (fun _ _ _ _ _ _ _ => trivial)
    trivial) fun r s' _ => done r s'
  rintro s op calm -
  cases op with
  | on dev op =>
      rcases calm with quiet | ⟨bat, off, rfl⟩
      · cases op <;> first | exact Or.inl quiet | exact quiet.elim
      · exact Or.inr ⟨bat, off, rfl⟩
  | pathExists path => trivial
  | openFile path writable => trivial
  | createFile path => trivial

theorem createTruncate_lays {path : Path} (done : ∀ s', Q () s') :
    Code.wlp f.handler (Lays d) (createTruncate path) Q s := by
  refine Code.wlp_bind (Code.wlp_perform trivial fun r s' _ => Code.wlp_lift ?_)
  rintro ⟨⟩ -
  exact done s'

/-! ## The two creates -/

variable {env : BuildEnv} {path : Path} {size bs v : Nat} {plan : DynamicPlan} {bytes : Bytes}

theorem Planned.lengths (planned : Planned env size bs plan) :
    plan.footer.length = 512 ∧ plan.header.length = 1024 ∧ plan.header.drop 40 = List.replicate 984 0 := by
  have few : plan.entries ≤ 2 ^ 24 := planned.few
  have top := planned.block.le_top
  have covers : plan.virtualSize ≤ plan.entries * bs := by
    rw [planned.entries]
    exact le_divCeil_mul planned.block.pos
  have product : plan.entries * bs ≤ 2 ^ 24 * 2 ^ 31 := Nat.mul_le_mul few top
  obtain ⟨length, -, -, zeros⟩ := @slice_buildDynamicHeader 1536 plan.entries bs
  rw [← planned.header] at length zeros
  exact ⟨(parse_buildFooter (t := .dynamic) planned.footer (by omega) (by decide) rfl (by decide)).1,
    length, zeros⟩

set_option maxRecDepth 1024 in
theorem createDynamic_lays (planned : Planned env size bs plan) (accepted : planDynamic env size bs = .ok plan)
    (laid : Laid plan d) :
    Code.wlp f.handler (Lays d) (createDynamic env path size bs) (fun _ _ => True) s := by
  obtain ⟨fits, aligned, small⟩ := planned.table_le
  obtain ⟨footer, header, -⟩ := planned.lengths
  have sized := laid.size
  have place := planned.footerAt
  have table := planned.tableOffset
  have mirror := laid.mirror
  have last := laid.last
  unfold createDynamic
  rw [accepted, Code.lift_ok_bind]
  refine Code.wlp_bind (createTruncate_lays fun s => ?_)
  rw [add64_of_lt (by unfold footerSize; omega), Code.lift_ok_bind,
    show plan.footerAt + footerSize = d.size from sized.symm]
  refine Code.wlp_bind (fileSetLen_lays fun s here => ?_)
  refine Code.wlp_bind (fileWrite_lays here rfl (by omega) (by omega) ?_ fun s here => ?_)
  · rw [footer]
    exact mirror.symm
  refine Code.wlp_bind (fileWrite_lays here rfl (by omega) (by unfold sectorSize; omega) ?_
    fun s here => ?_)
  · rw [header]
    exact laid.header.symm
  refine Code.wlp_bind (fileWrite_lays here aligned (by omega) (by omega) ?_ fun s here => ?_)
  · rw [footer]
    exact last.symm
  refine Code.wlp_bind (writeEmptyBat_lays here (by omega) (by omega) (by omega)
    (fun x low high => laid.table x (by omega) (by omega)) fun s here => ?_)
  exact Code.wlp_bind (fileSyncData_lays fun s _ => openRw_lays fun _ _ => trivial)

theorem createFixed_lays (made : MadeFixed env size v bytes) (sized : d.size = v + 512)
    (last : d.read v 512 = bytes) :
    Code.wlp f.handler (Lays d) (createFixed env path size) (fun _ _ => True) s := by
  have room := made.room
  obtain ⟨length, -⟩ := parse_buildFooter (t := .fixed) made.built (by omega) (by decide) rfl (by decide)
  have aligned := sizeWithExactGeometry_whole made.aligned made.rounded
  unfold createFixed
  rw [if_neg (show ¬ (size = 0 ∨ size % sectorSize ≠ 0) from
    not_or.mpr ⟨made.positive, not_not.mpr made.aligned⟩)]
  refine Code.wlp_bind (createTruncate_lays fun s => ?_)
  rw [made.rounded, Code.lift_ok_bind, checkedAdd_of_lt (by unfold footerSize; omega),
    Code.lift_ok_bind, show v + footerSize = d.size from sized.symm]
  refine Code.wlp_bind (fileSetLen_lays fun s here => ?_)
  rw [made.built, Code.lift_ok_bind]
  refine Code.wlp_bind (fileWrite_lays here aligned (by omega) (by omega) ?_ fun s here => ?_)
  · rw [length]
    exact last.symm
  exact Code.wlp_bind (fileSyncData_lays fun s _ => openRw_lays fun _ _ => trivial)

end Lays

end ImgVhd
