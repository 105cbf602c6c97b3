import ImgVhd.Creating.Created
import ImgVhd.Writing.Sequential

/-! # Sessions

A session is what one user does to one image: writes, reads, and opening it again,
in any order, each of them finished or cut off between two device operations.
The log remembers the writes, newest first.
-/

namespace ImgVhd

open Foundation

/-- One call on an open reader. -/
inductive Call where
  | write (offset : Nat) (buf : Bytes)
  | read (offset : Nat) (buf : Bytes)

namespace Call

variable {δ : Type}

def code (r : VhdReader δ) : Call → Io δ Unit
  | .write offset buf => r.writeAt offset buf
  | .read offset buf => do
      let _ ← r.readAt offset buf
      return ()

/-- The range of the call is inside the virtual disk. -/
def InRange (size : Nat) : Call → Prop
  | .write offset buf => offset + buf.length ≤ size
  | .read offset buf => offset + buf.length ≤ size

end Call

/-- A write, and whether it returned `Ok`. -/
structure Attempt where
  offset : Nat
  buf : Bytes
  done : Bool

/-- What a call leaves in the log. -/
def Call.attempts (done : Bool) : Call → List Attempt
  | .write offset buf => [⟨offset, buf, done⟩]
  | .read _ _ => []

/-- Opening the image again: as a device, or by its path. -/
def reopen {δ : Type} (dev : δ) : Option Path → Io δ (VhdReader δ)
  | none => VhdReader.openRwOnDevice dev
  | some path => VhdReader.openRw path

/-- Whether what a call comes to is `Ok(())`. -/
def succeeded (p : Io Unit Unit) : Bool :=
  match p.value? with
  | some (.ok ()) => true
  | _ => false

theorem succeeded_iff {p : Io Unit Unit} : succeeded p = true ↔ p.value? = some (.ok ()) := by
  unfold succeeded
  constructor
  · intro yes
    split at yes
    · assumption
    · cases yes
  · intro returned
    rw [returned]

/-- The reader an open comes to. -/
def opened (p : Io Unit (VhdReader Unit)) : Option (VhdReader Unit) :=
  match p.value? with
  | some (.ok r) => some r
  | _ => none

/-- Sessions that start with the reader and the image of `start`. There is a
    reader afterwards if the last call returned, or the last open succeeded. -/
inductive Session (f : Faults) (start : VhdReader Unit × Image) :
    List Attempt → Option (VhdReader Unit) → Image → Prop where
  | start : Session f start [] (some start.1) start.2
  | call {log r s} {call : Call} {t p s'} (before : Session f start log (some r) s)
      (inside : call.InRange r.virtualSize) (run : Prog.Runs f.handler (call.code r) s t p s') :
      Session f start (call.attempts (succeeded p) ++ log) (p.value?.map fun _ => r) s'
  | reopen {log last s} {how : Option Path} {t p s'} (before : Session f start log last s)
      (run : Prog.Runs f.handler (reopen () how) s t p s') :
      Session f start log (opened p) s'

/-- What every call and every reopening keeps holds after every session, and its
    reader is one that the calls were made on. The logs may be of a kind that the
    logs before them are of as well. -/
theorem Session.keeps {f : Faults} {start : VhdReader Unit × Image} {K : List Attempt → Prop}
    {I : List Attempt → Image → Prop} {Reader : VhdReader Unit → Prop} {log : List Attempt}
    {last : Option (VhdReader Unit)} {s : Image} (session : Session f start log last s) (kind : K log)
    (earlier : ∀ late log, K (late ++ log) → K log) (fresh : I [] start.2) (reader : Reader start.1)
    (calls : ∀ {log r s} {call : Call} {t p s'}, K (call.attempts (succeeded p) ++ log) → I log s →
      Reader r → call.InRange r.virtualSize → Prog.Runs f.handler (call.code r) s t p s' →
      I (call.attempts (succeeded p) ++ log) s')
    (reopens : ∀ {log s how t p s'}, I log s → Prog.Runs f.handler (ImgVhd.reopen () how) s t p s' →
      I log s' ∧ ∀ r, opened p = some r → Reader r) :
    I log s ∧ ∀ r, last = some r → Reader r := by
  induction session with
  | start =>
      refine ⟨fresh, ?_⟩
      rintro r ⟨⟩
      exact reader
  | call before inside run ih =>
      obtain ⟨kept, readers⟩ := ih (earlier _ _ kind)
      refine ⟨calls kind kept (readers _ rfl) inside run, fun r same => ?_⟩
      obtain ⟨_, -, rfl⟩ := Option.map_eq_some_iff.mp same
      exact readers _ rfl
  | reopen before run ih => exact reopens (ih kind).1 run

theorem Session.written {f : Faults} {r : VhdReader Unit} {s s' : Image} {offset : Nat} {buf : Bytes}
    {t : List (Event (Op Unit) Op.Res)} {p : Io Unit Unit} (inside : offset + buf.length ≤ r.virtualSize)
    (run : Prog.Runs f.handler (r.writeAt offset buf) s t p s') :
    Session f (r, s) [⟨offset, buf, succeeded p⟩] (p.value?.map fun _ => r) s' := by
  have fresh : Session f (r, s) [] (some r) s := .start
  exact fresh.call (show (Call.write offset buf).InRange r.virtualSize from inside) run

/-! ## The log as a disk -/

/-- A flat disk, all zeros, overlaid with the writes of a log in order. -/
def flat : List Attempt → Nat → UInt8
  | [], _ => 0
  | a :: log, b => (payload a.offset a.buf b).getD (flat log b)

/-- What a byte may read as: the value of the last write of it that returned, or
    of a later one that did not. -/
def Allowed : List Attempt → Nat → UInt8 → Prop
  | [], _, v => v = 0
  | a :: log, b, v =>
      match payload a.offset a.buf b with
      | none => Allowed log b v
      | some u => v = u ∨ (a.done = false ∧ Allowed log b v)

theorem Allowed.flat {log : List Attempt} {b : Nat} {v : UInt8} (done : ∀ a ∈ log, a.done = true)
    (h : Allowed log b v) : v = flat log b := by
  induction log with
  | nil => exact h
  | cons a log ih =>
      have last := done a List.mem_cons_self
      have rest := ih fun a' member => done a' (List.mem_cons_of_mem _ member)
      unfold Allowed at h
      unfold ImgVhd.flat
      cases carried : payload a.offset a.buf b with
      | none =>
          rw [carried] at h
          exact rest h
      | some u =>
          rw [carried] at h
          rcases h with rfl | ⟨never, _⟩
          · rfl
          · rw [last] at never
            cases never

theorem Allowed.attempted {log : List Attempt} {offset b : Nat} {buf : Bytes} {v v' : UInt8}
    (h : Allowed log b v) (changed : v' = v ∨ payload offset buf b = some v') :
    Allowed (⟨offset, buf, false⟩ :: log) b v' := by
  unfold Allowed
  rcases changed with rfl | carried
  · cases payload offset buf b with
    | none => exact h
    | some u => exact Or.inr ⟨rfl, h⟩
  · simp only [carried]
    exact Or.inl trivial

theorem Allowed.written {log : List Attempt} {offset b : Nat} {buf : Bytes} {v v' : UInt8} {done : Bool}
    (h : Allowed log b v) (changed : v' = v ∨ payload offset buf b = some v')
    (whole : ∀ u, payload offset buf b = some u → v' = u) :
    Allowed (⟨offset, buf, done⟩ :: log) b v' := by
  unfold Allowed
  cases carried : payload offset buf b with
  | none =>
      rcases changed with rfl | never
      · exact h
      · rw [carried] at never
        cases never
  | some u => exact Or.inl (whole u carried)

/-! ## One call, one open -/

section Steps

variable {L : Layout} {P : ByteStore → Nat → Prop} {f : Faults} {s s' : Image} {bat : List Nat}
  {off offset : Nat} {buf : Bytes} {fm : Bool} {t : List (Event (Op Unit) Op.Res)}

theorem Created.rests (created : Created L s off) :
    Sound L s (L.table s.disk) off ∧ off % 512 = 0 ∧ AtFooter L s.disk off := by
  have sound := created.opens.sound created.start
  rw [← created.image] at sound
  have aligned := created.opens.aligned
  have size := created.size
  exact ⟨sound, by omega, created.size, created.last⟩

theorem Created.value_zero {b : Nat} (created : Created L s off) (inside : b < L.virtualSize) :
    L.value s.disk (L.table s.disk) b = 0 := by
  have slot := Layout.getElem?_table (L := L) (d := s.disk) (L.block_lt inside)
  rw [created.empty _ (List.mem_of_getElem? slot)] at slot
  exact Layout.value_unallocated slot

/-- What a write leaves wherever it is cut, and when it returns. -/
theorem write_cut {p : Io Unit Unit} (clear : Clear L) (trail : Trail L P)
    (dynamic : L.footer.diskType = .dynamic) (within : offset + buf.length ≤ L.virtualSize)
    (sound : Sound L s bat off) (trailed : Trailed L P s.disk off)
    (run : Prog.Runs f.handler ((VhdReader.base (L.core () true fm)).writeAt offset buf) s t p s') :
    (∃ bat' off', Intact L P (payload offset buf) s bat s' bat' off') ∧
    (p.value? = some (.ok ()) → ∃ bat' off', Intact L P (payload offset buf) s bat s' bat' off' ∧
      (P s.disk off → P s'.disk off') ∧
      ∀ b v, payload offset buf b = some v → L.own s'.disk bat' b = some v) := by
  have whole := writeAt_wp_rule fm (sequentialRule (f := f) clear trail) dynamic within
    (Between.start (h := []) offset buf sound trailed)
  have traced := run.traced []
  constructor
  · refine Code.wp_cut (I := fun x => ∃ bat' off', Intact L P (payload offset buf) s bat x.1 bat' off')
      whole traced ?_ ?_ fun _ _ reached => reached
    · rintro x op (⟨⟨bat', off', intact, -⟩⟩ | ⟨⟨bat', off', intact, -⟩, -⟩ |
        ⟨⟨bat', off', intact, -⟩⟩ | ⟨⟨bat', off', intact, -⟩, -⟩) <;> exact ⟨bat', off', intact⟩
    · rintro _ x ⟨bat', off', intact, -⟩
      exact ⟨bat', off', intact⟩
  · intro returned
    cases p with
    | call op next => cases returned
    | ret out =>
        cases returned
        obtain ⟨bat', off', intact, rest, written⟩ := Prog.wp_finished whole traced
        exact ⟨bat', off', intact, rest, fun b v carried =>
          written b v (payload_inside carried).2 carried⟩

theorem read_cut {p : Io Unit Unit} (ready : Ready L s) (within : offset + buf.length ≤ L.virtualSize)
    (run : Prog.Runs f.handler ((Call.read offset buf).code (.base (L.core () true fm))) s t p s') :
    s' = s := by
  obtain ⟨bat, cached, -⟩ := ready.cached
  have reads := (ready.holds (f := f) (G := fun x _ => x = s) cached fun _ _ => rfl).readAt_wp
    true fm (E := fun _ x => x = s) within fun _ _ => rfl
  have whole : Code.wp f.handler (fun x _ => x = s)
      ((Call.read offset buf).code (.base (L.core () true fm))) (fun _ x => x = s)
      (fun _ x => x = s) s :=
    (Code.wp_bind _ _).mpr (Code.wp_mono reads (fun _ _ g => g) (fun _ _ post => post.1)
      fun _ _ e => e)
  exact Code.wp_cut (I := fun x => x = s) whole run (fun _ _ same => same) (fun _ _ same => same)
    fun _ _ same => same

theorem read_ideal {wr : Bool} (ready : Ready L s) (cached : s.bat = some bat)
    (within : offset + buf.length ≤ L.virtualSize) :
    ((VhdReader.base (L.core () wr fm)).readAt offset buf).run idealStep s =
      (.ok ((List.range buf.length).map fun i => L.value s.disk bat (offset + i)), s) := by
  have whole := (ready.holds (f := .none) (G := fun _ _ => True) cached fun _ _ => trivial).readAt_wp
    wr fm (E := fun _ _ => False) within fun faulty _ => Faults.none_not_faulty faulty
  rcases Code.wp_run idealStep whole (idealStep_allowed .none) with
    ⟨out, ended, same, length, values⟩ | ⟨e, -, never⟩
  · refine Prod.ext (ended.trans (congrArg Outcome.ok ?_)) same
    refine List.ext_getElem (by rw [length]; simp) fun i low high => ?_
    rw [values i _ (List.getElem?_eq_getElem low)]
    simp
  · exact never.elim

theorem reopen_wp {dataEnd : Nat} {G : Image → Op Unit → Prop} (how : Option Path)
    (opens : Opens s.disk L fm dataEnd off) (dynamic : L.footer.diskType = .dynamic)
    (asks : ∀ op, G s op) :
    Code.wp f.handler G (reopen () how)
      (fun r x => r = .base (L.core () true fm) ∧ x = L.opened s.disk off)
      (fun _ x => x = s ∧ f.Faulty) s := by
  have inner (path : Option Path) : Code.wp f.handler G (openInner maxParentDepth true () path)
      (fun r x => r = .base (L.core () true fm) ∧ x = L.opened s.disk off)
      (fun _ x => x = s ∧ f.Faulty) s := by
    refine openInner_dynamic_wp (Faults.sees fun _ _ => asks _) opens dynamic
      ⟨asks _, fun r x shared => ?_⟩ fun faulty _ _ => ⟨rfl, faulty⟩
    exact ⟨rfl, Faults.handler_share shared⟩
  cases how with
  | none =>
      refine (Code.wp_bind _ _).mpr ((Code.wp_perform _).mpr ⟨asks _, fun r x answered => ?_⟩)
      obtain ⟨rfl, rfl | ⟨_, refused⟩⟩ := Faults.handler_quiet .isWritable rfl answered
      · exact inner none
      · exact refused.elim
  | some path =>
      refine (Code.wp_bind _ _).mpr ((Code.wp_perform _).mpr ⟨asks _, ?_⟩)
      rintro r x ⟨rfl, rfl⟩
      exact inner (some path)

theorem reopen_cut {dataEnd : Nat} {how : Option Path} {p : Io Unit (VhdReader Unit)}
    (opens : Opens s.disk L fm dataEnd off) (dynamic : L.footer.diskType = .dynamic)
    (run : Prog.Runs f.handler (reopen () how) s t p s') :
    (opened p = none ∧ s' = s) ∨
      (opened p = some (.base (L.core () true fm)) ∧ s' = L.opened s.disk off) := by
  have whole := reopen_wp (f := f) (G := fun x _ => x = s) how opens dynamic fun _ => rfl
  cases p with
  | call op next => exact Or.inl ⟨rfl, (Prog.wp_runs whole run).1⟩
  | ret out =>
      rcases Code.wp_finished whole run with ⟨r, rfl, rfl, same⟩ | ⟨e, rfl, same, -⟩
      · exact Or.inr ⟨rfl, same⟩
      · exact Or.inl ⟨rfl, same⟩

theorem reopen_ideal {dataEnd : Nat} (how : Option Path)
    (opens : Opens s.disk L fm dataEnd off) (dynamic : L.footer.diskType = .dynamic) :
    (reopen () how).run idealStep s = (.ok (.base (L.core () true fm)), L.opened s.disk off) := by
  have whole := reopen_wp (f := .none) (G := fun _ _ => True) how opens dynamic
    fun _ => trivial
  rcases Code.wp_run idealStep whole (idealStep_allowed .none) with
    ⟨r, ended, rfl, same⟩ | ⟨e, -, -, faulty⟩
  · exact Prod.ext ended same
  · exact absurd faulty Faults.none_not_faulty

theorem reopen_runs {dataEnd : Nat} (f : Faults) (how : Option Path)
    (opens : Opens s.disk L fm dataEnd off) (dynamic : L.footer.diskType = .dynamic) :
    ∃ t, Prog.Runs f.handler (reopen () how) s t (.ret (.ok (.base (L.core () true fm))))
      (L.opened s.disk off) := by
  obtain ⟨t, run⟩ := Prog.run_runs idealStep (idealStep_allowed f) (reopen () how) s
  rw [reopen_ideal how opens dynamic] at run
  exact ⟨t, run⟩

theorem small_reopened (f : Faults) : ∃ s t L off,
    Prog.Runs f.handler (VhdReader.openRwOnDevice ()) ⟨s.disk, none, none⟩ t
      (.ret (.ok (.base (L.core () true false)))) s ∧
    Created L s off ∧ L.virtualSize = 34816 ∧ L.blockSize = 512 := by
  obtain ⟨L, s, off, created, size, block⟩ := small_image
  obtain ⟨t, run⟩ := reopen_runs f none (s := ⟨s.disk, none, none⟩) created.opens created.dynamic
  rw [← created.image] at run
  exact ⟨s, t, L, off, run, created, size, block⟩

end Steps

end ImgVhd
