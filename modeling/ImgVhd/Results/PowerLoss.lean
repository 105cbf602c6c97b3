import ImgVhd.Chain.Calm
import ImgVhd.Session.Powered
import ImgVhd.Session.Room

/-! # Power losses

The device may keep what it is given in a volatile cache until it is flushed, any
operation may fail with or without its effect, and the power may go at any point
and any number of times. Each time any mixture of the sectors that were not
flushed is left. The file still opens as the same disk, and no byte that a write
which returned put there is lost.
-/

namespace ImgVhd

open Foundation

/-- Sessions over a volatile cache that start with the reader and the device of
    `start`. Without power there is no reader, and what survived is safe. -/
inductive Powered (cell : Nat) (f : Faults) (start : VhdReader Unit × (Image × List ByteStore)) :
    List Attempt → Option (VhdReader Unit) → Image × List ByteStore → Prop where
  | start : Powered cell f start [] (some start.1) start.2
  | call {log r x} {call : Call} {t p x'} (before : Powered cell f start log (some r) x)
      (inside : call.InRange r.virtualSize) (run : Prog.Runs f.cached (call.code r) x t p x') :
      Powered cell f start (call.attempts (succeeded p) ++ log) (p.value?.map fun _ => r) x'
  | flush {log r x t p x'} (before : Powered cell f start log (some r) x)
      (run : Prog.Runs f.cached r.flushWrites x t p x') :
      Powered cell f start log (p.value?.map fun _ => r) x'
  | reopen {log last x} {how : Option Path} {t p x'} (before : Powered cell f start log last x)
      (run : Prog.Runs f.cached (reopen () how) x t p x') : Powered cell f start log (opened p) x'
  | outage {log last x d} (before : Powered cell f start log last x)
      (survives : d.Survives cell x.2) : Powered cell f start log none (⟨d, none, none⟩, [d])

/-! ## The order of the flushes -/

/-- Whatever the device answers, a write zeroes a block only when the length it
    gave the file is flushed, moves the tail and issues the entry only when all
    it wrote before is, and returns only when all it wrote is. -/
theorem write_flushes_in_order {σ δ : Type} {R : Handler σ (Op δ) Op.Res} {c : Core δ} {offset : Nat}
    {buf : Bytes} {s s' : σ} {t : List (Event (Op δ) Op.Res)} {p : Io δ Unit}
    (dynamic : c.footer.diskType = .dynamic)
    (run : Prog.Runs R ((VhdReader.base c).writeAt offset buf) s t p s') :
    (∀ before e after, t = before ++ e :: after → Ordered before.reverse e.op) ∧
      (p.value? = some (.ok ()) → buf ≠ [] → Clean t.reverse) := by
  obtain ⟨order, ended⟩ := Code.wlp_order (writeAt_ordered c lets_ordered offset buf dynamic []) run
  exact ⟨order, fun returned some_ => (ended () returned).resolve_left some_⟩

/-- The small disk, written across two of its blocks. -/
theorem small_disk_flushes_in_order : ∃ (c : Core Unit) (buf : Bytes) (s s' : Image)
    (t : List (Event (Op Unit) Op.Res)), buf = List.replicate 700 7 ∧
    Prog.Runs Faults.none.handler ((VhdReader.base c).writeAt 300 buf) s t (.ret (.ok ())) s' ∧
    (∀ before e after, t = before ++ e :: after → Ordered before.reverse e.op) ∧ Clean t.reverse := by
  obtain ⟨buf, sevens, length⟩ := small_buffer
  obtain ⟨t, L, s, off, t', s', create, created, -, -, write⟩ := small_written length
  obtain ⟨order, ended⟩ := write_flushes_in_order created.dynamic write
  refine ⟨_, buf, s, s', t', sevens, write, order, ended rfl ?_⟩
  rintro rfl
  cases length

/-! ## A new image is safe -/

section Create

variable {env : BuildEnv} {path : Path} {size bs : Nat} {L : Layout} {off : Nat}

theorem fileWrite_free {δ : Type} {dev : δ} {off : Nat} {bytes : Bytes} :
    (fileWrite dev off bytes).Asks (Free Ordered) :=
  (Code.asks_perform fun _ => trivial).bind fun _ => Code.asks_lift _

theorem fileSyncData_wlp {δ : Type} {dev : δ} {h : List (Event (Op δ) Op.Res)}
    {Q : Unit → List (Event (Op δ) Op.Res) → Prop} (done : ∀ h', Clean h' → Q () h') :
    Code.wlp .unknown Ordered (fileSyncData dev) Q h := by
  refine Code.wlp_bind (ask_wlp trivial fun r => Code.wlp_lift ?_)
  rintro ⟨⟩ is
  cases r with
  | error e => cases is
  | ok _ => exact done _ (Or.inl rfl)

theorem Calm.clean {op : Op Unit} {h : History} {r : op.Res} (calm : Calm op) (clean : Clean h) :
    Clean (⟨op, r⟩ :: h) := Or.inr ⟨calm.still, clean⟩

theorem Calm.ordered {op : Op Unit} {h : History} (calm : Calm op) : Ordered h op := by
  cases op with
  | on dev op =>
      rcases calm with quiet | ⟨bat, off, rfl⟩
      · cases op <;> trivial
      · trivial
  | pathExists path => trivial
  | openFile path writable => trivial
  | createFile path => trivial

theorem createTruncate_free : (createTruncate (δ := Unit) path).Asks (Free Ordered) :=
  (Code.asks_perform fun _ => trivial).bind fun _ => Code.asks_lift _

theorem fileSetLen_free {len : Nat} : (fileSetLen () len).Asks (Free Ordered) :=
  (Code.asks_perform fun _ => trivial).bind fun _ => Code.asks_lift _

theorem synced_clean {h : History} : Code.wlp .unknown Ordered (do
    fileSyncData ()
    VhdReader.openRw path) (fun _ h' => Clean h') h := by
  refine Code.wlp_bind (fileSyncData_wlp fun h' clean => ?_)
  refine Code.wlp_bind (Code.wlp_perform trivial ?_)
  rintro answer _ rfl
  refine Code.wlp_bind (Code.wlp_lift fun dev _ => ?_)
  refine Code.wlp_asks (I := Clean) openInner_calm (fun _ _ calm _ => calm.ordered) ?_
    (Or.inr ⟨id, clean⟩)
  rintro _ op r _ calm clean rfl
  exact calm.clean clean

variable (env path size bs) in
set_option maxRecDepth 1024 in
theorem createDynamic_clean (h : History) :
    Code.wlp .unknown Ordered (createDynamic env path size bs) (fun _ h' => Clean h') h := by
  refine Code.wlp_bind (Code.wlp_lift fun plan _ => ?_)
  have table : (writeEmptyBat () plan.tableOffset plan.tableLen).Asks (Free Ordered) :=
    (Code.asks_whileLoop fun _ => fileWrite_free.bind fun _ => Code.asks_pure _).bind
      fun _ => Code.asks_pure _
  refine Code.wlp_bind (free_wlp createTruncate_free fun _ _ => ?_)
  refine Code.wlp_bind (Code.wlp_lift fun total _ => Code.wlp_bind (free_wlp fileSetLen_free fun _ _ => ?_))
  refine Code.wlp_bind (free_wlp fileWrite_free fun _ _ => ?_)
  refine Code.wlp_bind (free_wlp fileWrite_free fun _ _ => ?_)
  refine Code.wlp_bind (free_wlp fileWrite_free fun _ _ => ?_)
  exact Code.wlp_bind (free_wlp table fun _ _ => synced_clean)

variable (env path size) in
set_option maxRecDepth 1024 in
theorem createFixed_clean (h : History) :
    Code.wlp .unknown Ordered (createFixed env path size) (fun _ h' => Clean h') h := by
  unfold createFixed
  split
  · exact Code.wlp_fail
  refine Code.wlp_bind (free_wlp createTruncate_free fun _ _ => ?_)
  refine Code.wlp_bind (Code.wlp_lift fun v _ => Code.wlp_bind (Code.wlp_lift fun total _ => ?_))
  refine Code.wlp_bind (free_wlp fileSetLen_free fun _ _ => Code.wlp_bind (Code.wlp_lift fun bytes _ => ?_))
  exact Code.wlp_bind (free_wlp fileWrite_free fun _ _ => synced_clean)

theorem Laid.tableOffset {plan : DynamicPlan} {d : ByteStore} (planned : Planned env size bs plan)
    (laid : Laid plan d) (created : Created L (L.opened d off) off)
    (bytes : L.footerBytes = plan.footer) : L.tableOffset = 1536 := by
  obtain ⟨L', bytes', -, -, at_, parsed, table, -, -⟩ := planned.layout
  have footer : L.footer = L'.footer :=
    Outcome.ok.inj (L.parses.symm.trans (by rw [bytes, ← bytes']; exact L'.parses))
  have offset : L.headerOffset = 512 := by
    unfold Layout.headerOffset
    rw [footer]
    exact at_
  have header := created.opens.header
  rw [show (L.opened d off).disk = d from rfl, offset,
    show d.read 512 dynHeaderSize = plan.header from laid.header, parsed] at header
  rw [← table]
  exact congrArg DynamicHeader.tableOffset (Outcome.ok.inj header).symm

/-- What a create that succeeds leaves, with its table on an entry's boundary. -/
theorem createDynamic_aligned {f : Faults} {s s' : Image} {t} {r : VhdReader Unit} (word : bs < 2 ^ 32)
    (run : Prog.Runs f.handler (createDynamic env path size bs) s t (.ret (.ok r)) s')
    (is : r = .base (L.core () true false)) : L.tableOffset % 4 = 0 := by
  have done : ∃ L : Layout, r = .base (L.core () true false) ∧ L.tableOffset = 1536 := by
    unfold createDynamic at run
    cases accepted : planDynamic env size bs with
    | ok plan =>
        have planned := planDynamic_ok word accepted
        rw [accepted, Code.lift_ok_bind] at run
        exact Prog.wp_finished (f.filing.createPlanned_laid_wp path planned
          (Q := fun r _ => ∃ L : Layout, r = .base (L.core () true false) ∧ L.tableOffset = 1536)
          fun L d laid created _ _ bytes => ⟨L, rfl, laid.tableOffset planned created bytes⟩) run
    | err e =>
        rw [accepted] at run
        cases run
    | panic =>
        rw [accepted] at run
        cases run
    | outOfFuel =>
        rw [accepted] at run
        cases run
  obtain ⟨L', is', table⟩ := done
  rw [is] at is'
  have same : L.header = L'.header := by
    injection is' with same
    injection same with _ _ _ header
    exact Option.some.inj header
  have offset : L.tableOffset = L'.tableOffset := congrArg DynamicHeader.tableOffset same
  omega

theorem Created.sheltered {s : Image} (created : Created L s off) :
    Sheltered L (Allowed []) off s.disk [s.disk] := by
  have aligned := created.opens.aligned
  have size := created.size
  have start := created.start
  have none_ {v : Nat} (inTable : v ∈ L.table s.disk) (live : Live v) : False :=
    live (created.empty v inTable)
  refine ⟨⟨fun e member => ?_, fun e member e' member' => ?_⟩, List.mem_cons_self, fun e member => by
    rw [List.mem_singleton.mp member]⟩
  · rw [List.mem_singleton.mp member]
    exact ⟨aligned, by omega, created.mirror, created.opens.header,
      fun v inTable live => (none_ inTable live).elim, fun _ _ _ _ => rfl⟩
  · rw [List.mem_singleton.mp member, List.mem_singleton.mp member']
    refine ⟨fun _ _ _ => rfl, Or.inl ?_, fun v inTable live => (none_ inTable live).elim,
      fun i j v w slot _ live => (none_ (List.mem_of_getElem? slot) live).elim,
      fun i v slot live => (none_ (List.mem_of_getElem? slot) live).elim⟩
    rw [size, Nat.add_sub_cancel]
    exact created.last

theorem settled_of_clean {α : Type} {f : Faults} {c : Io Unit α} {s s' : Image} {H H' : List ByteStore} {t}
    {a : α} (order : Code.wlp .unknown Ordered c (fun _ h' => Clean h') [])
    (run : Prog.Runs f.cached c (s, H) t (.ret (.ok a)) (s', H')) :
    s'.disk ∈ H' ∧ ∀ e ∈ H', e = s'.disk := by
  unfold Code.wlp at order
  have kept := Prog.wp_invariant (H := f.cached.traced)
    (I := fun x => Clean x.2 → x.1.1.disk ∈ x.1.2 ∧ ∀ e ∈ x.1.2, e = x.1.1.disk)
    (Prog.wp_part (H := f.cached.traced) (x := ((s, H), [])) Prod.snd order
      fun x op r x' stepped => stepped.2)
    (fun _ _ _ _ _ _ stepped => stepped) ?_ nofun
  · obtain ⟨clean, settled⟩ := Prog.wp_finished kept (run.traced [])
    exact settled (clean a rfl)
  · rintro ⟨⟨s₁, H₁⟩, h₁⟩ op r ⟨⟨s₂, H₂⟩, h₂⟩ - settled ⟨stepped, rfl⟩ clean
    refine ⟨Handler.volatile_here stepped, Handler.volatile_agrees id
      (fun _ _ _ _ still stepped => Faults.handler_clean still stepped)
      (fun before => (settled before).2) stepped clean⟩

theorem createDynamic_settled {f : Faults} {s s' : Image} {H H' : List ByteStore} {t}
    {r : VhdReader Unit}
    (run : Prog.Runs f.cached (createDynamic env path size bs) (s, H) t (.ret (.ok r)) (s', H')) :
    s'.disk ∈ H' ∧ ∀ e ∈ H', e = s'.disk :=
  settled_of_clean (createDynamic_clean env path size bs []) run

end Create

/-! ## Every session -/

section Session_

variable {L : Layout} {log : List Attempt} {f : Faults} {cell : Nat} {x : Image × List ByteStore}

/-- The image is durable whatever survives of it, and a reader holds what the
    image says. -/
structure Restartable (L : Layout) (log : List Attempt) (last : Option (VhdReader Unit))
    (x : Image × List ByteStore) (bat : List Nat) (off : Nat) : Prop where
  durable : Durable L log ⟨x.1.disk, some bat, some off⟩ bat off
  sheltered : Sheltered L (Allowed log) off x.1.disk x.2
  reader : ∀ r, last = some r → (∃ fm, r = .base (L.core () true fm)) ∧
    x.1 = ⟨x.1.disk, some bat, some off⟩

theorem flushWrites_cut {fm : Bool} {s s' : Image} {t} {p : Io Unit Unit}
    (run : Prog.Runs f.handler (VhdReader.base (L.core () true fm)).flushWrites s t p s') : s' = s := by
  have whole : Code.wp f.handler (fun x _ => x = s) (VhdReader.base (L.core () true fm)).flushWrites
      (fun _ x => x = s) (fun _ x => x = s) s := by
    change Code.wp _ _ (devFlush ()) _ _ _
    refine (Code.wp_bind _ _).mpr ((Code.wp_perform _).mpr ⟨rfl, fun r s₁ stepped => ?_⟩)
    have same := (Faults.handler_quiet .flush rfl stepped).1
    cases r with
    | ok _ => exact same
    | error e => exact same
  exact Code.wp_cut (I := fun x => x = s) whole run (fun _ _ same => same) (fun _ _ same => same)
    fun _ _ same => same

theorem Restartable.looks {α : Type} {last : Option (VhdReader Unit)} {bat : List Nat} {off : Nat}
    {x' : Image × List ByteStore} {t} {p p' : Prog (Op Unit) Op.Res α} {r : VhdReader Unit}
    (restartable : Restartable L log (some r) x bat off) (run : Prog.Runs f.cached p x t p' x')
    (same : last = none ∨ last = some r)
    (cut : ∀ t p' s', Prog.Runs f.handler p x.1 t p' s' → s' = x.1) : Restartable L log last x' bat off := by
  obtain ⟨reader, is⟩ := restartable.reader r rfl
  have still : x'.1 = x.1 := cut _ _ _ (run.part Prod.fst fun _ _ _ _ stepped =>
    Faults.cached_only stepped)
  have sheltered := restartable.sheltered.looks (s := x.1) run fun t p' s' rest =>
    congrArg Image.disk (cut t p' s' rest)
  rw [← still] at is
  refine ⟨?_, sheltered, fun r' there => ⟨?_, is⟩⟩
  · rw [still]
    exact restartable.durable
  · rcases same with rfl | rfl
    · cases there
    · cases there
      exact reader

theorem Powered.restartable {r₀ : VhdReader Unit} {s₀ : Image} {off₀ : Nat}
    {last : Option (VhdReader Unit)} (created : Created L s₀ off₀) (aligned : L.tableOffset % 4 = 0)
    {H₀ : List ByteStore} (settled : ∀ e ∈ H₀, e = s₀.disk) (here : s₀.disk ∈ H₀)
    (reader : r₀ = .base (L.core () true false))
    (session : Powered (sectorSize * cell) f (r₀, (s₀, H₀)) log last x) :
    ∃ bat off, Restartable L log last x bat off := by
  induction session with
  | start =>
      refine ⟨L.table s₀.disk, off₀, ?_, ?_, ?_⟩
      · have durable := created.durable
        rw [created.image] at durable
        exact durable
      · exact created.sheltered.same (fun e member => Or.inl (settled e member)) here
      · rintro r ⟨⟩
        exact ⟨⟨false, reader⟩, created.image⟩
  | @call log r x call t p x' before inside run ih =>
      obtain ⟨bat, off, restartable⟩ := ih
      obtain ⟨⟨fm, rfl⟩, is⟩ := restartable.reader r rfl
      have durable := restartable.durable
      rw [← is] at durable
      have plain := run.part (R := f.handler) Prod.fst fun _ _ _ _ stepped =>
        Faults.cached_only stepped
      have last {β : Type} {o : Option β} {r : VhdReader Unit} :
          (o.map fun _ => r) = none ∨ (o.map fun _ => r) = some r := by
        cases o with
        | none => exact Or.inl rfl
        | some b => exact Or.inr rfl
      cases call with
      | write offset buf =>
          obtain ⟨bat', off', after⟩ := durable.write_cut created.clear created.dynamic inside plain
          obtain ⟨off₁, tail, sheltered⟩ := durable.write_sheltered restartable.sheltered created.clear
            created.dynamic inside run
          have same := after.sound.at_tail tail
          subst same
          have held : x'.1 = ⟨x'.1.disk, some bat', some off₁⟩ := by
            rw [← after.sound.cached, ← after.sound.tail]
          refine ⟨bat', off₁, by rw [← held]; exact after, sheltered, fun r is => ⟨?_, held⟩⟩
          obtain ⟨_, -, rfl⟩ := Option.map_eq_some_iff.mp is
          exact ⟨fm, rfl⟩
      | read offset buf =>
          exact ⟨bat, off, restartable.looks run last fun t p' s' rest =>
            read_cut durable.sound.ready inside rest⟩
  | @flush log r x t p x' before run ih =>
      obtain ⟨bat, off, restartable⟩ := ih
      obtain ⟨⟨fm, rfl⟩, is⟩ := restartable.reader r rfl
      refine ⟨bat, off, restartable.looks run ?_ fun t p' s' rest => flushWrites_cut rest⟩
      cases p.value? with
      | none => exact Or.inl rfl
      | some b => exact Or.inr rfl
  | @reopen log last x how t p x' before run ih =>
      obtain ⟨bat, off, restartable⟩ := ih
      obtain ⟨fm, dataEnd, off', opens, behind⟩ := restartable.durable.opens
      have plain := run.part (R := f.handler) Prod.fst fun _ _ _ _ stepped =>
        Faults.cached_only stepped
      have ended {t} {p' : Io Unit (VhdReader Unit)} {s' : Image}
          (rest : Prog.Runs f.handler (ImgVhd.reopen () how) x.1 t p' s') :=
        reopen_cut (s := x.1) opens created.dynamic rest
      have cut (t) (p' : Io Unit (VhdReader Unit)) (s' : Image)
          (rest : Prog.Runs f.handler (ImgVhd.reopen () how) x.1 t p' s') : s'.disk = x.1.disk := by
        rcases ended rest with ⟨-, same⟩ | ⟨-, same⟩ <;> rw [same]
        rfl
      have sheltered := restartable.sheltered.looks (s := x.1) run cut
      have still := cut _ _ _ plain
      rcases ended plain with ⟨none_, -⟩ | ⟨some_, is⟩
      · refine ⟨bat, off, ?_, sheltered, fun r there => ?_⟩
        · rw [still]
          exact restartable.durable
        · rw [none_] at there
          cases there
      · refine ⟨L.table x.1.disk, off', ?_, ?_, fun r there => ?_⟩
        · rw [still]
          exact restartable.durable.reopened opens behind
        · exact sheltered.reopened (by rw [still]; exact behind)
        · rw [some_] at there
          exact ⟨⟨fm, (Option.some.inj there).symm⟩, by rw [is]; rfl⟩
  | @outage log last x d before survives ih =>
      obtain ⟨bat, off, restartable⟩ := ih
      obtain ⟨off', durable, sheltered⟩ := restartable.sheltered.survives aligned survives.finer
      exact ⟨L.table d, off', durable, sheltered, nofun⟩

/-- Whatever a power loss leaves, at any point of any session with any number of
    power losses before it, opens as the same disk, and every byte is the last
    that was written by a write that returned, or a later one that was being
    written. Sectors may be of any multiple of 512 bytes. -/
theorem power_loss_consistent {env : BuildEnv} {path : Path} {size bs : Nat}
    {x₀ x₁ : Image × List ByteStore} {r₀ : VhdReader Unit} {t : List (Event (Op Unit) Op.Res)}
    {last : Option (VhdReader Unit)} {d : ByteStore} (word : bs < 2 ^ 32)
    (create : Prog.Runs Faults.any.cached (createDynamic env path size bs) x₀ t (.ret (.ok r₀)) x₁)
    (session : Powered (sectorSize * cell) .any (r₀, x₁) log last x)
    (survives : d.Survives (sectorSize * cell) x.2) (how : Option Path) :
    ∃ r s', (reopen () how).run idealStep ⟨d, none, none⟩ = (.ok r, s') ∧
      r.virtualSize = r₀.virtualSize ∧
      ∀ offset buf, offset + buf.length ≤ r.virtualSize →
        ∃ out, (r.readAt offset buf).run idealStep s' = (.ok out, s') ∧ out.length = buf.length ∧
          ∀ i v, out[i]? = some v → Allowed log (offset + i) v := by
  have plain := create.part (R := Faults.any.handler) Prod.fst fun _ _ _ _ stepped =>
    Faults.cached_only stepped
  obtain ⟨L, off₀, created, rfl, -, -⟩ := createDynamic_created word plain
  have aligned := createDynamic_aligned word plain rfl
  obtain ⟨here, settled⟩ := createDynamic_settled create
  obtain ⟨bat, off, restartable⟩ := session.restartable created aligned settled here rfl
  obtain ⟨off', durable, -⟩ := restartable.sheltered.survives aligned survives.finer
  obtain ⟨fm, dataEnd, off₁, opens, behind⟩ := durable.opens
  have reopens := reopen_ideal (s := ⟨d, none, none⟩) how opens created.dynamic
  refine ⟨_, _, reopens, rfl, fun offset buf within => ?_⟩
  have again := durable.reopened opens behind
  refine ⟨_, read_ideal again.sound.ready again.sound.cached within, by simp, fun i v at_ => ?_⟩
  obtain ⟨lt, same⟩ := List.getElem?_eq_some_iff.mp at_
  simp only [List.length_map, List.length_range] at lt
  simp only [List.getElem_map, List.getElem_range] at same
  rw [← same]
  have size : (VhdReader.base (L.core () true fm)).virtualSize = L.virtualSize := rfl
  exact again.values _ (by omega)

theorem flushed_still {f : Faults} {s s' : Image} {op : Op Unit} {r : op.Res}
    (stepped : f.handler s op r s') (flushed : Flushed ⟨op, r⟩) : s'.disk = s.disk := by
  cases op with
  | on dev op =>
      have quiet : (s.step op).2 = s := by
        cases op <;> first | rfl | exact flushed.elim
      rw [(Faults.handler_quiet op quiet stepped).1]
  | pathExists path => exact flushed.elim
  | openFile path writable => exact flushed.elim
  | createFile path => exact flushed.elim

/-- The power goes while a second write to the small disk is under way, and the
    older version of the sector it was changing survives. -/
theorem small_disk_outlives_power : ∃ (r₀ : VhdReader Unit) (buf : Bytes) (x x' : Image × List ByteStore)
    (last : Option (VhdReader Unit)) (d : ByteStore), buf = List.replicate 700 7 ∧
    Powered 4096 .any (r₀, x) [⟨310, [9], false⟩, ⟨300, buf, true⟩] last x' ∧ d.Survives 4096 x'.2 ∧
    x'.1.disk ≠ d ∧ ∃ r s', (reopen () none).run idealStep ⟨d, none, none⟩ = (.ok r, s') ∧
      (r.readAt 300 buf).run idealStep s' = (.ok buf, s') ∧
      ∀ i v, buf[i]? = some v → Allowed [⟨310, [9], false⟩, ⟨300, buf, true⟩] (300 + i) v := by
  obtain ⟨buf, sevens, length⟩ := small_buffer
  obtain ⟨t, L, s₁, off₁, t', s₂, bat, off, create, created, write, filled⟩ := small_filled length
  have size := filled.size
  obtain ⟨H₁, here₁, create⟩ := (create.mono fun _ _ _ _ => ideal_allowed .any).volatile Image.disk
    Flushed (List.mem_singleton.mpr rfl)
  obtain ⟨H₂, here₂, write⟩ := (write.mono fun _ _ _ _ => ideal_allowed .any).volatile Image.disk
    Flushed here₁
  have fresh : Powered (sectorSize * 8) .any (.base (L.core () true false), (s₁, H₁)) []
      (some (.base (L.core () true false))) (s₁, H₁) := .start
  have inside : (Call.write 300 buf).InRange (VhdReader.base (L.core () true false)).virtualSize := by
    change 300 + buf.length ≤ L.virtualSize
    omega
  have written := fresh.call inside write
  -- the second write would come to its end, and the byte would be another
  have within : 310 + ([9] : Bytes).length ≤ L.virtualSize := by
    rw [size]
    decide
  have run := Prog.run_trace idealStep (idealStep_allowed .none)
    ((VhdReader.base (L.core () true false)).writeAt 310 [9]) s₂
  have returned := filled.takes within run
  rw [returned] at run
  obtain ⟨bat₃, off₃, order₃⟩ := filled.order.written filled.clear filled.dynamic within run rfl
  have changed : (Prog.run idealStep ((VhdReader.base (L.core () true false)).writeAt 310 [9]) s₂).2.disk ≠
      s₂.disk := by
    intro same
    have new := (order₃.sound.value_table 310 (by omega)).trans (order₃.values 310 (by omega))
    have old := (filled.order.sound.value_table 310 (by omega)).trans (filled.order.values 310 (by omega))
    rw [same, old, sevens] at new
    revert new
    decide
  obtain ⟨t₃, p, x, cut, new, stale⟩ := (run.mono fun _ _ _ _ => ideal_allowed .any).stale
    (fun _ _ _ _ stepped flushed => flushed_still stepped flushed) changed here₂
  have session := written.call
    (show (Call.write 310 [9]).InRange (VhdReader.base (L.core () true false)).virtualSize from within) cut
  have survives : s₂.disk.Survives (sectorSize * 8) x.2 := .self stale
  obtain ⟨r, s', again, same, reads⟩ := power_loss_consistent (by decide) create session survives none
  rw [reopen_ideal none (s := ⟨s₂.disk, none, none⟩) filled.order.opens filled.dynamic] at again
  cases again
  obtain ⟨out, read, -, allowed⟩ := reads 300 buf inside
  have held : ((VhdReader.base (L.core () true false)).readAt 300 buf).run idealStep
      (L.opened s₂.disk off) = (.ok buf, L.opened s₂.disk off) := filled.reopened.order.reads_last inside
  rw [held] at read
  obtain rfl : buf = out := Outcome.ok.inj (congrArg Prod.fst read)
  -- what survived is older than the second write, so that one had not returned
  have unfinished : succeeded p = false := by
    cases done : succeeded p with
    | false => rfl
    | true =>
        rw [done] at allowed
        rcases allowed 10 7 (by rw [sevens]; rfl) with no | ⟨no, -⟩
        · revert no
          decide
        · cases no
  rw [unfinished] at allowed session
  exact ⟨_, buf, _, x, _, s₂.disk, sevens, session, survives, new, _, _,
    reopen_ideal none (s := ⟨s₂.disk, none, none⟩) filled.order.opens filled.dynamic, held, allowed⟩

end Session_

end ImgVhd
