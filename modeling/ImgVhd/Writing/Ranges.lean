import ImgVhd.Writing.Call
import ImgVhd.Opening.Sparse

/-! # Host ranges, through any failure

What is known of a reader's table and tail no matter which operations fail: every
value in the table at the open and every value ever sent to the device names its
own range, and the tail is past them all. Nothing here depends on the bytes of
the image, so it holds of every image that opens.
-/

namespace ImgVhd

open Foundation

section Events

variable {δ : Type}

/-- The value a write of a BAT entry sends, read off its bytes. -/
def Op.sends : Op δ → Option Nat
  | .on _ (.writeAt (.batEntry _ _) _ bytes) => some (ofBe bytes)
  | _ => none

/-- Where an operation moves the tail. -/
def Op.moves : Op δ → Option Nat
  | .on _ (.setNextAllocOff off) => some off
  | _ => none

/-- The BAT values of a trace, in the order they were sent. -/
def sent (trace : List (Event (Op δ) Op.Res)) : List Nat := trace.filterMap fun e => e.op.sends

/-- The tails of a trace, in the order they were set. -/
def tails (trace : List (Event (Op δ) Op.Res)) : List Nat := trace.filterMap fun e => e.op.moves

theorem sent_snoc (t : List (Event (Op δ) Op.Res)) (e : Event (Op δ) Op.Res) :
    sent (t ++ [e]) = sent t ++ e.op.sends.toList := by
  cases sends : e.op.sends <;> simp [sent, sends]

theorem sent_cons (e : Event (Op δ) Op.Res) (t : List (Event (Op δ) Op.Res)) :
    sent (e :: t) = e.op.sends.toList ++ sent t := by
  cases sends : e.op.sends <;> simp [sent, sends]

theorem tails_cons (e : Event (Op δ) Op.Res) (t : List (Event (Op δ) Op.Res)) :
    tails (e :: t) = e.op.moves.toList ++ tails t := by
  cases moves : e.op.moves <;> simp [tails, moves]

theorem tails_snoc (t : List (Event (Op δ) Op.Res)) (e : Event (Op δ) Op.Res) :
    tails (t ++ [e]) = tails t ++ e.op.moves.toList := by
  cases moves : e.op.moves <;> simp [tails, moves]

theorem silent_of_lock {op : Op Unit} (lock : op = .on () .lockBat ∨ op = .on () .unlockBat) :
    op.sends = none ∧ op.moves = none := by
  rcases lock with rfl | rfl <;> exact ⟨rfl, rfl⟩

end Events

/-- Entries are written one at a time, each in its place in the table and with the
    value it is to have. -/
def Posted (tableOffset entries : Nat) (op : Op Unit) : Prop :=
  ∀ i v off bytes, op = .on () (.writeAt (.batEntry i v) off bytes) →
    i < entries ∧ v < 2 ^ 32 ∧ off = tableOffset + i * 4 ∧ bytes = toBe 4 v

theorem posted_of_silent {a n : Nat} {op : Op Unit} (sends : op.sends = none) : Posted a n op := by
  rintro i v off bytes rfl
  cases sends

/-- The four bytes of entry `i` were written as `v`, and both the write and the
    flush behind it succeeded. -/
def Confirmed (tableOffset : Nat) (trace : List (Event (Op Unit) Op.Res)) (i v : Nat) : Prop :=
  v < 2 ^ 32 ∧ ∃ before after, trace = before ++
    ⟨.on () (.writeAt (.batEntry i v) (tableOffset + i * 4) (toBe 4 v)),
      (.ok () : Except FsCoreError Unit)⟩ ::
    ⟨.on () .flush, (.ok () : Except FsCoreError Unit)⟩ :: after

theorem Confirmed.append {t t' : List (Event (Op Unit) Op.Res)} {a i v : Nat} (h : Confirmed a t i v) :
    Confirmed a (t ++ t') i v := by
  obtain ⟨word, before, after, rfl⟩ := h
  exact ⟨word, before, after ++ t', by rw [List.append_assoc, List.cons_append, List.cons_append]⟩

theorem Confirmed.sent {t : List (Event (Op Unit) Op.Res)} {a i v : Nat} (h : Confirmed a t i v) :
    v ∈ sent t := by
  obtain ⟨word, before, after, rfl⟩ := h
  refine List.mem_filterMap.mpr ⟨_, List.mem_append_right _ List.mem_cons_self, ?_⟩
  exact congrArg some (ofBe_toBe (by omega))

/-- The values that name a range: those in the table at the open, then those
    sent. -/
def values (table : List Nat) (trace : List (Event (Op Unit) Op.Res)) : List Nat :=
  (table.filter fun e => decide (Live e)) ++ sent trace

theorem values_snoc (table : List Nat) (t : List (Event (Op Unit) Op.Res)) (e : Event (Op Unit) Op.Res) :
    values table (t ++ [e]) = values table t ++ e.op.sends.toList := by
  rw [values, values, sent_snoc, List.append_assoc]

/-- What holds of the cached table and the tail after the events of `trace`. -/
structure Handed (L : Layout) (table : List Nat) (start : Nat) (s : Image)
    (trace : List (Event (Op Unit) Op.Res)) (bat : List Nat) (off : Nat) : Prop where
  cached : s.bat = some bat
  tail : s.nextAllocOff = some off
  length : bat.length = L.entries
  apart : (values table trace).Pairwise fun a b => Apart L.blockTotal (hostOff a) (hostOff b)
  past : ∀ v ∈ values table trace, v < 2 ^ 32 ∧ hostOff v + L.blockTotal ≤ off
  entries : ∀ i e : Nat, bat[i]? = some e → table[i]? = some e ∨ Confirmed L.tableOffset trace i e
  posted : ∀ e ∈ trace, Posted L.tableOffset L.entries e.op
  rising : (start :: tails trace).Pairwise (· ≤ ·)
  last : (start :: tails trace).getLast? = some off
  room : off ≤ s.disk.size
  tableEnd : L.tableEnd ≤ s.disk.size

section Handed

variable {L : Layout} {table : List Nat} {start : Nat} {s : Image} {h : History}
  {trace : List (Event (Op Unit) Op.Res)} {bat : List Nat} {off : Nat} {pay : Nat → Option UInt8}
  {f : Faults}

theorem Handed.ready (handed : Handed L table start s trace bat off) : Ready L s := by
  refine ⟨⟨bat, handed.cached, handed.length, fun e member live => ?_⟩, ⟨off, handed.tail⟩,
    handed.tableEnd⟩
  obtain ⟨i, lt, rfl⟩ := List.getElem_of_mem member
  have value : bat[i] ∈ values table trace := by
    rcases handed.entries i _ (List.getElem?_eq_getElem lt) with old | new
    · exact List.mem_append_left _ (List.mem_filter.mpr ⟨List.mem_of_getElem? old, decide_eq_true live⟩)
    · exact List.mem_append_right _ new.sent
  obtain ⟨word, below⟩ := handed.past _ value
  exact ⟨word, Nat.le_trans below handed.room⟩

theorem Handed.posted_snoc (handed : Handed L table start s trace bat off) {e : Event (Op Unit) Op.Res}
    (last : Posted L.tableOffset L.entries e.op) :
    ∀ e' ∈ trace ++ [e], Posted L.tableOffset L.entries e'.op := by
  intro e' member
  rcases List.mem_append.mp member with earlier | here
  · exact handed.posted e' earlier
  · rw [List.mem_singleton.mp here]
    exact last

theorem Handed.quiet (handed : Handed L table start s trace bat off) {d : ByteStore}
    {e : Event (Op Unit) Op.Res} (sends : e.op.sends = none) (moves : e.op.moves = none)
    (grows : s.disk.size ≤ d.size) :
    Handed L table start { s with disk := d } (trace ++ [e]) bat off := by
  have all : values table (trace ++ [e]) = values table trace := by
    rw [values_snoc, sends, Option.toList_none, List.append_nil]
  have still : tails (trace ++ [e]) = tails trace := by
    rw [tails_snoc, moves, Option.toList_none, List.append_nil]
  exact ⟨handed.cached, handed.tail, handed.length, by rw [all]; exact handed.apart,
    by rw [all]; exact handed.past,
    fun i e entry => (handed.entries i e entry).imp_right Confirmed.append,
    handed.posted_snoc (posted_of_silent sends),
    by rw [still]; exact handed.rising, by rw [still]; exact handed.last,
    Nat.le_trans handed.room grows, Nat.le_trans handed.tableEnd grows⟩

/-- The range between a tail that has just moved and its old value belongs to no
    value yet. -/
def Vacant (L : Layout) (table : List Nat) (trace : List (Event (Op Unit) Op.Res)) (h : History)
    (off : Nat) : Prop :=
  ∀ r h', h = ⟨.on () (.setNextAllocOff off), r⟩ :: h' →
    ∃ origin, off = origin + L.blockTotal ∧
      ∀ v ∈ values table trace, hostOff v + L.blockTotal ≤ origin

theorem vacant_other {e : Event (Op Unit) Op.Res} (moves : e.op.moves = none) :
    Vacant L table trace (e :: h) off := by
  rintro r h' same
  injection same with event _
  rw [event] at moves
  cases moves

theorem Handed.commit (handed : Handed L table start s trace bat off) {r : Unit}
    (room : off + L.blockTotal ≤ s.disk.size) :
    Handed L table start { s with nextAllocOff := some (off + L.blockTotal) }
      (trace ++ [⟨.on () (.setNextAllocOff (off + L.blockTotal)), r⟩]) bat (off + L.blockTotal) := by
  have moved : start :: tails (trace ++ [⟨.on () (.setNextAllocOff (off + L.blockTotal)), r⟩]) =
      (start :: tails trace) ++ [off + L.blockTotal] := by
    rw [tails_snoc]
    rfl
  have all : values table (trace ++ [⟨.on () (.setNextAllocOff (off + L.blockTotal)), r⟩]) =
      values table trace := by
    rw [values_snoc]
    exact List.append_nil _
  refine ⟨handed.cached, rfl, handed.length, by rw [all]; exact handed.apart, fun v member => ?_,
    fun i e entry => (handed.entries i e entry).imp_right Confirmed.append,
    handed.posted_snoc (posted_of_silent rfl), ?_, ?_, room, handed.tableEnd⟩
  · rw [all] at member
    have below := handed.past v member
    exact ⟨below.1, by omega⟩
  · rw [moved, List.pairwise_append]
    refine ⟨handed.rising, List.pairwise_singleton _ _, fun a first b second => ?_⟩
    rw [List.mem_singleton] at second
    obtain ⟨before, whole⟩ := List.getLast?_eq_some_iff.mp handed.last
    have rising := handed.rising
    rw [whole] at first rising
    rcases List.mem_append.mp first with earlier | here
    · have le := (List.pairwise_append.mp rising).2.2 a earlier off (List.mem_singleton.mpr rfl)
      omega
    · rw [List.mem_singleton] at here
      omega
  · rw [moved, List.getLast?_append]
    rfl

theorem Handed.send (handed : Handed L table start s trace bat off) {i v : Nat}
    {d : ByteStore} {r : Except FsCoreError Unit} (index : i < L.entries) (word : v < 2 ^ 32)
    (fresh : ∀ u ∈ values table trace, hostOff u + L.blockTotal ≤ hostOff v)
    (below : hostOff v + L.blockTotal ≤ off) (size : d.size = s.disk.size) :
    Handed L table start { s with disk := d }
      (trace ++ [⟨.on () (.writeAt (.batEntry i v) (L.tableOffset + i * 4) (toBe 4 v)), r⟩]) bat
      off := by
  have all : values table (trace ++ [⟨.on () (.writeAt (.batEntry i v) (L.tableOffset + i * 4)
      (toBe 4 v)), r⟩]) = values table trace ++ [v] := by
    rw [values_snoc]
    show _ ++ [ofBe (toBe 4 v)] = _
    rw [ofBe_toBe (by omega)]
  have still : tails (trace ++ [⟨.on () (.writeAt (.batEntry i v) (L.tableOffset + i * 4)
      (toBe 4 v)), r⟩]) = tails trace := by
    rw [tails_snoc]
    exact List.append_nil _
  have posted : Posted L.tableOffset L.entries
      (.on () (.writeAt (.batEntry i v) (L.tableOffset + i * 4) (toBe 4 v))) := by
    rintro i v off bytes ⟨⟩
    exact ⟨index, word, rfl, rfl⟩
  refine ⟨handed.cached, handed.tail, handed.length, ?_, fun u member => ?_,
    fun i e entry => (handed.entries i e entry).imp_right Confirmed.append,
    handed.posted_snoc posted,
    by rw [still]; exact handed.rising, by rw [still]; exact handed.last,
    by rw [size]; exact handed.room, by rw [size]; exact handed.tableEnd⟩
  · rw [all, List.pairwise_append]
    refine ⟨handed.apart, List.pairwise_singleton _ _, fun u member w here => ?_⟩
    rw [List.mem_singleton.mp here]
    exact Or.inl (fresh u member)
  · rw [all] at member
    rcases List.mem_append.mp member with old | new
    · exact handed.past u old
    · rw [List.mem_singleton.mp new]
      exact ⟨word, below⟩

theorem Handed.publish (handed : Handed L table start s trace bat off) {i v : Nat} {r : Unit}
    (confirmed : Confirmed L.tableOffset trace i v) :
    Handed L table start { s with bat := some (bat.set i v) }
      (trace ++ [⟨.on () (.setBatEntry i v), r⟩]) (bat.set i v) off := by
  have base := handed.quiet (d := s.disk) (e := ⟨.on () (.setBatEntry i v), r⟩) rfl rfl (Nat.le_refl _)
  refine { base with cached := rfl, length := by rw [List.length_set]; exact handed.length,
                     entries := fun k e entry => ?_ }
  rw [List.getElem?_set] at entry
  split at entry
  · rename_i here
    subst here
    split at entry
    · cases entry
      exact Or.inr confirmed.append
    · cases entry
  · exact base.entries k e entry

theorem writeAt_leaves {x x' : Image × History} {role : WriteRole} {o : Nat} {bytes : Bytes}
    {r : Except FsCoreError Unit} (stepped : f.handler.traced x (.on () (.writeAt role o bytes)) r x') :
    ∃ d, x'.1 = { x.1 with disk := d } ∧ d.size = x.1.disk.size ∧
      x'.2 = ⟨.on () (.writeAt role o bytes), r⟩ :: x.2 := by
  have written : ∃ d, (x.1.step (.writeAt role o bytes)).2 = { x.1 with disk := d } ∧
      d.size = x.1.disk.size := by
    by_cases inside : o + bytes.length ≤ x.1.disk.size
    · exact ⟨_, congrArg Prod.snd (Image.step_writeAt inside), rfl⟩
    · refine ⟨x.1.disk, ?_, rfl⟩
      simp only [Image.step, if_neg inside]
  rcases Faults.handler_on stepped.1 with ideal | ⟨-, ⟨-, same⟩ | ⟨-, same⟩⟩
  · obtain ⟨d, left, size⟩ := written
    exact ⟨d, (congrArg Prod.snd ideal).trans left, size, stepped.2⟩
  · exact ⟨x.1.disk, same, rfl, stepped.2⟩
  · obtain ⟨d, left, size⟩ := written
    exact ⟨d, same.trans left, size, stepped.2⟩

/-- What is known between two operations of a call. -/
def Handing (L : Layout) (table : List Nat) (start : Nat) (x : Image × History) : Prop :=
  ∃ bat off, Handed L table start x.1 x.2.reverse bat off ∧ Vacant L table x.2.reverse x.2 off

section Step

variable {x x' : Image × History}

theorem Handed.still_step (handed : Handed L table start x.1 x.2.reverse bat off) {op : ImageOp}
    {r : op.Res} {d : ByteStore} (left : x'.1 = { x.1 with disk := d })
    (remembered : x'.2 = ⟨.on () op, r⟩ :: x.2) (grows : x.1.disk.size ≤ d.size)
    (sends : (Op.on () op).sends = none) (moves : (Op.on () op).moves = none) :
    Handing L table start x' := by
  refine ⟨bat, off, ?_, ?_⟩
  · rw [left, remembered, List.reverse_cons]
    exact handed.quiet sends moves grows
  · rw [remembered]
    exact vacant_other moves

theorem Handed.write_step (handed : Handed L table start x.1 x.2.reverse bat off) {role : WriteRole}
    {o : Nat} {bytes : Bytes} {r : Except FsCoreError Unit}
    (stepped : f.handler.traced x (.on () (.writeAt role o bytes)) r x')
    (sends : (Op.on () (.writeAt role o bytes)).sends = none) : Handing L table start x' := by
  obtain ⟨d, left, size, remembered⟩ := writeAt_leaves stepped
  exact handed.still_step left remembered (Nat.le_of_eq size.symm) sends rfl

theorem Handed.grow_step (handed : Handed L table start x.1 x.2.reverse bat off) {n : Nat}
    {r : Except FsCoreError Unit} (fits : n < 2 ^ 64) (short : x.1.disk.size ≤ n)
    (stepped : f.handler.traced x (.on () (.setLen n)) r x') : Handing L table start x' := by
  rcases Faults.handler_on stepped.1 with ideal | ⟨-, ⟨-, left⟩ | ⟨-, left⟩⟩
  · exact handed.still_step ((congrArg Prod.snd ideal).trans (congrArg Prod.snd (Image.step_setLen fits)))
      stepped.2 short rfl rfl
  · exact handed.still_step left stepped.2 (Nat.le_refl _) rfl rfl
  · exact handed.still_step (left.trans (congrArg Prod.snd (Image.step_setLen fits))) stepped.2 short
      rfl rfl

theorem Handed.commit_step (handed : Handed L table start x.1 x.2.reverse bat off) {r : Unit}
    (room : off + L.blockTotal ≤ x.1.disk.size)
    (stepped : f.handler.traced x (.on () (.setNextAllocOff (off + L.blockTotal))) r x') :
    Handing L table start x' := by
  have remembered := stepped.2
  have left := congrArg Prod.fst (Faults.traced_firm (.setNextAllocOff (off + L.blockTotal))
    (fun _ no => no) stepped).2
  refine ⟨bat, off + L.blockTotal, ?_, ?_⟩
  · rw [left, remembered, List.reverse_cons]
    exact handed.commit room
  · rw [remembered, List.reverse_cons]
    rintro r' h' -
    refine ⟨off, rfl, fun v member => ?_⟩
    have all : values table (x.2.reverse ++ [⟨.on () (.setNextAllocOff (off + L.blockTotal)), r⟩]) =
        values table x.2.reverse := by
      rw [values_snoc]
      exact List.append_nil _
    rw [all] at member
    exact (handed.past v member).2

theorem Handed.send_step {origin i : Nat} {r : Except FsCoreError Unit} (index : i < L.entries)
    (handed : Handed L table start x.1 x.2.reverse bat (origin + L.blockTotal))
    (free : ∀ v ∈ values table x.2.reverse, hostOff v + L.blockTotal ≤ origin)
    (nameable : Nameable origin)
    (stepped : f.handler.traced x (.on () (.writeAt (.batEntry i (origin / 512)) (L.tableOffset + i * 4)
      (toBe 4 (origin / 512)))) r x') :
    Handing L table start x' := by
  have word := nameable.below
  have named := nameable.hostOff
  obtain ⟨d, left, size, remembered⟩ := writeAt_leaves stepped
  refine ⟨bat, origin + L.blockTotal, ?_, ?_⟩
  · rw [left, remembered, List.reverse_cons]
    refine handed.send index ?_ ?_ ?_ size
    · unfold batUnallocated at word
      omega
    · rw [named]
      exact free
    · rw [named]
  · rw [remembered]
    exact vacant_other rfl

theorem Handed.publish_step (handed : Handed L table start x.1 x.2.reverse bat off) {i v : Nat}
    {r : Unit} (confirmed : Confirmed L.tableOffset x.2.reverse i v)
    (stepped : f.handler.traced x (.on () (.setBatEntry i v)) r x') : Handing L table start x' := by
  have left := congrArg Prod.fst (Faults.traced_firm (.setBatEntry i v) (fun _ no => no) stepped).2
  refine ⟨bat.set i v, off, ?_, ?_⟩
  · have is : (x.1.step (.setBatEntry i v)).2 = { x.1 with bat := some (bat.set i v) } := by
      simp only [Image.step, handed.cached, Option.map_some]
    rw [left, stepped.2, List.reverse_cons, is]
    exact handed.publish confirmed
  · rw [stepped.2]
    exact vacant_other rfl

/-- An operation of a write, whatever comes of it. -/
theorem Handed.step {op : ImageOp} {r : op.Res}
    (handed : Handed L table start x.1 x.2.reverse bat off)
    (vacant : Vacant L table x.2.reverse x.2 off) (permitted : Permitted L pay x op)
    (stepped : f.handler.traced x (.on () op) r x') : Handing L table start x' := by
  cases permitted with
  | look quiet =>
      have left : x'.1 = { x.1 with disk := x.1.disk } :=
        (Faults.handler_quiet op (quiet_step quiet) stepped.1).1
      cases op <;> first
        | exact handed.still_step left stepped.2 (Nat.le_refl _) rfl rfl
        | exact quiet.elim
  | @grow s h i at_ wanted tail nameable short =>
      have low := nameable.lt
      have small := L.blockTotal_lt
      exact handed.grow_step (by omega) (Nat.le_of_lt short) stepped
  | footer wanted tail nameable room => exact handed.write_step stepped rfl
  | zero wanted tail nameable footed inside => exact handed.write_step stepped rfl
  | @commit s h i at_ wanted tail nameable fresh =>
      obtain rfl : at_ = off := Option.some.inj (tail.symm.trans handed.tail)
      have room := fresh.room
      exact handed.commit_step (by simp only; omega) stepped
  | @entry s h i at_ r' wanted tail nameable fresh =>
      obtain rfl : at_ + L.blockTotal = off := Option.some.inj (tail.symm.trans handed.tail)
      obtain ⟨origin, moved, free⟩ := vacant r' h rfl
      obtain rfl : origin = at_ := by omega
      exact handed.send_step wanted.index free nameable stepped
  | @publish s h i at_ wanted nameable stored =>
      have word := nameable.below
      refine handed.publish_step ⟨by unfold batUnallocated at word; omega, h.reverse, [], ?_⟩ stepped
      rw [List.reverse_cons, List.reverse_cons, List.append_assoc]
      rfl
  | fill named sector absent low high => exact handed.write_step stepped rfl
  | payload named inside carries => exact handed.write_step stepped rfl
  | bitmap named length kept defined => exact handed.write_step stepped rfl

end Step

/-- A call of `write_at` on any image that opened, through any failure. -/
theorem rangesRule {offset : Nat} {buf : Bytes} :
    WriteRule L f offset buf f.handler.traced
      (fun _ x => ∃ bat off, Handed L table start x.1 x.2.reverse bat off)
      (fun _ _ x => Handing L table start x)
      (fun _ x => ∃ bat off, Handed L table start x.1 x.2.reverse bat off) := by
  have lock {x x' : Image × History} (op : ImageOp) {r : op.Res} (quiet : (x.1.step op).2 = x.1)
      (firm : ∀ r, ¬ op.Refused r) (sends : (Op.on () op).sends = none)
      (moves : (Op.on () op).moves = none)
      (known : ∃ bat off, Handed L table start x.1 x.2.reverse bat off)
      (stepped : f.handler.traced x (.on () op) r x') :
      x'.1 = x.1 ∧ Handing L table start x' := by
    obtain ⟨bat, off, handed⟩ := known
    have left : x'.1 = x.1 := (congrArg Prod.fst (Faults.traced_firm op firm stepped).2).trans quiet
    exact ⟨left, handed.still_step (d := x.1.disk) left stepped.2 (Nat.le_refl _) sends moves⟩
  constructor
  case enter =>
    intro c x r x' known _ stepped
    obtain ⟨left, bat, off, handed, vacant⟩ :=
      lock .lockBat rfl (fun _ no => no) rfl rfl known stepped
    refine ⟨?_, handed.ready, bat, off, handed, vacant⟩
    rw [left]
    exact (Faults.traced_lock stepped).1
  case inside => exact fun c x₀ x op r x' _ _ stepped => stepped
  case kept =>
    rintro c x₀ x op r x' ⟨bat, off, handed, vacant⟩ permitted stepped _
    exact handed.step vacant permitted stepped
  case done =>
    rintro c y q x₀ x src _ _ ⟨bat, off, handed, -⟩ _ _ _ _ _
    exact ⟨bat, off, handed⟩
  case leave =>
    intro c x r x' known stepped
    obtain ⟨-, bat, off, handed, -⟩ :=
      lock .unlockBat rfl (fun _ no => no) rfl rfl known stepped
    exact ⟨bat, off, handed⟩
  case fail =>
    rintro c x₀ x e r x' ⟨bat, off, handed, -⟩ _ stepped
    obtain ⟨-, bat', off', handed', -⟩ :=
      lock .unlockBat rfl (fun _ no => no) rfl rfl ⟨bat, off, handed⟩ stepped
    exact ⟨bat', off', handed'⟩

end Handed

end ImgVhd
