import ImgVhd.Results.Crash
import ImgVhd.Session.Order

/-! # Every touched block takes its room once

On an ideal device, in any session whose writes all return, the blocks stand one
behind the other in the order they were first written, with nothing before or
after them but the metadata and the footer.
-/

namespace ImgVhd

open Foundation

/-- The blocks the writes of a log reached, in the order they first did. -/
def touched (blockSize : Nat) (log : List Attempt) : List Nat :=
  (log.reverse.flatMap fun a => blocksOf blockSize a.offset a.buf.length).eraseDups

section Space

variable {L : Layout} {order : List Nat} {s : Image} {bat : List Nat} {off : Nat} {log : List Attempt}

theorem mem_touched {bs k : Nat} :
    k ∈ touched bs log ↔
      ∃ a ∈ log, ∃ b, a.offset ≤ b ∧ b < a.offset + a.buf.length ∧ b / bs = k := by
  simp only [touched, List.mem_eraseDups, List.mem_flatMap, List.mem_reverse, blocksOf, List.mem_map,
    List.mem_range]
  constructor
  · rintro ⟨a, member, i, lt, rfl⟩
    exact ⟨a, member, a.offset + i, Nat.le_add_right _ _, by omega, rfl⟩
  · rintro ⟨a, member, b, low, high, rfl⟩
    exact ⟨a, member, b - a.offset, by omega, by rw [Nat.add_sub_cancel' low]⟩

/-- A session at rest has its blocks packed. -/
theorem Session.packed {r₀ : VhdReader Unit} {s₀ : Image} {off₀ : Nat} {last : Option (VhdReader Unit)}
    (created : Created L s₀ off₀) (reader : r₀ = .base (L.core () true false))
    (session : Session .none (r₀, s₀) log last s) (done : ∀ a ∈ log, a.done = true) :
    (∃ bat off, InOrder L log s bat off ∧ Packed L (touched L.blockSize log) s bat) ∧
      ∀ r, last = some r → ∃ fm, r = .base (L.core () true fm) := by
  refine session.keeps (K := fun log => ∀ a ∈ log, a.done = true)
    (I := fun log s => ∃ bat off, InOrder L log s bat off ∧ Packed L (touched L.blockSize log) s bat)
    done (fun late log done a member => done a (List.mem_append_right late member))
    ⟨_, _, created.in_order, created.packed⟩ ⟨false, reader⟩ ?_ ?_
  · rintro log _ s call t p s' done ⟨bat, off, order, packed⟩ ⟨fm, rfl⟩ inside run
    cases call with
    | read offset buf =>
        rw [read_cut order.sound.ready inside run]
        exact ⟨bat, off, order, packed⟩
    | write offset buf =>
        have returned : succeeded p = true := done _ (List.mem_append_left _ List.mem_cons_self)
        obtain ⟨bat', off', order'⟩ := order.written created.clear created.dynamic inside run
          (succeeded_iff.mp returned)
        cases p with
        | call op next => cases returned
        | ret out =>
            rcases packed.call created.clear (trail_atFooter L) created.dynamic inside order.sound
              ⟨order.aligned, Or.inl order.rest⟩ run with ⟨-, bat₁, packed'⟩ | ⟨e, rfl, -⟩
            · obtain rfl := Option.some.inj (packed'.cached.symm.trans order'.sound.cached)
              rw [returned]
              refine ⟨bat₁, off', order', ?_⟩
              unfold touched
              simp only [Call.attempts, List.singleton_append, List.reverse_cons, List.flatMap_append,
                List.flatMap_cons, List.flatMap_nil, List.append_nil]
              exact packed'
            · cases returned
  · rintro log s how t p s' ⟨bat, off, order, packed⟩ run
    rcases reopen_cut order.opens created.dynamic run with ⟨none_, same⟩ | ⟨some_, same⟩
    · rw [none_, same]
      exact ⟨⟨bat, off, order, packed⟩, fun r is => by cases is⟩
    · rw [some_, same]
      have table := packed.table order.sound
      refine ⟨⟨bat, off, table ▸ order.reopened, congrArg some table, packed.length, packed.placed,
        packed.free, ?_⟩, fun r is => ⟨false, (Option.some.inj is).symm⟩⟩
      rw [← packed.tail, order.sound.tail]
      rfl

/-- Of `k` blocks that were reached, exactly those have entries, they stand packed
    in the order they were first reached from where the table's last sector ends,
    and the file ends behind them in the copy of the footer. -/
theorem space_is_used_once {env : BuildEnv} {path : Path} {size bs : Nat} {s₀ s₁ : Image}
    {r₀ : VhdReader Unit} {t : List (Event (Op Unit) Op.Res)} {last : Option (VhdReader Unit)}
    (word : bs < 2 ^ 32)
    (create : Prog.Runs Faults.none.handler (createDynamic env path size bs) s₀ t (.ret (.ok r₀)) s₁)
    (session : Session .none (r₀, s₁) log last s) (done : ∀ a ∈ log, a.done = true) :
    ∃ hdr bat start total, r₀.core.dynamic = some hdr ∧
      bat = decodeBat (s.disk.read hdr.tableOffset (hdr.maxTableEntries * 4)) ∧
      start = divCeil (hdr.tableOffset + hdr.maxTableEntries * 4) sectorSize * sectorSize ∧
      total = r₀.core.bitmapSize + bs ∧
      (touched bs log).Nodup ∧
      (∀ k, k ∈ touched bs log ↔
        ∃ a ∈ log, ∃ b, a.offset ≤ b ∧ b < a.offset + a.buf.length ∧ b / bs = k) ∧
      (∀ k e : Nat, bat[k]? = some e → (e ≠ batUnallocated ↔ k ∈ touched bs log)) ∧
      (∀ j k : Nat, (touched bs log)[j]? = some k →
        ∃ e, bat[k]? = some e ∧ hostOff e = start + j * total) ∧
      s.disk.size = start + (touched bs log).length * total + 512 ∧
      s.disk.read (s.disk.size - 512) 512 = s.disk.read 0 512 := by
  obtain ⟨L, off₀, created, rfl, rfl, -⟩ := createDynamic_created word create
  obtain ⟨⟨bat, off, order, packed⟩, -⟩ := session.packed created rfl done
  obtain ⟨⟨bat₂, off₂, durable⟩, -⟩ := session.durable created rfl
  have table := packed.table order.sound
  have start : L.dataStart = divCeil (L.header.tableOffset + L.header.maxTableEntries * 4) sectorSize *
      sectorSize := created.dataStart.trans created.snug
  have top := Option.some.inj (order.sound.tail.symm.trans packed.tail)
  refine ⟨L.header, bat, L.dataStart, L.blockTotal, rfl, table.symm, start, rfl, nodup_eraseDups _,
    fun k => mem_touched, fun k e entry => packed.live_iff entry, fun j k there => ?_, ?_, ?_⟩
  · obtain ⟨e, entry, -, place⟩ := packed.placed j k there
    exact ⟨e, entry, place⟩
  · rw [order.rest.1, top]
  · rw [order.rest.1, Nat.add_sub_cancel, order.rest.2, durable.mirror]

/-- A write across the first two blocks of the small disk makes room for them, in
    that order. -/
theorem small_disk_packs_two_blocks : ∃ (s : Image) (bat : List Nat) (start : Nat),
    s.disk.size = start + 2 * 1024 + 512 ∧
    (∃ e, bat[0]? = some e ∧ hostOff e = start + 0 * 1024) ∧
    (∃ e, bat[1]? = some e ∧ hostOff e = start + 1 * 1024) ∧
    ∀ k e : Nat, bat[k]? = some e → (e ≠ batUnallocated ↔ k ∈ [0, 1]) := by
  obtain ⟨buf, -, length⟩ := small_buffer
  obtain ⟨t₀, L, s₁, off, t₁, s₂, create, -, size, block, run⟩ := small_written length
  have session := Session.written (show 300 + buf.length ≤ L.virtualSize by omega) run
  obtain ⟨hdr, bat, start, total, -, -, -, whole, -, -, entries, placed, long, -⟩ :=
    space_is_used_once (by decide) create session fun a member => by
      cases List.mem_singleton.mp member
      rfl
  have order : touched 512 [⟨300, buf, succeeded (.ret (.ok ()))⟩] = [0, 1] := by
    simp only [touched, List.reverse_singleton, List.flatMap_singleton, length]
    decide +kernel
  have total' : total = 1024 := by
    rw [whole, show (VhdReader.base (L.core () true false)).core.bitmapSize = bitmapSizeFor L.blockSize
      from rfl, block]
    decide
  rw [order, total'] at long
  rw [order] at entries placed
  rw [total'] at placed
  exact ⟨s₂, bat, start, long, placed 0 0 rfl, placed 1 1 rfl, entries⟩

end Space

end ImgVhd
