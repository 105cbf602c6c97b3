import ImgVhd.Session.Burst
import ImgVhd.Session.Order
import ImgVhd.Writing.Ranges

/-! # No host range is handed out twice

Through any failures of any operations, with or without their effect, and
wherever the last call is cut.
-/

namespace ImgVhd

open Foundation

section HostRanges

variable {L : Layout} {table : List Nat} {start : Nat} {f : Faults} {s s₀ s₁ s₂ : Image} {fm : Bool}
  {log : List Attempt} {trace t t' : List (Event (Op Unit) Op.Res)} {bat : List Nat} {off : Nat}
  {r : VhdReader Unit} {offset : Nat} {buf : Bytes} {p : Io Unit Unit}

/-- Every value in the table at the open and every value sent names its own
    range, below a tail that only rises, and what is cached was there at the open
    or is confirmed. Values are sent as entries of the table only. -/
theorem host_ranges_are_handed_out_once
    (opened : Prog.Runs f.handler (VhdReader.openRwOnDevice ()) s t (.ret (.ok r)) s₀)
    (dynamic : r.diskType = .dynamic) (burst : Burst f r s₀ log trace s₁)
    (run : Prog.Runs f.handler (r.writeAt offset buf) s₁ t' p s₂) :
    ∃ hdr table start bat off, r.core.dynamic = some hdr ∧
      table = decodeBat (s.disk.read hdr.tableOffset (hdr.maxTableEntries * 4)) ∧
      s₀.bat = some table ∧ s₀.nextAllocOff = some start ∧
      s₂.bat = some bat ∧ s₂.nextAllocOff = some off ∧
      (values table (trace ++ t')).Pairwise
        (fun a b => Apart (r.core.bitmapSize + hdr.blockSize) (hostOff a) (hostOff b)) ∧
      (∀ v ∈ values table (trace ++ t'), hostOff v + (r.core.bitmapSize + hdr.blockSize) ≤ off) ∧
      (start :: tails (trace ++ t')).Pairwise (· ≤ ·) ∧
      (start :: tails (trace ++ t')).getLast? = some off ∧
      (∀ i e : Nat, bat[i]? = some e →
        table[i]? = some e ∨ Confirmed hdr.tableOffset (trace ++ t') i e) ∧
      ∀ e ∈ trace ++ t', Posted hdr.tableOffset hdr.maxTableEntries e.op := by
  obtain ⟨L, fm, dataEnd, start, opens, kind, rfl, rfl⟩ :=
    (openRwOnDevice_opened opened).layout dynamic
  obtain ⟨bat₁, off₁, handed₁⟩ := burst.handed kind opens.handed
  obtain ⟨bat, off, handed⟩ := handed₁.call kind run
  exact ⟨L.header, L.table s.disk, start, bat, off, rfl, rfl, rfl, rfl, handed.cached, handed.tail,
    handed.apart, fun v member => (handed.past v member).2, handed.rising, handed.last, handed.entries,
    handed.posted⟩

/-- A write across two blocks of the small disk sends the values of two ranges, one
    behind the other. -/
theorem small_disk_hands_out_once : ∃ (r : VhdReader Unit) (s₀ s₁ : Image) (log : List Attempt)
    (trace : List (Event (Op Unit) Op.Res)) (table : List Nat) (at_ e₀ e₁ : Nat),
    Burst .any r s₀ log trace s₁ ∧ log.length = 1 ∧ s₀.bat = some table ∧
    Confirmed at_ trace 0 e₀ ∧ Confirmed at_ trace 1 e₁ ∧ hostOff e₁ = hostOff e₀ + 1024 ∧
    (values table trace).Pairwise fun a b => Apart 1024 (hostOff a) (hostOff b) := by
  obtain ⟨buf, -, length⟩ := small_buffer
  obtain ⟨-, L, s₀, off₀, t, s₁, bat, off, -, created, write, filled⟩ := small_filled length
  have write := write.mono fun _ _ _ _ => ideal_allowed .any
  have block := filled.block
  obtain ⟨t', again⟩ := reopen_runs .any none created.opens created.dynamic
  rw [← created.image] at again
  obtain ⟨hdr, table, start, bat', last, same, -, cached, -, cached', -, apart, -, -, -, entries, -⟩ :=
    host_ranges_are_handed_out_once again created.dynamic (.write .start write)
      (Prog.Runs.here (p := (VhdReader.base (L.core () true false)).writeAt 0 []))
  cases same
  obtain rfl := Option.some.inj (cached'.symm.trans filled.packed.cached)
  have total : L.blockTotal = 1024 := by
    rw [L.blockTotal_eq, block, show L.bitmapSize = bitmapSizeFor L.blockSize from rfl, block]
    decide
  obtain rfl : L.table s₀.disk = table := by
    rw [created.image] at cached
    exact Option.some.inj cached
  -- no entry was there at the open, so each of the two was sent
  have confirmed {j e : Nat} (entry : bat'[j]? = some e) (live : Live e) :
      Confirmed L.tableOffset ([] ++ t ++ []) j e :=
    (entries j e entry).resolve_left fun old => live (created.empty e (List.mem_of_getElem? old))
  obtain ⟨e₀, entry₀, live₀, place₀⟩ := filled.packed.placed 0 0 rfl
  obtain ⟨e₁, entry₁, live₁, place₁⟩ := filled.packed.placed 1 1 rfl
  have sent₀ := confirmed entry₀ live₀
  have sent₁ := confirmed entry₁ live₁
  rw [show (VhdReader.base (L.core () true false)).core.bitmapSize + L.header.blockSize = 1024 from
    total, List.append_nil] at apart
  rw [List.append_nil] at sent₀ sent₁
  exact ⟨_, _, _, _, _, L.table s₀.disk, L.tableOffset, e₀, e₁, .write .start write, rfl, cached,
    sent₀, sent₁, by omega, apart⟩

end HostRanges

end ImgVhd
