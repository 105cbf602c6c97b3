import ImgVhd.Foundation.Liberal
import ImgVhd.Foundation.Bytes

/-! # Content that is not safe yet

A meaning of an interface whose content may sit in a volatile cache: beside the
state it keeps every content since an operation settled it. What a power loss
leaves of a store then has each cell as one of these contents had it, in any
mixture.
-/

namespace ImgVhd.Foundation

section Volatile

variable {σ D Op : Type} {Res : Op → Type} {R : Handler σ Op Res} {content : σ → D}
  {settles : Event Op Res → Prop}

/-- The contents since the last event that settled, newest first. -/
def Handler.volatile (R : Handler σ Op Res) (content : σ → D) (settles : Event Op Res → Prop) :
    Handler (σ × List D) Op Res :=
  fun x op r x' => R x.1 op r x'.1 ∧
    ((settles ⟨op, r⟩ ∧ x'.2 = [content x'.1]) ∨
      (¬ settles ⟨op, r⟩ ∧ x'.2 = content x'.1 :: x.2))

variable {x x' : σ × List D} {op : Op} {r : Res op}

theorem Handler.volatile_here (stepped : R.volatile content settles x op r x') :
    content x'.1 ∈ x'.2 := by
  rcases stepped.2 with ⟨-, same⟩ | ⟨-, same⟩ <;> simp [same]

theorem Handler.volatile_subset (stepped : R.volatile content settles x op r x') :
    ∀ d ∈ x'.2, d = content x'.1 ∨ d ∈ x.2 := by
  intro d member
  rcases stepped.2 with ⟨-, same⟩ | ⟨-, same⟩
  · rw [same] at member
    exact Or.inl (List.mem_singleton.mp member)
  · rw [same] at member
    exact List.mem_cons.mp member

theorem Handler.volatile_agrees {κ : Type} (key : D → κ) {unsettles : Op → Prop}
    {h : List (Event Op Res)}
    (still : ∀ s op r s', ¬ unsettles op → R s op r s' → key (content s') = key (content s))
    (agrees : Since settles unsettles h → ∀ d ∈ x.2, key d = key (content x.1))
    (stepped : R.volatile content settles x op r x') :
    Since settles unsettles (⟨op, r⟩ :: h) → ∀ d ∈ x'.2, key d = key (content x'.1) := by
  intro since d member
  rcases stepped.2 with ⟨-, same⟩ | ⟨unsettled, same⟩
  · rw [same] at member
    rw [List.mem_singleton.mp member]
  · obtain ⟨quiet, since⟩ := since.resolve_left unsettled
    have kept := still _ _ _ _ quiet stepped.1
    rw [same] at member
    rcases List.mem_cons.mp member with rfl | earlier
    · rfl
    · rw [kept]
      exact agrees since d earlier

theorem Prog.Runs.volatile {α : Type} {p p' : Prog Op Res α} {s s' : σ} {t} {H : List D}
    (content : σ → D) (settles : Event Op Res → Prop) (run : Prog.Runs R p s t p' s') (here : content s ∈ H) :
    ∃ H', content s' ∈ H' ∧ Prog.Runs (R.volatile content settles) p (s, H) t p' (s', H') := by
  induction run generalizing H with
  | here => exact ⟨H, here, .here⟩
  | @step op next s r s₁ _ _ _ allowed _ ih =>
      by_cases settled : settles ⟨op, r⟩
      · obtain ⟨H', last, rest⟩ := ih (List.mem_singleton.mpr rfl)
        exact ⟨H', last, .step ⟨allowed, Or.inl ⟨settled, rfl⟩⟩ rest⟩
      · obtain ⟨H', last, rest⟩ := ih List.mem_cons_self
        exact ⟨H', last, .step ⟨allowed, Or.inr ⟨settled, rfl⟩⟩ rest⟩

theorem Prog.Runs.stale {α : Type} {p p' : Prog Op Res α} {s s' : σ} {t} {H : List D}
    (run : Prog.Runs R p s t p' s')
    (still : ∀ s op r s', R s op r s' → settles ⟨op, r⟩ → content s' = content s)
    (changed : content s' ≠ content s) (here : content s ∈ H) : ∃ t₁ q x,
      Prog.Runs (R.volatile content settles) p (s, H) t₁ q x ∧
      content x.1 ≠ content s ∧ content s ∈ x.2 := by
  induction run generalizing H with
  | here => exact absurd rfl changed
  | @step op next s r s₁ _ _ _ allowed _ ih =>
      by_cases settled : settles ⟨op, r⟩
      · have same := still _ _ _ _ allowed settled
        rw [← same] at changed ⊢
        obtain ⟨t₁, q, x, rest, new, old⟩ := ih changed (List.mem_singleton.mpr rfl)
        exact ⟨_, q, x, .step ⟨allowed, Or.inl ⟨settled, rfl⟩⟩ rest, new, old⟩
      · by_cases same : content s₁ = content s
        · rw [← same] at changed ⊢
          obtain ⟨t₁, q, x, rest, new, old⟩ := ih changed List.mem_cons_self
          exact ⟨_, q, x, .step ⟨allowed, Or.inr ⟨settled, rfl⟩⟩ rest, new, old⟩
        · exact ⟨_, _, (s₁, content s₁ :: H), .step ⟨allowed, Or.inr ⟨settled, rfl⟩⟩ .here, same,
            List.mem_cons_of_mem _ here⟩

theorem Prog.Runs.unsettled {α : Type} {p p' : Prog Op Res α} {s s' : σ} {t} {H : List D}
    (run : Prog.Runs R p s t p' s')
    (still : ∀ s op r s', R s op r s' → settles ⟨op, r⟩ → content s' = content s)
    (changed : content s' ≠ content s) (here : content s ∈ H) : ∃ t₁ q x t₂ d,
      Prog.Runs (R.volatile content settles) p (s, H) t₁ q x ∧ Prog.Runs R q x.1 t₂ p' s' ∧
      content x.1 = content s' ∧ content x.1 ∈ x.2 ∧ d ∈ x.2 ∧ d ≠ content s' := by
  induction run generalizing H with
  | here => exact absurd rfl changed
  | @step op next s r s₁ _ _ s' allowed rest ih =>
      by_cases last : content s₁ = content s'
      · have unsettled : ¬ settles ⟨op, r⟩ := fun settled =>
          changed (last.symm.trans (still _ _ _ _ allowed settled))
        exact ⟨_, _, (s₁, content s₁ :: H), _, content s, .step ⟨allowed, Or.inr ⟨unsettled, rfl⟩⟩ .here,
          rest, last, List.mem_cons_self, List.mem_cons_of_mem _ here, Ne.symm changed⟩
      · obtain ⟨H₁, here₁, ends⟩ : ∃ H₁, content s₁ ∈ H₁ ∧
            R.volatile content settles (s, H) op r (s₁, H₁) := by
          by_cases settled : settles ⟨op, r⟩
          · exact ⟨_, List.mem_singleton.mpr rfl, allowed, Or.inl ⟨settled, rfl⟩⟩
          · exact ⟨_, List.mem_cons_self, allowed, Or.inr ⟨settled, rfl⟩⟩
        obtain ⟨t₁, q, x, t₂, d, cut, rest', same, there, member, other⟩ :=
          ih (fun same => last same.symm) here₁
        exact ⟨_, q, x, t₂, d, .step ends cut, rest', same, there, member, other⟩

end Volatile

namespace ByteStore

/-- What a power loss may leave of the stores in `H`: a size that one of them had,
    and each cell of `cell` bytes as one of them had it. -/
structure Survives (cell : Nat) (H : List ByteStore) (d : ByteStore) : Prop where
  size : ∃ e ∈ H, d.size = e.size
  cells : ∀ k, ∃ e ∈ H, ∀ x, x / cell = k → x < d.size → d.byte x = e.byte x

variable {cell : Nat} {H : List ByteStore} {d : ByteStore}

theorem Survives.self (member : d ∈ H) : d.Survives cell H :=
  ⟨⟨d, member, rfl⟩, fun _ => ⟨d, member, fun _ _ _ => rfl⟩⟩

theorem Survives.finer {cell' : Nat} (survives : d.Survives (cell * cell') H) :
    d.Survives cell H := by
  refine ⟨survives.size, fun k => ?_⟩
  obtain ⟨e, member, same⟩ := survives.cells (k / cell')
  refine ⟨e, member, fun x here inside => same x ?_ inside⟩
  rw [← Nat.div_div_eq_div_mul, here]

theorem Survives.byte {x : Nat} (survives : d.Survives cell H) (inside : x < d.size) :
    ∃ e ∈ H, d.byte x = e.byte x := by
  obtain ⟨e, member, same⟩ := survives.cells (x / cell)
  exact ⟨e, member, same x rfl inside⟩

theorem Survives.settled {e : ByteStore} (survives : d.Survives cell H) (settled : ∀ e' ∈ H, e' = e) : d = e := by
  obtain ⟨e', member, size⟩ := survives.size
  rw [settled e' member] at size
  refine ByteStore.ext size fun x => ?_
  by_cases inside : x < d.size
  · obtain ⟨e', member, same⟩ := survives.byte inside
    rw [same, settled e' member]
  · rw [d.beyond x (by omega), e.beyond x (by omega)]

theorem Survives.read {k : Nat} (off len : Nat) (survives : d.Survives cell H)
    (inside : off + len ≤ d.size) (one : ∀ j < len, (off + j) / cell = k) :
    ∃ e ∈ H, d.read off len = e.read off len := by
  obtain ⟨e, member, same⟩ := survives.cells k
  exact ⟨e, member, read_congr fun j lt => same _ (one j lt) (by omega)⟩

theorem Survives.read_same {off len : Nat} {e : ByteStore} (survives : d.Survives cell H)
    (inside : off + len ≤ d.size)
    (agree : ∀ e' ∈ H, ∀ j < len, e'.byte (off + j) = e.byte (off + j)) :
    d.read off len = e.read off len := by
  refine read_congr fun j lt => ?_
  obtain ⟨e', member, same⟩ := survives.cells ((off + j) / cell)
  exact (same _ rfl (by omega)).trans (agree e' member j lt)

/-! ## A store that is being laid out -/

/-- The store `e` on the way from nothing to `d`: it has no length or all of it,
    and each cell is blank or as in `d`. -/
structure Partly (cell : Nat) (d e : ByteStore) : Prop where
  size : e.size = 0 ∨ e.size = d.size
  cells : ∀ k, (∀ x, x / cell = k → e.byte x = 0) ∨ (∀ x, x / cell = k → e.byte x = d.byte x)

theorem Partly.empty : Partly cell d .empty := ⟨Or.inl rfl, fun _ => Or.inl fun _ _ => rfl⟩

theorem Partly.sized {e : ByteStore} (partly : Partly cell d e) :
    Partly cell d (e.resize d.size d.size_lt) := by
  have le : e.size ≤ d.size := by
    rcases partly.size with none_ | all <;> omega
  refine ⟨Or.inr rfl, fun k => (partly.cells k).imp ?_ ?_⟩
  · intro blank x at_
    rw [byte_resize le]
    exact blank x at_
  · intro same x at_
    rw [byte_resize le]
    exact same x at_

/-- Whole cells are laid out. -/
theorem Partly.write {e : ByteStore} {off len : Nat} (partly : Partly cell d e) (start : off % cell = 0)
    (whole : len % cell = 0) (inside : off + len ≤ e.size) : Partly cell d (e.write off (d.read off len)) := by
  refine ⟨partly.size, fun k => ?_⟩
  have first : cell * (off / cell) = off := Nat.mul_div_cancel' (Nat.dvd_of_mod_eq_zero start)
  have last : cell * ((off + len) / cell) = off + len := Nat.mul_div_cancel'
    (Nat.dvd_of_mod_eq_zero (by rw [Nat.add_mod, start, whole, Nat.add_zero, Nat.zero_mod]))
  by_cases within : off / cell ≤ k ∧ k < (off + len) / cell
  · refine Or.inr fun x at_ => ?_
    have below : off ≤ x := by
      have lower := Nat.mul_le_mul_left cell (show off / cell ≤ x / cell by omega)
      have := Nat.mul_div_le x cell
      omega
    have above : x < off + len := by
      by_contra past
      have := Nat.div_le_div_right (c := cell) (Nat.not_lt.mp past)
      omega
    rw [byte_write_inside (by simpa using inside) below (by simpa using above)]
    have at' : (d.read off len)[x - off]? = some (d.byte (off + (x - off))) := getElem?_read (by omega)
    rw [List.getD_eq_getElem?_getD, at', show off + (x - off) = x by omega]
    rfl
  · have outside (x : Nat) (at_ : x / cell = k) : x < off ∨ off + (d.read off len).length ≤ x := by
      rw [length_read]
      by_contra inner
      have lower : off / cell ≤ x / cell := Nat.div_le_div_right (by omega)
      have upper : x / cell < (off + len) / cell := by
        by_contra past
        have := Nat.mul_le_mul_left cell (Nat.not_lt.mp past)
        have := Nat.mul_div_le x cell
        omega
      omega
    refine (partly.cells k).imp ?_ ?_
    · intro blank x at_
      rw [byte_write_outside (outside x at_)]
      exact blank x at_
    · intro same x at_
      rw [byte_write_outside (outside x at_)]
      exact same x at_

theorem Survives.partly {s : ByteStore} (survives : s.Survives cell H) (ways : ∀ e ∈ H, Partly cell d e) :
    Partly cell d s := by
  constructor
  · obtain ⟨e, member, same⟩ := survives.size
    rw [same]
    exact (ways e member).size
  · intro k
    obtain ⟨e, member, same⟩ := survives.cells k
    rcases survives.size with ⟨e', member', size⟩
    rcases (ways e' member').size with none_ | all
    · refine Or.inl fun x _ => s.beyond x (by omega)
    · refine ((ways e member).cells k).imp ?_ ?_
      · intro blank x at_
        by_cases inside : x < s.size
        · rw [same x at_ inside]
          exact blank x at_
        · exact s.beyond x (by omega)
      · intro laid x at_
        by_cases inside : x < s.size
        · rw [same x at_ inside]
          exact laid x at_
        · rw [s.beyond x (by omega), d.beyond x (by omega)]

theorem read_blank {off len : Nat} (blank : ∀ i < len, d.byte (off + i) = 0) :
    d.read off len = List.replicate len 0 := by
  refine (read_eq_iff List.length_replicate).mpr fun i low => ?_
  rw [List.getElem_replicate]
  exact blank i low

theorem Partly.read {e : ByteStore} (k off len : Nat) (partly : Partly cell d e)
    (one : ∀ j < len, (off + j) / cell = k) :
    e.read off len = List.replicate len 0 ∨ e.read off len = d.read off len := by
  refine (partly.cells k).imp ?_ ?_
  · intro blank
    exact read_blank fun j lt => blank _ (one j lt)
  · intro same
    exact read_congr fun j lt => same _ (one j lt)

end ByteStore

end ImgVhd.Foundation
