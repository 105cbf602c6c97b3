import ImgVhd.Session.Run
import ImgVhd.Writing.Ranges

/-! # Writes on one reader

A burst is any number of calls of `write_at` on one reader, with everything they
issue to the device on record. It starts from whatever an open accepted, created
here or not.
-/

namespace ImgVhd

open Foundation

/-- The calls so far, newest first, and the operations they issued, oldest
    first. -/
inductive Burst (f : Faults) (r : VhdReader Unit) (s : Image) :
    List Attempt → List (Event (Op Unit) Op.Res) → Image → Prop where
  | start : Burst f r s [] [] s
  | write {log trace s' offset buf t out s''} (before : Burst f r s log trace s')
      (run : Prog.Runs f.handler (r.writeAt offset buf) s' t (.ret out) s'') :
      Burst f r s (⟨offset, buf, succeeded (.ret out)⟩ :: log) (trace ++ t) s''

section Opened

variable {f : Faults} {s s' : Image} {t : List (Event (Op Unit) Op.Res)} {r : VhdReader Unit}

/-- What an open on a bare device accepts. -/
inductive OpenedAs (s : Image) (w : Bool) (r : VhdReader Unit) (s' : Image) : Prop where
  | fixed {found} (is : FooterOf s.disk found) (kind : found.footer.diskType = .fixed)
      (reader : r = .base (fixedCore () w found)) (image : s' = ⟨s.disk, none, none⟩)
  | dynamic {L fm dataEnd off} (opens : Opens s.disk L fm dataEnd off)
      (kind : L.footer.diskType = .dynamic) (reader : r = .base (L.core () w fm))
      (image : s' = L.opened s.disk off)

theorem openInner_device_wp {w : Bool} {G : Image → Op Unit → Prop} (asks : ∀ op, G s op) :
    Code.wp f.handler G (openInner maxParentDepth w () none) (OpenedAs s w) (fun _ _ => True) s := by
  refine openInner_wp (Faults.sees fun _ _ => asks _)
    (fun found is _ kind => ⟨asks _, fun r x shared => ?_⟩)
    (fun L fm dataEnd off opens kind => ⟨asks _, fun r x shared => ?_⟩)
    (fun L fm dataEnd off child opens kind path => by cases path) fun _ => trivial
  · exact .fixed is kind rfl (Faults.handler_share shared)
  · exact .dynamic opens kind rfl (Faults.handler_share shared)

theorem openRwOnDevice_opened
    (run : Prog.Runs f.handler (VhdReader.openRwOnDevice ()) s t (.ret (.ok r)) s') :
    OpenedAs s true r s' := by
  have whole : Code.wp f.handler (fun _ _ => True) (VhdReader.openRwOnDevice ()) (OpenedAs s true)
      (fun _ _ => True) s := by
    refine (Code.wp_bind _ _).mpr ((Code.wp_perform _).mpr ⟨trivial, fun b x answered => ?_⟩)
    obtain ⟨rfl, rfl | ⟨_, refused⟩⟩ := Faults.handler_quiet .isWritable rfl answered
    · exact openInner_device_wp fun _ => trivial
    · exact refused.elim
  have reached := Prog.wp_finished whole run
  exact reached

theorem OpenedAs.layout {w : Bool} (opened : OpenedAs s w r s') (dynamic : r.diskType = .dynamic) :
    ∃ L fm dataEnd off, Opens s.disk L fm dataEnd off ∧ L.footer.diskType = .dynamic ∧
      r = .base (L.core () w fm) ∧ s' = L.opened s.disk off := by
  cases opened with
  | @fixed found is kind reader image =>
      subst reader
      have same : found.footer.diskType = .dynamic := dynamic
      rw [kind] at same
      cases same
  | dynamic opens kind reader image => exact ⟨_, _, _, _, opens, kind, reader, image⟩

end Opened

/-! ## Host ranges -/

section Ranges

variable {L : Layout} {table : List Nat} {start : Nat} {f : Faults} {s₀ s₁ s₂ : Image} {fm : Bool}
  {log : List Attempt} {trace t : List (Event (Op Unit) Op.Res)} {bat : List Nat} {off : Nat}
  {offset : Nat} {buf : Bytes} {p : Io Unit Unit}

theorem Handed.call (handed : Handed L table start s₁ trace bat off)
    (dynamic : L.footer.diskType = .dynamic)
    (run : Prog.Runs f.handler ((VhdReader.base (L.core () true fm)).writeAt offset buf) s₁ t p s₂) :
    ∃ bat' off', Handed L table start s₂ (trace ++ t) bat' off' := by
  by_cases idle : buf = [] ∨ L.virtualSize < offset + buf.length
  · obtain ⟨rfl, rfl, -⟩ := writeAt_runs dynamic idle run
    rw [List.append_nil]
    exact ⟨bat, off, handed⟩
  have within : offset + buf.length ≤ L.virtualSize := Nat.not_lt.mp fun past => idle (Or.inr past)
  have known : ∃ bat off, Handed L table start s₁ trace.reverse.reverse bat off :=
    ⟨bat, off, by rw [List.reverse_reverse]; exact handed⟩
  have left := Code.wp_cut
    (I := fun x : Image × History => ∃ bat off, Handed L table start x.1 x.2.reverse bat off)
    (writeAt_wp_rule fm (rangesRule (f := f)) dynamic within
      (x := (s₁, trace.reverse)) known) (run.traced trace.reverse) ?guard
    (fun _ _ reached => reached) fun _ _ reached => reached
  case guard =>
    rintro x op (known | ⟨⟨bat, off, handed, -⟩, -⟩ | known | ⟨⟨bat, off, handed, -⟩, -⟩)
    · exact known
    · exact ⟨bat, off, handed⟩
    · exact known
    · exact ⟨bat, off, handed⟩
  rw [List.reverse_append, List.reverse_reverse, List.reverse_reverse] at left
  exact left

theorem Burst.handed (burst : Burst f (.base (L.core () true fm)) s₀ log trace s₁)
    (dynamic : L.footer.diskType = .dynamic) (handed : Handed L table start s₀ [] bat off) :
    ∃ bat' off', Handed L table start s₁ trace bat' off' := by
  induction burst with
  | start => exact ⟨bat, off, handed⟩
  | write before run ih =>
      obtain ⟨bat', off', handed'⟩ := ih
      exact handed'.call dynamic run

theorem Opens.handed {dataEnd : Nat} {d : ByteStore} (opens : Opens d L fm dataEnd off) :
    Handed L (L.table d) off (L.opened d off) [] (L.table d) off := by
  have all : values (L.table d) [] = (L.table d).filter fun e => decide (Live e) := List.append_nil _
  refine ⟨rfl, rfl, L.length_table, ?_, fun v member => ?_, fun _ _ entry => Or.inl entry, by simp,
    List.pairwise_singleton _ _, rfl, opens.tail_le, opens.tableEnd⟩
  · rw [all, List.pairwise_filter]
    refine (spread_iff_pairwise.mp opens.spread).imp fun {a b} apart liveA liveB => ?_
    exact apart (of_decide_eq_true liveA) (of_decide_eq_true liveB)
  · rw [all] at member
    obtain ⟨inside, live⟩ := List.mem_filter.mp member
    exact ⟨L.table_lt inside, opens.past inside (of_decide_eq_true live)⟩

end Ranges

end ImgVhd
