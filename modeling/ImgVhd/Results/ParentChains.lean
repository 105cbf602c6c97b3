import ImgVhd.Chain.Open
import ImgVhd.Chain.Parents

/-! # Parent chains

Whatever the files hold, an open by a path ends, looks into at most sixteen images,
and leaves a chain of parents that each are the one their child names.
-/

namespace ImgVhd

open Foundation

section ParentChains

variable {f : Faults} {w w' : World} {path : Path} {wr : Bool} {dev next depth : Nat}

/-- Only `dev` is asked anything, and `depth` less one of the devices from `next` on. -/
def Inspects (dev next depth : Nat) (_ : World) (op : Op Nat) : Prop :=
  ∀ e o, op = .on e o → 0 < depth ∧ (e = dev ∨ (next ≤ e ∧ e + 1 < next + depth))

theorem DynamicHeader.identity_length {d : ByteStore} {at_ : Nat} {header : DynamicHeader}
    (parsed : DynamicHeader.parse (d.read at_ dynHeaderSize) = .ok header) :
    header.parentUniqueId.length = 16 := by
  obtain ⟨rfl, -⟩ := DynamicHeader.parse_ok parsed
  have long : dynHeaderSize = 1024 := rfl
  simp only [DynamicHeader.ofBytes, List.length_take, List.length_drop, ByteStore.length_read, long]
  decide

theorem openInner_linked (depth : Nat) : ∀ (w : World) (wr : Bool) (dev : Nat) (path : Path),
    w.files path = some (w.image dev).disk →
    Code.wp (World.handler f) (Inspects dev w.next depth) (openInner depth wr dev (some path))
      (fun r _ => ∃ n ≤ depth, Linked w.files path n r) (fun _ _ => True) w := by
  induction depth with
  | zero => exact fun _ _ _ _ _ => trivial
  | succ depth ih =>
      intro w wr dev path there
      have own (w₁ : World) (op : ImageOp) : Inspects dev w.next (depth + 1) w₁ (.on dev op) := by
        rintro e o same
        cases same
        exact ⟨Nat.succ_pos _, Or.inl rfl⟩
      refine openInner_wp (World.sees (own _ _) fun _ _ => own _ _)
        (fun found is _ kind => ⟨own _ _, fun r w' _ => ?_⟩)
        (fun L fm dataEnd off opens kind => ⟨own _ _, fun r w' _ => ?_⟩)
        (fun L fm dataEnd off child opens kind same => ?_) fun _ => trivial
      · exact ⟨1, by omega, .base there is rfl (Or.inl kind)⟩
      · exact ⟨1, by omega, .base there opens.footer rfl (Or.inr kind)⟩
      · obtain rfl := Option.some.inj same
        refine (Code.wp_bind _ _).mpr ?_
        unfold openParent
        refine settled_wp (parentFileName_settled _) (fun name accepted => ?_) fun _ => trivial
        obtain ⟨rfl, near⟩ := parentFileName_ok accepted
        refine (Code.wp_bind _ _).mpr ((Code.wp_perform _).mpr ⟨(by rintro e o no; cases no), ?_⟩)
        rintro exists_ w₁ ⟨-, rfl⟩
        cases exists_ with
        | false => trivial
        | true =>
            rw [if_pos rfl]
            refine (Code.wp_bind _ _).mpr ((Code.wp_perform _).mpr ⟨(by rintro e o no; cases no), ?_⟩)
            rintro answer w₂ (⟨d, parent, rfl, rfl⟩ | ⟨⟨e, rfl⟩, rfl⟩)
            case inr => trivial
            simp only [lifted, Code.lift_ok_bind]
            have below := ih (w₁.opening d) false w₁.next (parentCandidate path L.header.parentName)
              (by rw [World.image_opening]; exact parent)
            refine Code.wp_seq (Code.wp_mono below ?_ (fun _ _ post => post) fun _ _ e => e) ?_
            · rintro w₃ op asked e o is
              obtain ⟨some_, which⟩ := asked e o is
              rw [World.next_opening] at which
              exact ⟨Nat.succ_pos _, Or.inr ⟨by omega, by omega⟩⟩
            · rintro p w₃ ⟨n, few, linked⟩
              rw [near.candidate] at linked
              unfold checkParentIdentity
              split
              · trivial
              rename_i identity
              refine (Code.wp_bind _ _).mpr ((Code.wp_perform _).mpr ⟨own _ _, fun r w' _ => ?_⟩)
              exact ⟨n + 1, by omega, .above there opens.footer rfl kind opens.header rfl
                (DynamicHeader.identity_length opens.header) (Decidable.not_not.mp identity) linked⟩

theorem openAs_linked (path : Path) (wr : Bool) (dev : Nat) :
    Code.wp (World.handler f)
      (fun _ op => ∀ e o, op = .on e o → w.next ≤ e ∧ e < w.next + maxParentDepth)
      (openAs dev wr (some path)) (fun r _ => ∃ n ≤ maxParentDepth, Linked w.files path n r)
      (fun _ _ => True) w := by
  refine World.openAt_wp (by rintro e o no; cases no) (fun d there => ?_) fun _ => trivial
  have inner := openInner_linked (f := f) maxParentDepth (w.opening d) wr w.next path
    (by rw [World.image_opening]; exact there)
  refine Code.wp_mono inner (fun w₂ op asked e o is => ?_) (fun _ _ post => post) fun _ _ e => e
  obtain ⟨-, which⟩ := asked e o is
  rw [World.next_opening] at which
  unfold maxParentDepth at which ⊢
  exact ⟨by omega, by omega⟩

/-- An open by a path, whatever the files hold and however far it got: it looks
    into at most sixteen images, comes to an answer, fails where the parents' names
    do not lead to a complete image within sixteen, as in a cycle, and leaves a chain
    of images that are each the one their child names. -/
theorem parent_chains_are_authentic {t : List (Event (Op Nat) Op.Res)} {p : Io Nat (VhdReader Nat)}
    (run : Prog.Runs (World.handler f) (openAs dev wr (some path)) w t p w') :
    (∃ devs : List Nat, devs.length ≤ 16 ∧ ∀ e ∈ t, ∀ d op, e.op = .on d op → d ∈ devs) ∧
    (∀ out, p = .ret out → out.Settled ∧
      (¬ Grounded (Complete w.files) (NamesParent w.files) 16 path → ∃ e, out = .err e) ∧
      ∀ cycle : Path → Prop, cycle path →
        (∀ a, cycle a → ∃ b, cycle b ∧ NamesParent w.files a b) → ∃ e, out = .err e) ∧
    ∀ r, p = .ret (.ok r) → ∃ n ≤ 16, Linked w.files path n r := by
  have whole := openAs_linked (f := f) (w := w) path wr dev
  have linked (r : VhdReader Nat) (is : p = .ret (.ok r)) : ∃ n ≤ 16, Linked w.files path n r := by
    subst is
    have reached := Prog.wp_finished whole run
    exact reached
  refine ⟨⟨List.range' w.next 16, by simp, fun e member d op is => ?_⟩, fun out is => ?_, linked⟩
  · have asked := Prog.wp_events whole run (P := fun op => ∀ e o, op = .on e o →
      w.next ≤ e ∧ e < w.next + maxParentDepth) (fun _ _ guard => guard) e member d op is
    rw [List.mem_range'_1]
    exact asked
  · subst is
    have failing (never : ¬ Grounded (Complete w.files) (NamesParent w.files) 16 path) :
        ∃ e, out = .err e := by
      rcases Code.wp_finished whole run with ⟨r, rfl, -⟩ | ⟨e, rfl, -⟩
      · obtain ⟨n, few, linked⟩ := linked r rfl
        exact absurd (linked.grounded.mono few) never
      · exact ⟨e, rfl⟩
    refine ⟨?_, failing, fun cycle inside leads => failing (not_grounded inside leads)⟩
    rcases Code.wp_finished whole run with ⟨r, rfl, -⟩ | ⟨e, rfl, -⟩
    · trivial
    · trivial

theorem delta_is_linked_to_its_base : ∃ (r : VhdReader Nat) (w' : World) (t : List (Event (Op Nat) Op.Res)),
    Prog.Runs (World.handler .none) (openAs 0 false (some [.normal ['d', 'e', 'l', 't', 'a']])) pair t
      (.ret (.ok r)) w' ∧
    Linked pair.files [.normal ['d', 'e', 'l', 't', 'a']] 2 r ∧
    ∃ t' out w'', Prog.Runs (World.handler .none) (openAs 0 false (some [.normal ['b', 'a', 's', 'e']]))
      { pair with files := fun _ => some deltaDisk } t' (.ret out) w'' ∧ ∃ e, out = .err e := by
  obtain ⟨w', ended, -⟩ := pair_opens
  have opened := Prog.run_trace World.idealStep (World.idealStep_allowed .none)
    (openAs 0 false (some [.normal ['d', 'e', 'l', 't', 'a']])) pair
  rw [ended] at opened
  obtain ⟨-, -, linked⟩ := parent_chains_are_authentic opened
  obtain ⟨n, -, chain⟩ := linked _ rfl
  have two : n = 2 := by
    cases chain with
    | above there is footer kind parsed own length identity parent =>
        cases parent
        rfl
  obtain ⟨t', again⟩ := Prog.run_runs World.idealStep (World.idealStep_allowed .none)
    (openAs 0 false (some [.normal ['b', 'a', 's', 'e']])) { pair with files := fun _ => some deltaDisk }
  obtain ⟨-, ends, -⟩ := parent_chains_are_authentic again
  have failed := (ends _ rfl).2.2 (· = [.normal ['b', 'a', 's', 'e']]) rfl fun a here =>
    ⟨_, rfl, .mk rfl deltaDisk_opens.footer rfl deltaDisk_opens.header (by rw [here]; decide)⟩
  exact ⟨_, w', _, opened, two ▸ chain, t', _, _, again, failed⟩

end ParentChains

end ImgVhd
