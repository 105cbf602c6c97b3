import ImgVhd.Foundation.Implements
import ImgVhd.Reader.Write

/-! # A reader as a block device

`impl BlockRead for VhdReader` and `impl BlockDevice for VhdReader` (`reader.rs`).
Growing is left to the trait's default, which is not the crate's.
-/

namespace ImgVhd

open Foundation

/-- The calls of the two traits a reader has its own code for. A read gets what the
    caller's buffer held. -/
inductive BlockOp where
  | sizeBytes
  | isWritable
  | readAt (off : Nat) (buf : Bytes)
  | writeAt (off : Nat) (buf : Bytes)
  | flush

def BlockOp.Res : BlockOp → Type
  | .sizeBytes => Nat
  | .isWritable => Bool
  | .readAt _ _ => Except FsCoreError Bytes
  | .writeAt _ _ => Except FsCoreError Unit
  | .flush => Except FsCoreError Unit

section Serve

variable {δ α : Type}

/-- `map_err(vhd_to_fs_core_error)`, the result handed to the caller. -/
def asDevice (c : Io δ α) : Io δ (Except FsCoreError α) :=
  Prog.bind c fun
    | .ok a => Prog.ret (.ok (.ok a))
    | .err e => Prog.ret (.ok (.error (vhdToFsCoreError e)))
    | .panic => Prog.ret .panic
    | .outOfFuel => Prog.ret .outOfFuel

def VhdReader.serve (r : VhdReader δ) : (op : BlockOp) → Io δ op.Res
  | .sizeBytes => pure r.virtualSize
  | .isWritable => pure r.core.writable_
  | .readAt off buf => asDevice (r.readAt off buf)
  | .writeAt off buf => asDevice (r.writeAt off buf)
  | .flush => asDevice r.flushWrites

theorem asDevice_wp {σ : Type} {R : Handler σ (Op δ) Op.Res} {G : σ → Op δ → Prop} {c : Io δ α}
    {Q : Except FsCoreError α → σ → Prop} {E : Error → σ → Prop} {s : σ}
    (h : Code.wp R G c (fun a => Q (.ok a)) (fun e => Q (.error (vhdToFsCoreError e))) s) :
    Code.wp R G (asDevice c) Q E s := by
  refine (Prog.wp_bind c _ _ s).mpr (Prog.wp_mono h (fun _ _ g => g) fun out s' post => ?_)
  cases out with
  | ok a => exact post
  | err e => exact post
  | panic => exact post.elim
  | outOfFuel => exact post.elim

end Serve

end ImgVhd
