import Mathlib.Data.List.Nodup

/-! # In the order they are first seen

What one more element does to a list without its repetitions.
-/

namespace ImgVhd.Foundation

section FirstSeen

variable {α : Type} [DecidableEq α] {seen : List α} {a : α}

theorem nodup_eraseDups (l : List α) : l.eraseDups.Nodup := by
  induction h : l.length using Nat.strongRecOn generalizing l with
  | ind n ih =>
      cases l with
      | nil => exact List.nodup_nil
      | cons a rest =>
          have shorter : (rest.filter fun b => !b == a).length < n := by
            have most := List.length_filter_le (fun b => !b == a) rest
            rw [List.length_cons] at h
            omega
          rw [List.eraseDups_cons, List.nodup_cons, List.mem_eraseDups, List.mem_filter]
          exact ⟨fun again => by simp at again, ih _ shorter _ rfl⟩

theorem eraseDups_seen (again : a ∈ seen) : (seen ++ [a]).eraseDups = seen.eraseDups := by
  have gone : List.removeAll [a] seen = [] := by simp [List.removeAll, again]
  rw [List.eraseDups_append, gone, List.eraseDups_nil, List.append_nil]

theorem eraseDups_unseen (first : a ∉ seen) : (seen ++ [a]).eraseDups = seen.eraseDups ++ [a] := by
  have stays : List.removeAll [a] seen = [a] := by simp [List.removeAll, first]
  rw [List.eraseDups_append, stays]
  rfl

theorem eraseDups_replicate (n : Nat) :
    (seen ++ List.replicate (n + 1) a).eraseDups = (seen ++ [a]).eraseDups := by
  induction n with
  | zero => rfl
  | succ n ih =>
      rw [List.replicate_succ', ← List.append_assoc, eraseDups_seen (by simp), ih]

end FirstSeen

end ImgVhd.Foundation
