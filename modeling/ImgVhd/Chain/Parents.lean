import ImgVhd.Foundation.Grounded
import ImgVhd.Chain.World

/-! # Parents by name

What the files alone say about the parents of an image: a delta names its parent,
which is looked for beside it. `Linked` is the chain a reader was opened from.
-/

namespace ImgVhd

open Foundation

/-- `name` in the directory of `path`. -/
def beside (path : Path) (name : List Char) : Path := path.parent.getD [] ++ [.normal name]

section Names

variable {name name' : List Char} {path : Path}

theorem Path.ofString_name (some_ : name ≠ []) (plain : '/' ∉ name) (dot : name ≠ ['.'])
    (dots : name ≠ ['.', '.']) : Path.ofString name = [.normal name] := by
  have whole : name.splitOn '/' = [name] := by
    rw [List.splitOn_eq_splitOnP]
    apply List.splitOnP_eq_singleton
    intro c member
    simp only [beq_eq_false_iff_ne]
    rintro rfl
    exact plain member
  have relative : name.head? ≠ some '/' := fun first => plain (List.mem_of_head? first)
  unfold Path.ofString
  simp [whole, relative, some_, dot, dots]

/-- A name that is one component of a path, by either separator. -/
structure FileName (name : List Char) : Prop where
  some_ : name ≠ []
  slash : '/' ∉ name
  backslash : '\\' ∉ name
  colon : ':' ∉ name
  dot : name ≠ ['.']
  dots : name ≠ ['.', '.']

theorem parentFileName_of_name (is : FileName name) (plain : '\x00' ∉ name) :
    parentFileName name = .ok name := by
  unfold parentFileName
  rw [if_neg is.some_, if_neg plain, if_neg (by simp [is.slash, is.backslash, is.colon]),
    if_neg (by simp [is.dot, is.dots])]

theorem parentFileName_ok (accepted : parentFileName name = .ok name') :
    name' = name ∧ FileName name := by
  unfold parentFileName at accepted
  split at accepted
  · cases accepted
  rename_i some_
  split at accepted
  · cases accepted
  split at accepted
  · cases accepted
  rename_i plain
  split at accepted
  · cases accepted
  rename_i dots
  simp only [not_or] at plain dots
  exact ⟨(Outcome.ok.inj accepted).symm, some_, plain.1, plain.2.1, plain.2.2, dots.1, dots.2⟩

theorem parentFileName_refused (other : ¬ FileName name) :
    ∃ m, parentFileName name = .err (.parentNotFound m) := by
  unfold parentFileName
  split
  · exact ⟨_, rfl⟩
  rename_i some_
  split
  · exact ⟨_, rfl⟩
  split
  · exact ⟨_, rfl⟩
  rename_i plain
  split
  · exact ⟨_, rfl⟩
  rename_i dots
  simp only [not_or] at plain dots
  exact absurd ⟨some_, plain.1, plain.2.1, plain.2.2, dots.1, dots.2⟩ other

theorem FileName.candidate (is : FileName name) (path : Path) :
    parentCandidate path name = beside path name := by
  have own := Path.ofString_name is.some_ is.slash is.dot is.dots
  have relative : name.head? ≠ some '/' := fun first => is.slash (List.mem_of_head? first)
  unfold parentCandidate beside
  cases path.parent with
  | none => exact own
  | some dir =>
      by_cases empty : dir = []
      · simp [empty, own]
      · simp [empty, Path.join, relative, own]

theorem beside_beside : beside (beside path name) name' = beside path name' := by
  simp [beside, Path.parent]

end Names

/-! ## What the files say -/

section Files

variable {files : Path → Option ByteStore} {path parent parent' : Path}

/-- A complete image is at `path`. -/
inductive Complete (files : Path → Option ByteStore) (path : Path) : Prop where
  | mk {d found} (there : files path = some d) (is : FooterOf d found)
      (kind : found.footer.diskType ≠ .differencing)

/-- A delta is at `path`, and names the file at `parent`. -/
inductive NamesParent (files : Path → Option ByteStore) (path parent : Path) : Prop where
  | mk {d found header} (there : files path = some d) (is : FooterOf d found)
      (kind : found.footer.diskType = .differencing)
      (parsed : DynamicHeader.parse (d.read found.footer.dataOffset dynHeaderSize) = .ok header)
      (named : parent = beside path header.parentName)

theorem NamesParent.unique (first : NamesParent files path parent)
    (second : NamesParent files path parent') : parent' = parent := by
  obtain ⟨there, is, -, parsed, rfl⟩ := first
  obtain ⟨there', is', -, parsed', rfl⟩ := second
  obtain rfl := Option.some.inj (there.symm.trans there')
  obtain rfl := is.unique is'
  rw [Outcome.ok.inj (parsed.symm.trans parsed')]

theorem NamesParent.not_complete (names : NamesParent files path parent) : ¬ Complete files path := by
  rintro ⟨there', is', complete⟩
  obtain ⟨there, is, delta, -, -⟩ := names
  obtain rfl := Option.some.inj (there.symm.trans there')
  obtain rfl := is.unique is'
  exact complete delta

theorem not_grounded {S : Path → Prop} {n : Nat} (inside : S path)
    (leads : ∀ p, S p → ∃ q, S q ∧ NamesParent files p q) :
    ¬ Grounded (Complete files) (NamesParent files) n path := by
  intro grounded
  refine grounded.escapes inside (fun p member => ?_) fun p q member names => ?_
  · obtain ⟨q, -, names⟩ := leads p member
    exact names.not_complete
  · obtain ⟨q', member', names'⟩ := leads p member
    rw [names'.unique names]
    exact member'

end Files

/-! ## What a reader was opened from -/

/-- `n` images, the first at `path`: deltas, each with its parent beside it under
    the name it gives and with the identity it gives, and a complete image. -/
inductive Linked (files : Path → Option ByteStore) : Path → Nat → VhdReader Nat → Prop where
  | base {path d found} {c : Core Nat} (there : files path = some d) (is : FooterOf d found)
      (footer : c.footer = found.footer) (kind : c.footer.diskType = .fixed ∨ c.footer.diskType = .dynamic) :
      Linked files path 1 (.base c)
  | above {path d found header n} {c : Core Nat} {p} (there : files path = some d) (is : FooterOf d found)
      (footer : c.footer = found.footer) (kind : c.footer.diskType = .differencing)
      (parsed : DynamicHeader.parse (d.read c.footer.dataOffset dynHeaderSize) = .ok header)
      (own : c.dynamic = some header) (length : header.parentUniqueId.length = 16)
      (identity : p.core.footer.uniqueId = header.parentUniqueId)
      (parent : Linked files (beside path header.parentName) n p) :
      Linked files path (n + 1) (.above c p)

section Linked

variable {files : Path → Option ByteStore} {path : Path} {n : Nat} {r : VhdReader Nat}

theorem Linked.grounded (linked : Linked files path n r) :
    Grounded (Complete files) (NamesParent files) n path := by
  induction linked with
  | base there is footer kind =>
      refine .here ⟨there, is, ?_⟩
      rw [← footer]
      rintro delta
      rw [delta] at kind
      rcases kind with no | no <;> cases no
  | above there is footer kind parsed own length identity parent ih =>
      refine .above ⟨there, is, ?_, ?_, rfl⟩ ih
      · rw [← footer]
        exact kind
      · rw [← footer]
        exact parsed

end Linked

end ImgVhd
