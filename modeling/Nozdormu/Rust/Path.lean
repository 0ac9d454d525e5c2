import Nozdormu.Data.Separator
import Nozdormu.Rust.Str

/-!
# Paths

`Path::join` puts texts together; which file a path means is decided by the operating system, which
walks it name by name. A single name goes one directory down (`resolve_join_plain`); a text with
separators, `..` or a leading `/` goes anywhere.
-/

namespace Nozdormu.Rust

open Data List

/-- `base.join(path)`. -/
def joinPath (base path : Str) : Str :=
  if path.head? = some '/' then path
  else if base = [] ∨ base.getLast? = some '/' then base ++ path
  else base ++ '/' :: path

/-- One name of a path, from a directory. -/
def enter (dir : List Str) (name : Str) : List Str :=
  if name = [] ∨ name = "." then dir
  else if name = ".." then dir.dropLast
  else dir ++ [name]

/-- The directories and the file that a path names, from the root. -/
def resolve (cwd : List Str) (path : Str) : List Str :=
  (path.splitOn '/').foldl enter (if path.head? = some '/' then [] else cwd)

/-- A name of one file or directory. -/
def PlainName (name : Str) : Prop :=
  name ≠ [] ∧ name ≠ "." ∧ name ≠ ".." ∧ '/' ∉ name

instance (name : Str) : Decidable (PlainName name) := inferInstanceAs (Decidable (_ ∧ _ ∧ _ ∧ _))

theorem enter_plain {name : Str} (h : PlainName name) (dir : List Str) :
    enter dir name = dir ++ [name] := by
  obtain ⟨hne, hdot, hdots, -⟩ := h
  rw [enter, if_neg (not_or.2 ⟨hne, hdot⟩), if_neg hdots]

theorem enter_nil (dir : List Str) : enter dir [] = dir := if_pos (.inl rfl)

/-- A relative path is walked from where the base leads. -/
theorem resolve_join {path : Str} (h : path.head? ≠ some '/') (cwd : List Str) (base : Str) :
    resolve cwd (joinPath base path) = (path.splitOn '/').foldl enter (resolve cwd base) := by
  rw [joinPath, if_neg h]
  split
  next hbase =>
    rcases hbase with rfl | hlast
    · simp [resolve, h, enter_nil]
    obtain ⟨front, rfl⟩ := List.getLast?_eq_some_iff.1 hlast
    have hhead : (front ++ ['/'] ++ path).head? = (front ++ ['/']).head? := by
      cases front <;> rfl
    rw [resolve, resolve, hhead, append_assoc, singleton_append, splitOn_append_cons_self,
      splitOn_append_cons_self, foldl_append, foldl_append]
    simp [enter_nil]
  next hbase =>
    rw [not_or] at hbase
    have hhead : (base ++ '/' :: path).head? = base.head? := by
      cases base with
      | nil => exact absurd rfl hbase.1
      | cons c base => rfl
    rw [resolve, resolve, hhead, splitOn_append_cons_self, foldl_append]

theorem resolve_join_plain {name : Str} (h : PlainName name) (cwd : List Str) (base : Str) :
    resolve cwd (joinPath base name) = resolve cwd base ++ [name] := by
  have hrelative : name.head? ≠ some '/' := fun hhead => h.2.2.2 (mem_of_head? hhead)
  rw [resolve_join hrelative, splitOn_eq_singleton h.2.2.2, foldl_cons, foldl_nil, enter_plain h]

/-- No name on the way to a file holds a separator. -/
theorem not_mem_of_mem_resolve {cwd : List Str} (hcwd : ∀ name ∈ cwd, '/' ∉ name) (path : Str) :
    ∀ name ∈ resolve cwd path, '/' ∉ name := by
  have hfold : ∀ (names : List Str), (∀ name ∈ names, '/' ∉ name) → ∀ dir : List Str,
      (∀ name ∈ dir, '/' ∉ name) → ∀ name ∈ names.foldl enter dir, '/' ∉ name := by
    intro names
    induction names with
    | nil => exact fun _ _ hdir => hdir
    | cons first names ih =>
      intro hnames dir hdir
      refine ih (fun name hmem => hnames name (mem_cons_of_mem first hmem)) _ ?_
      intro name hmem
      unfold enter at hmem
      split at hmem
      · exact hdir name hmem
      split at hmem
      · exact hdir name ((dropLast_sublist dir).mem hmem)
      rcases mem_append.1 hmem with hin | hin
      · exact hdir name hin
      · rw [mem_singleton.1 hin]
        exact hnames first mem_cons_self
  refine hfold _ (fun name hmem => not_mem_of_mem_splitOn hmem) _ ?_
  split
  · exact fun name hmem => absurd hmem not_mem_nil
  · exact hcwd

theorem resolve_join_iff {cwd : List Str} (hcwd : ∀ name ∈ cwd, '/' ∉ name) {base name : Str} :
    resolve cwd (joinPath base name) = resolve cwd base ++ [name] ↔ PlainName name := by
  refine ⟨fun h => ?_, fun h => resolve_join_plain h cwd base⟩
  have hsep : '/' ∉ name := by
    refine not_mem_of_mem_resolve hcwd (joinPath base name) name ?_
    rw [h]
    exact mem_append_cons_self
  have hrelative : name.head? ≠ some '/' := fun hhead => hsep (mem_of_head? hhead)
  rw [resolve_join hrelative, splitOn_eq_singleton hsep, foldl_cons, foldl_nil] at h
  have hlength := congrArg List.length h
  unfold enter at hlength
  refine ⟨?_, ?_, ?_, hsep⟩ <;> rintro rfl <;> simp at hlength

end Nozdormu.Rust
