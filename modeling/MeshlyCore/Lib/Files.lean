import MeshlyCore.Lib.Bytes

/-!
# A directory of files

Names in a directory stand for files, and a file that is open stays the file it is whatever
becomes of its name. The operations are those of POSIX: `create` truncates the file of that name
if there is one, a write goes to the file that was opened, `rename` moves a file in one step and
puts it in the place of another one.

Each name has a file of its own: there are no links.
-/

namespace MeshlyCore.Files

structure Dir where
  /-- The file of a name. -/
  entry : String → Option ℕ
  content : ℕ → Bytes
  /-- Files are numbered; from here on the numbers are free. -/
  free : ℕ
  entry_lt : ∀ {name file}, entry name = some file → file < free
  entry_inj : ∀ {name name' file}, entry name = some file → entry name' = some file → name = name'

namespace Dir

def empty : Dir := ⟨fun _ => none, fun _ => [], 0, by simp, by simp⟩

/-- What a name's file holds. -/
def load (d : Dir) (name : String) : Option Bytes := (d.entry name).map d.content

/-! ## Entries -/

/-- The entries with a new file under `name`. -/
def withNew (d : Dir) (name : String) : String → Option ℕ :=
  Function.update d.entry name (some d.free)

/-- The entries after `name` was moved to `name'`. -/
def withMoved (d : Dir) (name name' : String) (file : ℕ) : String → Option ℕ :=
  Function.update (Function.update d.entry name' (some file)) name none

theorem withNew_cases (d : Dir) {name n : String} {file : ℕ} (h : d.withNew name n = some file) :
    (n = name ∧ file = d.free) ∨ (n ≠ name ∧ d.entry n = some file) := by
  unfold withNew at h
  by_cases hn : n = name
  · subst hn
    rw [Function.update_self] at h
    exact .inl ⟨rfl, (Option.some.inj h).symm⟩
  · rw [Function.update_of_ne hn] at h
    exact .inr ⟨hn, h⟩

theorem withMoved_cases (d : Dir) {name name' n : String} {file f : ℕ}
    (h : d.withMoved name name' file n = some f) :
    n ≠ name ∧ ((n = name' ∧ f = file) ∨ (n ≠ name' ∧ d.entry n = some f)) := by
  unfold withMoved at h
  by_cases hn : n = name
  · subst hn
    rw [Function.update_self] at h
    cases h
  · rw [Function.update_of_ne hn] at h
    refine ⟨hn, ?_⟩
    by_cases hn' : n = name'
    · subst hn'
      rw [Function.update_self] at h
      exact .inl ⟨rfl, (Option.some.inj h).symm⟩
    · rw [Function.update_of_ne hn'] at h
      exact .inr ⟨hn', h⟩

theorem withNew_lt (d : Dir) {name n : String} {file : ℕ} (h : d.withNew name n = some file) :
    file < d.free + 1 := by
  obtain ⟨-, rfl⟩ | ⟨-, hn⟩ := d.withNew_cases h
  · exact Nat.lt_succ_self _
  · exact Nat.lt_succ_of_lt (d.entry_lt hn)

theorem withNew_inj (d : Dir) {name n n' : String} {file : ℕ} (h : d.withNew name n = some file)
    (h' : d.withNew name n' = some file) : n = n' := by
  have hfree : ∀ {m}, d.entry m ≠ some d.free := fun hm => absurd (d.entry_lt hm) (lt_irrefl _)
  obtain ⟨rfl, hf⟩ | ⟨-, hn⟩ := d.withNew_cases h <;>
    obtain ⟨rfl, hf'⟩ | ⟨-, hn'⟩ := d.withNew_cases h'
  · rfl
  · exact absurd (hf ▸ hn') hfree
  · exact absurd (hf' ▸ hn) hfree
  · exact d.entry_inj hn hn'

theorem withMoved_lt (d : Dir) {name name' n : String} {file f : ℕ}
    (hfile : d.entry name = some file) (h : d.withMoved name name' file n = some f) :
    f < d.free := by
  obtain ⟨-, ⟨-, rfl⟩ | ⟨-, hn⟩⟩ := d.withMoved_cases h
  · exact d.entry_lt hfile
  · exact d.entry_lt hn

theorem withMoved_inj (d : Dir) {name name' n n' : String} {file f : ℕ}
    (hfile : d.entry name = some file) (h : d.withMoved name name' file n = some f)
    (h' : d.withMoved name name' file n' = some f) : n = n' := by
  obtain ⟨hne, ⟨rfl, hf⟩ | ⟨-, hn⟩⟩ := d.withMoved_cases h <;>
    obtain ⟨hne', ⟨rfl, hf'⟩ | ⟨-, hn'⟩⟩ := d.withMoved_cases h'
  · rfl
  · exact absurd (d.entry_inj (hf ▸ hn') hfile) hne'
  · exact absurd (d.entry_inj (hf' ▸ hn) hfile) hne
  · exact d.entry_inj hn hn'

/-! ## Operations -/

/-- Open a file for writing: an empty one. -/
def create (d : Dir) (name : String) : ℕ × Dir :=
  match d.entry name with
  | some file => (file, { d with content := Function.update d.content file [] })
  | none =>
      (d.free,
        ⟨d.withNew name, Function.update d.content d.free [], d.free + 1, d.withNew_lt,
          d.withNew_inj⟩)

/-- Write at the start of an open file. -/
def write (d : Dir) (file : ℕ) (bytes : Bytes) : Dir :=
  { d with
    content := Function.update d.content file (bytes ++ (d.content file).drop bytes.length) }

/-- Move a file to another name. A file moved to its own name stays. -/
def rename (d : Dir) (name name' : String) : Option Dir :=
  match h : d.entry name with
  | none => none
  | some file =>
      if name = name' then some d
      else some
        ⟨d.withMoved name name' file, d.content, d.free, d.withMoved_lt h, d.withMoved_inj h⟩

variable {d d' : Dir} {name name' : String} {file : ℕ} {bytes : Bytes}

theorem create_self (d : Dir) (name : String) :
    (d.create name).2.entry name = some (d.create name).1 ∧
      (d.create name).2.load name = some [] := by
  unfold create load
  split
  · rename_i file h
    simp [h]
  · simp [withNew]

/-- `create` is about one name. -/
theorem create_other (h : name' ≠ name) :
    (d.create name).2.entry name' = d.entry name' ∧
      (d.create name).2.load name' = d.load name' := by
  unfold create load
  split
  · rename_i file hfile
    refine ⟨rfl, ?_⟩
    cases hentry : d.entry name' with
    | none => rfl
    | some file' =>
      have hne : file' ≠ file := by
        intro heq
        subst heq
        exact h (d.entry_inj hentry hfile)
      simp [Function.update_of_ne hne]
  · have hsame : d.withNew name name' = d.entry name' := Function.update_of_ne h _ _
    refine ⟨hsame, ?_⟩
    show (d.withNew name name').map _ = _
    rw [hsame]
    cases hentry : d.entry name' with
    | none => rfl
    | some file' =>
      have hne : file' ≠ d.free := (d.entry_lt hentry).ne
      simp [Function.update_of_ne hne]

theorem write_self (h : d.entry name = some file) :
    (d.write file bytes).load name = some (bytes ++ (d.content file).drop bytes.length) := by
  simp [load, write, h]

/-- A write is about one file. -/
theorem write_other (h : d.entry name ≠ some file) :
    (d.write file bytes).load name = d.load name := by
  unfold load write
  cases hentry : d.entry name with
  | none => rfl
  | some file' =>
    have hne : file' ≠ file := by
      intro heq
      subst heq
      exact h hentry
    simp [Function.update_of_ne hne]

/-- What `rename` does: the file has its new name. -/
theorem rename_eq_some (h : d.rename name name' = some d') (hne : name ≠ name') :
    d'.load name' = d.load name ∧ d'.entry name = none ∧
      ∀ n, n ≠ name → n ≠ name' → d'.entry n = d.entry n ∧ d'.load n = d.load n := by
  unfold rename at h
  split at h
  · cases h
  · rename_i file hfile
    rw [if_neg hne] at h
    obtain rfl := Option.some.inj h
    refine ⟨?_, Function.update_self .., fun n hn hn' => ?_⟩
    · simp [load, withMoved, hfile, Function.update_of_ne hne.symm]
    · simp [load, withMoved, Function.update_of_ne hn, Function.update_of_ne hn']

end Dir

end MeshlyCore.Files
