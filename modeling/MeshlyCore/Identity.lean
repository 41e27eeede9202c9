import MeshlyCore.Lib.Files
import MeshlyCore.Lib.Machine

/-!
# Identities

`load_or_generate_at`: a process loads its secret key from a file, or makes a new one and
stores it there. Any number of such calls run at once, in one directory, and each of their file
operations is a step of its own.

A new key is written to a temporary file, which then takes the key file's name. The temporary
file has the same name for all key files of a directory, and the key file is known to be
missing only as of the check at the start. So two calls may write to one temporary file, and
one may put its key in the place of a key that another one has returned.

**Theorem (`keys_kept`).** As long as no call creates the temporary file while another one uses it,
and no call puts its key in the place of a key file, the file of every call that has returned a
key holds that key.
-/

namespace MeshlyCore.Identity

open Files Machine

/-! ## `load_or_generate_at` -/

inductive LoadError where
  | io
  | notFound
  | badLength (len : ℕ)
  deriving DecidableEq

/-- Decode a key from its file. -/
def decodeKey (bytes : Bytes) : Except LoadError Bytes32 :=
  match Bytes32.ofBytes? bytes with
  | some key => .ok key
  | none => .error (.badLength bytes.length)

theorem decodeKey_eq_ok {bytes : Bytes} {k : Bytes32} (h : decodeKey bytes = .ok k) :
    bytes = k.val := by
  unfold decodeKey Bytes32.ofBytes? at h
  split_ifs at h with hlen
  obtain rfl := Except.ok.inj h
  rfl

/-- The name of the temporary file. -/
def tmpName : String := ".identity.key.tmp"

/-- What a call does next. -/
inductive Stage where
  /-- `key_file.exists()`. -/
  | check
  | openKey
  | readKey (file : ℕ)
  | createTmp
  | writeTmp (file : ℕ)
  | renameTmp
  | returned (result : Except LoadError Bytes32)
  deriving DecidableEq

/-- A call for the key file `path`; `key` is what `SecretKey::generate` gives it. -/
structure Call where
  path : String
  key : Bytes32
  stage : Stage
  deriving DecidableEq

/-- The next file operation of a call. -/
def Call.next (d : Dir) (c : Call) : Option (Dir × Call) :=
  match c.stage with
  | .check =>
      some (d, { c with stage := if (d.entry c.path).isSome then .openKey else .createTmp })
  | .openKey =>
      match d.entry c.path with
      | some file => some (d, { c with stage := .readKey file })
      | none => some (d, { c with stage := .returned (.error .notFound) })
  | .readKey file => some (d, { c with stage := .returned (decodeKey (d.content file)) })
  | .createTmp =>
      some ((d.create tmpName).2, { c with stage := .writeTmp (d.create tmpName).1 })
  | .writeTmp file => some (d.write file c.key.val, { c with stage := .renameTmp })
  | .renameTmp =>
      match d.rename tmpName c.path with
      | some d' => some (d', { c with stage := .returned (.ok c.key) })
      | none => some (d, { c with stage := .returned (.error .notFound) })
  | .returned _ => none

/-! ## Many calls -/

/-- A directory, and the calls whose key files are in it. -/
structure World where
  dir : Dir
  calls : ℕ → Option Call

def World.start (d : Dir) : World := ⟨d, fun _ => none⟩

inductive Event where
  | call (i : ℕ) (path : String) (key : Bytes32)
  | step (i : ℕ)
  /-- An operation fails, and the call with it. -/
  | fail (i : ℕ)
  deriving DecidableEq

def World.setCall (w : World) (i : ℕ) (c : Call) (d : Dir) : World :=
  ⟨d, Function.update w.calls i (some c)⟩

def World.next (w : World) : Event → Option World
  | .call i path key =>
      match w.calls i with
      | none => some (w.setCall i ⟨path, key, .check⟩ w.dir)
      | some _ => none
  | .step i => do
      let c ← w.calls i
      let (d, c') ← c.next w.dir
      some (w.setCall i c' d)
  | .fail i => do
      let c ← w.calls i
      match c.stage with
      | .returned _ => none
      | _ => some (w.setCall i { c with stage := .returned (.error .io) } w.dir)

abbrev Steps : World → Event → World → Prop := stepOf World.next

/-- The file of each call that has returned a key holds that key. -/
def World.Kept (w : World) : Prop :=
  ∀ i c k, w.calls i = some c → c.stage = .returned (.ok k) → w.dir.load c.path = some k.val

/-! ## Calls that stay apart -/

/-- Between the creation of the temporary file and its renaming. -/
def Call.usesTmp (c : Call) : Prop :=
  (∃ file, c.stage = .writeTmp file) ∨ c.stage = .renameTmp

/-- No key file has the name of the temporary file; it is created only when no call uses it, and
renamed only when the key file is still missing. -/
def Apart (w : World) : Event → Prop
  | .call _ path _ => path ≠ tmpName
  | .step i => ∀ c, w.calls i = some c →
      (c.stage = .createTmp → ∀ j c', w.calls j = some c' → ¬c'.usesTmp) ∧
        (c.stage = .renameTmp → w.dir.entry c.path = none)
  | .fail _ => True

/-- What a call relies on, at each stage: that the file it has open is the key file, that the
temporary file is its own, and that the key file holds its key. -/
def Call.Holds (d : Dir) (c : Call) : Prop :=
  c.path ≠ tmpName ∧
    match c.stage with
    | .readKey file => d.entry c.path = some file
    | .writeTmp file => d.entry tmpName = some file ∧ d.load tmpName = some []
    | .renameTmp => d.load tmpName = some c.key.val
    | .returned (.ok k) => d.load c.path = some k.val
    | _ => True

structure Inv (w : World) : Prop where
  holds : ∀ i c, w.calls i = some c → c.Holds w.dir
  alone : ∀ i c j c', w.calls i = some c → w.calls j = some c' → c.usesTmp → c'.usesTmp → i = j

section Step

variable {w w' : World} {e : Event} {d d' : Dir} {c c' : Call} {i : ℕ}

/-- A call that is not about the temporary file relies on its key file only. -/
theorem Call.Holds.of_same (h : c.Holds d) (htmp : ¬c.usesTmp)
    (hentry : d'.entry c.path = d.entry c.path) (hload : d'.load c.path = d.load c.path) :
    c.Holds d' := by
  obtain ⟨hpath, hstage⟩ := h
  refine ⟨hpath, ?_⟩
  unfold Call.usesTmp at htmp
  split at hstage
  · rw [hentry]
    exact hstage
  · rename_i file hs
    exact absurd (.inl ⟨file, hs⟩) htmp
  · rename_i hs
    exact absurd (.inr hs) htmp
  · rw [hload]
    exact hstage
  · trivial

/-- A key file that is missing: nobody has it open, or has returned from it. -/
theorem Call.Holds.of_missing (h : c.Holds d) (htmp : ¬c.usesTmp)
    (hnone : d.entry c.path = none) : c.Holds d' := by
  obtain ⟨hpath, hstage⟩ := h
  refine ⟨hpath, ?_⟩
  have hload : d.load c.path = none := by rw [Dir.load, hnone, Option.map_none]
  unfold Call.usesTmp at htmp
  split
  · rename_i file hs
    simp only [hs] at hstage
    rw [hnone] at hstage
    cases hstage
  · rename_i file hs
    exact absurd (.inl ⟨file, hs⟩) htmp
  · rename_i hs
    exact absurd (.inr hs) htmp
  · rename_i k hs
    simp only [hs] at hstage
    rw [hload] at hstage
    cases hstage
  · trivial

/-- One call moves, and the others still hold. -/
theorem Inv.setCall (hi : Inv w) (hc' : c'.Holds d')
    (hothers : ∀ j cj, j ≠ i → w.calls j = some cj → cj.Holds d')
    (halone : c'.usesTmp → ∀ j cj, j ≠ i → w.calls j = some cj → ¬cj.usesTmp) :
    Inv (w.setCall i c' d') := by
  have hcalls : ∀ j cj, (w.setCall i c' d').calls j = some cj →
      (j = i ∧ cj = c') ∨ (j ≠ i ∧ w.calls j = some cj) := by
    intro j cj h
    by_cases hj : j = i
    · subst hj
      have h' : some c' = some cj := by simpa [World.setCall] using h
      exact .inl ⟨rfl, (Option.some.inj h').symm⟩
    · exact .inr ⟨hj, by simpa [World.setCall, Function.update_of_ne hj] using h⟩
  constructor
  · intro j cj h
    obtain ⟨-, rfl⟩ | ⟨hj, h⟩ := hcalls j cj h
    · exact hc'
    · exact hothers j cj hj h
  · intro j cj k ck hj hk huj huk
    obtain ⟨rfl, rfl⟩ | ⟨hji, hj'⟩ := hcalls j cj hj <;>
      obtain ⟨rfl, rfl⟩ | ⟨hki, hk'⟩ := hcalls k ck hk
    · rfl
    · exact absurd huk (halone huj k ck hki hk')
    · exact absurd huj (halone huk j cj hji hj')
    · exact hi.alone j cj k ck hj' hk' huj huk

/-- A step that leaves the directory alone. -/
theorem Inv.setCall_same (hi : Inv w) (hc' : c'.Holds w.dir) (htmp : ¬c'.usesTmp) :
    Inv (w.setCall i c' w.dir) :=
  hi.setCall hc' (fun j cj _ h => hi.holds j cj h) fun hu => absurd hu htmp

theorem inv_start (d : Dir) : Inv (World.start d) :=
  ⟨(fun _ _ h => by cases h), (fun _ _ _ _ h => by cases h)⟩

/-- While a call uses the temporary file, no other one does. -/
theorem Inv.others (hi : Inv w) (hc : w.calls i = some c) (hu : c.usesTmp) (j : ℕ) (cj : Call)
    (hj : j ≠ i) (hcj : w.calls j = some cj) : ¬cj.usesTmp :=
  fun hu' => hj (hi.alone j cj i c hcj hc hu' hu)

/-- The temporary file is created for a call when nobody uses it. -/
theorem inv_createTmp (hi : Inv w) (hc : w.calls i = some c)
    (hfree : ∀ j cj, w.calls j = some cj → ¬cj.usesTmp) :
    Inv (w.setCall i { c with stage := .writeTmp (w.dir.create tmpName).1 }
      (w.dir.create tmpName).2) := by
  refine hi.setCall ⟨(hi.holds i c hc).1, Dir.create_self w.dir tmpName⟩ (fun j cj _ hcj => ?_)
    fun _ j cj _ hcj => hfree j cj hcj
  have hj := hi.holds j cj hcj
  obtain ⟨hentry, hload⟩ := Dir.create_other (d := w.dir) hj.1
  exact hj.of_same (hfree j cj hcj) hentry hload

/-- The key is written to the temporary file, which is empty and nobody else's. -/
theorem inv_writeTmp (hi : Inv w) (hc : w.calls i = some c) {file : ℕ}
    (hs : c.stage = .writeTmp file) :
    Inv (w.setCall i { c with stage := .renameTmp } (w.dir.write file c.key.val)) := by
  obtain ⟨hpath, hstage⟩ := hi.holds i c hc
  simp only [hs] at hstage
  obtain ⟨hentry, hempty⟩ := hstage
  have hothers := hi.others hc (.inl ⟨file, hs⟩)
  refine hi.setCall ⟨hpath, ?_⟩ (fun j cj hji hcj => ?_) fun _ => hothers
  · have hcontent : w.dir.content file = [] := by
      rw [Dir.load, hentry] at hempty
      exact Option.some.inj hempty
    show (w.dir.write file c.key.val).load tmpName = some c.key.val
    rw [Dir.write_self hentry, hcontent, List.drop_nil, List.append_nil]
  · have hj := hi.holds j cj hcj
    refine hj.of_same (hothers j cj hji hcj) rfl (Dir.write_other fun hfile => ?_)
    exact hj.1 (w.dir.entry_inj hfile hentry)

/-- The temporary file becomes the key file, which was missing. -/
theorem inv_renameTmp (hi : Inv w) (hc : w.calls i = some c) (hs : c.stage = .renameTmp)
    (hmissing : w.dir.entry c.path = none) (hd : w.dir.rename tmpName c.path = some d) :
    Inv (w.setCall i { c with stage := .returned (.ok c.key) } d) := by
  obtain ⟨hpath, hstage⟩ := hi.holds i c hc
  simp only [hs] at hstage
  obtain ⟨hload, -, hsame⟩ := Dir.rename_eq_some hd (Ne.symm hpath)
  refine hi.setCall ⟨hpath, hload.trans hstage⟩ (fun j cj hji hcj => ?_)
    fun hu => absurd hu (by simp [Call.usesTmp])
  have hj := hi.holds j cj hcj
  have htmp := hi.others hc (.inr hs) j cj hji hcj
  by_cases hp : cj.path = c.path
  · exact hj.of_missing htmp (by rw [hp]; exact hmissing)
  · obtain ⟨hentry, hload'⟩ := hsame cj.path hj.1 hp
    exact hj.of_same htmp hentry hload'

/-- **One file operation.** -/
theorem inv_next (hi : Inv w) (hc : w.calls i = some c) (h : c.next w.dir = some (d', c'))
    (hcreate : c.stage = .createTmp → ∀ j cj, w.calls j = some cj → ¬cj.usesTmp)
    (hrename : c.stage = .renameTmp → w.dir.entry c.path = none) :
    Inv (w.setCall i c' d') := by
  obtain ⟨hpath, hstage⟩ := hi.holds i c hc
  cases hs : c.stage with
  | check =>
    simp only [Call.next, hs] at h
    obtain ⟨rfl, rfl⟩ := Prod.mk.inj (Option.some.inj h)
    split_ifs
    · exact hi.setCall_same ⟨hpath, trivial⟩ (by simp [Call.usesTmp])
    · exact hi.setCall_same ⟨hpath, trivial⟩ (by simp [Call.usesTmp])
  | openKey =>
    simp only [Call.next, hs] at h
    split at h
    · rename_i file hfile
      obtain ⟨rfl, rfl⟩ := Prod.mk.inj (Option.some.inj h)
      exact hi.setCall_same ⟨hpath, hfile⟩ (by simp [Call.usesTmp])
    · obtain ⟨rfl, rfl⟩ := Prod.mk.inj (Option.some.inj h)
      exact hi.setCall_same ⟨hpath, trivial⟩ (by simp [Call.usesTmp])
  | readKey file =>
    simp only [Call.next, hs] at h
    obtain ⟨rfl, rfl⟩ := Prod.mk.inj (Option.some.inj h)
    simp only [hs] at hstage
    refine hi.setCall_same ⟨hpath, ?_⟩ (by simp [Call.usesTmp])
    cases hk : decodeKey (w.dir.content file) with
    | error e => trivial
    | ok k =>
      show w.dir.load c.path = some k.val
      rw [Dir.load, hstage, Option.map_some, decodeKey_eq_ok hk]
  | createTmp =>
    simp only [Call.next, hs] at h
    obtain ⟨rfl, rfl⟩ := Prod.mk.inj (Option.some.inj h)
    exact inv_createTmp hi hc (hcreate hs)
  | writeTmp file =>
    simp only [Call.next, hs] at h
    obtain ⟨rfl, rfl⟩ := Prod.mk.inj (Option.some.inj h)
    exact inv_writeTmp hi hc hs
  | renameTmp =>
    simp only [Call.next, hs] at h
    split at h
    · rename_i d hd
      obtain ⟨rfl, rfl⟩ := Prod.mk.inj (Option.some.inj h)
      exact inv_renameTmp hi hc hs (hrename hs) hd
    · obtain ⟨rfl, rfl⟩ := Prod.mk.inj (Option.some.inj h)
      exact hi.setCall_same ⟨hpath, trivial⟩ (by simp [Call.usesTmp])
  | returned result => simp [Call.next, hs] at h

theorem inv_step (h : Guarded Apart Steps w e w') (hi : Inv w) : Inv w' := by
  obtain ⟨hapart, hstep⟩ := h
  have hstep' : w.next e = some w' := hstep
  cases e with
  | call i path key =>
    simp only [World.next] at hstep'
    split at hstep'
    · obtain rfl := Option.some.inj hstep'
      exact hi.setCall_same ⟨hapart, trivial⟩ (by simp [Call.usesTmp])
    · cases hstep'
  | step i =>
    obtain ⟨c, hc, hrest⟩ := Option.bind_eq_some_iff.1 hstep'
    obtain ⟨⟨d, c'⟩, hnext, hw'⟩ := Option.bind_eq_some_iff.1 hrest
    obtain rfl := Option.some.inj hw'
    obtain ⟨hcreate, hrename⟩ := hapart c hc
    exact inv_next hi hc hnext hcreate hrename
  | fail i =>
    obtain ⟨c, hc, hrest⟩ := Option.bind_eq_some_iff.1 hstep'
    split at hrest
    · cases hrest
    · obtain rfl := Option.some.inj hrest
      exact hi.setCall_same ⟨(hi.holds i c hc).1, trivial⟩ (by simp [Call.usesTmp])

theorem Inv.kept (hi : Inv w) : w.Kept := by
  intro i c k hc hs
  have hstage := (hi.holds i c hc).2
  simp only [hs] at hstage
  exact hstage

end Step

/-- **Keys are kept.** In every run of calls that stay apart, in any directory, the file of each
call that has returned a key holds this key; so two calls for one file have returned the same
key. -/
theorem keys_kept {d : Dir} {es : List Event} {w : World}
    (h : Run (Guarded Apart Steps) (.start d) es w) :
    w.Kept ∧ ∀ i j c c' k k', w.calls i = some c → w.calls j = some c' →
      c.stage = .returned (.ok k) → c'.stage = .returned (.ok k') → c.path = c'.path → k = k' := by
  have hkept : w.Kept := (h.invariant (fun _ _ _ hs => inv_step hs) (inv_start d)).kept
  refine ⟨hkept, fun i j c c' k k' hc hc' hs hs' hpath => ?_⟩
  have hk := hkept i c k hc hs
  rw [hpath, hkept j c' k' hc' hs'] at hk
  exact (Subtype.ext (Option.some.inj hk)).symm

/-! ## Calls in each other's way -/

/-- Two calls, one after the other, for one file. -/
def inTurn : List Event :=
  [.call 0 "a.key" (.replicate 1), .step 0, .step 0, .step 0, .step 0,
    .call 1 "a.key" (.replicate 2), .step 1, .step 1, .step 1]

/-- A call whose next step neither creates the temporary file nor renames it is in nobody's way. -/
theorem apart_step {w : World} {i : ℕ} {c : Call} (hc : w.calls i = some c)
    (hcreate : c.stage ≠ .createTmp) (hrename : c.stage ≠ .renameTmp) : Apart w (.step i) := by
  intro c' hc'
  rw [hc] at hc'
  obtain rfl := Option.some.inj hc'
  exact ⟨fun hs => absurd hs hcreate, fun hs => absurd hs hrename⟩

theorem run_inTurn : ∃ w, Run (Guarded Apart Steps) (.start .empty) inTurn w ∧
    w.calls 0 = some ⟨"a.key", .replicate 1, .returned (.ok (.replicate 1))⟩ ∧
    w.calls 1 = some ⟨"a.key", .replicate 2, .returned (.ok (.replicate 1))⟩ := by
  have hname : "a.key" ≠ tmpName := by decide
  refine ⟨_, .cons ⟨hname, rfl⟩ (.cons ⟨apart_step rfl (by decide) (by decide), rfl⟩
    (.cons ⟨?_, rfl⟩ (.cons ⟨apart_step rfl (by decide) (by decide), rfl⟩ (.cons ⟨?_, rfl⟩
    (.cons ⟨hname, rfl⟩ (.cons ⟨apart_step rfl (by decide) (by decide), rfl⟩
    (.cons ⟨apart_step rfl (by decide) (by decide), rfl⟩
    (.cons ⟨apart_step rfl (by decide) (by decide), rfl⟩ (.nil _))))))))), rfl, rfl⟩
  · -- The first call is the only one.
    intro c hc
    refine ⟨fun _ j c' hc' => ?_, fun hs => ?_⟩
    · cases j with
      | zero =>
        obtain rfl := Option.some.inj hc'
        rintro (⟨file, hs⟩ | hs) <;> cases hs
      | succ j => simp [World.setCall, World.start] at hc'
    · obtain rfl := Option.some.inj hc
      cases hs
  · intro c hc
    obtain rfl := Option.some.inj hc
    exact ⟨(fun hs => by cases hs), fun _ => rfl⟩

/-- The second call returns the key of the first. -/
theorem keys_kept_inTurn : ∃ w, Run (Guarded Apart Steps) (.start .empty) inTurn w ∧
    w.calls 1 = some ⟨"a.key", .replicate 2, .returned (.ok (.replicate 1))⟩ ∧
    w.dir.load "a.key" = some (Bytes32.replicate 1).val := by
  obtain ⟨w, hrun, hfirst, hsecond⟩ := run_inTurn
  exact ⟨w, hrun, hsecond, (keys_kept hrun).1 0 _ _ hfirst rfl⟩

/-- Two calls for different files, which both create the temporary file before they write. -/
def sharedTmp : List Event :=
  [.call 0 "a.key" (.replicate 1), .call 1 "b.key" (.replicate 2), .step 0, .step 1, .step 0,
    .step 1, .step 0, .step 1, .step 0]

/-- Two calls for one file, which both find it missing. -/
def sameFile : List Event :=
  [.call 0 "a.key" (.replicate 1), .call 1 "a.key" (.replicate 2), .step 0, .step 1, .step 0,
    .step 0, .step 0, .step 1, .step 1, .step 1]

/-- The one call returns a key, and its file holds the key of the other one; or the file holds it
later. -/
theorem keys_lost :
    (∃ w, Run Steps (.start .empty) sharedTmp w ∧
      w.calls 0 = some ⟨"a.key", .replicate 1, .returned (.ok (.replicate 1))⟩ ∧
      w.dir.load "a.key" = some (Bytes32.replicate 2).val ∧ ¬w.Kept) ∧
    ∃ w, Run Steps (.start .empty) sameFile w ∧
      w.calls 0 = some ⟨"a.key", .replicate 1, .returned (.ok (.replicate 1))⟩ ∧
      w.dir.load "a.key" = some (Bytes32.replicate 2).val ∧ ¬w.Kept := by
  have key : ∀ es : List Event, (exec World.next (.start .empty) es).map
      (fun w => (w.calls 0, w.dir.load "a.key")) =
        some (some ⟨"a.key", .replicate 1, .returned (.ok (.replicate 1))⟩,
          some (Bytes32.replicate 2).val) →
      ∃ w, Run Steps (.start .empty) es w ∧
        w.calls 0 = some ⟨"a.key", .replicate 1, .returned (.ok (.replicate 1))⟩ ∧
        w.dir.load "a.key" = some (Bytes32.replicate 2).val ∧ ¬w.Kept := by
    intro es hes
    obtain ⟨w, hw, hview⟩ := Option.map_eq_some_iff.1 hes
    obtain ⟨hcall, hload⟩ := Prod.mk.inj hview
    refine ⟨w, run_of_exec hw, hcall, hload, fun hkept => ?_⟩
    have hholds := hkept 0 _ _ hcall rfl
    rw [hload] at hholds
    exact absurd hholds (by decide)
  exact ⟨key sharedTmp (by decide), key sameFile (by decide)⟩

end MeshlyCore.Identity
