import MeshlyCore.Lib.Bytes

/-!
# File trees

A Unix file tree that does not change, as one process sees it: what is at a path, and how the
text of a path is resolved. The walk goes from name to name, `..` leads back up, and a symbolic
link puts its target in front of what is left to walk. A link costs one of a fixed number of
links, so that resolution ends.

A `Path` is canonical: the names from the root of the tree, without links. Limits on the length of
names and paths are left out.
-/

namespace MeshlyCore.FileTree

abbrev Name := Bytes

/-- The names that lead to an object from the root of the tree. -/
abbrev Path := List Name

inductive Object where
  /-- Anything but a directory or a link: the size it is said to have, and what reading it gives,
  if it can be read. -/
  | file (size : ℕ) (content : Option Bytes)
  /-- The names in a directory in the order in which they are listed, if they can be, and whether
  the directory may be walked through. -/
  | dir (names : Option (List Name)) (searchable : Bool)
  | link (target : Bytes)
  deriving DecidableEq

def Object.isDir : Object → Bool
  | .dir _ _ => true
  | _ => false

def Object.isLink : Object → Bool
  | .link _ => true
  | _ => false

/-- Where a link leads. -/
def Object.linkTarget : Object → Option Bytes
  | .link target => some target
  | _ => none

theorem Object.isLink_eq (o : Object) : o.isLink = o.linkTarget.isSome := by
  cases o <;> rfl

/-- `Metadata::len`; that of a directory is not specified. -/
def Object.len : Object → ℕ
  | .file size _ => size
  | .dir _ _ => 0
  | .link target => target.length

/-- What can stand between two slashes and is neither `.` nor `..`. -/
def IsName (n : Name) : Prop := n ≠ [] ∧ n ≠ [46] ∧ n ≠ [46, 46] ∧ 47 ∉ n ∧ 0 ∉ n

instance (n : Name) : Decidable (IsName n) := inferInstanceAs (Decidable (_ ∧ _))

structure FileSystem where
  object : Path → Option Object
  /-- The working directory of the process. -/
  cwd : Path
  /-- How many links are followed before resolution gives up. -/
  maxLinks : ℕ
  root_dir : ∃ o, object [] = some o ∧ o.isDir
  cwd_dir : ∃ o, object cwd = some o ∧ o.isDir
  parent_dir : ∀ p n, (object (p ++ [n])).isSome → IsName n ∧ ∃ o, object p = some o ∧ o.isDir
  listed : ∀ p names searchable, object p = some (.dir (some names) searchable) →
    names.Nodup ∧ ∀ n, n ∈ names ↔ (object (p ++ [n])).isSome

/-! ## The text of paths -/

inductive Component where
  | current
  | parent
  | normal (n : Name)
  deriving DecidableEq

/-- What a part of a path between two slashes means. -/
def component (s : Bytes) : Component :=
  if s = [] ∨ s = [46] then .current
  else if s = [46, 46] then .parent
  else .normal s

def components (path : Bytes) : List Component := (path.splitOn 47).map component

/-- The text of a canonical path. -/
def toText (p : Path) : Bytes := if p = [] then [47] else p.flatMap (47 :: ·)

/-- `Path::join`: an absolute path replaces the base. -/
def join (base path : Bytes) : Bytes :=
  if path.head? = some 47 then path
  else if base = [] ∨ base.getLast? = some 47 then base ++ path
  else base ++ 47 :: path

/-! ## Resolution -/

namespace FileSystem

variable (fs : FileSystem)

def isDir (p : Path) : Bool := ((fs.object p).map Object.isDir).getD false

/-- Look up a name in a directory. -/
def lookup (p : Path) (n : Name) : Option Object :=
  match fs.object p with
  | some (.dir _ true) => fs.object (p ++ [n])
  | _ => none

/-- Walk from `p`. `follow` goes on where a link is met. -/
def walk (follow : Path → List Component → Option Path) (p : Path) :
    List Component → Option Path
  | [] => some p
  | .current :: cs => if fs.isDir p then walk follow p cs else none
  | .parent :: cs => if fs.isDir p then walk follow p.dropLast cs else none
  | .normal n :: cs =>
      match fs.lookup p n with
      | none => none
      | some (.link target) =>
          if target = [] then none
          else follow (if target.head? = some 47 then [] else p) (components target ++ cs)
      | some _ => walk follow (p ++ [n]) cs

/-- Resolve what is left of a path, with at most `links` links. -/
def resolve : ℕ → Path → List Component → Option Path
  | 0 => fs.walk fun _ _ => none
  | links + 1 => fs.walk (resolve links)

/-- `Path::canonicalize`. -/
def canonicalize (path : Bytes) : Option Path :=
  if path = [] ∨ 0 ∈ path then none
  else fs.resolve fs.maxLinks (if path.head? = some 47 then [] else fs.cwd) (components path)

/-- `fs::metadata`: what is at a path. -/
def metadata (path : Bytes) : Option Object := (fs.canonicalize path).bind fs.object

/-- `fs::read`. -/
def read (path : Bytes) : Option Bytes :=
  match fs.metadata path with
  | some (.file _ content) => content
  | _ => none

/-- `fs::read_dir`: the names in a directory. -/
def readDir (path : Bytes) : Option (List Name) :=
  match fs.metadata path with
  | some (.dir names _) => names
  | _ => none

section Read

variable {fs} {path : Bytes}

theorem metadata_of_readDir {names : List Name} (h : fs.readDir path = some names) :
    ∃ searchable, fs.metadata path = some (.dir (some names) searchable) := by
  unfold readDir at h
  split at h
  · rename_i names' searchable hmeta
    exact ⟨searchable, by rw [hmeta, h]⟩
  · cases h

end Read

/-! ## Walking along names -/

/-- From `p` the names `ns` lead on, through directories and without a link. -/
def Leads (p : Path) : List Name → Prop
  | [] => True
  | n :: ns => (∃ o, fs.lookup p n = some o ∧ o.isLink = false) ∧ Leads (p ++ [n]) ns

variable {fs}

theorem isName_of_mem {p : Path} {n : Name} (hp : (fs.object p).isSome) (hn : n ∈ p) :
    IsName n := by
  induction p using List.reverseRecOn with
  | nil => exact absurd hn List.not_mem_nil
  | append_singleton p m ih =>
    obtain ⟨hm, o, ho, -⟩ := fs.parent_dir p m hp
    rcases List.mem_append.1 hn with hn | hn
    · exact ih (by rw [ho]; rfl) hn
    · rw [List.mem_singleton.1 hn]
      exact hm

theorem component_of_isName {n : Name} (hn : IsName n) : component n = .normal n := by
  rw [component, if_neg (by simp [hn.1, hn.2.1]), if_neg hn.2.2.1]

theorem object_of_lookup {p : Path} {n : Name} {o : Object} (h : fs.lookup p n = some o) :
    fs.object (p ++ [n]) = some o := by
  unfold lookup at h
  split at h
  · exact h
  · cases h

/-- A name in a walk: nothing is there, or a link, or what is walked on from. -/
theorem walk_normal (follow : Path → List Component → Option Path) (p : Path) (n : Name)
    (cs : List Component) :
    fs.walk follow p (.normal n :: cs) =
      match (fs.lookup p n).map Object.linkTarget with
      | none => none
      | some none => fs.walk follow (p ++ [n]) cs
      | some (some target) =>
          if target = [] then none
          else follow (if target.head? = some 47 then [] else p) (components target ++ cs) := by
  rw [walk]
  cases fs.lookup p n with
  | none => rfl
  | some o => cases o <;> rfl

/-- **What a step of a walk can do**, if the walk comes to its end. -/
theorem walk_cases {follow : Path → List Component → Option Path} {p q : Path} {c : Component}
    {cs : List Component} (h : fs.walk follow p (c :: cs) = some q) :
    (c = .current ∧ fs.walk follow p cs = some q) ∨
      (c = .parent ∧ fs.walk follow p.dropLast cs = some q) ∨
      (∃ n o, c = .normal n ∧ fs.lookup p n = some o ∧ o.isLink = false ∧
        fs.walk follow (p ++ [n]) cs = some q) ∨
      ∃ n target, c = .normal n ∧ fs.lookup p n = some (.link target) ∧
        follow (if target.head? = some 47 then [] else p) (components target ++ cs) = some q := by
  cases c with
  | current =>
    rw [walk] at h
    split_ifs at h
    exact .inl ⟨rfl, h⟩
  | parent =>
    rw [walk] at h
    split_ifs at h
    exact .inr (.inl ⟨rfl, h⟩)
  | normal n =>
    rw [walk_normal] at h
    cases ho : fs.lookup p n with
    | none =>
      rw [ho] at h
      cases h
    | some o =>
      rw [ho] at h
      cases o with
      | link target =>
        simp only [Option.map_some, Object.linkTarget] at h
        split_ifs at h with hnil habs
        · exact .inr (.inr (.inr ⟨n, target, rfl, ho, by rwa [if_pos habs]⟩))
        · exact .inr (.inr (.inr ⟨n, target, rfl, ho, by rwa [if_neg habs]⟩))
      | file size content => exact .inr (.inr (.inl ⟨n, _, rfl, ho, rfl, h⟩))
      | dir names searchable => exact .inr (.inr (.inl ⟨n, _, rfl, ho, rfl, h⟩))

/-- Resolution is a walk. -/
theorem exists_walk (fs : FileSystem) (links : ℕ) :
    ∃ follow, fs.resolve links = fs.walk follow := by
  cases links with
  | zero => exact ⟨_, rfl⟩
  | succ links => exact ⟨_, rfl⟩

theorem walk_of_leads {follow : Path → List Component → Option Path} {p : Path} {ns : List Name}
    (h : fs.Leads p ns) (cs : List Component) :
    fs.walk follow p (ns.map .normal ++ cs) = fs.walk follow (p ++ ns) cs := by
  induction ns generalizing p with
  | nil => rw [List.append_nil, List.map_nil, List.nil_append]
  | cons n ns ih =>
    obtain ⟨⟨o, ho, hlink⟩, hns⟩ := h
    rw [List.map_cons, List.cons_append, walk, ho]
    cases o with
    | link target => cases hlink
    | file size content => simpa using ih hns
    | dir names searchable => simpa using ih hns

theorem resolve_of_leads {p : Path} {ns : List Name} (h : fs.Leads p ns) (links : ℕ)
    (cs : List Component) :
    fs.resolve links p (ns.map .normal ++ cs) = fs.resolve links (p ++ ns) cs := by
  obtain ⟨follow, hwalk⟩ := fs.exists_walk links
  rw [hwalk, walk_of_leads h]

theorem resolve_nil (links : ℕ) (p : Path) : fs.resolve links p [] = some p := by
  cases links <;> rfl

/-- Where names lead on, they are resolved to what they lead to. -/
theorem resolve_names {p : Path} {ns : List Name} (h : fs.Leads p ns) (links : ℕ) :
    fs.resolve links p (ns.map .normal) = some (p ++ ns) := by
  have hres := resolve_of_leads h links []
  rwa [List.append_nil, resolve_nil] at hres

theorem leads_append {p : Path} {ms ns : List Name} :
    fs.Leads p (ms ++ ns) ↔ fs.Leads p ms ∧ fs.Leads (p ++ ms) ns := by
  induction ms generalizing p with
  | nil => simp [Leads]
  | cons m ms ih => simp [Leads, ih, and_assoc]

/-- **The rule of resolution**: what holds of the root, and is kept by going up and by going down
to anything but a link, holds of every path that is reached from where it holds. -/
theorem resolve_invariant {P : Path → Prop} (hroot : P []) (hup : ∀ p, P p → P p.dropLast)
    (hdown : ∀ p n o, P p → fs.lookup p n = some o → o.isLink = false → P (p ++ [n]))
    {links : ℕ} {p q : Path} {cs : List Component} (hp : P p)
    (h : fs.resolve links p cs = some q) : P q := by
  have hwalk : ∀ follow : Path → List Component → Option Path,
      (∀ p cs q, P p → follow p cs = some q → P q) →
      ∀ cs p q, P p → fs.walk follow p cs = some q → P q := by
    intro follow hfollow cs
    induction cs with
    | nil =>
      intro p q hp h
      obtain rfl := Option.some.inj h
      exact hp
    | cons c cs ih =>
      intro p q hp h
      obtain ⟨-, h⟩ | ⟨-, h⟩ | ⟨n, o, -, ho, hlink, h⟩ | ⟨n, target, -, -, h⟩ := walk_cases h
      · exact ih p q hp h
      · exact ih _ q (hup p hp) h
      · exact ih _ q (hdown p n o hp ho hlink) h
      · split_ifs at h
        · exact hfollow _ _ _ hroot h
        · exact hfollow _ _ _ hp h
  induction links generalizing p cs q with
  | zero => exact hwalk _ (fun _ _ _ _ h => by cases h) cs p q hp h
  | succ links ih => exact hwalk _ (fun _ _ _ hp h => ih hp h) cs p q hp h

/-- There is something at the path, and it is not a link. -/
def Real (fs : FileSystem) (p : Path) : Prop := ∃ o, fs.object p = some o ∧ o.isLink = false

theorem isSome_of_real {p : Path} (h : fs.Real p) : (fs.object p).isSome := by
  obtain ⟨o, ho, -⟩ := h
  rw [ho]
  rfl

theorem real_of_isDir {p : Path} (h : ∃ o, fs.object p = some o ∧ o.isDir) : fs.Real p := by
  obtain ⟨o, ho, hdir⟩ := h
  refine ⟨o, ho, ?_⟩
  cases o with
  | link target => cases hdir
  | _ => rfl

/-- What leads to something real is real. -/
theorem real_of_append {p : Path} {ns : List Name} (h : fs.Real (p ++ ns)) : fs.Real p := by
  induction ns using List.reverseRecOn with
  | nil => rwa [List.append_nil] at h
  | append_singleton ns n ih =>
    rw [← List.append_assoc] at h
    exact ih (real_of_isDir (fs.parent_dir _ n (isSome_of_real h)).2)

theorem real_of_resolve {links : ℕ} {p q : Path} {cs : List Component} (hp : fs.Real p)
    (h : fs.resolve links p cs = some q) : fs.Real q := by
  refine resolve_invariant (P := fs.Real) (real_of_isDir fs.root_dir) ?_ ?_ hp h
  · intro p hp
    cases p using List.reverseRecOn with
    | nil => exact hp
    | append_singleton p n =>
      rw [List.dropLast_concat]
      exact real_of_append hp
  · exact fun p n o _ ho hlink => ⟨o, object_of_lookup ho, hlink⟩

/-- What is reached from the root can be reached without a link. -/
theorem leads_of_resolve {links : ℕ} {p q : Path} {cs : List Component} (hp : fs.Leads [] p)
    (h : fs.resolve links p cs = some q) : fs.Leads [] q := by
  refine resolve_invariant (P := fs.Leads []) trivial ?_ ?_ hp h
  · intro p hp
    cases p using List.reverseRecOn with
    | nil => exact hp
    | append_singleton p n =>
      rw [List.dropLast_concat]
      exact (leads_append.1 hp).1
  · intro p n o hp ho hlink
    exact leads_append.2 ⟨hp, ⟨o, ho, hlink⟩, trivial⟩

theorem real_of_canonicalize {path : Bytes} {q : Path} (h : fs.canonicalize path = some q) :
    fs.Real q := by
  unfold canonicalize at h
  split_ifs at h with hbad habs
  · exact real_of_resolve (real_of_isDir fs.root_dir) h
  · exact real_of_resolve (real_of_isDir fs.cwd_dir) h

theorem isName_of_canonicalize {path : Bytes} {q : Path} (h : fs.canonicalize path = some q) :
    ∀ n ∈ q, IsName n := fun _ hn => isName_of_mem (isSome_of_real (real_of_canonicalize h)) hn

/-- Walking along the names of something real leads there or fails. -/
theorem eq_of_resolve_names {links : ℕ} {p q : Path} {ns : List Name} (hreal : fs.Real (p ++ ns))
    (h : fs.resolve links p (ns.map .normal) = some q) : q = p ++ ns := by
  obtain ⟨follow, hwalk⟩ := fs.exists_walk links
  rw [hwalk] at h
  induction ns generalizing p with
  | nil =>
    rw [List.append_nil]
    exact (Option.some.inj h).symm
  | cons n ns ih =>
    rw [List.append_cons] at hreal ⊢
    obtain ⟨hc, -⟩ | ⟨hc, -⟩ | ⟨m, o, hc, -, -, h⟩ | ⟨m, target, hc, htarget, -⟩ := walk_cases h
    · cases hc
    · cases hc
    · obtain rfl := Component.normal.inj hc
      exact ih hreal h
    · -- A link here would stand in the way of what is real.
      obtain rfl := Component.normal.inj hc
      obtain ⟨o, ho, hlink⟩ := real_of_append hreal
      rw [object_of_lookup htarget] at ho
      obtain rfl := Option.some.inj ho
      cases hlink

/-! ## What resolution looks at -/

/-- The paths at which `walk` looks up a name, in order. -/
def walkLooks (fs : FileSystem) (follow : Path → List Component → List Path) (p : Path) :
    List Component → List Path
  | [] => []
  | .current :: cs => if fs.isDir p then walkLooks fs follow p cs else []
  | .parent :: cs => if fs.isDir p then walkLooks fs follow p.dropLast cs else []
  | .normal n :: cs =>
      (p ++ [n]) ::
        match fs.lookup p n with
        | none => []
        | some (.link target) =>
            if target = [] then []
            else follow (if target.head? = some 47 then [] else p) (components target ++ cs)
        | some _ => walkLooks fs follow (p ++ [n]) cs

/-- The paths that `resolve` looks up. -/
def looks (fs : FileSystem) : ℕ → Path → List Component → List Path
  | 0 => fs.walkLooks fun _ _ => []
  | links + 1 => fs.walkLooks (looks fs links)

/-- The paths that `canonicalize` looks up. -/
def canonicalizeLooks (fs : FileSystem) (path : Bytes) : List Path :=
  if path = [] ∨ 0 ∈ path then []
  else fs.looks fs.maxLinks (if path.head? = some 47 then [] else fs.cwd) (components path)

/-- The two file systems are the same to a walk that looks up nothing but what is in `D`. -/
structure SameOn (fs fs' : FileSystem) (D : Path → Prop) : Prop where
  nil : D []
  up : ∀ p, D p → D p.dropLast
  isDir : ∀ p, D p → fs.isDir p = fs'.isDir p
  lookup : ∀ p n, D p → D (p ++ [n]) →
    (fs.lookup p n).map Object.linkTarget = (fs'.lookup p n).map Object.linkTarget

theorem walkLooks_normal (follow : Path → List Component → List Path) (p : Path) (n : Name)
    (cs : List Component) :
    fs.walkLooks follow p (.normal n :: cs) =
      (p ++ [n]) ::
        match (fs.lookup p n).map Object.linkTarget with
        | none => []
        | some none => fs.walkLooks follow (p ++ [n]) cs
        | some (some target) =>
            if target = [] then []
            else follow (if target.head? = some 47 then [] else p) (components target ++ cs) := by
  rw [walkLooks]
  cases fs.lookup p n with
  | none => rfl
  | some o => cases o <;> rfl

/-- A walk depends on what it looks at, if what follows a link does. -/
theorem walk_congr {fs' : FileSystem} {D : Path → Prop} (h : fs.SameOn fs' D)
    {follow follow' : Path → List Component → Option Path}
    {trace : Path → List Component → List Path}
    (hfollow : ∀ p cs, D p → (∀ q ∈ trace p cs, D q) → follow p cs = follow' p cs)
    {p : Path} {cs : List Component} (hp : D p) (hlooks : ∀ q ∈ fs.walkLooks trace p cs, D q) :
    fs.walk follow p cs = fs'.walk follow' p cs := by
  induction cs generalizing p with
  | nil => rfl
  | cons c cs ih =>
    cases c with
    | current =>
      rw [walkLooks] at hlooks
      rw [walk, walk, ← h.isDir p hp]
      split_ifs at hlooks ⊢
      · exact ih hp hlooks
      · rfl
    | parent =>
      rw [walkLooks] at hlooks
      rw [walk, walk, ← h.isDir p hp]
      split_ifs at hlooks ⊢
      · exact ih (h.up p hp) hlooks
      · rfl
    | normal n =>
      rw [walkLooks_normal] at hlooks
      obtain ⟨hn, hlooks⟩ := List.forall_mem_cons.1 hlooks
      rw [walk_normal, walk_normal, ← h.lookup p n hp hn]
      cases hfound : (fs.lookup p n).map Object.linkTarget with
      | none => rfl
      | some found =>
        rw [hfound] at hlooks
        cases found with
        | none => exact ih hn hlooks
        | some target =>
          simp only at hlooks ⊢
          split_ifs at hlooks ⊢
          · rfl
          · exact hfollow _ _ h.nil hlooks
          · exact hfollow _ _ hp hlooks

/-- **Resolution depends on what it looks at.** -/
theorem resolve_congr {fs' : FileSystem} {D : Path → Prop} (h : fs.SameOn fs' D) {links : ℕ}
    {p : Path} {cs : List Component} (hp : D p) (hlooks : ∀ q ∈ fs.looks links p cs, D q) :
    fs.resolve links p cs = fs'.resolve links p cs := by
  induction links generalizing p cs with
  | zero => exact walk_congr h (fun _ _ _ _ => rfl) hp hlooks
  | succ links ih => exact walk_congr h (fun _ _ hp hlooks => ih hp hlooks) hp hlooks

theorem leads_congr {fs' : FileSystem} {D : Path → Prop} (h : fs.SameOn fs' D) {p : Path}
    {ns : List Name} (hD : ∀ q, q <+: p ++ ns → D q) (hleads : fs.Leads p ns) :
    fs'.Leads p ns := by
  induction ns generalizing p with
  | nil => trivial
  | cons n ns ih =>
    obtain ⟨⟨o, ho, hlink⟩, hleads⟩ := hleads
    rw [List.append_cons] at hD
    have hn : D (p ++ [n]) := hD _ (List.prefix_append _ _)
    have hp : D p := hD p ((List.prefix_append _ _).trans (List.prefix_append _ _))
    refine ⟨?_, ih hD hleads⟩
    have hsame := h.lookup p n hp hn
    rw [ho, Option.map_some] at hsame
    obtain ⟨o', ho', htarget⟩ := Option.map_eq_some_iff.1 hsame.symm
    exact ⟨o', ho', by rw [Object.isLink_eq, htarget, ← Object.isLink_eq, hlink]⟩

/-! ## Trees without links -/

def LinkFree (fs : FileSystem) : Prop := ∀ p target, fs.object p ≠ some (.link target)

/-- Where components lead from `p` if nothing is a link. -/
def lexical (p : Path) : List Component → Path
  | [] => p
  | .current :: cs => lexical p cs
  | .parent :: cs => lexical p.dropLast cs
  | .normal n :: cs => lexical (p ++ [n]) cs

theorem lexical_append (p : Path) (cs ds : List Component) :
    lexical p (cs ++ ds) = lexical (lexical p cs) ds := by
  induction cs generalizing p with
  | nil => rfl
  | cons c cs ih => cases c <;> exact ih _

theorem lexical_normals (p ns : Path) : lexical p (ns.map .normal) = p ++ ns := by
  induction ns generalizing p with
  | nil => exact (List.append_nil p).symm
  | cons n ns ih => simpa [lexical] using ih (p ++ [n])

/-- The last name of where components lead is one of them, or nothing was added. -/
theorem normal_mem_of_lexical {p q : Path} {n : Name} {cs : List Component}
    (h : lexical p cs = q ++ [n]) : .normal n ∈ cs ∨ q ++ [n] <+: p := by
  induction cs generalizing p with
  | nil => exact .inr (by rw [← h]; exact List.prefix_refl p)
  | cons c cs ih =>
    cases c with
    | current => exact (ih h).imp_left (List.mem_cons_of_mem _)
    | parent =>
      refine (ih h).imp (List.mem_cons_of_mem _) fun hp => hp.trans (List.dropLast_prefix p)
    | normal m =>
      rcases ih h with hmem | hp
      · exact .inl (List.mem_cons_of_mem _ hmem)
      · rcases List.prefix_concat_iff.1 hp with heq | hp
        · obtain ⟨-, heq⟩ := List.append_inj' heq rfl
          obtain rfl : n = m := by simpa using heq
          exact .inl List.mem_cons_self
        · exact .inr hp

/-- **Without links, resolution is lexical**, where it does not fail. -/
theorem resolve_eq_lexical (hfree : fs.LinkFree) {links : ℕ} {p q : Path} {cs : List Component}
    (h : fs.resolve links p cs = some q) : q = lexical p cs := by
  obtain ⟨follow, hwalk⟩ := fs.exists_walk links
  rw [hwalk] at h
  induction cs generalizing p with
  | nil => exact (Option.some.inj h).symm
  | cons c cs ih =>
    obtain ⟨rfl, hrest⟩ | ⟨rfl, hrest⟩ | ⟨n, o, rfl, -, -, hrest⟩ | ⟨n, target, rfl, htarget, -⟩ :=
      walk_cases h
    · exact ih hrest
    · exact ih hrest
    · exact ih hrest
    · exact absurd (object_of_lookup htarget) (hfree _ target)

end FileSystem

/-! ## Canonical paths in text -/

theorem splitOn_toText {p : Path} (hp : ∀ n ∈ p, 47 ∉ n) :
    (p.flatMap (47 :: ·)).splitOn 47 = [] :: p := by
  induction p using List.reverseRecOn with
  | nil => rfl
  | append_singleton p n ih =>
    have hn : 47 ∉ n := hp n (by simp)
    rw [List.flatMap_append, List.flatMap_singleton, List.splitOn_append_cons_self,
      ih fun m hm => hp m (by simp [hm]), List.splitOn_eq_singleton hn]
    rfl

theorem component_map {p : Path} (hp : ∀ n ∈ p, IsName n) : p.map component = p.map .normal :=
  List.map_congr_left fun n hn => FileSystem.component_of_isName (hp n hn)

/-- A relative path under a canonical one is walked after it. -/
theorem components_join {p : Path} (hp : ∀ n ∈ p, IsName n) {path : Bytes}
    (hpath : path.head? ≠ some 47) :
    components (join (toText p) path) = .current :: (p.map .normal ++ components path) := by
  have hslash : ∀ n ∈ p, 47 ∉ n := fun n hn => (hp n hn).2.2.2.1
  cases p using List.reverseRecOn with
  | nil =>
    rw [join, if_neg hpath]
    exact congrArg (List.map component) (List.splitOn_append_cons_self [] path)
  | append_singleton p n =>
    have hlast : (toText (p ++ [n])).getLast? ≠ some 47 := by
      obtain ⟨m, b, rfl⟩ := (List.eq_nil_or_concat' n).resolve_left (hp n (by simp)).1
      have hb : b ≠ 47 := fun hb => hslash (m ++ [b]) (by simp) (by simp [hb])
      rw [toText, if_neg (by simp), List.flatMap_append, List.flatMap_singleton,
        ← List.cons_append, ← List.append_assoc, List.getLast?_concat]
      simpa using hb
    have hne : toText (p ++ [n]) ≠ [] := by simp [toText]
    rw [join, if_neg hpath, if_neg (by simp [hne, hlast]), toText, if_neg (by simp), components,
      List.splitOn_append_cons_self, splitOn_toText hslash, List.map_append, List.map_cons,
      component_map hp]
    rfl

theorem head?_toText (p : Path) : (toText p).head? = some 47 := by
  cases p with
  | nil => rfl
  | cons n p => rfl

theorem zero_notMem_toText {p : Path} (hp : ∀ n ∈ p, IsName n) : 0 ∉ toText p := by
  rw [toText]
  split_ifs
  · decide
  · simp only [List.mem_flatMap, List.mem_cons, not_exists, not_and, not_or]
    exact fun n hn => ⟨by decide, (hp n hn).2.2.2.2⟩

theorem head?_join (p : Path) (path : Bytes) : (join (toText p) path).head? = some 47 := by
  obtain ⟨rest, hrest⟩ := List.head?_eq_some_iff.1 (head?_toText p)
  rw [join]
  split_ifs with h
  · exact h
  · rw [hrest]
    rfl
  · rw [hrest]
    rfl

theorem zero_notMem_join {p : Path} (hp : ∀ n ∈ p, IsName n) {path : Bytes} (h : 0 ∉ path) :
    0 ∉ join (toText p) path := by
  have htext := zero_notMem_toText hp
  rw [join]
  split_ifs
  · exact h
  · simp [htext, h]
  · simp [htext, h]

section Canonical

variable {fs : FileSystem} {p q : Path}

/-- A path that begins with a slash is walked from the root. -/
theorem canonicalize_absolute {path : Bytes} (habs : path.head? = some 47) (hnul : 0 ∉ path) :
    fs.canonicalize path = fs.resolve fs.maxLinks [] (components path) := by
  have hne : path ≠ [] := by
    rintro rfl
    cases habs
  rw [FileSystem.canonicalize, if_neg (by simp [hne, hnul]), if_pos habs]

theorem canonicalize_congr {fs' : FileSystem} {D : Path → Prop} (h : fs.SameOn fs' D)
    (hlinks : fs.maxLinks = fs'.maxLinks) {path : Bytes} (habs : path.head? = some 47)
    (hlooks : ∀ q ∈ fs.canonicalizeLooks path, D q) :
    fs.canonicalize path = fs'.canonicalize path := by
  rw [FileSystem.canonicalizeLooks] at hlooks
  rw [FileSystem.canonicalize, FileSystem.canonicalize, if_pos habs, if_pos habs, ← hlinks]
  split_ifs at hlooks ⊢ with hbad
  · rfl
  · exact FileSystem.resolve_congr h h.nil hlooks

theorem resolve_current (links : ℕ) (cs : List Component) :
    fs.resolve links [] (.current :: cs) = fs.resolve links [] cs := by
  have hroot : fs.isDir [] = true := by
    obtain ⟨o, ho, hdir⟩ := fs.root_dir
    simpa [FileSystem.isDir, ho] using hdir
  obtain ⟨follow, hwalk⟩ := fs.exists_walk links
  rw [hwalk, FileSystem.walk, if_pos hroot]

/-- A relative path under a canonical one is walked from the root, along the canonical one. -/
theorem canonicalize_join (hp : ∀ n ∈ p, IsName n) {path : Bytes} (hpath : path.head? ≠ some 47)
    (hnul : 0 ∉ path) :
    fs.canonicalize (join (toText p) path) =
      fs.resolve fs.maxLinks [] (p.map .normal ++ components path) := by
  rw [canonicalize_absolute (head?_join p path) (zero_notMem_join hp hnul),
    components_join hp hpath, resolve_current]

/-- **A relative path under a canonical one is resolved from there.** -/
theorem canonicalize_join_of_leads (hp : ∀ n ∈ p, IsName n) (hleads : fs.Leads [] p)
    {path : Bytes} (hpath : path.head? ≠ some 47) (hnul : 0 ∉ path) :
    fs.canonicalize (join (toText p) path) = fs.resolve fs.maxLinks p (components path) := by
  rw [canonicalize_join hp hpath hnul, FileSystem.resolve_of_leads hleads, List.nil_append]

theorem canonicalize_toText (hp : ∀ n ∈ p, IsName n) :
    fs.canonicalize (toText p) = fs.resolve fs.maxLinks [] (p.map .normal) := by
  rw [canonicalize_absolute (head?_toText p) (zero_notMem_toText hp), toText]
  split_ifs with h
  · subst h
    exact (resolve_current _ _).trans (resolve_current _ _)
  · rw [components, splitOn_toText fun n hn => (hp n hn).2.2.2.1, List.map_cons,
      component_map hp]
    exact resolve_current _ _

/-- What an absolute path leads to is reached without a link. -/
theorem leads_of_canonicalize {path : Bytes} (habs : path.head? = some 47)
    (h : fs.canonicalize path = some q) : fs.Leads [] q := by
  rw [FileSystem.canonicalize] at h
  split_ifs at h
  exact FileSystem.leads_of_resolve (p := []) trivial h

/-- **The metadata of a canonical path are those of the object there**, if they can be had. -/
theorem object_of_metadata {path : Bytes} (h : fs.canonicalize path = some q) {o : Object}
    (ho : fs.metadata (toText q) = some o) : fs.object q = some o := by
  obtain ⟨q', hq', ho⟩ := Option.bind_eq_some_iff.1 ho
  rw [canonicalize_toText (FileSystem.isName_of_canonicalize h)] at hq'
  rw [FileSystem.eq_of_resolve_names (FileSystem.real_of_canonicalize h) hq'] at ho
  exact ho

theorem metadata_of_leads (hp : ∀ n ∈ p, IsName n) (hleads : fs.Leads [] p) :
    fs.metadata (toText p) = fs.object p := by
  rw [FileSystem.metadata, canonicalize_toText hp, FileSystem.resolve_names hleads,
    List.nil_append, Option.bind_some]

end Canonical

/-! ## Trees from a table -/

section Table

variable (table : List (Path × Object))

/-- What a table has at a path. -/
def objectIn (p : Path) : Option Object := (table.find? (·.1 = p)).map (·.2)

/-- There is a directory at the path. -/
def dirIn (p : Path) : Bool := ((objectIn table p).map Object.isDir).getD false

/-- The entry is named, is in a directory, and lists what the table has in it. -/
def entryOk (e : Path × Object) : Bool :=
  (match e.1.getLast? with
    | none => true
    | some n => IsName n ∧ dirIn table e.1.dropLast) &&
  match e.2 with
  | .dir (some names) _ =>
      names.Nodup ∧ (∀ n ∈ names, (objectIn table (e.1 ++ [n])).isSome) ∧
        ∀ e' ∈ table, e'.1 ≠ [] → e'.1.dropLast = e.1 → ∃ n ∈ names, e'.1.getLast? = some n
  | _ => true

theorem exists_of_dirIn {p : Path} (h : dirIn table p) :
    ∃ o, objectIn table p = some o ∧ o.isDir := by
  unfold dirIn at h
  cases ho : objectIn table p with
  | none => simp [ho] at h
  | some o => exact ⟨o, rfl, by simpa [ho] using h⟩

/-- The file system of a table that is in order. -/
def FileSystem.ofTable (cwd : Path) (maxLinks : ℕ) (hroot : dirIn table []) (hcwd : dirIn table cwd)
    (hentries : ∀ e ∈ table, entryOk table e) : FileSystem where
  object := objectIn table
  cwd := cwd
  maxLinks := maxLinks
  root_dir := exists_of_dirIn table hroot
  cwd_dir := exists_of_dirIn table hcwd
  parent_dir p n h := by
    obtain ⟨o, ho⟩ := Option.isSome_iff_exists.1 h
    obtain ⟨e, he, -⟩ := Option.map_eq_some_iff.1 ho
    have hpath : e.1 = p ++ [n] := by simpa using List.find?_some he
    have hok := hentries e (List.mem_of_find?_eq_some he)
    simp only [entryOk, hpath, List.getLast?_concat, List.dropLast_concat, Bool.and_eq_true,
      decide_eq_true_eq] at hok
    exact ⟨hok.1.1, exists_of_dirIn table hok.1.2⟩
  listed p names searchable h := by
    obtain ⟨e, he, hobj⟩ := Option.map_eq_some_iff.1 h
    have hpath : e.1 = p := by simpa using List.find?_some he
    have hok := hentries e (List.mem_of_find?_eq_some he)
    simp only [entryOk, hobj, hpath, Bool.and_eq_true, decide_eq_true_eq] at hok
    obtain ⟨-, hnd, hthere, hall⟩ := hok
    refine ⟨hnd, fun n => ⟨hthere n, fun hn => ?_⟩⟩
    obtain ⟨o, ho⟩ := Option.isSome_iff_exists.1 hn
    obtain ⟨e', he', -⟩ := Option.map_eq_some_iff.1 ho
    have hpath' : e'.1 = p ++ [n] := by simpa using List.find?_some he'
    obtain ⟨m, hm, hlast⟩ := hall e' (List.mem_of_find?_eq_some he') (by simp [hpath'])
      (by simp [hpath'])
    rw [hpath', List.getLast?_concat] at hlast
    exact Option.some.inj hlast ▸ hm

end Table

end MeshlyCore.FileTree
