import MeshlyCore.StaticHttp.Files

/-!
# What lies outside the root

A client is to learn nothing about what lies outside the root directory. Two file systems that
agree on the root, on everything below it and on the path that leads to it are to look the same.

They do not. `build_response` resolves a path before it asks whether the target is inside the
root, and what is not there is answered in another way than what is outside.

**Theorem (`outside_hidden`).** Two such file systems give the same response to every request
whose path can be resolved without looking up a name outside. To any other request each of them
answers 403 or 404, or as for an object below the root, which is the same in both.

A walk that looks up only names on the way to the root or below it is at such a path at every
step (`resolve_congr`), so it takes the same course in both. What is then read is below the root.
-/

namespace MeshlyCore.StaticHttp

open FileTree

/-! ## File systems that agree -/

/-- On the way to the root directory, or below it. -/
def Inside (root p : Path) : Prop := p <+: root ∨ root <+: p

/-- The file systems agree on the root directory, on what is below it, and on the directories that
lead to it but for what else these have in them. -/
structure AgreeInside (spec : StaticSpec) (fs fs' : FileSystem) : Prop where
  maxLinks : fs.maxLinks = fs'.maxLinks
  rootDir : fs.canonicalize spec.rootDir = fs'.canonicalize spec.rootDir
  below : ∀ root, fs.canonicalize spec.rootDir = some root →
    ∀ p, root <+: p → fs.object p = fs'.object p
  above : ∀ root, fs.canonicalize spec.rootDir = some root → ∀ p, p <+: root → p ≠ root →
    ∃ names names' searchable, fs.object p = some (.dir names searchable) ∧
      fs'.object p = some (.dir names' searchable)

section Agree

variable {spec : StaticSpec} {fs fs' : FileSystem} {root : Path}

theorem AgreeInside.symm (h : AgreeInside spec fs fs') : AgreeInside spec fs' fs where
  maxLinks := h.maxLinks.symm
  rootDir := h.rootDir.symm
  below root hroot p hp := (h.below root (h.rootDir.trans hroot) p hp).symm
  above root hroot p hp hne := by
    obtain ⟨names, names', searchable, ho, ho'⟩ := h.above root (h.rootDir.trans hroot) p hp hne
    exact ⟨names', names, searchable, ho', ho⟩

theorem inside_dropLast {p : Path} (h : Inside root p) : Inside root p.dropLast := by
  rcases h with h | ⟨t, rfl⟩
  · exact .inl ((List.dropLast_prefix p).trans h)
  · cases t using List.reverseRecOn with
    | nil =>
      rw [List.append_nil]
      exact .inl (List.dropLast_prefix root)
    | append_singleton t n =>
      rw [← List.append_assoc, List.dropLast_concat]
      exact .inr (List.prefix_append root t)

/-- What is inside is the same, or a directory on the way to the root. -/
theorem AgreeInside.object (h : AgreeInside spec fs fs')
    (hroot : fs.canonicalize spec.rootDir = some root) {p : Path} (hp : Inside root p) :
    fs.object p = fs'.object p ∨ ∃ names names' searchable,
      fs.object p = some (.dir names searchable) ∧
        fs'.object p = some (.dir names' searchable) := by
  by_cases hbelow : root <+: p
  · exact .inl (h.below root hroot p hbelow)
  · have hprefix : p <+: root := hp.resolve_right hbelow
    have hne : p ≠ root := fun heq => hbelow (heq ▸ List.prefix_refl p)
    exact .inr (h.above root hroot p hprefix hne)

theorem AgreeInside.sameOn (h : AgreeInside spec fs fs')
    (hroot : fs.canonicalize spec.rootDir = some root) : fs.SameOn fs' (Inside root) where
  nil := .inl List.nil_prefix
  up _ := inside_dropLast
  isDir p hp := by
    unfold FileSystem.isDir
    rcases h.object hroot hp with heq | ⟨names, names', searchable, ho, ho'⟩
    · rw [heq]
    · rw [ho, ho']
      rfl
  lookup p n hp hn := by
    have htarget : (fs.object (p ++ [n])).map Object.linkTarget =
        (fs'.object (p ++ [n])).map Object.linkTarget := by
      rcases h.object hroot hn with heq | ⟨names, names', searchable, ho, ho'⟩
      · rw [heq]
      · rw [ho, ho']
        rfl
    unfold FileSystem.lookup
    rcases h.object hroot hp with heq | ⟨names, names', searchable, ho, ho'⟩
    · rw [heq]
      split
      · exact htarget
      · rfl
    · rw [ho, ho']
      cases searchable with
      | true => exact htarget
      | false => rfl

/-- The root and what it holds are listed the same. -/
theorem AgreeInside.listing (h : AgreeInside spec fs fs')
    (hroot : fs.canonicalize spec.rootDir = some root) {dir : Path} (hdir : root <+: dir) :
    listingEntry fs root dir = listingEntry fs' root dir := by
  funext n
  have hlookup : fs.lookup dir n = fs'.lookup dir n := by
    unfold FileSystem.lookup
    rw [h.below root hroot dir hdir,
      h.below root hroot (dir ++ [n]) (hdir.trans (List.prefix_append dir [n]))]
  rw [listingEntry, listingEntry, hlookup]

/-- **What is found at a target below the root is the same.** -/
theorem AgreeInside.contentAt (h : AgreeInside spec fs fs')
    (hroot : fs.canonicalize spec.rootDir = some root) (lower : List Char → List Char)
    {path : Bytes} (habs : path.head? = some 47) {target : Path}
    (htarget : fs.canonicalize path = some target) (hin : root <+: target) :
    contentAt lower spec fs root target = contentAt lower spec fs' root target := by
  have hnames := FileSystem.isName_of_canonicalize htarget
  have hleads := leads_of_canonicalize habs htarget
  have hinside : ∀ q, q <+: [] ++ target → Inside root q := by
    intro q hq
    rw [List.nil_append] at hq
    exact (List.prefix_or_prefix_of_prefix hq hin)
  have hleads' := FileSystem.leads_congr (h.sameOn hroot) hinside hleads
  have hmeta : fs.metadata (toText target) = fs'.metadata (toText target) := by
    rw [metadata_of_leads hnames hleads, metadata_of_leads hnames hleads']
    exact h.below root hroot target hin
  unfold StaticHttp.contentAt renderDirectoryListing listingEntries FileSystem.read
    FileSystem.readDir
  rw [hmeta, h.listing hroot hin]

end Agree

/-! ## Two runs -/

/-- The request is for a path that cannot be resolved without looking up a name outside. -/
def AsksOutside (spec : StaticSpec) (fs : FileSystem) (req : Request) (root : Path) : Prop :=
  (req.method = "GET" ∨ req.method = "HEAD") ∧ fs.canonicalize spec.rootDir = some root ∧
    ∃ decoded, percentDecode (rawPath req.path.toList) = some decoded ∧
      ∃ q ∈ fs.canonicalizeLooks (joinedPath root decoded), ¬Inside root q

section Runs

variable {spec : StaticSpec} {fs fs' : FileSystem} {root : Path} {req : Request}

/-- A request that does not ask for anything outside is led to the same place. -/
theorem locate_eq_of_inside (h : AgreeInside spec fs fs')
    (hmethod : req.method = "GET" ∨ req.method = "HEAD")
    (hinside : ∀ root, ¬AsksOutside spec fs req root) :
    locate spec fs req.path.toList = locate spec fs' req.path.toList := by
  unfold locate
  rw [← h.rootDir]
  cases hdec : percentDecode (rawPath req.path.toList) with
  | none => rfl
  | some decoded =>
    cases hroot : fs.canonicalize spec.rootDir with
    | none => rfl
    | some root =>
      have hlooks : ∀ q ∈ fs.canonicalizeLooks (joinedPath root decoded), Inside root q := by
        intro q hq
        by_contra hout
        exact hinside root ⟨hmethod, hroot, decoded, hdec, q, hq, hout⟩
      have hsame := canonicalize_congr (h.sameOn hroot) h.maxLinks (head?_joinedPath root decoded)
        hlooks
      simp only [← hsame]

theorem served_eq_of_inside (h : AgreeInside spec fs fs') (lower : List Char → List Char)
    (hmethod : req.method = "GET" ∨ req.method = "HEAD")
    (hinside : ∀ root, ¬AsksOutside spec fs req root) :
    served lower spec fs req.path.toList = served lower spec fs' req.path.toList := by
  have hsame := locate_eq_of_inside h hmethod hinside
  cases hloc : locate spec fs req.path.toList with
  | error status => rw [served_of_error hloc, served_of_error (hsame ▸ hloc)]
  | ok p =>
    obtain ⟨root, target⟩ := p
    obtain ⟨decoded, -, hroot, htarget, hin⟩ := locate_eq_ok.1 hloc
    rw [served_of_ok hloc, served_of_ok (hsame ▸ hloc)]
    exact h.contentAt hroot lower (head?_joinedPath root decoded) htarget hin

/-- Where the root is found and the path decodes, the answer is 403, 404, or that for an object
below the root. -/
theorem served_cases (lower : List Char → List Char) {path decoded : List Char}
    (hroot : fs.canonicalize spec.rootDir = some root)
    (hdec : percentDecode (rawPath path) = some decoded) :
    served lower spec fs path = .error 403 ∨ served lower spec fs path = .error 404 ∨
      ∃ target, fs.canonicalize (joinedPath root decoded) = some target ∧ root <+: target ∧
        served lower spec fs path = contentAt lower spec fs root target := by
  cases htarget : fs.canonicalize (joinedPath root decoded) with
  | none => exact .inr (.inl (served_of_error (by simp only [locate, hdec, hroot, htarget])))
  | some target =>
    by_cases hin : root <+: target
    · have hloc := locate_eq_ok.2 ⟨decoded, hdec, hroot, htarget, hin⟩
      exact .inr (.inr ⟨target, rfl, hin, served_of_ok hloc⟩)
    · exact .inl (served_of_error (by simp only [locate, hdec, hroot, htarget, if_neg hin]))

/-- **What lies outside the root is hidden** from every request that does not ask for it; and those
that do learn no more than which of two errors or which object below the root it leads to. -/
theorem outside_hidden (lower : List Char → List Char) (spec : StaticSpec) (fs fs' : FileSystem)
    (h : AgreeInside spec fs fs') (req : Request) :
    ((∀ root, ¬AsksOutside spec fs req root) →
      buildResponse lower spec fs req = buildResponse lower spec fs' req) ∧
    ∀ root, AsksOutside spec fs req root → ∀ g, g = fs ∨ g = fs' →
      buildResponse lower spec g req = .error 403 ∨ buildResponse lower spec g req = .error 404 ∨
        ∃ target, root <+: target ∧
          buildResponse lower spec g req = (contentAt lower spec fs root target).map fun p =>
            okResponse p.1 p.2 req.method req.keepAlive := by
  refine ⟨fun hinside => ?_, ?_⟩
  · by_cases hmethod : req.method = "GET" ∨ req.method = "HEAD"
    · rw [buildResponse_of_method hmethod, buildResponse_of_method hmethod,
        served_eq_of_inside h lower hmethod hinside]
    · rw [buildResponse_of_other hmethod, buildResponse_of_other hmethod]
  · rintro root ⟨hmethod, hroot, decoded, hdec, -⟩ g hg
    have hroot' : g.canonicalize spec.rootDir = some root := by
      rcases hg with rfl | rfl
      · exact hroot
      · rw [← h.rootDir, hroot]
    rw [buildResponse_of_method hmethod]
    rcases served_cases lower hroot' hdec with heq | heq | ⟨target, htarget, hin, heq⟩
    · exact .inl (by rw [heq]; rfl)
    · exact .inr (.inl (by rw [heq]; rfl))
    · refine .inr (.inr ⟨target, hin, ?_⟩)
      rw [heq]
      rcases hg with rfl | rfl
      · rfl
      · rw [h.symm.contentAt hroot' lower (head?_joinedPath root decoded) htarget hin]

end Runs

/-- The sample tree with a file next to its root directory. -/
def secretTree : FileSystem :=
  .ofTable [([], .dir (some [utf8 "srv", utf8 "x"]) true),
    ([utf8 "srv"], .dir (some [utf8 "a.txt"]) true),
    ([utf8 "srv", utf8 "a.txt"], .file 2 (some (utf8 "hi"))),
    ([utf8 "x"], .file 6 (some (utf8 "secret")))] [] 40
    (by decide +kernel) (by decide +kernel) (by decide +kernel)

theorem agreeInside_secretTree : AgreeInside sampleSpec sampleTree secretTree := by
  have hcanon : sampleTree.canonicalize sampleSpec.rootDir = some [utf8 "srv"] := by
    decide +kernel
  refine ⟨rfl, by decide +kernel, ?_, ?_⟩
  · rintro root hroot p ⟨t, rfl⟩
    rw [hcanon] at hroot
    obtain rfl := Option.some.inj hroot
    have hx : utf8 "x" ≠ utf8 "srv" := by decide
    simp [sampleTree, secretTree, FileSystem.ofTable, objectIn, List.find?_cons, hx]
  · intro root hroot p hp hne
    rw [hcanon] at hroot
    obtain rfl := Option.some.inj hroot
    obtain rfl : p = [] := by
      rcases List.prefix_cons_iff.1 hp with rfl | ⟨q, rfl, hq⟩
      · rfl
      · exact absurd (by rw [List.prefix_nil.1 hq]) hne
    exact ⟨some [utf8 "srv"], some [utf8 "srv", utf8 "x"], true, by decide, by decide⟩

/-- A file below the root is the same in both. -/
theorem outside_hidden_sample :
    buildResponse id sampleSpec sampleTree ⟨"GET", "/a.txt", false⟩ =
      buildResponse id sampleSpec secretTree ⟨"GET", "/a.txt", false⟩ :=
  (outside_hidden id sampleSpec sampleTree secretTree agreeInside_secretTree _).1 (by
    rintro root ⟨-, hroot, decoded, hdec, q, hq, hout⟩
    have hcanon : sampleTree.canonicalize sampleSpec.rootDir = some [utf8 "srv"] := by
      decide +kernel
    have hdecoded : percentDecode (rawPath "/a.txt".toList) = some "/a.txt".toList := by
      decide +kernel
    rw [hcanon] at hroot
    obtain rfl := Option.some.inj hroot
    obtain rfl := Option.some.inj (hdecoded.symm.trans hdec)
    have hlooks : sampleTree.canonicalizeLooks (joinedPath [utf8 "srv"] "/a.txt".toList) =
        [[utf8 "srv"], [utf8 "srv", utf8 "a.txt"]] := by
      decide +kernel
    rw [hlooks] at hq
    rcases List.mem_cons.1 hq with rfl | hq
    · exact hout (.inl (List.prefix_refl _))
    · rw [List.mem_singleton.1 hq] at hout
      exact hout (.inr (by decide)))

/-- Whether there is a file next to the root directory can be told from outside. -/
theorem secret_shows :
    ¬∀ (lower : List Char → List Char) (spec : StaticSpec) (fs fs' : FileSystem),
      AgreeInside spec fs fs' → ∀ req,
        buildResponse lower spec fs req = buildResponse lower spec fs' req := by
  intro h
  have hsame := h id sampleSpec sampleTree secretTree agreeInside_secretTree
    ⟨"GET", "/../x", false⟩
  revert hsame
  decide +kernel

end MeshlyCore.StaticHttp
