import MeshlyCore.Lib.Text
import MeshlyCore.StaticHttp.Listing

/-!
# The markup of a listing

Names are data of whoever can write to the directory. The markup of the page that lists them is to
be the same for all names: a skeleton that only the number of the entries and whether the
directory is the root decide.

The rows escape the names. The title and the heading show the path of the directory as it is.

**Theorem (`markup_iff`).** The markup of a page is the skeleton if and only if no name on the way
from the root to the directory has a `<` or a `>` in it.

That it suffices goes piece by piece along the page (`Marks.append`). The converse counts: every
`<` and `>` of a page is in its markup, and those of the title come on top of those of the
skeleton.
-/

namespace MeshlyCore.StaticHttp

open FileTree Text

/-! ## Markup -/

/-- Where in a page a character stands: between the tags, in a tag, in the value of an attribute. -/
inductive Mode where
  | text
  | tag
  | value
  deriving DecidableEq

def Mode.step : Mode → Char → Mode
  | .text, c => if c = '<' then .tag else .text
  | .tag, c => if c = '>' then .text else if c = '\x22' then .value else .tag
  | .value, c => if c = '\x22' then .tag else .value

/-- The character belongs to the markup. -/
def Mode.shows : Mode → Char → Bool
  | .text, c => c = '<' ∨ c = '>'
  | .tag, _ => true
  | .value, c => c = '<' ∨ c = '>' ∨ c = '\x22'

/-- The markup of a page: its tags with the names and quotes of their attributes, and every `<`
and `>`. -/
def markup (m : Mode) : List Char → List Char
  | [] => []
  | c :: s => if m.shows c then c :: markup (m.step c) s else markup (m.step c) s

/-- In mode `m`, the text `s` adds `r` to the markup and leaves mode `m'`. -/
def Marks (m : Mode) (s r : List Char) (m' : Mode) : Prop :=
  markup m s = r ∧ s.foldl Mode.step m = m'

instance (m m' : Mode) (s r : List Char) : Decidable (Marks m s r m') :=
  inferInstanceAs (Decidable (_ ∧ _))

theorem markup_append (m : Mode) (s t : List Char) :
    markup m (s ++ t) = markup m s ++ markup (s.foldl Mode.step m) t := by
  induction s generalizing m with
  | nil => rfl
  | cons c s ih =>
    rw [List.cons_append, markup, markup, ih, List.foldl_cons]
    split_ifs <;> rfl

section Marks

variable {m m' m'' : Mode} {s t r r' : List Char}

theorem Marks.append (hs : Marks m s r m') (ht : Marks m' t r' m'') :
    Marks m (s ++ t) (r ++ r') m'' := by
  obtain ⟨rfl, rfl⟩ := hs
  obtain ⟨rfl, rfl⟩ := ht
  exact ⟨markup_append m s t, List.foldl_append⟩

/-- A text that does not show adds nothing. -/
theorem Marks.of_quiet (h : ∀ c ∈ s, m.shows c = false ∧ m.step c = m) : Marks m s [] m := by
  induction s with
  | nil => exact ⟨rfl, rfl⟩
  | cons c s ih =>
    obtain ⟨hc, hs⟩ := List.forall_mem_cons.1 h
    obtain ⟨hmarkup, hmode⟩ := ih hs
    refine ⟨?_, ?_⟩
    · rw [markup, hc.1, hc.2, hmarkup]
      rfl
    · rw [List.foldl_cons, hc.2, hmode]

theorem Marks.text_of_quiet (h : ∀ c ∈ s, c ≠ '<' ∧ c ≠ '>') : Marks .text s [] .text :=
  .of_quiet fun c hc => by simp [Mode.shows, Mode.step, h c hc]

theorem Marks.flatMap {α : Type*} {f : α → List Char} {xs : List α}
    (h : ∀ x ∈ xs, Marks m (f x) r m) :
    Marks m (xs.flatMap f) (List.replicate xs.length r).flatten m := by
  induction xs with
  | nil => exact ⟨rfl, rfl⟩
  | cons x xs ih =>
    obtain ⟨hx, hxs⟩ := List.forall_mem_cons.1 h
    rw [List.flatMap_cons, List.length_cons, List.replicate_succ, List.flatten_cons]
    exact hx.append (ih hxs)

end Marks

/-- Every `<` and `>` is in the markup. -/
theorem count_markup {c : Char} (hc : c = '<' ∨ c = '>') (m : Mode) (s : List Char) :
    (markup m s).count c = s.count c := by
  have hshows : ∀ m : Mode, m.shows c := by
    intro m
    rcases hc with rfl | rfl <;> cases m <;> decide
  induction s generalizing m with
  | nil => rfl
  | cons x s ih =>
    rw [markup]
    split_ifs with hx
    · rw [List.count_cons, List.count_cons, ih]
    · have hne : ¬(x == c) := by
        rw [beq_iff_eq]
        rintro rfl
        exact hx (hshows m)
      rw [List.count_cons_of_ne (by simpa using hne), ih]

/-! ## Escaped text -/

theorem mem_htmlEscape {c : Char} {s : List Char} (h : c ∈ htmlEscape s) :
    c ≠ '<' ∧ c ≠ '>' ∧ c ≠ '\x22' := by
  have hentities : ∀ e ∈ ["&amp;", "&lt;", "&gt;", "&quot;", "&#39;"], ∀ c ∈ e.toList,
      c ≠ '<' ∧ c ≠ '>' ∧ c ≠ '\x22' := by
    simp only [List.forall_mem_cons]
    refine ⟨?_, ?_, ?_, ?_, ?_, by simp⟩ <;> exact List.all_iff_forall_prop.1 (by decide)
  obtain ⟨d, -, hd⟩ := List.mem_flatMap.1 h
  unfold htmlEntity at hd
  split_ifs at hd with hamp hlt hgt hquot hapos
  · exact hentities "&amp;" (by simp) c hd
  · exact hentities "&lt;" (by simp) c hd
  · exact hentities "&gt;" (by simp) c hd
  · exact hentities "&quot;" (by simp) c hd
  · exact hentities "&#39;" (by simp) c hd
  · obtain rfl : c = d := by simpa using hd
    exact ⟨hlt, hgt, hquot⟩

theorem marks_htmlEscape_value (s : List Char) : Marks .value (htmlEscape s) [] .value :=
  .of_quiet fun c hc => by simp [Mode.shows, Mode.step, mem_htmlEscape hc]

theorem marks_htmlEscape_text (s : List Char) : Marks .text (htmlEscape s) [] .text :=
  .text_of_quiet fun _ hc => ⟨(mem_htmlEscape hc).1, (mem_htmlEscape hc).2.1⟩

theorem marks_toString (n : ℕ) : Marks .text (toString n).toList [] .text := by
  refine .text_of_quiet fun c hc => ⟨?_, ?_⟩
  · rintro rfl
    exact absurd (isDigit_of_mem_toString hc) (by decide)
  · rintro rfl
    exact absurd (isDigit_of_mem_toString hc) (by decide)

theorem marks_oneDecimal (n d : ℕ) : Marks .text (oneDecimal n d).toList [] .text := by
  have hdot : Marks .text ".".toList [] .text := by decide
  unfold oneDecimal
  rw [String.toList_append, String.toList_append]
  exact ((marks_toString _).append hdot).append (marks_toString _)

theorem marks_sizeStr (size : ℕ) : Marks .text (sizeStr size).toList [] .text := by
  have hunits : Marks .text " B".toList [] .text ∧ Marks .text " KB".toList [] .text ∧
      Marks .text " MB".toList [] .text := by decide
  unfold sizeStr
  split_ifs
  · rw [String.toList_append]
    exact (marks_toString _).append hunits.1
  · rw [String.toList_append]
    exact (marks_oneDecimal _ _).append hunits.2.1
  · rw [String.toList_append]
    exact (marks_oneDecimal _ _).append hunits.2.2

/-! ## The skeleton -/

def skeletonHead : List Char :=
  ("<!DOCTYPE html><html><head><meta charset=\"\"><title></title><style></style></head>" ++
    "<body><h1></h1><table><thead><tr><th></th><th class=\"\"></th></tr></thead><tbody>").toList

def skeletonRow : List Char := "<tr><td><a href=\"\"></a></td><td class=\"\"></td></tr>".toList

/-- The markup of a page with this many entries. -/
def skeleton (entries : ℕ) (isRoot : Bool) : List Char :=
  skeletonHead ++ (if isRoot then [] else skeletonRow) ++
    (List.replicate entries skeletonRow).flatten ++ listingFoot

/-! ## The page, piece by piece -/

/-- The page up to the title. -/
def headOpen : List Char :=
  "<!DOCTYPE html>\n<html><head><meta charset=\"utf-8\">".toList ++ "<title>Index of ".toList

/-- The page between the title and the heading. -/
def headMiddle : List Char :=
  "</title>".toList ++ "<style>".toList ++
  "body\x7bfont-family:system-ui,sans-serif;margin:1.5em;max-width:60em\x7d".toList ++
  "table\x7bborder-collapse:collapse;width:100%\x7d".toList ++
  "th,td\x7bpadding:0.3em 0.6em;text-align:left;border-bottom:1px solid #eee\x7d".toList ++
  "a\x7btext-decoration:none;color:#04c\x7da:hover\x7btext-decoration:underline\x7d".toList ++
  ".size\x7btext-align:right;font-variant-numeric:tabular-nums;color:#888\x7d".toList ++
  "</style></head><body>".toList ++ "<h1>Index of ".toList

/-- The page between the heading and the rows. -/
def headClose : List Char :=
  "</h1>".toList ++
  "<table><thead><tr><th>Name</th><th class=\"size\">Size</th></tr></thead><tbody>".toList

theorem listingHead_eq (title : List Char) :
    listingHead title = headOpen ++ title ++ headMiddle ++ title ++ headClose := by
  unfold listingHead headOpen headMiddle headClose
  simp only [List.append_assoc]

theorem marks_listingHead {title : List Char} (h : ∀ c ∈ title, c ≠ '<' ∧ c ≠ '>') :
    Marks .text (listingHead title) skeletonHead .text := by
  have hopen : Marks .text headOpen
      "<!DOCTYPE html><html><head><meta charset=\"\"><title>".toList .text := by decide +kernel
  have hmiddle : Marks .text headMiddle
      "</title><style></style></head><body><h1>".toList .text := by decide +kernel
  have hclose : Marks .text headClose
      ("</h1><table><thead><tr><th></th><th class=\"\"></th></tr></thead><tbody>").toList
      .text := by decide +kernel
  have htitle := Marks.text_of_quiet h
  have hall := (((hopen.append htitle).append hmiddle).append htitle).append hclose
  rw [← listingHead_eq] at hall
  have hskeleton : skeletonHead = "<!DOCTYPE html><html><head><meta charset=\"\"><title>".toList ++
      [] ++ "</title><style></style></head><body><h1>".toList ++ [] ++
      "</h1><table><thead><tr><th></th><th class=\"\"></th></tr></thead><tbody>".toList := by
    decide +kernel
  rw [hskeleton]
  exact hall

theorem marks_parentRow (root dir : Path) :
    Marks .text (parentRow root dir) (if stripRoot root dir = [] then [] else skeletonRow)
      .text := by
  unfold parentRow
  split_ifs
  · decide
  · decide +kernel

/-- **A row adds the same markup whatever its entry is called.** -/
theorem marks_entryRow (e : Entry) : Marks .text (entryRow e) skeletonRow .text := by
  have hopen : Marks .text "<tr><td><a href=\"".toList "<tr><td><a href=\"".toList .value := by
    decide
  have hlink : Marks .value "\">".toList "\">".toList .text := by decide
  have hname : Marks .text "</a></td><td class=\"size\">".toList
      "</a></td><td class=\"\">".toList .text := by decide +kernel
  have hclose : Marks .text "</td></tr>".toList "</td></tr>".toList .text := by decide
  have hsize : Marks .text (if e.isDir then "—" else sizeStr e.size).toList [] .text := by
    split_ifs
    · decide
    · exact marks_sizeStr e.size
  have hall := (((((hopen.append (marks_htmlEscape_value (stripDots e.href))).append hlink).append
    (marks_htmlEscape_text (if e.isDir then e.name ++ ['/'] else e.name))).append hname).append
    hsize).append hclose
  have hskeleton : skeletonRow = "<tr><td><a href=\"".toList ++ [] ++ "\">".toList ++ [] ++
      "</a></td><td class=\"\">".toList ++ [] ++ "</td></tr>".toList := by decide +kernel
  rw [hskeleton]
  exact hall

theorem marks_listingFoot : Marks .text listingFoot listingFoot .text := by decide +kernel

/-- The page with another title. -/
def pageTitled (title : List Char) (root dir : Path) (entries : List Entry) : List Char :=
  listingHead title ++ parentRow root dir ++ entries.flatMap entryRow ++ listingFoot

theorem marks_pageTitled {title : List Char} (h : ∀ c ∈ title, c ≠ '<' ∧ c ≠ '>')
    (root dir : Path) (entries : List Entry) :
    Marks .text (pageTitled title root dir entries)
      (skeleton entries.length (stripRoot root dir = [])) .text := by
  have hrows : Marks .text (entries.flatMap entryRow)
      (List.replicate entries.length skeletonRow).flatten .text :=
    .flatMap fun e _ => marks_entryRow e
  have hall := (((marks_listingHead h).append (marks_parentRow root dir)).append hrows).append
    marks_listingFoot
  simp only [skeleton, decide_eq_true_eq]
  exact hall

theorem count_pageTitled (c : Char) (title : List Char) (root dir : Path) (entries : List Entry) :
    (pageTitled title root dir entries).count c =
      (pageTitled [] root dir entries).count c + 2 * title.count c := by
  simp only [pageTitled, listingHead_eq, List.count_append, List.count_nil]
  omega

/-- **The markup is the skeleton exactly when the title shows nothing.** -/
theorem markup_listingPage_iff (root dir : Path) (entries : List Entry) :
    markup .text (listingPage root dir entries) =
        skeleton entries.length (stripRoot root dir = []) ↔
      ∀ c ∈ listingTitle root dir, c ≠ '<' ∧ c ≠ '>' := by
  constructor
  · intro h
    have hzero : ∀ c, c = '<' ∨ c = '>' → c ∉ listingTitle root dir := by
      intro c hc
      have hplain := (marks_pageTitled (by simp) root dir entries : Marks .text
        (pageTitled [] root dir entries) _ _).1
      have hcount : (pageTitled (listingTitle root dir) root dir entries).count c =
          (pageTitled [] root dir entries).count c := by
        rw [← count_markup hc .text (pageTitled [] root dir entries), hplain, ← h, count_markup hc]
        rfl
      rw [count_pageTitled] at hcount
      exact List.count_eq_zero.1 (by omega)
    intro c hc
    refine ⟨?_, ?_⟩
    · rintro rfl
      exact hzero _ (.inl rfl) hc
    · rintro rfl
      exact hzero _ (.inr rfl) hc
  · intro h
    exact (marks_pageTitled h root dir entries).1

/-! ## The names on the way -/

theorem mem_relText {b : UInt8} (hb : b ≠ 47) {names : List Name} :
    b ∈ relText names ↔ ∃ n ∈ names, b ∈ n := by
  unfold relText
  induction names with
  | nil => simp
  | cons n names ih =>
    cases names with
    | nil => simp
    | cons m names =>
      rw [List.intercalate_cons_cons, List.append_assoc, List.mem_append, List.mem_append, ih]
      simp [hb]

theorem mem_listingTitle {root dir : Path} {c : Char} (hc : c.toNat < 128) (hslash : c ≠ '/')
    (hroot : root <+: dir) :
    c ∈ listingTitle root dir ↔ ∃ n ∈ dir.drop root.length, UInt8.ofNat c.toNat ∈ n := by
  have hbyte : UInt8.ofNat c.toNat ≠ 47 := by
    intro heq
    have hnat := congrArg UInt8.toNat heq
    rw [UInt8.toNat_ofNat', Nat.mod_eq_of_lt (by omega)] at hnat
    exact hslash (Char.toNat_inj.1 hnat)
  rw [← mem_relText hbyte]
  unfold listingTitle stripRoot
  rw [if_pos hroot]
  split_ifs with hnil
  · simp [hslash, hnil]
  · rw [List.mem_cons, mem_fromUtf8Lossy_iff hc]
    simp [hslash]

theorem stripRoot_eq_nil {root dir : Path} (hroot : root <+: dir) (hdir : ∀ n ∈ dir, IsName n) :
    stripRoot root dir = [] ↔ dir = root := by
  obtain ⟨names, rfl⟩ := hroot
  rw [stripRoot, if_pos (List.prefix_append root names), List.drop_left]
  cases names with
  | nil => simp [relText]
  | cons n names =>
    have hn : IsName n := hdir n (by simp)
    obtain ⟨b, hb⟩ := List.exists_mem_of_ne_nil n hn.1
    have hslash : b ≠ 47 := fun heq => hn.2.2.2.1 (heq ▸ hb)
    have hmem : b ∈ relText (n :: names) := (mem_relText hslash).2 ⟨n, List.mem_cons_self, hb⟩
    simp [List.ne_nil_of_mem hmem]

/-- The markup of a page in bytes. -/
def markupOf (page : Bytes) : Option (List Char) :=
  (fromUtf8 page).map fun text => markup .text text.toList

/-- The page of a directory, and its markup. -/
theorem markupOf_listing (lower : List Char → List Char) {fs : FileSystem} {root dir : Path}
    {names : List Name} (hnames : fs.readDir (toText dir) = some names) :
    ∃ page entries, renderDirectoryListing lower fs root dir = some page ∧
      entries.length = names.length ∧
      markupOf page = some (markup .text (listingPage root dir entries)) := by
  refine ⟨utf8Chars (listingPage root dir (listingEntries lower fs root dir names)),
    listingEntries lower fs root dir names, ?_, ?_, ?_⟩
  · rw [renderDirectoryListing, hnames]
    rfl
  · rw [listingEntries, List.length_mergeSort, List.length_map]
  · rw [markupOf, ← utf8_ofList, fromUtf8_utf8, Option.map_some, String.toList_ofList]

theorem markup_skeleton_iff {root dir : Path} (hroot : root <+: dir) (hdir : ∀ n ∈ dir, IsName n)
    (entries : List Entry) :
    markup .text (listingPage root dir entries) = skeleton entries.length (dir = root) ↔
      ∀ n ∈ dir.drop root.length, 60 ∉ n ∧ 62 ∉ n := by
  have hiff := markup_listingPage_iff root dir entries
  simp only [stripRoot_eq_nil hroot hdir] at hiff
  have hlt := mem_listingTitle (c := '<') (by decide) (by decide) hroot
  have hgt := mem_listingTitle (c := '>') (by decide) (by decide) hroot
  rw [hiff]
  constructor
  · intro h n hn
    exact ⟨fun hmem => (h '<' (hlt.2 ⟨n, hn, hmem⟩)).1 rfl,
      fun hmem => (h '>' (hgt.2 ⟨n, hn, hmem⟩)).2 rfl⟩
  · intro h c hc
    refine ⟨?_, ?_⟩
    · rintro rfl
      obtain ⟨n, hn, hmem⟩ := hlt.1 hc
      exact (h n hn).1 hmem
    · rintro rfl
      obtain ⟨n, hn, hmem⟩ := hgt.1 hc
      exact (h n hn).2 hmem

/-- **The markup of a listing.** It is the skeleton exactly when no name on the way from the root to
the directory has a `<` or a `>` in it. -/
theorem markup_iff (lower : List Char → List Char) (fs : FileSystem) (root dir : Path)
    (names : List Name) (hroot : root <+: dir) (hdir : ∀ n ∈ dir, IsName n)
    (hnames : fs.readDir (toText dir) = some names) :
    ∃ page, renderDirectoryListing lower fs root dir = some page ∧
      (markupOf page = some (skeleton names.length (dir = root)) ↔
        ∀ n ∈ dir.drop root.length, 60 ∉ n ∧ 62 ∉ n) := by
  obtain ⟨page, entries, hpage, hlen, hmarkup⟩ := @markupOf_listing lower fs root dir names hnames
  refine ⟨page, hpage, ?_⟩
  rw [hmarkup, Option.some.injEq, ← hlen, markup_skeleton_iff hroot hdir]

/-- `/srv`, with two empty directories. -/
def markupTree : FileSystem :=
  .ofTable [([], .dir (some [utf8 "srv"]) true),
    ([utf8 "srv"], .dir (some [utf8 "a", utf8 "<b>"]) true),
    ([utf8 "srv", utf8 "a"], .dir (some []) true),
    ([utf8 "srv", utf8 "<b>"], .dir (some []) true)] [] 40
    (by decide +kernel) (by decide +kernel) (by decide +kernel)

theorem markup_plainDirectory :
    ∃ page, renderDirectoryListing id markupTree [utf8 "srv"] [utf8 "srv", utf8 "a"] = some page ∧
      markupOf page = some (skeleton 0 false) := by
  obtain ⟨page, hpage, hiff⟩ := markup_iff id markupTree [utf8 "srv"] [utf8 "srv", utf8 "a"] []
    (by decide +kernel) (by decide +kernel) (by decide +kernel)
  exact ⟨page, hpage, hiff.2 (by decide +kernel)⟩

/-- Two directories with nothing in them, and two skeletons. -/
theorem markup_differs :
    ¬∃ skel : ℕ → Bool → List Char, ∀ (lower : List Char → List Char) (fs : FileSystem)
      (root dir : Path) (names : List Name) (page : Bytes), root <+: dir →
        (∀ n ∈ dir, IsName n) → fs.readDir (toText dir) = some names →
        renderDirectoryListing lower fs root dir = some page →
        markupOf page = some (skel names.length (dir = root)) := by
  rintro ⟨skel, h⟩
  have hskel : ∀ n : Name, [utf8 "srv", n] ≠ [utf8 "srv"] ∧ [utf8 "srv"] <+: [utf8 "srv", n] :=
    fun n => ⟨by simp, ⟨[n], rfl⟩⟩
  have hname : ∀ n ∈ [utf8 "srv", utf8 "a"], IsName n := by decide +kernel
  have hname' : ∀ n ∈ [utf8 "srv", utf8 "<b>"], IsName n := by decide +kernel
  have hdir : markupTree.readDir (toText [utf8 "srv", utf8 "a"]) = some [] := by decide +kernel
  have hdir' : markupTree.readDir (toText [utf8 "srv", utf8 "<b>"]) = some [] := by
    decide +kernel
  obtain ⟨page, entries, hpage, hlen, hmarkup⟩ :=
    @markupOf_listing id markupTree [utf8 "srv"] _ _ hdir
  obtain ⟨page', entries', hpage', hlen', hmarkup'⟩ :=
    @markupOf_listing id markupTree [utf8 "srv"] _ _ hdir'
  have hplain := h id markupTree _ _ _ page (hskel _).2 hname hdir hpage
  have hodd := h id markupTree _ _ _ page' (hskel _).2 hname' hdir' hpage'
  rw [hmarkup, Option.some.injEq,
    (markup_skeleton_iff (hskel _).2 hname entries).2 (by decide +kernel)] at hplain
  rw [hmarkup', Option.some.injEq] at hodd
  have hbad := (markup_skeleton_iff (hskel _).2 hname' entries').1 (by
    rw [hodd, hlen', ← hlen]
    simpa [hskel, hlen] using hplain.symm)
  revert hbad
  decide +kernel

end MeshlyCore.StaticHttp
