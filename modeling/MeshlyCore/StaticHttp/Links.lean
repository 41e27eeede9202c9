import MeshlyCore.Lib.Url
import MeshlyCore.StaticHttp.Percent

/-!
# The links of a listing

Every entry of a listing is linked. A browser undoes the HTML escapes of the link, resolves it
against the URL of the directory, and asks for the path it gets; this is to lead to the entry.

The link is the path of the entry from the root, but without the slash that would make a browser
begin at the root. In a directory below the root its names are so walked twice. And it is not
percent-encoded, while the server decodes what it is asked for; and `..` is cut out of names.

**Theorem (`links_lead`).** A link leads to its entry if the directory is the root and may be
walked through, and the name has in it no `%`, `+`, `?`, `#` or `..`, and no colon but after a
colon at its front. Where nothing is a link in the file system and the names on the way to the
directory have no `%`, `+`, `?`, `#` or `..`, it does not otherwise.

The converse weighs the name. Without links the last name of a target is a piece of the path
asked for, or else a name of the directory. Cutting and decoding make a text shorter or replace a
plus sign, so the piece can be the name only if nothing was done to it. Then the path is as long
as the directory, twice, and the name; which is the path of the entry for the root alone.
-/

namespace MeshlyCore.StaticHttp

open FileTree FileSystem Url

/-! ## HTML escapes -/

/-- Replace the character references that `html_escape` makes. -/
def htmlUnescape : List Char → List Char
  | '&' :: 'a' :: 'm' :: 'p' :: ';' :: s => '&' :: htmlUnescape s
  | '&' :: 'l' :: 't' :: ';' :: s => '<' :: htmlUnescape s
  | '&' :: 'g' :: 't' :: ';' :: s => '>' :: htmlUnescape s
  | '&' :: 'q' :: 'u' :: 'o' :: 't' :: ';' :: s => '\x22' :: htmlUnescape s
  | '&' :: '#' :: '3' :: '9' :: ';' :: s => '\x27' :: htmlUnescape s
  | c :: s => c :: htmlUnescape s
  | [] => []

theorem htmlUnescape_cons {c : Char} (hc : c ≠ '&') (s : List Char) :
    htmlUnescape (c :: s) = c :: htmlUnescape s := by
  rw [htmlUnescape.eq_def]
  split <;> simp_all

theorem htmlUnescape_htmlEscape (s : List Char) : htmlUnescape (htmlEscape s) = s := by
  induction s with
  | nil => rfl
  | cons c s ih =>
    have hcons : htmlEscape (c :: s) =
        ((htmlEntity c).map String.toList).getD [c] ++ htmlEscape s := rfl
    rw [hcons]
    unfold htmlEntity
    split_ifs with hamp hlt hgt hquot hapos
    · subst hamp
      exact congrArg ('&' :: ·) ih
    · subst hlt
      exact congrArg ('<' :: ·) ih
    · subst hgt
      exact congrArg ('>' :: ·) ih
    · subst hquot
      exact congrArg ('\x22' :: ·) ih
    · subst hapos
      exact congrArg ('\x27' :: ·) ih
    · exact (htmlUnescape_cons hamp _).trans (congrArg (c :: ·) ih)

/-! ## Dots -/

theorem stripDots_cons {c : Char} {s : List Char} (h : ∀ t, c = '.' → s = '.' :: t → False) :
    stripDots (c :: s) = c :: stripDots s := by
  rw [stripDots.eq_def]
  split
  · simp_all
  · rename_i t heq
    obtain ⟨rfl, rfl⟩ := List.cons.inj heq
    exact (h t rfl rfl).elim
  · rename_i c' s' _ heq
    obtain ⟨rfl, rfl⟩ := List.cons.inj heq
    rfl

theorem stripDots_sublist (s : List Char) : (stripDots s).Sublist s := by
  fun_induction stripDots s with
  | case1 => exact List.Sublist.refl []
  | case2 s ih => exact (ih.trans (List.sublist_cons_self _ _)).trans (List.sublist_cons_self _ _)
  | case3 c s hnot ih => exact ih.cons_cons c

/-- No pair of dots goes over another character. -/
theorem stripDots_append {c : Char} (hc : c ≠ '.') (s t : List Char) :
    stripDots (s ++ c :: t) = stripDots s ++ c :: stripDots t := by
  fun_induction stripDots s with
  | case1 => exact stripDots_cons fun _ heq => absurd heq hc
  | case2 s ih => exact ih
  | case3 d s hnot ih =>
    rw [List.cons_append, stripDots_cons, ih, List.cons_append]
    intro u hd heq
    cases s with
    | nil => exact hc (List.cons.inj heq).1
    | cons x s =>
      obtain ⟨rfl, -⟩ := List.cons.inj heq
      exact hnot s hd rfl

theorem stripDots_eq_self {s : List Char} (h : ¬['.', '.'] <:+: s) : stripDots s = s := by
  fun_induction stripDots s with
  | case1 => rfl
  | case2 s ih => exact absurd (List.prefix_append ['.', '.'] s).isInfix h
  | case3 c s hnot ih => rw [ih fun hin => h (hin.trans (List.suffix_cons c s).isInfix)]

theorem not_infix_stripDots (s : List Char) : ¬['.', '.'] <:+: stripDots s := by
  fun_induction stripDots s with
  | case1 => simp
  | case2 s ih => exact ih
  | case3 c s hnot ih =>
    rw [List.infix_cons_iff, not_or]
    refine ⟨fun hp => ?_, ih⟩
    obtain ⟨hc, hnext⟩ := List.cons_prefix_cons.1 hp
    -- What follows a dot that stays is no dot, and so stays too.
    cases s with
    | nil => simp [stripDots] at hnext
    | cons d s =>
      have hd : d ≠ '.' := fun heq => hnot s hc.symm (by rw [heq])
      rw [stripDots_cons fun _ heq => absurd heq hd] at hnext
      exact hd (List.cons_prefix_cons.1 hnext).1.symm

/-! ## Decoding -/

/-- Decoding makes a text shorter, or replaces its plus signs, or does nothing. -/
theorem length_percentDecodeLoop {b d : Bytes} (h : percentDecodeLoop b = some d) :
    d.length ≤ b.length ∧ (d.length = b.length → 37 ∉ b ∧ (d = b → 43 ∉ b)) := by
  rw [percentDecodeLoop_eq_some] at h
  induction h with
  | nil => simp
  | escape _ _ _ ih =>
    have hle := ih.1
    simp only [List.length_cons]
    exact ⟨by omega, fun heq => by omega⟩
  | plus _ ih =>
    obtain ⟨hle, heq⟩ := ih
    simp only [List.length_cons, List.mem_cons]
    refine ⟨by omega, fun hlen => ⟨?_, fun hsame => ?_⟩⟩
    · exact not_or.2 ⟨by decide, (heq (by omega)).1⟩
    · exact absurd (List.cons.inj hsame).1 (by decide)
  | other percent plus _ ih =>
    obtain ⟨hle, heq⟩ := ih
    simp only [List.length_cons, List.mem_cons]
    refine ⟨by omega, fun hlen => ⟨?_, fun hsame => ?_⟩⟩
    · exact not_or.2 ⟨percent.symm, (heq (by omega)).1⟩
    · exact not_or.2 ⟨plus.symm, (heq (by omega)).2 (List.cons.inj hsame).2⟩

/-- A slash at the end is no part of an escape. -/
theorem percentDecodeLoop_slash {b d : Bytes} (h : percentDecodeLoop (b ++ [47]) = some d) :
    ∃ d', percentDecodeLoop b = some d' ∧ d = d' ++ [47] := by
  fun_induction percentDecodeLoop b generalizing d with
  | case1 => exact ⟨[], rfl, (Option.some.inj h).symm⟩
  | case2 hi lo rest ih =>
    simp only [List.cons_append, percentDecodeLoop, Option.bind_eq_bind,
      Option.bind_eq_some_iff, Option.pure_def, Option.some.injEq] at h ⊢
    obtain ⟨h', hh', l', hl', out, hout, rfl⟩ := h
    obtain ⟨d', hd', rfl⟩ := ih hout
    exact ⟨_, ⟨h', hh', l', hl', d', hd', rfl⟩, rfl⟩
  | case3 rest hshort =>
    -- Two bytes have to follow the sign, and a slash is no digit.
    rcases rest with _ | ⟨a, _ | ⟨c, rest⟩⟩
    · cases h
    · cases ha : hexValue a with
      | none => simp [percentDecodeLoop, ha] at h
      | some v =>
        have hslash : hexValue 47 = none := by decide
        simp [percentDecodeLoop, ha, hslash] at h
    · exact (hshort a c rest rfl).elim
  | case4 rest ih =>
    obtain ⟨out, hout, rfl⟩ := Option.map_eq_some_iff.1 h
    obtain ⟨d', hd', rfl⟩ := ih hout
    exact ⟨32 :: d', by rw [hd']; rfl, rfl⟩
  | case5 x rest h37 h37' h43 ih =>
    rw [List.cons_append, percentDecodeLoop_cons h37' h43] at h
    obtain ⟨out, hout, rfl⟩ := Option.map_eq_some_iff.1 h
    obtain ⟨d', hd', rfl⟩ := ih hout
    exact ⟨x :: d', by rw [hd']; rfl, rfl⟩

/-- A name in a decoded path is a piece of it. -/
theorem infix_of_normal_mem {n : Name} {d : Bytes} (h : .normal n ∈ components d) : n <:+: d := by
  obtain ⟨s, hs, heq⟩ := List.mem_map.1 h
  have hsn : s = n := by
    unfold component at heq
    split_ifs at heq
    exact Component.normal.inj heq
  have hjoin : ∀ ls : List Bytes, s ∈ ls → s <:+: [47].intercalate ls := by
    intro ls
    induction ls with
    | nil => simp
    | cons l ls ih =>
      intro hmem
      cases ls with
      | nil => simpa using (List.mem_singleton.1 hmem) ▸ List.infix_refl s
      | cons m ls =>
        rw [List.intercalate_cons_cons]
        rcases List.mem_cons.1 hmem with rfl | hmem
        · exact ⟨[], [47] ++ [47].intercalate (m :: ls), by simp⟩
        · exact (ih hmem).trans (List.suffix_append _ _).isInfix
  have hin := hjoin _ hs
  rw [List.intercalate_splitOn] at hin
  rwa [hsn] at hin

/-! ## Links -/

/-- What `entryRow` writes between the quotes of `href`. -/
def linkOf (e : Entry) : List Char := htmlEscape (stripDots e.href)

/-- The start of the link of an entry. -/
def anchor (e : Entry) : List Char := "<a href=\"".toList ++ linkOf e ++ "\">".toList

theorem anchor_infix_entryRow (e : Entry) : anchor e <:+: entryRow e := by
  have hrow : "<tr><td><a href=\"".toList = "<tr><td>".toList ++ "<a href=\"".toList := by
    rw [← String.toList_append]
    rfl
  unfold entryRow anchor linkOf
  rw [hrow]
  simp only [List.append_assoc]
  exact ((List.prefix_append_right_inj _).2 ((List.prefix_append_right_inj _).2
    (List.prefix_append _ _))).isInfix.trans (List.suffix_append _ _).isInfix

/-- Every entry of a directory has its link on the page. -/
theorem anchor_on_page {lower : List Char → List Char} {fs : FileSystem} {root dir : Path}
    {n : Name} {o : Object} {path page : Bytes} (hcanon : fs.canonicalize path = some dir)
    (ho : fs.object (dir ++ [n]) = some o)
    (hpage : renderDirectoryListing lower fs root dir = some page) :
    utf8Chars (anchor (listingEntry fs root dir n)) <:+: page := by
  obtain ⟨names, hnames, rfl⟩ := Option.map_eq_some_iff.1 hpage
  obtain ⟨searchable, hmeta⟩ := FileSystem.metadata_of_readDir hnames
  have hmem : n ∈ names :=
    ((fs.listed dir names searchable (object_of_metadata hcanon hmeta)).2 n).2 (by rw [ho]; rfl)
  have hentry : listingEntry fs root dir n ∈ listingEntries lower fs root dir names :=
    List.mem_mergeSort.2 (List.mem_map_of_mem hmem)
  have hrows : anchor (listingEntry fs root dir n) <:+:
      (listingEntries lower fs root dir names).flatMap entryRow := by
    obtain ⟨before, after, heq⟩ := List.append_of_mem hentry
    rw [heq, List.flatMap_append, List.flatMap_cons]
    exact (anchor_infix_entryRow _).trans
      ((List.prefix_append _ _).isInfix.trans (List.suffix_append _ _).isInfix)
  have hinfix : anchor (listingEntry fs root dir n) <:+:
      listingPage root dir (listingEntries lower fs root dir names) :=
    hrows.trans ((List.suffix_append _ _).isInfix.trans (List.prefix_append _ _).isInfix)
  obtain ⟨before, after, heq⟩ := hinfix
  exact ⟨utf8Chars before, utf8Chars after, by rw [← heq, utf8Chars_append, utf8Chars_append]⟩

/-- The path of the URL of a directory below the root. -/
def dirUrl (ds : List Name) : List Char := ds.flatMap (fun n => '/' :: percentEncode n) ++ ['/']

/-- The link of the entry `n` in the listing of `ds` leads to the entry. -/
def Reaches (spec : StaticSpec) (fs : FileSystem) (root ds : Path) (n : Name) : Prop :=
  (follow (dirUrl ds) (htmlUnescape (linkOf (listingEntry fs root (root ++ ds) n)))).map
    (locate spec fs) = some (.ok (root, root ++ ds ++ [n]))

/-- A name that cutting and decoding leave as it is. -/
def SafeName (s : List Char) : Prop :=
  (∀ c ∈ s, c ≠ '%' ∧ c ≠ '+' ∧ c ≠ '?' ∧ c ≠ '#') ∧ ¬['.', '.'] <:+: s

/-- The slash that is put after the name of a directory. -/
def entrySlash (fs : FileSystem) (dir : Path) (n : Name) : List Char :=
  if ((fs.lookup dir n).map Object.isDir).getD false then ['/'] else []

/-- One slash, or none. -/
def OptSlash (s : List Char) : Prop := s = [] ∨ s = ['/']

/-- The text has in it neither a query nor a fragment. -/
def Bare (s : List Char) : Prop := ∀ c ∈ s, c ≠ '?' ∧ c ≠ '#'

/-- The path in which the names of a directory stand twice, first encoded and then as they are. -/
def twice (dss : List (List Char)) (last : List Char) : List Char :=
  (dss.map utf8Chars).flatMap (fun n => '/' :: percentEncode n) ++ dss.flatMap ('/' :: ·) ++
    '/' :: last

section Link

variable {fs : FileSystem} {root : Path} {dss : List (List Char)} {cs : List Char}

theorem Bare.append {s t : List Char} (hs : Bare s) (ht : Bare t) : Bare (s ++ t) :=
  List.forall_mem_append.2 ⟨hs, ht⟩

theorem Bare.slash {s : List Char} (h : Bare s) : Bare ('/' :: s) :=
  List.forall_mem_cons.2 ⟨by decide, h⟩

theorem SafeName.bare (h : SafeName cs) : Bare cs := fun c hc => (h.1 c hc).2.2

theorem OptSlash.bare {s : List Char} (h : OptSlash s) : Bare s := by
  rcases h with rfl | rfl
  · exact fun _ hc => absurd hc List.not_mem_nil
  · exact List.forall_mem_singleton.2 (by decide)

theorem OptSlash.head? {s : List Char} (h : OptSlash s) : ∀ c, s.head? = some c → c = '/' := by
  intro c hc
  rcases h with rfl | rfl
  · cases hc
  · exact (Option.some.inj hc).symm

theorem optSlash_entrySlash (fs : FileSystem) (dir : Path) (n : Name) :
    OptSlash (entrySlash fs dir n) := by
  unfold entrySlash
  split_ifs
  · exact .inr rfl
  · exact .inl rfl

theorem relText_concat (ds : List Name) (n : Name) :
    relText (ds ++ [n]) = ds.flatMap (· ++ [47]) ++ n := by
  unfold relText
  induction ds with
  | nil => simp
  | cons m ds ih =>
    obtain ⟨l, ls, hl⟩ := List.exists_cons_of_ne_nil (List.append_ne_nil_of_right_ne_nil ds
      (List.cons_ne_nil n []))
    rw [List.cons_append, hl, List.intercalate_cons_cons, ← hl, ih]
    simp

theorem stripDots_flatMap (h : ∀ s ∈ dss, SafeName s) (t : List Char) :
    stripDots (dss.flatMap (· ++ ['/']) ++ t) = dss.flatMap (· ++ ['/']) ++ stripDots t := by
  induction dss with
  | nil => rfl
  | cons s dss ih =>
    obtain ⟨hs, h⟩ := List.forall_mem_cons.1 h
    have hcut : (s :: dss).flatMap (· ++ ['/']) ++ t =
        s ++ '/' :: (dss.flatMap (· ++ ['/']) ++ t) := by simp
    rw [hcut, stripDots_append (by decide), stripDots_eq_self hs.2, ih h]
    simp

/-- **The text of a link**: the names on the way and the name without its dots, with slashes. -/
theorem unescape_linkOf (h : ∀ s ∈ dss, SafeName s) :
    htmlUnescape (linkOf (listingEntry fs root (root ++ dss.map utf8Chars) (utf8Chars cs))) =
      dss.flatMap (· ++ ['/']) ++
        (stripDots cs ++ entrySlash fs (root ++ dss.map utf8Chars) (utf8Chars cs)) := by
  have hrel : stripRoot root (root ++ dss.map utf8Chars ++ [utf8Chars cs]) =
      utf8Chars (dss.flatMap (· ++ ['/']) ++ cs) := by
    rw [stripRoot, List.append_assoc, if_pos (List.prefix_append _ _), List.drop_left,
      relText_concat, utf8Chars_append, utf8Chars_flatMap, List.flatMap_map]
    simp only [utf8Chars_append]
    rfl
  have hhref : (listingEntry fs root (root ++ dss.map utf8Chars) (utf8Chars cs)).href =
      dss.flatMap (· ++ ['/']) ++
        (cs ++ entrySlash fs (root ++ dss.map utf8Chars) (utf8Chars cs)) := by
    simp only [listingEntry, entrySlash, hrel, fromUtf8Lossy_utf8Chars]
    split_ifs <;> simp
  rw [linkOf, htmlUnescape_htmlEscape, hhref, stripDots_flatMap h]
  congr 1
  unfold entrySlash
  split_ifs
  · exact stripDots_append (by decide) cs []
  · rw [List.append_nil, List.append_nil]

theorem bare_flatMap (h : ∀ s ∈ dss, SafeName s) : Bare (dss.flatMap ('/' :: ·)) := by
  intro c hc
  obtain ⟨s, hs, hc⟩ := List.mem_flatMap.1 hc
  exact (h s hs).bare.slash c hc

theorem takeWhile_eq_self_of_bare {s : List Char} (h : Bare s) :
    s.takeWhile (· ∉ ['?', '#']) = s :=
  List.takeWhile_eq_self_iff.2 fun c hc => by simpa using h c hc

/-- The path of a link: up to a query or a fragment. -/
theorem takeWhile_link (h : ∀ s ∈ dss, SafeName s) (t : List Char) {slash : List Char}
    (hslash : OptSlash slash) :
    ∃ x rest, (dss.flatMap (· ++ ['/']) ++ (t ++ slash)).takeWhile (· ∉ ['?', '#']) =
        dss.flatMap (· ++ ['/']) ++ (x ++ rest) ∧ OptSlash rest ∧ x <+: t ∧ Bare x ∧
      (Bare t → x = t) ∧ (x = t → rest = slash) := by
  have hpass : ∀ c ∈ dss.flatMap (· ++ ['/']), decide (c ∉ ['?', '#']) = true := by
    intro c hc
    obtain ⟨s, hs, hc⟩ := List.mem_flatMap.1 hc
    simpa using ((h s hs).bare.append (OptSlash.bare (.inr rfl))) c hc
  have hclean : Bare (t.takeWhile (· ∉ ['?', '#'])) := by
    intro c hc
    simpa using List.mem_takeWhile_imp hc
  rw [List.takeWhile_append_of_pos hpass]
  by_cases hall : t.takeWhile (· ∉ ['?', '#']) = t
  · refine ⟨t, slash, ?_, hslash, List.prefix_refl t, hall ▸ hclean, fun _ => rfl, fun _ => rfl⟩
    rw [List.takeWhile_append_of_pos (List.takeWhile_eq_self_iff.1 hall),
      takeWhile_eq_self_of_bare hslash.bare]
  · refine ⟨t.takeWhile (· ∉ ['?', '#']), [], ?_, .inl rfl, List.takeWhile_prefix _, hclean,
      fun hbare => absurd (takeWhile_eq_self_of_bare hbare) hall, fun heq => absurd heq hall⟩
    have hlen : (t.takeWhile (· ∉ ['?', '#'])).length ≠ t.length := fun heq =>
      hall ((List.takeWhile_prefix _).eq_of_length heq)
    rw [List.takeWhile_append, if_neg hlen, List.append_nil]

theorem isSegment_percentEncode {n : Name} (hn : IsName n) : IsSegment (percentEncode n) := by
  have hdecode : ∀ cs, percentEncode n = cs → percentDecodeLoop (utf8Chars cs) = some n := by
    rintro _ rfl
    have := percentDecodeLoop_encode n []
    simpa [percentDecodeLoop] using this
  refine ⟨fun hmem => absurd (isPathChar_of_mem hmem) (by decide), fun heq => ?_, fun heq => ?_⟩
  · exact hn.2.1 (Option.some.inj (hdecode _ heq)).symm
  · exact hn.2.2.1 (Option.some.inj (hdecode _ heq)).symm

theorem isSegment_of_isName (hn : IsName (utf8Chars cs)) : IsSegment cs := by
  refine ⟨fun hmem => hn.2.2.2.1 (List.mem_flatMap.2 ⟨'/', hmem, by decide⟩), ?_, ?_⟩
  · rintro rfl
    exact hn.2.1 rfl
  · rintro rfl
    exact hn.2.2.1 rfl

theorem slash_flatMap (t : List Char) :
    '/' :: (dss.flatMap (· ++ ['/']) ++ t) = dss.flatMap ('/' :: ·) ++ '/' :: t := by
  induction dss with
  | nil => rfl
  | cons s dss ih =>
    have hcut : '/' :: ((s :: dss).flatMap (· ++ ['/']) ++ t) =
        '/' :: s ++ '/' :: (dss.flatMap (· ++ ['/']) ++ t) := by simp
    rw [hcut, ih, List.flatMap_cons, List.append_assoc]

/-- What a link begins with is not a slash, unless there is nothing before its end. -/
theorem head_of_link (hds : ∀ n ∈ dss.map utf8Chars, IsName n) {x : List Char} (hx : '/' ∉ x)
    (hne : ¬(dss = [] ∧ x = [])) (rest : List Char) :
    ∃ c t, dss.flatMap (· ++ ['/']) ++ (x ++ rest) = c :: t ∧ c ≠ '/' := by
  cases dss with
  | nil =>
    obtain ⟨c, x, rfl⟩ := List.exists_cons_of_ne_nil fun h => hne ⟨rfl, h⟩
    exact ⟨c, x ++ rest, rfl, fun heq => hx (heq ▸ List.mem_cons_self)⟩
  | cons s dss =>
    have hs := hds (utf8Chars s) (by simp)
    obtain ⟨c, s, rfl⟩ := List.exists_cons_of_ne_nil fun h => hs.1 (utf8Chars_eq_nil.2 h)
    exact ⟨c, _, rfl, fun heq => (isSegment_of_isName hs).1 (heq ▸ List.mem_cons_self)⟩

theorem twice_eq (dss : List (List Char)) (last : List Char) :
    twice dss last =
      ((dss.map utf8Chars).map percentEncode ++ dss).flatMap ('/' :: ·) ++ '/' :: last := by
  rw [twice, List.flatMap_append, List.flatMap_map percentEncode]

/-- A link stands after the names of its directory. -/
theorem merge_dirUrl (dss : List (List Char)) (last : List Char) :
    merge (dirUrl (dss.map utf8Chars)) (dss.flatMap (· ++ ['/']) ++ last) = twice dss last := by
  rw [merge, dirUrl, List.rdropWhile_concat_neg _ _ _ (by simp), List.append_assoc,
    List.singleton_append, slash_flatMap, twice, List.append_assoc]

/-- **Where a link leads**: the names of the directory, once more, and what is left of the name. -/
theorem follow_link (hds : ∀ n ∈ dss.map utf8Chars, IsName n) {x rest href : List Char}
    (hx : '/' ∉ x) (hdots : x ≠ ['.', '.']) (hrest : OptSlash rest)
    (hscheme : (splitScheme href).1 = none) (hauth : ¬['/', '/'] <+: href)
    (hpath : href.takeWhile (· ∉ ['?', '#']) = dss.flatMap (· ++ ['/']) ++ (x ++ rest)) :
    ∃ last, follow (dirUrl (dss.map utf8Chars)) href = some (twice dss last) ∧
      (last = x ++ rest ∨ last = []) ∧ (x ≠ [] → x ≠ ['.'] → last = x ++ rest) := by
  rw [follow_of_relative _ hscheme hauth, hpath]
  by_cases hnil : dss = [] ∧ x = []
  · obtain ⟨rfl, rfl⟩ := hnil
    refine ⟨[], ?_, .inr rfl, fun h => absurd rfl h⟩
    rcases hrest with rfl | rfl
    · rfl
    · rfl
  · have hsegments : ∀ s ∈ (dss.map utf8Chars).map percentEncode ++ dss, IsSegment s := by
      intro s hs
      rcases List.mem_append.1 hs with hs | hs
      · obtain ⟨n, hn, rfl⟩ := List.mem_map.1 hs
        exact isSegment_percentEncode (hds n hn)
      · exact isSegment_of_isName (hds _ (List.mem_map_of_mem hs))
    obtain ⟨c, t, hcons, hc⟩ := head_of_link hds hx hnil rest
    refine ⟨if x = ['.'] then [] else x ++ rest, ?_, ?_, fun _ hdot => if_neg hdot⟩
    · rw [twice_eq, ← removeDotSegments_segments hsegments hx hdots hrest, ← twice_eq,
        ← merge_dirUrl, hcons]
      simp [resolvePath, hc]
    · split_ifs
      · exact .inr rfl
      · exact .inl rfl

theorem safe_bytes {s : List Char} (h : SafeName s) : ∀ b ∈ utf8Chars s, b ≠ 37 ∧ b ≠ 43 := by
  have hpercent : 37 ∉ utf8Chars s :=
    notMem_utf8Chars (c := '%') (by decide) fun hmem => (h.1 _ hmem).1 rfl
  have hplus : 43 ∉ utf8Chars s :=
    notMem_utf8Chars (c := '+') (by decide) fun hmem => (h.1 _ hmem).2.1 rfl
  exact fun b hb => ⟨fun heq => hpercent (heq ▸ hb), fun heq => hplus (heq ▸ hb)⟩

/-- What the server makes of the path of a link. -/
theorem percentDecodeLoop_twice (h : ∀ s ∈ dss, SafeName s) (last : List Char) :
    percentDecodeLoop (utf8Chars (twice dss last)) =
      (percentDecodeLoop (utf8Chars last)).map fun d =>
        (dss.map utf8Chars ++ dss.map utf8Chars).flatMap (47 :: ·) ++ 47 :: d := by
  have hnames : utf8Chars (dss.flatMap ('/' :: ·)) = (dss.map utf8Chars).flatMap (47 :: ·) := by
    rw [utf8Chars_flatMap, List.flatMap_map]
    rfl
  have hplain : ∀ b ∈ (dss.map utf8Chars).flatMap (47 :: ·), b ≠ 37 ∧ b ≠ 43 := by
    intro b hb
    obtain ⟨n, hn, hb⟩ := List.mem_flatMap.1 hb
    obtain ⟨s, hs, rfl⟩ := List.mem_map.1 hn
    rcases List.mem_cons.1 hb with rfl | hb
    · decide
    · exact safe_bytes (h s hs) b hb
  have hslash : utf8Chars ('/' :: last) = 47 :: utf8Chars last := rfl
  rw [twice, List.append_assoc, utf8Chars_append, percentDecodeLoop_names, utf8Chars_append,
    hnames, percentDecodeLoop_plain hplain, hslash,
    percentDecodeLoop_cons (by decide) (by decide), Option.map_map, Option.map_map]
  congr 1
  funext d
  simp

theorem head?_utf8Chars {text : List Char} (h : text.head? ≠ some '/') :
    (utf8Chars text).head? ≠ some 47 := by
  intro hslash
  cases text with
  | nil => cases hslash
  | cons c text =>
    obtain ⟨b, bs, hb⟩ := List.exists_cons_of_ne_nil (String.utf8EncodeChar_ne_nil (c := c))
    rw [utf8Chars_cons, hb] at hslash
    obtain rfl : b = 47 := by simpa using hslash
    have hc : c = '/' :=
      (mem_utf8EncodeChar_iff (c := '/') (by decide)).1 (hb ▸ List.mem_cons_self)
    exact h (by rw [hc]; rfl)

/-- Slashes in front do not count. -/
theorem lexical_dropWhile (p : Path) (text : List Char) :
    lexical p (components (utf8Chars (text.dropWhile (· = '/')))) =
      lexical p (components (utf8Chars text)) := by
  induction text with
  | nil => rfl
  | cons c text ih =>
    by_cases hc : c = '/'
    · subst hc
      have hcurrent : components (utf8Chars ('/' :: text)) =
          .current :: components (utf8Chars text) :=
        congrArg (List.map component) (List.splitOn_append_cons_self [] (utf8Chars text))
      rw [List.dropWhile_cons_of_pos (by simp), ih, hcurrent]
      rfl
    · rw [List.dropWhile_cons_of_neg (by simpa using hc)]

/-- **Without links, the target of a path is lexical.** -/
theorem target_of_locate {spec : StaticSpec} (hfree : fs.LinkFree) {path : List Char}
    {target : Path} (hclean : Bare path)
    (h : locate spec fs path = .ok (root, target)) :
    ∃ d, percentDecodeLoop (utf8Chars path) = some d ∧ target = lexical root (components d) := by
  obtain ⟨decoded, hdec, hroot, htarget, -⟩ := locate_eq_ok.1 h
  have hnames := isName_of_canonicalize hroot
  have hjoin : ∀ text : List Char, text.head? ≠ some '/' →
      fs.canonicalize (join (toText root) (utf8Chars text)) = some target →
      target = lexical root (components (utf8Chars text)) := by
    intro text hhead htarget
    have hnul : 0 ∉ utf8Chars text := by
      intro hmem
      have hjoined : 0 ∈ join (toText root) (utf8Chars text) := by
        rw [join, if_neg (head?_utf8Chars hhead)]
        split_ifs
        · exact List.mem_append_right _ hmem
        · exact List.mem_append_right _ (List.mem_cons_of_mem _ hmem)
      rw [canonicalize, if_pos (.inr hjoined)] at htarget
      cases htarget
    rw [canonicalize_join hnames (head?_utf8Chars hhead) hnul] at htarget
    rw [resolve_eq_lexical hfree htarget, lexical_append, lexical_normals, List.nil_append]
  rw [rawPath_eq_self hclean] at hdec
  obtain ⟨text, htext, rfl⟩ := Option.map_eq_some_iff.1 hdec
  obtain ⟨d, hd, htext⟩ := Option.bind_eq_some_iff.1 htext
  have hbytes : utf8Chars text.toList = d := by
    rw [← utf8_eq_utf8Chars]
    exact fromUtf8_eq_some.1 htext
  refine ⟨d, hd, ?_⟩
  rw [← hbytes]
  unfold joinedPath at htarget
  split_ifs at htarget with hslash
  · rw [← lexical_dropWhile]
    refine hjoin _ ?_ htarget
    intro hhead
    have := List.head?_dropWhile_not (fun c => decide (c = '/')) text.toList
    rw [hhead] at this
    simp at this
  · rw [not_or] at hslash
    exact hjoin _ hslash.1 htarget

/-- The name of an entry, and the slash after it. -/
theorem components_entry {n : Name} (hn : IsName n) {rest : List Char} (hrest : OptSlash rest) :
    components (n ++ utf8Chars rest) = .normal n :: rest.map fun _ => .current := by
  have hname : component n = .normal n := component_of_isName hn
  rcases hrest with rfl | rfl
  · rw [utf8Chars_nil, List.append_nil, components,
      List.splitOn_eq_singleton hn.2.2.2.1, List.map_singleton, hname, List.map_nil]
  · have hsplit : (n ++ utf8Chars ['/']).splitOn 47 = n.splitOn 47 ++ [[]] :=
      List.splitOn_append_cons_self n []
    rw [components, hsplit, List.splitOn_eq_singleton hn.2.2.2.1, List.singleton_append,
      List.map_cons, hname]
    rfl

/-- **Weighing a name.** If what is left of a name has the name for a piece when it is decoded,
then nothing was done to the name. -/
theorem safe_of_normal_mem (hn : IsName (utf8Chars cs)) {x rest : List Char}
    (hpre : x <+: stripDots cs) (hclean : Bare x) (hrest : OptSlash rest) {d : Bytes}
    (hd : percentDecodeLoop (utf8Chars (x ++ rest)) = some d)
    (hmem : .normal (utf8Chars cs) ∈ components d) : SafeName cs ∧ x = cs := by
  -- The slash apart, the name is a piece of what is decoded.
  obtain ⟨dx, hdx, hin⟩ : ∃ dx, percentDecodeLoop (utf8Chars x) = some dx ∧
      utf8Chars cs <:+: dx := by
    rcases hrest with rfl | rfl
    · rw [List.append_nil] at hd
      exact ⟨d, hd, infix_of_normal_mem hmem⟩
    · rw [utf8Chars_append] at hd
      obtain ⟨dx, hdx, rfl⟩ := percentDecodeLoop_slash hd
      have hsplit : (dx ++ [47]).splitOn 47 = dx.splitOn 47 ++ [[]] :=
        List.splitOn_append_cons_self dx []
      rw [components, hsplit, List.map_append] at hmem
      rcases List.mem_append.1 hmem with hmem | hmem
      · exact ⟨dx, hdx, infix_of_normal_mem hmem⟩
      · simp [component] at hmem
  have hsub : x.Sublist cs := hpre.sublist.trans (stripDots_sublist cs)
  have hbytes : (utf8Chars x).Sublist (utf8Chars cs) := hsub.flatMap _
  have hle := hin.length_le
  have hle' := hbytes.length_le
  obtain ⟨hdecode, hsame⟩ := length_percentDecodeLoop hdx
  obtain rfl : x = cs := utf8Chars_injective (hbytes.eq_of_length (by omega))
  have hdx' : utf8Chars x = dx := hin.eq_of_length (by omega)
  obtain ⟨hpercent, hplus⟩ := hsame (by omega)
  have hplus := hplus hdx'.symm
  have hstrip : stripDots x = x := (stripDots_sublist x).eq_of_length
    (Nat.le_antisymm (stripDots_sublist x).length_le hpre.length_le)
  refine ⟨⟨fun c hc => ⟨?_, ?_, (hclean c hc).1, (hclean c hc).2⟩, ?_⟩, rfl⟩
  · rintro rfl
    exact hpercent (List.mem_flatMap.2 ⟨_, hc, by decide⟩)
  · rintro rfl
    exact hplus (List.mem_flatMap.2 ⟨_, hc, by decide⟩)
  · have hnot := not_infix_stripDots x
    rwa [hstrip] at hnot

/-- Names with slashes before them are walked. -/
theorem lexical_names (p : Path) {names : List Name} (h : ∀ n ∈ names, IsName n) (d : Bytes) :
    lexical p (components (names.flatMap (47 :: ·) ++ 47 :: d)) =
      lexical (p ++ names) (components d) := by
  have hcomponents : components (names.flatMap (47 :: ·) ++ 47 :: d) =
      .current :: (names.map .normal ++ components d) := by
    rw [components, List.splitOn_append_cons_self, splitOn_toText fun n hn => (h n hn).2.2.2.1,
      List.map_append, List.map_cons, component_map h]
    rfl
  rw [hcomponents, lexical, lexical_append, lexical_normals]

/-- A link does not begin with two slashes. -/
theorem not_slashes (hds : ∀ n ∈ dss.map utf8Chars, IsName n) {t rest : List Char} (ht : '/' ∉ t)
    (hrest : OptSlash rest) : ¬['/', '/'] <+: dss.flatMap (· ++ ['/']) ++ (t ++ rest) := by
  intro hp
  by_cases hnil : dss = [] ∧ t = []
  · obtain ⟨rfl, rfl⟩ := hnil
    rcases hrest with rfl | rfl <;> simp [List.cons_prefix_cons] at hp
  · obtain ⟨c, s, hcons, hc⟩ := head_of_link hds ht hnil rest
    rw [hcons] at hp
    exact hc (List.cons_prefix_cons.1 hp).1.symm

/-- The path of a link has no query and no fragment. -/
theorem bare_twice (hplain : ∀ s ∈ dss, SafeName s) {last : List Char} (hlast : Bare last) :
    Bare (twice dss last) := by
  have hencoded : Bare ((dss.map utf8Chars).flatMap fun n => '/' :: percentEncode n) := by
    intro c hc
    obtain ⟨n, -, hc⟩ := List.mem_flatMap.1 hc
    rcases List.mem_cons.1 hc with rfl | hc
    · decide
    · have hpath := isPathChar_of_mem hc
      refine ⟨?_, ?_⟩ <;> rintro rfl <;> revert hpath <;> decide
  exact (hencoded.append (bare_flatMap hplain)).append hlast.slash

/-- What is left of the name in a link without a scheme: `x` of the name itself, and the slash. -/
theorem follow_linkOf (hplain : ∀ s ∈ dss, SafeName s)
    (hnames : ∀ n ∈ dss.map utf8Chars ++ [utf8Chars cs], IsName n) {slash : List Char}
    (hslash : OptSlash slash)
    (hscheme : (splitScheme (dss.flatMap (· ++ ['/']) ++ (stripDots cs ++ slash))).1 = none) :
    ∃ x rest last, follow (dirUrl (dss.map utf8Chars))
          (dss.flatMap (· ++ ['/']) ++ (stripDots cs ++ slash)) = some (twice dss last) ∧
      OptSlash rest ∧ x <+: stripDots cs ∧ Bare x ∧ (last = x ++ rest ∨ last = []) ∧
      (SafeName cs → x = cs ∧ rest = slash ∧ last = cs ++ slash) := by
  have hds : ∀ n ∈ dss.map utf8Chars, IsName n := fun n hn => hnames n (by simp [hn])
  have hn : IsName (utf8Chars cs) := hnames _ (by simp)
  have hstrip : '/' ∉ stripDots cs := fun hmem =>
    (isSegment_of_isName hn).1 ((stripDots_sublist cs).subset hmem)
  obtain ⟨x, rest, hpath, hrest, hpre, hclean, hall, heq⟩ :=
    takeWhile_link hplain (stripDots cs) hslash
  obtain ⟨last, hlast, hor, himp⟩ := follow_link hds (fun hmem => hstrip (hpre.subset hmem))
    (fun hx => not_infix_stripDots cs (hx ▸ hpre.isInfix)) hrest hscheme
    (not_slashes hds hstrip hslash) hpath
  refine ⟨x, rest, last, hlast, hrest, hpre, hclean, hor, fun hsafe => ?_⟩
  rw [stripDots_eq_self hsafe.2] at hall heq
  have hx : x = cs := hall hsafe.bare
  have hne : x ≠ [] := fun hnil => hn.1 (by rw [← hx, hnil]; rfl)
  refine ⟨hx, heq hx, ?_⟩
  rw [himp hne (hx ▸ (isSegment_of_isName hn).2.1), hx, heq hx]

theorem percentDecodeLoop_safe (hsafe : SafeName cs) {slash : List Char}
    (hslash : OptSlash slash) :
    percentDecodeLoop (utf8Chars (cs ++ slash)) = some (utf8Chars cs ++ utf8Chars slash) := by
  have hslashes : percentDecodeLoop (utf8Chars slash) = some (utf8Chars slash) := by
    rcases hslash with rfl | rfl <;> rfl
  rw [utf8Chars_append, percentDecodeLoop_plain (safe_bytes hsafe), hslashes]
  rfl

/-- Where the path of a link leads to the entry, nothing was done to the name, and the names on the
way are none. -/
theorem safe_of_lexical (hplain : ∀ s ∈ dss, SafeName s) (hn : IsName (utf8Chars cs))
    {x rest last slash : List Char} (hslash : OptSlash slash) (hrest : OptSlash rest)
    (hpre : x <+: stripDots cs) (hclean : Bare x) (hor : last = x ++ rest ∨ last = [])
    (hsame : SafeName cs → x = cs ∧ rest = slash ∧ last = cs ++ slash) {d : Bytes}
    (hd : percentDecodeLoop (utf8Chars last) = some d)
    (htarget : root ++ dss.map utf8Chars ++ [utf8Chars cs] =
      lexical (root ++ (dss.map utf8Chars ++ dss.map utf8Chars)) (components d)) :
    dss = [] ∧ SafeName cs := by
  have hwhole : SafeName cs → components d = .normal (utf8Chars cs) :: slash.map fun _ =>
      .current := by
    intro hsafe
    rw [(hsame hsafe).2.2, percentDecodeLoop_safe hsafe hslash] at hd
    obtain rfl := Option.some.inj hd
    exact components_entry hn hslash
  have hmem : .normal (utf8Chars cs) ∈ components d := by
    rcases normal_mem_of_lexical htarget.symm with hmem | hmem
    · exact hmem
    · -- The name is one of those on the way, and these are safe.
      rw [List.append_assoc, List.prefix_append_right_inj, List.prefix_append_right_inj] at hmem
      obtain ⟨s, hs, heq⟩ := List.mem_map.1 (hmem.subset List.mem_cons_self)
      rw [hwhole (utf8Chars_injective heq ▸ hplain s hs)]
      exact List.mem_cons_self
  have hlast : last = x ++ rest := by
    refine hor.resolve_right ?_
    rintro rfl
    obtain rfl := Option.some.inj hd
    simp [components, component] at hmem
  rw [hlast] at hd
  obtain ⟨hsafe, -⟩ := safe_of_normal_mem hn hpre hclean hrest hd hmem
  refine ⟨?_, hsafe⟩
  have hcurrent : ∀ p : Path, lexical p (slash.map fun _ => .current) = p := by
    intro p
    rcases hslash with rfl | rfl <;> rfl
  rw [hwhole hsafe, lexical, hcurrent] at htarget
  have hlen := congrArg List.length htarget
  simp only [List.length_append, List.length_map, List.length_singleton] at hlen
  exact List.length_eq_zero_iff.1 (by omega)

theorem delimiterless (hn : IsName (utf8Chars cs)) (hsafe : SafeName cs) :
    ∀ c ∈ cs, c ∉ ['/', '?', '#'] := by
  intro c hc
  have hslash : c ≠ '/' := fun heq => (isSegment_of_isName hn).1 (heq ▸ hc)
  have hother := hsafe.1 c hc
  simp [hslash, hother]

/-- **A link that leads to its entry** is in the root directory, and its name is safe. -/
theorem safe_of_reaches {spec : StaticSpec} (hfree : fs.LinkFree) (hplain : ∀ s ∈ dss, SafeName s)
    (h : Reaches spec fs root (dss.map utf8Chars) (utf8Chars cs)) :
    dss = [] ∧ SafeName cs ∧ (':' ∈ cs → cs.head? = some ':') := by
  obtain ⟨path, hfollow, hloc⟩ := Option.map_eq_some_iff.1 h
  obtain ⟨decoded, -, -, hcanon, -⟩ := locate_eq_ok.1 hloc
  have hnames : ∀ n ∈ dss.map utf8Chars ++ [utf8Chars cs], IsName n := fun n hn =>
    isName_of_canonicalize hcanon n (by rw [List.append_assoc]; exact List.mem_append_right _ hn)
  have hn : IsName (utf8Chars cs) := hnames _ (by simp)
  have hslash := optSlash_entrySlash fs (root ++ dss.map utf8Chars) (utf8Chars cs)
  rw [unescape_linkOf hplain] at hfollow
  have hscheme := scheme_of_follow hfollow
  obtain ⟨x, rest, last, hlast, hrest, hpre, hclean, hor, hsame⟩ :=
    follow_linkOf hplain hnames hslash hscheme
  obtain rfl := Option.some.inj (hfollow.symm.trans hlast)
  have hlastClean : Bare last := by
    rcases hor with rfl | rfl
    · exact hclean.append hrest.bare
    · exact OptSlash.bare (.inl rfl)
  obtain ⟨decodedLink, hdecoded, htarget⟩ :=
    target_of_locate hfree (bare_twice hplain hlastClean) hloc
  rw [percentDecodeLoop_twice hplain] at hdecoded
  obtain ⟨d, hd, rfl⟩ := Option.map_eq_some_iff.1 hdecoded
  have hnames' : ∀ n ∈ dss.map utf8Chars ++ dss.map utf8Chars, IsName n := by
    intro n hn
    rcases List.mem_append.1 hn with hn | hn
    · exact hnames n (List.mem_append_left _ hn)
    · exact hnames n (List.mem_append_left _ hn)
  rw [lexical_names root hnames'] at htarget
  obtain ⟨rfl, hsafe⟩ :=
    safe_of_lexical hplain hn hslash hrest hpre hclean hor hsame hd htarget
  refine ⟨rfl, hsafe, ?_⟩
  rw [stripDots_eq_self hsafe.2] at hscheme
  exact (splitScheme_eq_none_iff (delimiterless hn hsafe) hslash.head?).1 hscheme

/-- An entry of the root directory is found under a safe name. -/
theorem locate_entry {spec : StaticSpec} (hroot : fs.canonicalize spec.rootDir = some root)
    (hleads : fs.Leads [] root) {o : Object} (ho : fs.lookup root (utf8Chars cs) = some o)
    (hlink : o.isLink = false) (hn : IsName (utf8Chars cs)) (hsafe : SafeName cs) :
    locate spec fs ('/' :: (cs ++ entrySlash fs root (utf8Chars cs))) =
      .ok (root, root ++ [utf8Chars cs]) := by
  have hslash := optSlash_entrySlash fs root (utf8Chars cs)
  -- The slash stands only after a directory.
  have hdir : entrySlash fs root (utf8Chars cs) = ['/'] → fs.isDir (root ++ [utf8Chars cs]) := by
    intro hslash
    unfold entrySlash at hslash
    split_ifs at hslash with hisDir
    rw [ho] at hisDir
    rwa [isDir, object_of_lookup ho]
  generalize entrySlash fs root (utf8Chars cs) = slash at hslash hdir ⊢
  have hhead : (cs ++ slash).head? ≠ some '/' := by
    obtain ⟨c, t, rfl⟩ := List.exists_cons_of_ne_nil fun hnil => hn.1 (utf8Chars_eq_nil.2 hnil)
    intro heq
    obtain rfl : c = '/' := by simpa using heq
    exact (isSegment_of_isName hn).1 List.mem_cons_self
  have hclean : Bare ('/' :: (cs ++ slash)) := (hsafe.bare.append hslash.bare).slash
  have hdec : percentDecode ('/' :: (cs ++ slash)) = some ('/' :: (cs ++ slash)) := by
    have hcons : utf8Chars ('/' :: (cs ++ slash)) = 47 :: utf8Chars (cs ++ slash) := rfl
    refine percentDecode_of_loop ?_
    rw [hcons, percentDecodeLoop_cons (by decide) (by decide),
      percentDecodeLoop_safe hsafe hslash, utf8Chars_append]
    rfl
  have hnul : 0 ∉ utf8Chars (cs ++ slash) := by
    rw [utf8Chars_append, List.mem_append, not_or]
    refine ⟨hn.2.2.2.2, ?_⟩
    rcases hslash with rfl | rfl <;> decide
  have hwalk : fs.Leads root [utf8Chars cs] := ⟨⟨o, ho, hlink⟩, trivial⟩
  have hresolve := resolve_of_leads hwalk fs.maxLinks (slash.map fun _ => .current)
  refine locate_eq_ok.2 ⟨'/' :: (cs ++ slash), by rw [rawPath_eq_self hclean, hdec], hroot, ?_,
    List.prefix_append _ _⟩
  rw [joinedPath_slash root hhead, canonicalize_join_of_leads (isName_of_canonicalize hroot) hleads
    (head?_utf8Chars hhead) hnul, utf8Chars_append, components_entry hn hslash]
  refine hresolve.trans ?_
  rcases hslash with rfl | rfl
  · exact resolve_nil _ _
  · cases fs.maxLinks <;> simp [resolve, walk, hdir]

/-- **A safe link in the root directory leads to its entry.** -/
theorem reaches_of_safe {spec : StaticSpec} (hd : locate spec fs (dirUrl []) = .ok (root, root))
    {o : Object} (ho : fs.lookup root (utf8Chars cs) = some o) (hlink : o.isLink = false)
    (hsafe : SafeName cs) (hcolon : ':' ∈ cs → cs.head? = some ':') :
    Reaches spec fs root [] (utf8Chars cs) := by
  obtain ⟨decoded, -, hroot, hcanon, -⟩ := locate_eq_ok.1 hd
  have hleads := leads_of_canonicalize (head?_joinedPath root decoded) hcanon
  have hn : IsName (utf8Chars cs) :=
    (fs.parent_dir root _ (by rw [object_of_lookup ho]; rfl)).1
  have hslash := optSlash_entrySlash fs root (utf8Chars cs)
  have hscheme : (splitScheme (stripDots cs ++ entrySlash fs root (utf8Chars cs))).1 = none := by
    rw [stripDots_eq_self hsafe.2]
    exact (splitScheme_eq_none_iff (delimiterless hn hsafe) hslash.head?).2 hcolon
  obtain ⟨x, rest, last, hlast, -, -, -, -, hsame⟩ :=
    @follow_linkOf [] cs (by simp) (by simpa using hn) _ hslash hscheme
  obtain ⟨-, -, rfl⟩ := hsame hsafe
  have htext : htmlUnescape (linkOf (listingEntry fs root (root ++ []) (utf8Chars cs))) =
      stripDots cs ++ entrySlash fs root (utf8Chars cs) := by
    have htext := @unescape_linkOf fs root [] cs (by simp)
    simpa using htext
  have hfollow : follow (dirUrl []) (stripDots cs ++ entrySlash fs root (utf8Chars cs)) =
      some ('/' :: (cs ++ entrySlash fs root (utf8Chars cs))) := hlast
  rw [Reaches, htext, hfollow, Option.map_some, locate_entry hroot hleads ho hlink hn hsafe,
    List.append_nil]

end Link

/-! ## The links of a directory -/

/-- The entry is in the root directory, which may be walked through, and its name is safe. -/
def LinkKept (fs : FileSystem) (root ds : Path) (cs : List Char) : Prop :=
  ds = [] ∧ (fs.lookup root (utf8Chars cs)).isSome ∧ SafeName cs ∧
    (':' ∈ cs → cs.head? = some ':')

theorem exists_chars {ds : List Name} (h : ∀ m ∈ ds, ∃ s, m = utf8Chars s ∧ SafeName s) :
    ∃ dss : List (List Char), ds = dss.map utf8Chars ∧ ∀ s ∈ dss, SafeName s := by
  induction ds with
  | nil => exact ⟨[], rfl, by simp⟩
  | cons m ds ih =>
    obtain ⟨⟨s, rfl, hs⟩, htail⟩ := List.forall_mem_cons.1 h
    obtain ⟨dss, rfl, hdss⟩ := ih htail
    exact ⟨s :: dss, rfl, List.forall_mem_cons.2 ⟨hs, hdss⟩⟩

/-- **The links of a listing.** Every entry has its link on the page. Those to safe names in the
root directory lead to their entries; and where nothing is a link and the names on the way are safe,
no others do. -/
theorem links_lead (spec : StaticSpec) (fs : FileSystem) (root ds : Path) (cs : List Char)
    (o : Object) (hd : locate spec fs (dirUrl ds) = .ok (root, root ++ ds))
    (ho : fs.object (root ++ ds ++ [utf8Chars cs]) = some o) (hlink : o.isLink = false) :
    (∀ lower page, renderDirectoryListing lower fs root (root ++ ds) = some page →
      utf8Chars (anchor (listingEntry fs root (root ++ ds) (utf8Chars cs))) <:+: page) ∧
    (LinkKept fs root ds cs → Reaches spec fs root ds (utf8Chars cs)) ∧
      (fs.LinkFree → (∀ m ∈ ds, ∃ s, m = utf8Chars s ∧ SafeName s) →
        Reaches spec fs root ds (utf8Chars cs) → LinkKept fs root ds cs) := by
  refine ⟨fun lower page hpage => ?_, ?_, ?_⟩
  · obtain ⟨decoded, -, -, hcanon, -⟩ := locate_eq_ok.1 hd
    exact anchor_on_page hcanon ho hpage
  · rintro ⟨rfl, hsome, hsafe, hcolon⟩
    obtain ⟨o', ho'⟩ := Option.isSome_iff_exists.1 hsome
    rw [List.append_nil] at hd ho
    rw [object_of_lookup ho'] at ho
    obtain rfl := Option.some.inj ho
    exact reaches_of_safe hd ho' hlink hsafe hcolon
  · intro hfree hplain hreach
    obtain ⟨dss, rfl, hdss⟩ := exists_chars hplain
    obtain ⟨rfl, hsafe, hcolon⟩ := safe_of_reaches hfree hdss hreach
    refine ⟨rfl, ?_, hsafe, hcolon⟩
    obtain ⟨path, -, hloc⟩ := Option.map_eq_some_iff.1 hreach
    obtain ⟨decoded, -, -, hcanon, -⟩ := locate_eq_ok.1 hloc
    have hleads := leads_of_canonicalize (head?_joinedPath root decoded) hcanon
    obtain ⟨⟨o', ho', -⟩, -⟩ := (leads_append.1 hleads).2
    rw [List.map_nil, List.append_nil, List.nil_append] at ho'
    rw [ho']
    rfl

/-- `/srv`, with a file `a&b` and a directory `sub` with a file `c`. -/
def linkTree : FileSystem :=
  .ofTable [([], .dir (some [utf8 "srv"]) true),
    ([utf8 "srv"], .dir (some [utf8 "a&b", utf8 "sub"]) true),
    ([utf8 "srv", utf8 "a&b"], .file 0 (some [])),
    ([utf8 "srv", utf8 "sub"], .dir (some [utf8 "c"]) true),
    ([utf8 "srv", utf8 "sub", utf8 "c"], .file 0 (some []))] [] 40
    (by decide +kernel) (by decide +kernel) (by decide +kernel)

theorem links_lead_rootEntry :
    Reaches sampleSpec linkTree [utf8 "srv"] [] (utf8Chars "a&b".toList) :=
  (links_lead sampleSpec linkTree [utf8 "srv"] [] "a&b".toList (.file 0 (some []))
    (by decide +kernel) (by decide +kernel) rfl).2.1
    ⟨rfl, by decide +kernel, ⟨List.all_iff_forall_prop.1 (by decide), by decide⟩, by decide⟩

/-- The link to the file `/srv/sub/c` in the listing of `/srv/sub` leads to `/srv/sub/sub/c`. -/
theorem nested_link_fails :
    locate sampleSpec linkTree (dirUrl [utf8 "sub"]) =
        .ok ([utf8 "srv"], [utf8 "srv", utf8 "sub"]) ∧
      linkTree.object [utf8 "srv", utf8 "sub", utf8 "c"] = some (.file 0 (some [])) ∧
      ¬Reaches sampleSpec linkTree [utf8 "srv"] [utf8 "sub"] (utf8 "c") := by
  unfold Reaches
  decide +kernel

end MeshlyCore.StaticHttp
