import Mathlib

/-!
# References in URLs

Relative references and their resolution, as RFC 3986 has them: a reference is taken apart as in
its Appendix B, and section 5.2 gives the path of what it refers to. Queries and fragments do not
take part in it and are cut off.
-/

namespace MeshlyCore.Url

/-! ## References -/

structure Reference where
  scheme : Option (List Char)
  authority : Option (List Char)
  path : List Char
  deriving DecidableEq

/-- A scheme: what stands before a colon that is the first delimiter, if it is not empty. -/
def splitScheme (s : List Char) : Option (List Char) × List Char :=
  let scheme := s.takeWhile (· ∉ [':', '/', '?', '#'])
  match s.dropWhile (· ∉ [':', '/', '?', '#']) with
  | ':' :: rest => if scheme = [] then (none, s) else (some scheme, rest)
  | _ => (none, s)

def splitAuthority (s : List Char) : Option (List Char) × List Char :=
  match s with
  | '/' :: '/' :: rest =>
      (some (rest.takeWhile (· ∉ ['/', '?', '#'])), rest.dropWhile (· ∉ ['/', '?', '#']))
  | _ => (none, s)

def parseReference (s : List Char) : Reference :=
  let (scheme, s) := splitScheme s
  let (authority, s) := splitAuthority s
  ⟨scheme, authority, s.takeWhile (· ∉ ['?', '#'])⟩

/-! ## Resolution -/

/-- The output without its last segment and the slash before it. -/
def dropSegment (out : List Char) : List Char := (out.rdropWhile (· ≠ '/')).dropLast

/-- The loop of `remove_dot_segments`. Every round takes something off the input, which bounds the
rounds. -/
def removeDotsLoop : ℕ → List Char → List Char → List Char
  | 0, out, _ => out
  | rounds + 1, out, input =>
      if input = [] then out
      else if ['.', '.', '/'] <+: input then removeDotsLoop rounds out (input.drop 3)
      else if ['.', '/'] <+: input then removeDotsLoop rounds out (input.drop 2)
      else if ['/', '.', '/'] <+: input then removeDotsLoop rounds out (input.drop 2)
      else if input = ['/', '.'] then removeDotsLoop rounds out ['/']
      else if ['/', '.', '.', '/'] <+: input then
        removeDotsLoop rounds (dropSegment out) (input.drop 3)
      else if input = ['/', '.', '.'] then removeDotsLoop rounds (dropSegment out) ['/']
      else if input = ['.'] ∨ input = ['.', '.'] then removeDotsLoop rounds out []
      else
        let segment := input.take 1 ++ (input.drop 1).takeWhile (· ≠ '/')
        removeDotsLoop rounds (out ++ segment) ((input.drop 1).dropWhile (· ≠ '/'))

def removeDotSegments (path : List Char) : List Char := removeDotsLoop path.length [] path

/-- A relative path takes the place of what follows the last slash of the base. -/
def merge (base path : List Char) : List Char := base.rdropWhile (· ≠ '/') ++ path

/-- The path of what a reference refers to, with the path of the base. -/
def resolvePath (base : List Char) (r : Reference) : List Char :=
  if r.scheme.isSome ∨ r.authority.isSome then removeDotSegments r.path
  else if r.path = [] then base
  else if r.path.head? = some '/' then removeDotSegments r.path
  else removeDotSegments (merge base r.path)

/-- The path that is asked for of the server of the base; `none` if the reference leads away from
it. -/
def follow (base href : List Char) : Option (List Char) :=
  let r := parseReference href
  if r.scheme.isSome ∨ r.authority.isSome then none else some (resolvePath base r)

example : follow "/a/b/".toList "../c?d#e".toList = some "/a/c".toList := by decide +kernel

/-! ## References without a scheme -/

theorem splitScheme_snd {s : List Char} (h : (splitScheme s).1 = none) :
    splitScheme s = (none, s) := by
  unfold splitScheme at h ⊢
  split at h
  · simp only at h ⊢
    split_ifs at h ⊢
    rfl
  · rfl

/-- A first segment is taken for a scheme if it has a colon and does not begin with one. -/
theorem splitScheme_eq_none_iff {s rest : List Char} (hs : ∀ c ∈ s, c ∉ ['/', '?', '#'])
    (hrest : ∀ c, rest.head? = some c → c = '/') :
    (splitScheme (s ++ rest)).1 = none ↔ (':' ∈ s → s.head? = some ':') := by
  have hdelim : ∀ c ∈ s, c ≠ ':' → decide (c ∉ [':', '/', '?', '#']) = true := by
    intro c hc hne
    have := hs c hc
    simp_all
  by_cases hcolon : ':' ∈ s
  · obtain ⟨a, b, rfl, ha⟩ := List.eq_append_cons_of_mem hcolon
    have hpass : ∀ c ∈ a, decide (c ∉ [':', '/', '?', '#']) = true := fun c hc =>
      hdelim c (by simp [hc]) fun heq => ha (heq ▸ hc)
    have htake : (a ++ ':' :: b ++ rest).takeWhile (· ∉ [':', '/', '?', '#']) = a := by
      rw [List.append_assoc, List.takeWhile_append_of_pos hpass]
      simp
    have hdrop : (a ++ ':' :: b ++ rest).dropWhile (· ∉ [':', '/', '?', '#']) =
        ':' :: (b ++ rest) := by
      rw [List.append_assoc, List.dropWhile_append_of_pos hpass]
      simp
    simp only [splitScheme, htake, hdrop]
    cases a with
    | nil => simp
    | cons c a =>
      have hc : c ≠ ':' := fun heq => ha (heq ▸ List.mem_cons_self)
      simp [hc]
  · have hpass : ∀ c ∈ s, decide (c ∉ [':', '/', '?', '#']) = true := fun c hc =>
      hdelim c hc fun heq => hcolon (heq ▸ hc)
    have hdrop : (s ++ rest).dropWhile (· ∉ [':', '/', '?', '#']) = rest := by
      rw [List.dropWhile_append_of_pos hpass]
      cases rest with
      | nil => rfl
      | cons c rest =>
        obtain rfl := hrest c rfl
        rfl
    simp only [splitScheme, hdrop]
    cases rest with
    | nil => simp [hcolon]
    | cons c rest =>
      obtain rfl := hrest c rfl
      simp [hcolon]

theorem follow_of_relative (base : List Char) {href : List Char}
    (hscheme : (splitScheme href).1 = none) (hauth : ¬['/', '/'] <+: href) :
    follow base href = some (resolvePath base ⟨none, none, href.takeWhile (· ∉ ['?', '#'])⟩) := by
  have hsplit : splitAuthority href = (none, href) := by
    unfold splitAuthority
    split
    · rename_i rest
      exact absurd ⟨rest, rfl⟩ hauth
    · rfl
  simp [follow, parseReference, splitScheme_snd hscheme, hsplit]

theorem scheme_of_follow {base href path : List Char} (h : follow base href = some path) :
    (splitScheme href).1 = none := by
  unfold follow parseReference at h
  simp only at h
  split_ifs at h with hsome
  rw [not_or] at hsome
  simpa using hsome.1

/-! ## Paths without dots -/

/-- A segment that is not taken out. -/
def IsSegment (s : List Char) : Prop := '/' ∉ s ∧ s ≠ ['.'] ∧ s ≠ ['.', '.']

@[simp] theorem removeDotsLoop_nil (rounds : ℕ) (out : List Char) :
    removeDotsLoop rounds out [] = out := by
  cases rounds with
  | zero => rfl
  | succ rounds => rw [removeDotsLoop, if_pos rfl]

/-- What does not begin with a dot segment is passed on up to the next slash. -/
theorem removeDotsLoop_segment {s rest : List Char} (hs : IsSegment s)
    (hrest : ∀ c, rest.head? = some c → c = '/') (rounds : ℕ) (out : List Char) :
    removeDotsLoop (rounds + 1) out ('/' :: (s ++ rest)) =
      removeDotsLoop rounds (out ++ '/' :: s) rest := by
  have hslash : ∀ c ∈ s, decide (c ≠ '/') = true := fun c hc => by
    simpa using fun heq : c = '/' => hs.1 (heq ▸ hc)
  have hstop : rest.takeWhile (· ≠ '/') = [] ∧ rest.dropWhile (· ≠ '/') = rest := by
    cases rest with
    | nil => exact ⟨rfl, rfl⟩
    | cons c rest =>
      obtain rfl := hrest c rfl
      exact ⟨rfl, rfl⟩
  have htake : (s ++ rest).takeWhile (· ≠ '/') = s := by
    rw [List.takeWhile_append_of_pos hslash, hstop.1, List.append_nil]
  have hdrop : (s ++ rest).dropWhile (· ≠ '/') = rest := by
    rw [List.dropWhile_append_of_pos hslash, hstop.2]
  -- A text that begins like a dot segment has it for its first segment.
  have hone : ∀ t, ['.', '/'] ++ t ≠ s ++ rest ∧ ['.'] ≠ s ++ rest := by
    refine fun t => ⟨fun heq => hs.2.1 ?_, fun heq => hs.2.1 ?_⟩
    · rw [← htake, ← heq]
      rfl
    · rw [← htake, ← heq]
      rfl
  have htwo : ∀ t, ['.', '.', '/'] ++ t ≠ s ++ rest ∧ ['.', '.'] ≠ s ++ rest := by
    refine fun t => ⟨fun heq => hs.2.2 ?_, fun heq => hs.2.2 ?_⟩
    · rw [← htake, ← heq]
      rfl
    · rw [← htake, ← heq]
      rfl
  have h1 : ¬['/', '.', '/'] <+: '/' :: (s ++ rest) := fun ⟨t, ht⟩ =>
    (hone t).1 (List.cons.inj ht).2
  have h2 : '/' :: (s ++ rest) ≠ ['/', '.'] := fun heq => (hone []).2 (List.cons.inj heq).2.symm
  have h3 : ¬['/', '.', '.', '/'] <+: '/' :: (s ++ rest) := fun ⟨t, ht⟩ =>
    (htwo t).1 (List.cons.inj ht).2
  have h4 : '/' :: (s ++ rest) ≠ ['/', '.', '.'] := fun heq =>
    (htwo []).2 (List.cons.inj heq).2.symm
  rw [removeDotsLoop, if_neg (by simp), if_neg (by simp [List.cons_prefix_cons]),
    if_neg (by simp [List.cons_prefix_cons]), if_neg h1, if_neg h2, if_neg h3, if_neg h4,
    if_neg (by simp)]
  simp only [List.drop_succ_cons, List.drop_zero, List.take_succ_cons, List.take_zero, htake,
    hdrop, List.singleton_append]

theorem removeDotsLoop_segments {segments : List (List Char)} (h : ∀ s ∈ segments, IsSegment s)
    {rest : List Char} (hrest : ∀ c, rest.head? = some c → c = '/') (rounds : ℕ)
    (out : List Char) :
    removeDotsLoop (segments.length + rounds) out (segments.flatMap ('/' :: ·) ++ rest) =
      removeDotsLoop rounds (out ++ segments.flatMap ('/' :: ·)) rest := by
  induction segments generalizing out with
  | nil => simp
  | cons s segments ih =>
    obtain ⟨hs, h⟩ := List.forall_mem_cons.1 h
    have hnext : ∀ c, (segments.flatMap ('/' :: ·) ++ rest).head? = some c → c = '/' := by
      intro c hc
      cases segments with
      | nil => exact hrest c hc
      | cons s' segments => simpa using hc.symm
    have hrounds : (s :: segments).length + rounds = segments.length + rounds + 1 := by
      rw [List.length_cons]
      omega
    rw [hrounds, List.flatMap_cons, List.append_assoc, List.cons_append,
      removeDotsLoop_segment hs hnext, ih h]
    simp

/-- **Only dot segments are removed**, and a dot at the end leaves a slash. -/
theorem removeDotSegments_segments {segments : List (List Char)}
    (h : ∀ s ∈ segments, IsSegment s) {last rest : List Char} (hlast : '/' ∉ last)
    (hne : last ≠ ['.', '.']) (hrest : rest = [] ∨ rest = ['/']) :
    removeDotSegments (segments.flatMap ('/' :: ·) ++ '/' :: (last ++ rest)) =
      segments.flatMap ('/' :: ·) ++ '/' :: (if last = ['.'] then [] else last ++ rest) := by
  have hnil : IsSegment [] := ⟨by simp, by simp, by simp⟩
  have hslash : ∀ rounds out, removeDotsLoop (rounds + 1) out ['/'] = out ++ ['/'] :=
    fun rounds out => by
      have hstep := @removeDotsLoop_segment [] [] hnil (by simp) rounds out
      rwa [removeDotsLoop_nil] at hstep
  have hcount : segments.length ≤ (segments.flatMap ('/' :: ·)).length := by
    clear h
    induction segments with
    | nil => simp
    | cons s segments ih =>
      rw [List.flatMap_cons, List.length_append, List.length_cons, List.length_cons]
      omega
  obtain ⟨rounds, hrounds⟩ : ∃ rounds,
      (segments.flatMap ('/' :: ·) ++ '/' :: (last ++ rest)).length =
        segments.length + (rounds + last.length + rest.length + 1) := by
    refine ⟨(segments.flatMap ('/' :: ·)).length - segments.length, ?_⟩
    simp only [List.length_append, List.length_cons]
    omega
  rw [removeDotSegments, hrounds, removeDotsLoop_segments h (by simp)]
  by_cases hdot : last = ['.']
  · subst hdot
    rw [if_pos rfl, List.length_singleton, List.nil_append]
    rcases hrest with rfl | rfl
    · exact hslash _ _
    · exact hslash _ _
  · rw [if_neg hdot, removeDotsLoop_segment ⟨hlast, hdot, hne⟩]
    · rcases hrest with rfl | rfl
      · simp
      · rw [List.length_singleton, hslash]
        simp
    · rcases hrest with rfl | rfl <;> simp

end MeshlyCore.Url
