import MeshlyCore.Lib.Bytes

/-!
# Service names and ALPNs

`alpn.rs`: a service is dialled on the ALPN `meshly-core/<service>`, and its name is checked
before it becomes part of one.

Five checks decide on a name, over its bytes, its ends, its substrings and its characters. What
they let through is a regular language (`nameGrammar`), less the names that are too long or
reserved.

**Theorem (`service_names`).** A name is accepted if and only if it is a word of
`[a-z0-9]+(-[a-z0-9]+)*`, of 1 to 32 bytes and not reserved; and different names have different
ALPNs.
-/

namespace MeshlyCore.Alpn

open Computability

/-- ALPN used by clients to reach the server's control plane. -/
def alpnControl : Bytes := utf8 "meshly-core/control"

/-- ALPN used by clients to reach the server's data relay. -/
def alpnData : Bytes := utf8 "meshly-core/data"

/-- Errors returned when a service name fails validation. -/
inductive AlpnError where
  | badLength (len : Nat)
  | invalidChars (name : String)
  | badEdge
  | doubleDash
  | reserved (name : String)
  deriving DecidableEq

/-- Names reserved for future administrative ALPNs. -/
def reservedNames : List String :=
  ["control", "data", "status", "reload", "admin", "metrics", "ping"]

/-- Lower-case ASCII letters, ASCII digits and the dash. -/
def isNameChar (c : Char) : Bool :=
  ('a' ≤ c ∧ c ≤ 'z') ∨ ('0' ≤ c ∧ c ≤ '9') ∨ c = '-'

def validateServiceName (name : String) : Except AlpnError Unit :=
  let len := (utf8 name).length
  if ¬(1 ≤ len ∧ len ≤ 32) then .error (.badLength len)
  else if name.toList.head? = some '-' ∨ name.toList.getLast? = some '-' then .error .badEdge
  else if ['-', '-'] <:+: name.toList then .error .doubleDash
  else if ¬name.toList.all isNameChar then .error (.invalidChars name)
  else if name ∈ reservedNames then .error (.reserved name)
  else .ok ()

/-- The ALPN bytes for direct data transfer of `service`. -/
def alpnForService (service : String) : Except AlpnError Bytes := do
  validateServiceName service
  return utf8 ("meshly-core/" ++ service)

example : alpnForService "ssh" = .ok (utf8 "meshly-core/ssh") := by decide

theorem alpnForService_eq_ok {service : String} {alpn : Bytes} :
    alpnForService service = .ok alpn ↔
      validateServiceName service = .ok () ∧ alpn = utf8 ("meshly-core/" ++ service) := by
  unfold alpnForService
  cases h : validateServiceName service with
  | error e => simp [bind, Except.bind]
  | ok u => simp [bind, Except.bind, pure, Except.pure, eq_comm]

/-! ## The grammar of names -/

/-- `[a-z0-9]`. -/
def isWordChar (c : Char) : Bool := ('a' ≤ c ∧ c ≤ 'z') ∨ ('0' ≤ c ∧ c ≤ '9')

def wordChar : Language Char := {w | ∃ c, isWordChar c ∧ w = [c]}

/-- `[a-z0-9]+`. -/
def word : Language Char := wordChar * wordChar∗

/-- `[a-z0-9]+(-[a-z0-9]+)*`. -/
def nameGrammar : Language Char := word * ({['-']} * word)∗

theorem mem_word {w : List Char} : w ∈ word ↔ w ≠ [] ∧ ∀ c ∈ w, isWordChar c := by
  constructor
  · intro h
    obtain ⟨_, ⟨c, hc, rfl⟩, t, ht, rfl⟩ := Language.mem_mul.1 h
    obtain ⟨pieces, rfl, hpieces⟩ := Language.mem_kstar.1 ht
    refine ⟨by simp, List.forall_mem_cons.2 ⟨hc, fun d hd => ?_⟩⟩
    obtain ⟨piece, hpiece, hd⟩ := List.mem_flatten.1 hd
    obtain ⟨e, he, rfl⟩ := hpieces piece hpiece
    rwa [List.mem_singleton.1 hd]
  · rintro ⟨hne, hall⟩
    obtain ⟨c, t, rfl⟩ := List.exists_cons_of_ne_nil hne
    obtain ⟨hc, ht⟩ := List.forall_mem_cons.1 hall
    refine Language.mem_mul.2 ⟨[c], ⟨c, hc, rfl⟩, t, Language.mem_kstar.2 ?_, rfl⟩
    refine ⟨t.map fun d => [d], (List.flatMap_singleton' t).symm, fun piece hpiece => ?_⟩
    obtain ⟨d, hd, rfl⟩ := List.mem_map.1 hpiece
    exact ⟨d, ht d hd, rfl⟩

/-- A name is a word, or a word, a dash and a name. -/
theorem mem_nameGrammar {w : List Char} :
    w ∈ nameGrammar ↔ w ∈ word ∨ ∃ p ∈ word, ∃ rest ∈ nameGrammar, w = p ++ '-' :: rest := by
  have hunfold : nameGrammar = word + word * ({['-']} * nameGrammar) := by
    rw [nameGrammar, ← mul_assoc {['-']}]
    conv_lhs => rw [← Language.one_add_self_mul_kstar_eq_kstar, mul_add, mul_one]
  conv_lhs => rw [hunfold, Language.mem_add]
  refine or_congr Iff.rfl ⟨fun h => ?_, ?_⟩
  · obtain ⟨p, hp, _, hq, rfl⟩ := Language.mem_mul.1 h
    obtain ⟨_, rfl, rest, hrest, rfl⟩ := Language.mem_mul.1 hq
    exact ⟨p, hp, rest, hrest, rfl⟩
  · rintro ⟨p, hp, rest, hrest, rfl⟩
    exact Language.mem_mul.2
      ⟨p, hp, '-' :: rest, Language.mem_mul.2 ⟨['-'], rfl, rest, hrest, rfl⟩, rfl⟩

/-! ## What the checks ask for -/

/-- The checks of a name, but for its length and the reserved names. -/
def NameShape (w : List Char) : Prop :=
  w ≠ [] ∧ (w.head? ≠ some '-' ∧ w.getLast? ≠ some '-') ∧ ¬['-', '-'] <:+: w ∧
    ∀ c ∈ w, isNameChar c

theorem isNameChar_iff (c : Char) : isNameChar c ↔ isWordChar c ∨ c = '-' := by
  simp [isNameChar, isWordChar, or_assoc]

theorem ne_dash_of_isWordChar {c : Char} (h : isWordChar c) : c ≠ '-' := by
  rintro rfl
  revert h
  decide

section Shape

variable {p : List Char} (hp : p ∈ word)

include hp

theorem dash_notMem : '-' ∉ p := fun hmem => ne_dash_of_isWordChar ((mem_word.1 hp).2 _ hmem) rfl

theorem nameShape_word : NameShape p := by
  have hdash := dash_notMem hp
  refine ⟨(mem_word.1 hp).1, ⟨fun h => ?_, fun h => ?_⟩, fun h => ?_, fun c hc => ?_⟩
  · exact hdash (List.mem_of_mem_head? h)
  · exact hdash (List.mem_of_mem_getLast? h)
  · exact hdash (h.subset List.mem_cons_self)
  · exact (isNameChar_iff c).2 (.inl ((mem_word.1 hp).2 c hc))

theorem doubleDash_append (rest : List Char) :
    ['-', '-'] <:+: p ++ '-' :: rest ↔ rest.head? = some '-' ∨ ['-', '-'] <:+: rest := by
  have hdash := dash_notMem hp
  clear hp
  induction p with
  | nil =>
    rw [List.nil_append, List.infix_cons_iff, List.cons_prefix_cons]
    refine or_congr ?_ Iff.rfl
    cases rest <;> simp [List.cons_prefix_cons, eq_comm]
  | cons c p ih =>
    rw [List.mem_cons, not_or] at hdash
    have hnot : ¬['-', '-'] <+: c :: (p ++ '-' :: rest) := fun h =>
      hdash.1 (List.cons_prefix_cons.1 h).1
    exact (List.infix_cons_iff.trans (or_iff_right hnot)).trans (ih hdash.2)

/-- After a word and a dash the checks begin again. -/
theorem nameShape_append (rest : List Char) : NameShape (p ++ '-' :: rest) ↔ NameShape rest := by
  obtain ⟨hne, hchars⟩ := mem_word.1 hp
  have hhead : (p ++ '-' :: rest).head? ≠ some '-' := by
    rw [List.head?_append_of_ne_nil _ hne]
    exact (nameShape_word hp).2.1.1
  have hlast : rest ≠ [] → (p ++ '-' :: rest).getLast? = rest.getLast? := by
    intro h
    rw [List.append_cons, List.getLast?_append_of_ne_nil _ h]
  constructor
  · rintro ⟨-, ⟨-, hend⟩, hdouble, hall⟩
    rw [doubleDash_append hp, not_or] at hdouble
    have hrest : rest ≠ [] := by
      rintro rfl
      exact hend List.getLast?_concat
    rw [hlast hrest] at hend
    exact ⟨hrest, ⟨hdouble.1, hend⟩, hdouble.2, fun c hc => hall c (by simp [hc])⟩
  · rintro ⟨hrest, ⟨hstart, hend⟩, hdouble, hall⟩
    refine ⟨by simp, ⟨hhead, by rwa [hlast hrest]⟩, ?_, fun c hc => ?_⟩
    · rw [doubleDash_append hp, not_or]
      exact ⟨hstart, hdouble⟩
    · rcases List.mem_append.1 hc with hc | hc
      · exact (isNameChar_iff c).2 (.inl (hchars c hc))
      · rcases List.mem_cons.1 hc with rfl | hc
        · decide
        · exact hall c hc

end Shape

/-- What is not a word has a word and a dash at its front. -/
theorem nameShape_cases {w : List Char} (h : NameShape w) :
    w ∈ word ∨ ∃ p ∈ word, ∃ rest, w = p ++ '-' :: rest := by
  obtain ⟨hne, ⟨hhead, -⟩, -, hall⟩ := h
  have hword : ∀ c ∈ w, c ≠ '-' → isWordChar c := fun c hc hdash =>
    ((isNameChar_iff c).1 (hall c hc)).resolve_right hdash
  by_cases hdash : '-' ∈ w
  · obtain ⟨p, rest, rfl, hp⟩ := List.eq_append_cons_of_mem hdash
    refine .inr ⟨p, mem_word.2 ⟨?_, fun c hc => hword c (by simp [hc]) ?_⟩, rest, rfl⟩
    · rintro rfl
      exact hhead rfl
    · rintro rfl
      exact hp hc
  · exact .inl (mem_word.2 ⟨hne, fun c hc => hword c hc fun heq => hdash (heq ▸ hc)⟩)

/-- **The checks accept the words of the grammar.** -/
theorem mem_nameGrammar_iff (w : List Char) : w ∈ nameGrammar ↔ NameShape w := by
  induction hn : w.length using Nat.strong_induction_on generalizing w with
  | _ n ih =>
    constructor
    · intro h
      rcases mem_nameGrammar.1 h with hp | ⟨p, hp, rest, hrest, rfl⟩
      · exact nameShape_word hp
      · exact (nameShape_append hp rest).2
          ((ih rest.length (by simp [← hn]; omega) rest rfl).1 hrest)
    · intro h
      rcases nameShape_cases h with hp | ⟨p, hp, rest, rfl⟩
      · exact mem_nameGrammar.2 (.inl hp)
      · have hrest := (nameShape_append hp rest).1 h
        exact mem_nameGrammar.2 (.inr ⟨p, hp, rest,
          (ih rest.length (by simp [← hn]; omega) rest rfl).2 hrest, rfl⟩)

theorem validateServiceName_eq_ok (name : String) :
    validateServiceName name = .ok () ↔
      NameShape name.toList ∧ (1 ≤ (utf8 name).length ∧ (utf8 name).length ≤ 32) ∧
        name ∉ reservedNames := by
  have hne : 1 ≤ (utf8 name).length → name.toList ≠ [] := by
    intro hlen hnil
    rw [utf8_eq_utf8Chars, hnil] at hlen
    exact absurd hlen (by decide)
  unfold validateServiceName
  dsimp only
  split_ifs with hlen hedge hdouble hchars hreserved
  · exact iff_of_false (by simp) fun h => hedge.elim h.1.2.1.1 h.1.2.1.2
  · exact iff_of_false (by simp) fun h => h.1.2.2.1 hdouble
  · exact iff_of_false (by simp) fun h => h.2.2 hreserved
  · rw [not_or] at hedge
    exact iff_of_true rfl
      ⟨⟨hne hlen.1, hedge, hdouble, List.all_eq_true.1 hchars⟩, hlen, hreserved⟩
  · exact iff_of_false (by simp) fun h => hchars (List.all_eq_true.2 h.1.2.2.2)
  · exact iff_of_false (by simp) fun h => hlen h.2.1

/-- **Service names and their ALPNs.** -/
theorem service_names :
    (∀ name, validateServiceName name = .ok () ↔
      name.toList ∈ nameGrammar ∧ (1 ≤ (utf8 name).length ∧ (utf8 name).length ≤ 32) ∧
        name ∉ reservedNames) ∧
    ∀ a b alpn, alpnForService a = .ok alpn → alpnForService b = .ok alpn → a = b := by
  refine ⟨fun name => ?_, fun a b alpn ha hb => ?_⟩
  · rw [validateServiceName_eq_ok, mem_nameGrammar_iff]
  · have heq := (alpnForService_eq_ok.1 ha).2.symm.trans (alpnForService_eq_ok.1 hb).2
    exact (String.append_right_inj _).1 (utf8_injective heq)

end MeshlyCore.Alpn
