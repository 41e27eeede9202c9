import MeshlyCore.Config.Accepted

/-!
# Tokens and groups

A client names its group by a token alone, so a token should lead to one group.

**Theorem (`tokensLead_iff`).** In an accepted server configuration every token leads to its own
group, whatever the iteration order of the group map, if and only if the tokens are distinct. The
validation asks for distinct names, and only for non-empty tokens.
-/

namespace MeshlyCore.Config.RootConfig

open Registry

section Tokens

variable {iroh : Iroh} {paths : Paths} {cfg : RootConfig} {st : ServerState}

/-- Every group is found by its own token, and nothing by any other text. -/
structure TokensLead (cfg : RootConfig) (st : ServerState) : Prop where
  own : ∀ gc ∈ cfg.groups,
    st.authenticate gc.groupToken = some gc.name ∧ st.tokens.lookup gc.name = some gc.groupToken
  other : ∀ token, (∀ gc ∈ cfg.groups, token ≠ gc.groupToken) → st.authenticate token = none

/-- **Every token leads to its own group exactly when the tokens are distinct.** -/
theorem tokensLead_iff (iroh : Iroh) (paths : Paths) (h : cfg.validate iroh paths = .ok ())
    (hserver : cfg.groups ≠ []) (hst : st.Reorders (cfg.serverState iroh)) :
    TokensLead cfg st ↔ (cfg.groups.map (·.groupToken)).Nodup := by
  have hnames := (serverSections_of_validate h hserver).names
  have hmem := ServerState.mem_tokens_of_reorders hst hnames
  constructor
  · intro hlead
    refine List.Nodup.map_on (fun gc hgc gc' hgc' heq => ?_) (List.Nodup.of_map _ hnames)
    -- The two groups are found by the same token, so they have the same name.
    have hown := (hlead.own gc hgc).1
    rw [heq, (hlead.own gc' hgc').1] at hown
    exact List.inj_on_of_nodup_map hnames hgc hgc' (Option.some.inj hown).symm
  · intro htokens
    refine ⟨fun gc hgc => ⟨?_, ?_⟩, fun token hother => ?_⟩
    · exact (ServerState.authenticate_iff hst hnames htokens hgc _).2 rfl
    · exact AList.mem_lookup_iff.2 ((hmem _).2 ⟨gc, hgc, rfl⟩)
    · rw [ServerState.authenticate, Option.map_eq_none_iff, List.find?_eq_none]
      intro e he
      obtain ⟨gc, hgc, rfl⟩ := (hmem e).1 he
      simpa using (hother gc hgc).symm

end Tokens

theorem tokensLead_twoGroups :
    TokensLead { groups := [⟨"home", "t"⟩, ⟨"work", "u"⟩] }
      (serverState Iroh.hex { groups := [⟨"home", "t"⟩, ⟨"work", "u"⟩] }) :=
  (tokensLead_iff Iroh.hex emptyPaths (by decide) (by decide) (.refl _)).2 (by decide)

/-- Two groups that were given the same token by mistake: the second is out of reach, or the
first. -/
theorem sameToken_unreachable :
    validate Iroh.hex emptyPaths { groups := [⟨"home", "t"⟩, ⟨"work", "t"⟩] } = .ok () ∧
      ∀ st : ServerState,
        st.Reorders (serverState Iroh.hex { groups := [⟨"home", "t"⟩, ⟨"work", "t"⟩] }) →
          ¬TokensLead { groups := [⟨"home", "t"⟩, ⟨"work", "t"⟩] } st := by
  refine ⟨by decide, fun st _ hlead => ?_⟩
  have hhome := (hlead.own ⟨"home", "t"⟩ (by decide)).1
  rw [(hlead.own ⟨"work", "t"⟩ (by decide)).1] at hhome
  exact absurd hhome (by decide)

end MeshlyCore.Config.RootConfig
