import IpfsGate.Server.Runs
import Mathlib.Data.Finset.Max

/-!
# Release policies, stored and read again

A policy is normalised before it is stored and once more on every evaluation. The second time
changes nothing unless an address still begins with the `@` that normalising takes off.
-/
namespace IpfsGate.Server

/-- What a leading `@` is followed by. -/
def AfterAt (s : String) (rest : List Char) : Prop := s.toList = '@' :: rest

/-- Lower-casing twice is lower-casing once, a leading `@` has no case, and account names are
lower-case. -/
structure LowerCases (lower : String → String) : Prop where
  again : ∀ s, lower (lower s) = lower s
  dropAt : ∀ s, lower (dropAt s) = dropAt (lower s)
  name : ∀ a, isAccountName a = true → lower a = a

/-- The address list that a policy is stored with. -/
def stripped (cfg : Config) (addresses : List String) : List String :=
  ((addresses.map (fun a => dropAt (cfg.toLowerCase a))).eraseDups).filter (· ≠ "")

section Normal

variable {cfg : Config} {s x : String} {rest : List Char} {type : String}
  {addresses : List String} {policy p : ReleasePolicy}

theorem dropAt_of_afterAt (h : AfterAt s rest) : dropAt s = String.ofList rest := by
  unfold dropAt AfterAt at *
  split
  · rename_i rest' heq
    rw [h] at heq
    cases heq
    rfl
  · rename_i hnot
    exact absurd h (hnot rest)

theorem dropAt_of_not (h : ∀ rest, ¬ AfterAt s rest) : dropAt s = s := by
  unfold dropAt
  split
  · rename_i rest hs
    exact absurd hs (h rest)
  · rfl

theorem length_dropAt (h : AfterAt s rest) : (dropAt s).toList.length < s.toList.length := by
  rw [dropAt_of_afterAt h, String.toList_ofList, h, List.length_cons]
  omega

theorem not_afterAt_of_name (h : isAccountName s = true) : ¬ AfterAt s rest := by
  intro hs
  unfold isAccountName at h
  rw [hs] at h
  cases h

theorem ne_empty_of_name (h : isAccountName s = true) : s ≠ "" := by
  rintro rfl
  cases h

theorem dropAt_of_name (h : isAccountName s = true) : dropAt s = s :=
  dropAt_of_not (fun _ => not_afterAt_of_name h)

theorem mem_stripped : x ∈ stripped cfg addresses ↔
    (∃ a ∈ addresses, dropAt (cfg.toLowerCase a) = x) ∧ x ≠ "" := by
  unfold stripped
  rw [List.mem_filter, List.mem_eraseDups, List.mem_map]
  simp

theorem nodup_stripped : (stripped cfg addresses).Nodup := (Lib.nodup_eraseDups _).filter _

theorem parseReleaseType_text (t : ReleaseType) : parseReleaseType t.text = some t := by
  cases t <;> rfl

/-- What normalising accepts, and what it answers. -/
theorem normalizeReleasePolicy_ok : normalizeReleasePolicy cfg type addresses = .ok policy ↔
    parseReleaseType type = some policy.type ∧ policy.addresses = stripped cfg addresses ∧
      (policy.type ≠ .ownerOnly → policy.addresses ≠ []) := by
  unfold normalizeReleasePolicy
  cases parseReleaseType type with
  | none => simp
  | some t =>
    dsimp only
    change (if t ≠ .ownerOnly ∧ stripped cfg addresses = [] then _ else _) = _ ↔ _
    split
    · rename_i hempty
      constructor
      · intro h
        cases h
      · rintro ⟨ht, ha, hlisted⟩
        cases ht
        exact absurd (ha.trans hempty.2) (hlisted hempty.1)
    · rename_i hlisted
      constructor
      · intro h
        cases h
        exact ⟨rfl, rfl, fun ht ha => hlisted ⟨ht, ha⟩⟩
      · rintro ⟨ht, ha, _⟩
        cases ht
        obtain ⟨t, addresses'⟩ := policy
        cases ha
        rfl

/-- A decision is reached as soon as the policy can be normalised. -/
theorem evaluateRelease_total
    (h : normalizeReleasePolicy cfg policy.type.text policy.addresses = .ok p)
    (owner releaser : Account) (consented : List Account) :
    ∃ d, evaluateRelease cfg policy owner releaser consented = .ok d := by
  unfold evaluateRelease
  rw [h]
  dsimp only [bind, Except.bind]
  split
  · exact ⟨_, rfl⟩
  · split
    · exact ⟨_, rfl⟩
    · split <;> exact ⟨_, rfl⟩
    · split <;> exact ⟨_, rfl⟩

/-- The owner overrides every policy. -/
theorem evaluateRelease_owner (hlower : LowerCases cfg.toLowerCase)
    (h : normalizeReleasePolicy cfg policy.type.text policy.addresses = .ok p)
    {owner : Account} (ho : isAccountName owner = true) (consented : List Account) :
    ∃ d, evaluateRelease cfg policy owner owner consented = .ok d ∧
      d.authorized = true ∧ d.ends = true := by
  have htest : (owner ≠ "" && owner = owner) = true := by simp [ne_empty_of_name ho]
  unfold evaluateRelease
  rw [h, hlower.name owner ho, dropAt_of_name ho]
  refine ⟨{ authorized := true, ends := true, recordsConsent := false }, ?_, rfl, rfl⟩
  dsimp only [bind, Except.bind]
  rw [if_pos htest]
  rfl

/-- Stripping once more takes off another `@` of every address, and nothing else. -/
theorem stripped_stripped_iff (hlower : LowerCases cfg.toLowerCase) :
    stripped cfg (stripped cfg addresses) = stripped cfg addresses ↔
      ∀ x ∈ stripped cfg addresses, ∀ rest, ¬ AfterAt x rest := by
  have hagain : ∀ x ∈ stripped cfg addresses, cfg.toLowerCase x = x := by
    intro x hx
    obtain ⟨⟨a, _, rfl⟩, _⟩ := mem_stripped.mp hx
    rw [hlower.dropAt, hlower.again]
  constructor
  · intro hsame x hx rest hat
    -- the longest address with an `@` would be what is left of a longer one
    let marked := (stripped cfg addresses).toFinset.filter
      (fun y => y.toList.head? = some '@')
    have hmarked : ∀ y, y ∈ marked ↔ y ∈ stripped cfg addresses ∧ y.toList.head? = some '@' := by
      intro y
      simp [marked]
    have hne : marked.Nonempty := ⟨x, (hmarked x).mpr ⟨hx, by rw [hat]; rfl⟩⟩
    obtain ⟨y, hy, hmax⟩ := Finset.exists_max_image marked (fun y => y.toList.length) hne
    obtain ⟨hyin, hyhead⟩ := (hmarked y).mp hy
    rw [← hsame] at hyin
    obtain ⟨⟨z, hz, hzy⟩, _⟩ := mem_stripped.mp hyin
    rw [hagain z hz] at hzy
    obtain ⟨zs, hzat⟩ : ∃ zs, AfterAt z zs := by
      by_contra hnot
      have hzz : z = y := by rw [← hzy, dropAt_of_not (fun zs hzs => hnot ⟨zs, hzs⟩)]
      rw [← hzz] at hyhead
      obtain ⟨zs, hzs⟩ := List.head?_eq_some_iff.mp hyhead
      exact hnot ⟨zs, hzs⟩
    have hlonger := length_dropAt hzat
    rw [hzy] at hlonger
    have hzmarked : z ∈ marked := (hmarked z).mpr ⟨hz, by rw [hzat]; rfl⟩
    have hle := hmax z hzmarked
    omega
  · intro hnone
    have hmap : (stripped cfg addresses).map (fun a => dropAt (cfg.toLowerCase a)) =
        stripped cfg addresses := by
      refine (List.map_congr_left (g := id) (fun x hx => ?_)).trans (List.map_id _)
      rw [hagain x hx, dropAt_of_not (hnone x hx)]
      rfl
    have hkeep : (stripped cfg addresses).filter (· ≠ "") = stripped cfg addresses := by
      rw [List.filter_eq_self]
      intro x hx
      simpa using (mem_stripped.mp hx).2
    rw [stripped, hmap, Lib.eraseDups_of_nodup nodup_stripped, hkeep]

/-- An address keeps an `@` if it came with two. -/
theorem marked_iff : (∀ x ∈ stripped cfg addresses, ∀ rest, ¬ AfterAt x rest) ↔
    ∀ a ∈ addresses, ∀ rest, ¬ AfterAt (cfg.toLowerCase a) ('@' :: rest) := by
  constructor
  · intro h a ha rest hat
    have hdrop := dropAt_of_afterAt hat
    refine h (dropAt (cfg.toLowerCase a)) (mem_stripped.mpr ⟨⟨a, ha, rfl⟩, ?_⟩) rest ?_
    · rw [hdrop]
      intro hempty
      have hlist := congrArg String.toList hempty
      rw [String.toList_ofList] at hlist
      cases hlist
    · rw [AfterAt, hdrop, String.toList_ofList]
  · intro h x hx rest hat
    obtain ⟨⟨a, ha, rfl⟩, _⟩ := mem_stripped.mp hx
    by_cases hlead : ∃ first, AfterAt (cfg.toLowerCase a) first
    · obtain ⟨first, hfirst⟩ := hlead
      rw [AfterAt, dropAt_of_afterAt hfirst, String.toList_ofList] at hat
      rw [hat] at hfirst
      exact h a ha rest hfirst
    · have hnot : ∀ first, ¬ AfterAt (cfg.toLowerCase a) first := fun f hf => hlead ⟨f, hf⟩
      rw [dropAt_of_not hnot] at hat
      exact hnot rest hat

end Normal

/-- What a stored policy is good for: it reads as it was written, it decides every request, and
the owner may always release. -/
structure Meaningful (cfg : Config) (policy : ReleasePolicy) : Prop where
  stable : normalizeReleasePolicy cfg policy.type.text policy.addresses = .ok policy
  decides : ∀ owner releaser consented,
    ∃ d, evaluateRelease cfg policy owner releaser consented = .ok d
  owner : ∀ owner consented, isAccountName owner = true →
    ∃ d, evaluateRelease cfg policy owner owner consented = .ok d ∧
      d.authorized = true ∧ d.ends = true

/-- An accepted policy stays meaningful exactly if no address came with two leading `@`. -/
theorem policy_meaningful_iff (cfg : Config) (hlower : LowerCases cfg.toLowerCase)
    (type : String) (addresses : List String) (policy : ReleasePolicy)
    (h : normalizeReleasePolicy cfg type addresses = .ok policy) :
    Meaningful cfg policy ↔
      ∀ a ∈ addresses, ∀ rest, ¬ AfterAt (cfg.toLowerCase a) ('@' :: rest) := by
  obtain ⟨_, haddresses, hlisted⟩ := normalizeReleasePolicy_ok.mp h
  rw [← marked_iff, ← stripped_stripped_iff hlower, ← haddresses]
  constructor
  · intro hm
    exact ((normalizeReleasePolicy_ok.mp hm.stable).2.1).symm
  · intro hsame
    have hstable : normalizeReleasePolicy cfg policy.type.text policy.addresses = .ok policy :=
      normalizeReleasePolicy_ok.mpr ⟨parseReleaseType_text _, hsame.symm, hlisted⟩
    exact ⟨hstable, evaluateRelease_total hstable,
      fun owner consented ho => evaluateRelease_owner hlower hstable ho consented⟩

/-- An address with one `@` is stored without it, and read back as it is stored. -/
theorem policy_meaningful_listed :
    normalizeReleasePolicy Sample.config "any_of" ["@bob", "carol"] =
        .ok { type := .anyOf, addresses := ["bob", "carol"] } ∧
      Meaningful Sample.config { type := .anyOf, addresses := ["bob", "carol"] } := by
  have hok : normalizeReleasePolicy Sample.config "any_of" ["@bob", "carol"] =
      .ok { type := .anyOf, addresses := ["bob", "carol"] } := by decide
  have hlower : LowerCases Sample.config.toLowerCase :=
    ⟨fun _ => rfl, fun _ => rfl, fun _ _ => rfl⟩
  refine ⟨hok, (policy_meaningful_iff Sample.config hlower "any_of" _ _ hok).mpr ?_⟩
  intro a ha rest hat
  rcases List.mem_pair.mp ha with rfl | rfl
  · cases hat
  · cases hat

/-- Two `@` leave one, and reading the stored policy takes that off: no address is left, and not
even the owner can release. -/
theorem policy_lost :
    normalizeReleasePolicy Sample.config "any_of" ["@@"] =
        .ok { type := .anyOf, addresses := ["@"] } ∧
      evaluateRelease Sample.config { type := .anyOf, addresses := ["@"] } "alice" "alice" [] =
        .error ⟨"bad_request",
          "release_policy.type 'any_of' requires a non-empty addresses list"⟩ ∧
      ¬ Meaningful Sample.config { type := .anyOf, addresses := ["@"] } := by
  have hthrows : evaluateRelease Sample.config { type := .anyOf, addresses := ["@"] } "alice"
      "alice" [] = .error ⟨"bad_request",
        "release_policy.type 'any_of' requires a non-empty addresses list"⟩ := by decide
  refine ⟨by decide, hthrows, fun hm => ?_⟩
  obtain ⟨d, hd⟩ := hm.decides "alice" "alice" []
  rw [hthrows] at hd
  cases hd

end IpfsGate.Server
