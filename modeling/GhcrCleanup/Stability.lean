import GhcrCleanup.Policy

/-!
# Two runs of `find_versions_to_clean`

A run's action for a version depends on that version, the cutoff, the pattern and the
dictionary of kept tagged versions, and the dictionary holds kept versions only. Dropping
versions that a run deleted therefore changes none of the other actions
(`findVersionsToClean_rerun`): a second run on the survivors keeps them all, and a run
resumed after a failed deletion deletes the rest of the first run's deletions. A run over
more versions, with a cutoff no later and a pattern no narrower, keeps everything an earlier
run kept (`findVersionsToClean_keep_mono`): each tagged version it kept is kept again,
so the dictionary still lists it, and each orphan it kept still finds it. Any run gives each
version exactly one action (`findVersionsToClean_perm`).
-/

namespace GhcrCleanup.Stability

open GhcrCleanup.Runtime GhcrCleanup.Types GhcrCleanup.FindVersions GhcrCleanup.Policy

section Run

variable {lib : Stdlib} {now : UtcDatetime} {vs : List PackageVersion} {tagged_max_age : Int}
  {keep_tags_pattern : String} {acts : List CleanupAction}

/-- The action a run's loop bodies give one version: the tagged loop's for a tagged version,
the orphan loop's against the dictionary `kept` for the others. -/
def versionAction (lib : Stdlib) (cutoff_date : Datetime) (pattern : String → Bool)
    (keep_tags_pattern : String) (delta : Timedelta) (kept : List (Int × Datetime))
    (v : PackageVersion) : Except Exn CleanupAction :=
  if hasRealTags v then (taggedAction lib cutoff_date pattern keep_tags_pattern delta v).map Prod.fst
  else orphanAction lib kept v

/-- Each action of a run is the one its loop bodies give its version. -/
theorem versionAction_of_mem {cutoff_date : Datetime} {pattern : String → Bool}
    {delta : Timedelta} {entries : List (CleanupAction × Datetime)} {orphans : List CleanupAction}
    (htagged : (vs.filter hasRealTags).mapM
      (taggedAction lib cutoff_date pattern keep_tags_pattern delta) = .ok entries)
    (horphans : (vs.filter (!hasRealTags ·)).mapM
      (orphanAction lib (entries.foldl recordKept [])) = .ok orphans) :
    ∀ a ∈ entries.map Prod.fst ++ orphans, versionAction lib cutoff_date pattern
      keep_tags_pattern delta (entries.foldl recordKept []) a.version = .ok a := by
  intro a ha
  rcases List.mem_append.1 ha with ha | ha
  · obtain ⟨x, hx, rfl⟩ := List.mem_map.1 ha
    obtain ⟨v, hv, hvx⟩ := (mem_mapM_ok htagged).2 x hx
    simp [versionAction, (taggedAction_ok hvx).2, (List.mem_filter.1 hv).2, hvx, Except.map]
  · obtain ⟨v, hv, hva⟩ := (mem_mapM_ok horphans).2 a ha
    obtain rfl := orphanAction_version hva
    have hno : hasRealTags a.version = false := by simpa using (List.mem_filter.1 hv).2
    simpa [versionAction, hno] using hva

/-- Each version gets one action in a run: the one its loop body returned. -/
theorem eq_of_version_eq
    (h : findVersionsToClean lib now vs tagged_max_age keep_tags_pattern false = .ok acts) :
    ∀ a ∈ acts, ∀ b ∈ acts, a.version = b.version → a = b := by
  obtain ⟨delta, cutoff, pattern, entries, orphans, -, -, -, h4, h5, rfl⟩ :=
    (findVersionsToClean_ok_iff lib now vs tagged_max_age keep_tags_pattern acts).1 h
  intro a ha b hb hab
  exact Except.ok.inj ((versionAction_of_mem h4 h5 a ha).symm.trans
    (hab ▸ versionAction_of_mem h4 h5 b hb))

/-- Dropping versions whose actions were all deletions drops those actions and changes no
other. -/
theorem findVersionsToClean_filter (p : PackageVersion → Bool)
    (h : findVersionsToClean lib now vs tagged_max_age keep_tags_pattern false = .ok acts)
    (hp : ∀ a ∈ acts, p a.version = false → a.action = .delete) :
    findVersionsToClean lib now (vs.filter p) tagged_max_age keep_tags_pattern false =
      .ok (acts.filter (p ·.version)) := by
  obtain ⟨delta, cutoff, pattern, entries, orphans, h1, h2, h3, h4, h5, rfl⟩ :=
    (findVersionsToClean_ok_iff lib now vs tagged_max_age keep_tags_pattern acts).1 h
  have hcomm : ∀ q : PackageVersion → Bool, (vs.filter p).filter q = (vs.filter q).filter p :=
    fun q => by
      rw [List.filter_filter, List.filter_filter]
      exact List.filter_congr fun v _ => Bool.and_comm _ _
  have hdict : (entries.filter (p ·.1.version)).foldl recordKept [] =
      entries.foldl recordKept [] :=
    foldl_recordKept_filter _ _ _ fun x hx =>
      hp x.1 (List.mem_append_left _ (List.mem_map_of_mem _ hx))
  refine (findVersionsToClean_ok_iff lib now _ tagged_max_age keep_tags_pattern _).2
    ⟨delta, cutoff, pattern, entries.filter (p ·.1.version), orphans.filter (p ·.version),
      h1, h2, h3, ?_, ?_, ?_⟩
  · rw [hcomm]
    exact mapM_filter (fun _ _ hvx => by rw [(taggedAction_ok hvx).2]) h4
  · rw [hcomm, hdict]
    exact mapM_filter (fun _ _ hva => by rw [orphanAction_version hva]) h5
  · simp [List.filter_append, List.filter_map, Function.comp_def]

/-- A version listed as deleted is deleted wherever it appears in the run. -/
theorem delete_of_mem
    (h : findVersionsToClean lib now vs tagged_max_age keep_tags_pattern false = .ok acts)
    {R : List PackageVersion} (hR : ∀ v ∈ R, ∃ a ∈ acts, a.version = v ∧ a.action = .delete) :
    ∀ a ∈ acts, a.version ∈ R → a.action = .delete := by
  intro a ha hv
  obtain ⟨b, hb, hbv, hbd⟩ := hR _ hv
  rwa [eq_of_version_eq h a ha b hb hbv.symm]

/-- Under a cutoff no later and a pattern no narrower, the tagged loop body keeps what it
kept. -/
theorem taggedAction_keep_mono {c₁ c₂ : Datetime} {p₁ p₂ : String → Bool} {k₁ k₂ : String}
    {δ₁ δ₂ : Timedelta} {v : PackageVersion} {x₁ x₂ : CleanupAction × Datetime}
    (hc : c₂.utcoffset = c₁.utcoffset) (hw : c₂.wall ≤ c₁.wall)
    (hp : ∀ t, p₁ t = true → p₂ t = true)
    (h₁ : taggedAction lib c₁ p₁ k₁ δ₁ v = .ok x₁) (hk : x₁.1.action = .keep)
    (h₂ : taggedAction lib c₂ p₂ k₂ δ₂ v = .ok x₂) : x₂.1.action = .keep := by
  obtain ⟨d, hd⟩ : ∃ d, createdDate lib v = .ok d := ⟨_, (taggedAction_ok h₁).1⟩
  rw [taggedAction_eq hd] at h₁ h₂
  by_cases hm₂ : v.tags.any p₂
  · rw [if_pos hm₂] at h₂
    cases h₂
    rfl
  · have hm₁ : ¬v.tags.any p₁ := fun hm => hm₂ <| by
      obtain ⟨t, ht, hpt⟩ := List.any_eq_true.1 hm
      exact List.any_eq_true.2 ⟨t, ht, hp t hpt⟩
    rw [if_neg hm₁] at h₁
    rw [if_neg hm₂] at h₂
    obtain ⟨n₁, hn₁, rfl⟩ := (map_eq_ok _ _ _).1 h₁
    obtain ⟨n₂, hn₂, rfl⟩ := (map_eq_ok _ _ _).1 h₂
    cases n₁
    · cases hk
    · rw [Datetime.gt_mono hn₁ hc hw] at hn₂
      cases hn₂
      rfl

/-- Against a dictionary holding every date of the one it was judged against, the orphan
loop body keeps an orphan it kept. -/
theorem orphanAction_keep_mono {kept₁ kept₂ : List (Int × Datetime)} {v : PackageVersion}
    {a₁ a₂ : CleanupAction} (hdates : ∀ e ∈ kept₁, ∃ e' ∈ kept₂, e'.2 = e.2)
    (h₁ : orphanAction lib kept₁ v = .ok a₁) (hk : a₁.action = .keep)
    (h₂ : orphanAction lib kept₂ v = .ok a₂) : a₂.action = .keep := by
  obtain ⟨d, r, hd, hr, -, hkr⟩ := orphanAction_ok h₁
  obtain ⟨d', r', hd', hr', -, hkr'⟩ := orphanAction_ok h₂
  rw [hd] at hd'
  cases hd'
  obtain ⟨k, rfl⟩ := Option.isSome_iff_exists.1 (hkr.1 hk)
  obtain ⟨e, he, -, hwe⟩ := firstMatch_some hr
  obtain ⟨e', he', hdate⟩ := hdates e he
  refine hkr'.2 ?_
  cases r' with
  | some _ => rfl
  | none =>
    have hfar := (firstMatch_none hr' e' he').2
    rw [hdate] at hfar
    simp [hfar] at hwe

end Run

/-- **Re-running on what is left.** Drop any versions a run marked for deletion, and the same
run on the rest gives every remaining version the action it had. In particular a run on the
survivors of a run returns exactly the actions that kept them. -/
theorem findVersionsToClean_rerun (lib : Stdlib) (now : UtcDatetime) (vs : List PackageVersion)
    (tagged_max_age : Int) (keep_tags_pattern : String) (acts : List CleanupAction)
    (h : findVersionsToClean lib now vs tagged_max_age keep_tags_pattern false = .ok acts)
    (R : List PackageVersion) (hR : ∀ v ∈ R, ∃ a ∈ acts, a.version = v ∧ a.action = .delete) :
    findVersionsToClean lib now (vs.filter (· ∉ R)) tagged_max_age keep_tags_pattern false =
      .ok (acts.filter (·.version ∉ R)) ∧
    findVersionsToClean lib now
        (vs.filter (· ∉ (acts.filter (·.action = .delete)).map (·.version)))
        tagged_max_age keep_tags_pattern false =
      .ok (acts.filter (·.action = .keep)) := by
  have hfilter : ∀ R : List PackageVersion,
      (∀ v ∈ R, ∃ a ∈ acts, a.version = v ∧ a.action = .delete) →
      findVersionsToClean lib now (vs.filter (· ∉ R)) tagged_max_age keep_tags_pattern false =
        .ok (acts.filter (·.version ∉ R)) := fun R hR =>
    findVersionsToClean_filter _ h fun a ha hp =>
      delete_of_mem h hR a ha (by simpa using hp)
  refine ⟨hfilter R hR, ?_⟩
  set D := (acts.filter (·.action = .delete)).map (·.version)
  have hD : ∀ v ∈ D, ∃ a ∈ acts, a.version = v ∧ a.action = .delete := by
    simp only [D, List.mem_map, List.mem_filter, decide_eq_true_eq]
    rintro _ ⟨a, ⟨ha, hd⟩, rfl⟩
    exact ⟨a, ha, rfl, hd⟩
  -- an action's version is in D exactly when the action is a deletion
  have hmem : ∀ a ∈ acts, a.version ∈ D ↔ a.action = .delete := fun a ha =>
    ⟨delete_of_mem h hD a ha, fun hd => List.mem_map_of_mem _ (List.mem_filter.2 ⟨ha, by simp [hd]⟩)⟩
  rw [hfilter D hD]
  exact congrArg _ (List.filter_congr fun a ha => by cases hact : a.action <;> simp [hmem a ha, hact])

/-- The actions of a run on the sample versions with a two-day max age. -/
def sampleRun : List CleanupAction :=
  (findVersionsToClean sampleLib sampleNow sampleVersions 172800 "^latest-" false).toOption.getD []

theorem findVersionsToClean_rerun_sample :
    findVersionsToClean sampleLib sampleNow (sampleVersions.filter (· ∉ [sampleVersions[2]]))
        172800 "^latest-" false = .ok (sampleRun.filter (·.version ∉ [sampleVersions[2]])) ∧
    findVersionsToClean sampleLib sampleNow
        (sampleVersions.filter (· ∉ (sampleRun.filter (·.action = .delete)).map (·.version)))
        172800 "^latest-" false =
      .ok (sampleRun.filter (·.action = .keep)) :=
  findVersionsToClean_rerun sampleLib sampleNow sampleVersions 172800 "^latest-" sampleRun
    (by decide) [sampleVersions[2]] (by decide)

/-- **Every version gets exactly one action.** Whenever `find_versions_to_clean` returns, the
versions of its actions are the input versions rearranged, none dropped and none repeated:
in input order with `remove_all`, and otherwise the tagged versions first, each part in
input order. -/
theorem findVersionsToClean_perm (lib : Stdlib) (now : UtcDatetime)
    (versions : List PackageVersion) (tagged_max_age : Int) (keep_tags_pattern : String)
    (remove_all : Bool) (acts : List CleanupAction)
    (h : findVersionsToClean lib now versions tagged_max_age keep_tags_pattern remove_all =
      .ok acts) :
    (acts.map (·.version)).Perm versions ∧
    acts.map (·.version) = if remove_all then versions
      else versions.filter hasRealTags ++ versions.filter (!hasRealTags ·) := by
  refine ⟨?_, versions_of_ok h⟩
  rw [versions_of_ok h]
  split
  · exact .refl _
  · exact List.filter_append_perm _ _

theorem findVersionsToClean_perm_sample :
    (sampleRun.map (·.version)).Perm sampleVersions ∧
    sampleRun.map (·.version) = if false then sampleVersions
      else sampleVersions.filter hasRealTags ++ sampleVersions.filter (!hasRealTags ·) :=
  findVersionsToClean_perm sampleLib sampleNow sampleVersions 172800 "^latest-" false sampleRun
    (by decide)

/-- **Keeping is monotone.** Take a run on `vs` and a run on `vs'`, where `vs'` has distinct
ids and holds every version of `vs`, the second cutoff is no later than the first, and every
tag the first pattern matches the second matches too. Every version the first run keeps, the
second run lists, and keeps. -/
theorem findVersionsToClean_keep_mono (lib : Stdlib) (now₁ now₂ : UtcDatetime)
    (vs vs' : List PackageVersion) (age₁ age₂ : Int) (ktp₁ ktp₂ : String)
    (acts₁ acts₂ : List CleanupAction) (hids : (vs'.map (·.id)).Nodup)
    (hsub : ∀ v ∈ vs, v ∈ vs')
    (hcut : now₂.val.wall - age₂ * 1000000 ≤ now₁.val.wall - age₁ * 1000000)
    (hwiden : ∀ s₁ s₂, lib.compile ktp₁ = some s₁ → lib.compile ktp₂ = some s₂ →
      ∀ t, s₁ t = true → s₂ t = true)
    (h₁ : findVersionsToClean lib now₁ vs age₁ ktp₁ false = .ok acts₁)
    (h₂ : findVersionsToClean lib now₂ vs' age₂ ktp₂ false = .ok acts₂) :
    ∀ a₁ ∈ acts₁, a₁.action = .keep →
      (∃ a₂ ∈ acts₂, a₂.version = a₁.version) ∧
      ∀ a₂ ∈ acts₂, a₂.version = a₁.version → a₂.action = .keep := by
  obtain ⟨δ₁, c₁, p₁, e₁, o₁, h11, h12, h13, h14, h15, rfl⟩ :=
    (findVersionsToClean_ok_iff lib now₁ vs age₁ ktp₁ acts₁).1 h₁
  obtain ⟨δ₂, c₂, p₂, e₂, o₂, h21, h22, h23, h24, h25, rfl⟩ :=
    (findVersionsToClean_ok_iff lib now₂ vs' age₂ ktp₂ acts₂).1 h₂
  obtain ⟨hw₁, ho₁⟩ := cutoff_of_ok h11 h12
  obtain ⟨hw₂, ho₂⟩ := cutoff_of_ok h21 h22
  have hp := hwiden p₁ p₂ (compilePattern_ok h13) (compilePattern_ok h23)
  have hmove : ∀ {q : PackageVersion → Bool} {v}, v ∈ vs.filter q → v ∈ vs'.filter q :=
    fun hv => List.mem_filter.2 ⟨hsub _ (List.mem_of_mem_filter hv), (List.mem_filter.1 hv).2⟩
  -- a tagged version the first run kept, the second keeps, at the same date
  have htagged : ∀ x₁ ∈ e₁, x₁.1.action = .keep →
      ∃ x₂ ∈ e₂, x₂.1.version = x₁.1.version ∧ x₂.1.action = .keep ∧ x₂.2 = x₁.2 := by
    intro x₁ hx₁ hk
    obtain ⟨v, hv, hvx₁⟩ := (mem_mapM_ok h14).2 x₁ hx₁
    obtain ⟨x₂, hx₂, hvx₂⟩ := (mem_mapM_ok h24).1 v (hmove hv)
    refine ⟨x₂, hx₂, by rw [(taggedAction_ok hvx₂).2, (taggedAction_ok hvx₁).2],
      taggedAction_keep_mono (ho₂.trans ho₁.symm) (by rw [hw₁, hw₂]; exact hcut) hp hvx₁ hk hvx₂, ?_⟩
    exact (Except.ok.inj ((taggedAction_ok hvx₁).1.symm.trans (taggedAction_ok hvx₂).1)).symm
  -- so the second dictionary holds every date of the first
  have hdates : ∀ e ∈ e₁.foldl recordKept [], ∃ e' ∈ e₂.foldl recordKept [], e'.2 = e.2 := by
    intro e he
    obtain he' | ⟨x₁, hx₁, hk₁, rfl⟩ := mem_foldl_recordKept he
    · cases he'
    obtain ⟨x₂, hx₂, -, hk₂, hd₂⟩ := htagged x₁ hx₁ hk₁
    exact ⟨_, mem_foldl_recordKept_of_keep (mapM_taggedAction_nodup hids h24) hx₂ hk₂, hd₂⟩
  intro a₁ ha₁ hk
  have hex : ∃ a₂ ∈ e₂.map Prod.fst ++ o₂, a₂.version = a₁.version ∧ a₂.action = .keep := by
    rcases List.mem_append.1 ha₁ with ha | ha
    · obtain ⟨x₁, hx₁, rfl⟩ := List.mem_map.1 ha
      obtain ⟨x₂, hx₂, hv, hk₂, -⟩ := htagged x₁ hx₁ hk
      exact ⟨x₂.1, List.mem_append_left _ (List.mem_map_of_mem _ hx₂), hv, hk₂⟩
    · obtain ⟨v, hv, hva⟩ := (mem_mapM_ok h15).2 a₁ ha
      obtain ⟨a₂, ha₂, hva₂⟩ := (mem_mapM_ok h25).1 v (hmove hv)
      exact ⟨a₂, List.mem_append_right _ ha₂,
        by rw [orphanAction_version hva₂, orphanAction_version hva],
        orphanAction_keep_mono hdates hva hk hva₂⟩
  obtain ⟨a₂, ha₂, hv, hk₂⟩ := hex
  exact ⟨⟨a₂, ha₂, hv⟩, fun b hb hbv => by
    rw [eq_of_version_eq h₂ b hb a₂ ha₂ (hbv.trans hv.symm)]
    exact hk₂⟩

/-- The sample versions in reverse order, and a release candidate pushed a week later. -/
def laterVersions : List PackageVersion :=
  sampleVersions.reverse ++ [⟨4001, "2026-11-16T00:00:00Z", ⟨some ⟨["latest-rc"]⟩⟩⟩]

/-- The actions of a run on `laterVersions` with a one-week max age and the wider pattern
`^latest`. -/
def laterRun : List CleanupAction :=
  (findVersionsToClean sampleLib sampleNow laterVersions 604800 "^latest" false).toOption.getD []

/-- The image pushed three seconds after the manifest list stays kept: the later run still
finds the manifest list in its dictionary. -/
theorem findVersionsToClean_keep_mono_sample :
    (∃ a₂ ∈ laterRun, a₂.version = sampleVersions[1]) ∧
      ∀ a₂ ∈ laterRun, a₂.version = sampleVersions[1] → a₂.action = .keep :=
  findVersionsToClean_keep_mono sampleLib sampleNow sampleNow sampleVersions laterVersions
    172800 604800 "^latest-" "^latest" sampleRun laterRun (by decide) (by decide) (by decide)
    (fun s₁ s₂ h₁ h₂ t ht => by
      cases Option.some.inj h₁
      cases Option.some.inj h₂
      simp only [List.isPrefixOf_iff_prefix] at ht ⊢
      exact List.IsPrefix.trans ⟨['-'], rfl⟩ ht)
    (by decide) (by decide) ⟨sampleVersions[1], .keep, correlatedReason 1001⟩ (by decide) rfl

end GhcrCleanup.Stability
