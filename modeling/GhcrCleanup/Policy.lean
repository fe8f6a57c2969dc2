import GhcrCleanup.FindVersions

/-!
# The retention policy on its own terms

`classify` states what `find_versions_to_clean` is for, with creation times as UTC
instants, the keep pattern as a predicate on tags, a reason as a constructor and no
dictionary. A tagged version is kept for a matching tag, else for being newer than the
cutoff; a potential orphan is kept when it lies within ten seconds of a kept tagged
version, citing the first such one in input order.

`findVersionsToClean_refines` connects the two levels: on versions with distinct ids
whose timestamps carry an offset, with a pattern that compiles, the script returns
`classify` with each reason rendered as its text. The one condition the script adds is that
the cutoff be representable: `timedelta(seconds=tagged_max_age)` and `now - timedelta`
raise `OverflowError` outside Python's ranges, and neither the script nor its option
parsing bounds the max age (`findVersionsToClean_overflow`).
-/

namespace GhcrCleanup.Policy

open GhcrCleanup.Runtime GhcrCleanup.Types GhcrCleanup.FindVersions

/-- Why a version is kept or deleted. -/
inductive Reason where
  | matchesKeepPattern
  | newerThanMaxAge
  | olderThanMaxAge
  | correlatedWith (id : Int)
  | orphan
  | forcedDeleteAll
  deriving DecidableEq, Repr

structure Decision where
  version : PackageVersion
  action : Action
  reason : Reason
  deriving DecidableEq, Repr

/-- At least one tag, and not a lone tag starting with `git-commit-`. -/
def IsTagged (v : PackageVersion) : Prop :=
  v.tags ≠ [] ∧ ¬(v.tags.length = 1 ∧ ∀ t ∈ v.tags, startsWith t "git-commit-")

instance (v : PackageVersion) : Decidable (IsTagged v) := inferInstanceAs (Decidable (_ ∧ ¬(_ ∧ _)))

/-- The script's partition test is `IsTagged`. -/
theorem hasRealTags_eq (v : PackageVersion) : hasRealTags v = decide (IsTagged v) := by
  unfold hasRealTags
  split <;> simp_all [IsTagged, gitCommitMatch, List.length_eq_one]

section Classify

variable (search : String → Bool) (cutoff : Int) (createdAt : PackageVersion → Int)

def classifyTagged (v : PackageVersion) : Decision :=
  if v.tags.any search then ⟨v, .keep, .matchesKeepPattern⟩
  else if cutoff < createdAt v then ⟨v, .keep, .newerThanMaxAge⟩
  else ⟨v, .delete, .olderThanMaxAge⟩

/-- The tagged versions `classifyTagged` keeps, in input order. -/
def keptTagged (vs : List PackageVersion) : List PackageVersion :=
  (vs.filter IsTagged).filter fun v => (classifyTagged search cutoff createdAt v).action = .keep

def classifyOrphan (kept : List PackageVersion) (v : PackageVersion) : Decision :=
  match kept.find? fun k => (createdAt v - createdAt k).natAbs ≤ 10000000 with
  | some k => ⟨v, .keep, .correlatedWith k.id⟩
  | none => ⟨v, .delete, .orphan⟩

/-- The policy: the tagged versions' decisions in input order, then the potential orphans'. -/
def classify (forceDeleteAll : Bool) (vs : List PackageVersion) : List Decision :=
  if forceDeleteAll then vs.map fun v => ⟨v, .delete, .forcedDeleteAll⟩
  else (vs.filter IsTagged).map (classifyTagged search cutoff createdAt) ++
    (vs.filter (¬IsTagged ·)).map (classifyOrphan createdAt (keptTagged search cutoff createdAt vs))

end Classify

/-- The text the script gives a reason. -/
def Reason.text (keep_tags_pattern : String) (tagged_max_age_delta : Timedelta) : Reason → String
  | .matchesKeepPattern => patternReason keep_tags_pattern
  | .newerThanMaxAge => newerReason tagged_max_age_delta
  | .olderThanMaxAge => olderReason tagged_max_age_delta
  | .correlatedWith kept_id => correlatedReason kept_id
  | .orphan => orphanReason
  | .forcedDeleteAll => removeAllReason

def Decision.render (keep_tags_pattern : String) (tagged_max_age_delta : Timedelta)
    (d : Decision) : CleanupAction :=
  ⟨d.version, d.action, d.reason.text keep_tags_pattern tagged_max_age_delta⟩

/-! ## What the script needs of its inputs -/

/-- The cutoff `now - timedelta(seconds=tagged_max_age)` exists: the max age is within
`timedelta`'s `±999999999` days and the cutoff within the years 1 to 9999. -/
structure CutoffRepresentable (now : Datetime) (tagged_max_age : Int) : Prop where
  delta : minDelta ≤ tagged_max_age * 1000000 ∧ tagged_max_age * 1000000 ≤ maxDelta
  cutoff : 0 ≤ now.wall - tagged_max_age * 1000000 ∧ now.wall - tagged_max_age * 1000000 ≤ maxWall

instance (now : Datetime) (tagged_max_age : Int) :
    Decidable (CutoffRepresentable now tagged_max_age) :=
  decidable_of_iff (_ ∧ _) ⟨fun ⟨a, b⟩ => ⟨a, b⟩, fun ⟨a, b⟩ => ⟨a, b⟩⟩

/-- `timedelta(seconds=tagged_max_age)`, when the cutoff is representable. -/
def CutoffRepresentable.maxAge {now : Datetime} {tagged_max_age : Int}
    (hcut : CutoffRepresentable now tagged_max_age) : Timedelta :=
  ⟨tagged_max_age * 1000000, hcut.delta⟩

/-- `now - timedelta(seconds=tagged_max_age)`, when it is representable. -/
def CutoffRepresentable.cutoffDate {now : Datetime} {tagged_max_age : Int}
    (hcut : CutoffRepresentable now tagged_max_age) : Datetime :=
  ⟨now.wall - tagged_max_age * 1000000, now.utcoffset, hcut.cutoff, now.offset_range⟩

/-- A representable cutoff is what the script's two constructions return. -/
theorem CutoffRepresentable.timedelta_subTimedelta {now : Datetime} {tagged_max_age : Int}
    (hcut : CutoffRepresentable now tagged_max_age) :
    timedelta (tagged_max_age * 1000000) = .ok hcut.maxAge ∧
      now.subTimedelta hcut.maxAge = .ok hcut.cutoffDate :=
  ⟨timedelta_ok_iff.2 rfl, subTimedelta_ok_iff.2 ⟨rfl, rfl⟩⟩

/-- Every `created_at` parses to an aware datetime. -/
def AwareTimestamps (lib : Stdlib) (vs : List PackageVersion) : Prop :=
  ∀ v ∈ vs, ∃ d, createdDate lib v = .ok d ∧ d.utcoffset.isSome

instance (lib : Stdlib) (vs : List PackageVersion) : Decidable (AwareTimestamps lib vs) :=
  decidable_of_iff (vs.all fun v => match createdDate lib v with
      | .ok d => d.utcoffset.isSome
      | .error _ => false)
    (by simp only [List.all_eq_true]
        exact forall₂_congr fun v _ => by cases createdDate lib v <;> simp)

theorem AwareTimestamps.isSome {lib : Stdlib} {vs : List PackageVersion}
    (h : AwareTimestamps lib vs) {v : PackageVersion} {d : Datetime} (hv : v ∈ vs)
    (hd : createdDate lib v = .ok d) : d.utcoffset.isSome := by
  obtain ⟨d', hd', haw⟩ := h v hv
  rw [hd] at hd'
  cases hd'
  exact haw

/-- The parsed `created_at`, or `datetime.min` when it does not parse. -/
def dateOf (lib : Stdlib) (v : PackageVersion) : Datetime :=
  match createdDate lib v with
  | .ok d => d
  | .error _ => .min

/-- The UTC instant of the parsed `created_at`. -/
def createdInstant (lib : Stdlib) (v : PackageVersion) : Int :=
  (dateOf lib v).wall - (dateOf lib v).utcoffset.getD 0

@[simp] theorem classifyTagged_version (search : String → Bool) (cutoff : Int)
    (createdAt : PackageVersion → Int) (v : PackageVersion) :
    (classifyTagged search cutoff createdAt v).version = v := by
  unfold classifyTagged; split <;> [rfl; split <;> rfl]

@[simp] theorem render_version (keep_tags_pattern : String) (delta : Timedelta) (d : Decision) :
    (d.render keep_tags_pattern delta).version = d.version := rfl

@[simp] theorem render_action (keep_tags_pattern : String) (delta : Timedelta) (d : Decision) :
    (d.render keep_tags_pattern delta).action = d.action := rfl

theorem dateOf_ok {lib : Stdlib} {v : PackageVersion} {d : Datetime}
    (h : createdDate lib v = .ok d) : dateOf lib v = d := by
  simp [dateOf, h]

/-- On aware versions the parsed date is `dateOf`, and it carries an offset. -/
theorem AwareTimestamps.date {lib : Stdlib} {vs : List PackageVersion}
    (h : AwareTimestamps lib vs) {v : PackageVersion} (hv : v ∈ vs) :
    createdDate lib v = .ok (dateOf lib v) ∧ ∃ o, (dateOf lib v).utcoffset = some o := by
  obtain ⟨d, hd, haw⟩ := h v hv
  rw [dateOf_ok hd]
  exact ⟨hd, Option.isSome_iff_exists.1 haw⟩

/-! ## The script refines the policy -/

section Refinement

variable {lib : Stdlib} {search : String → Bool} {keep_tags_pattern : String}
  {delta : Timedelta} {cutoff_date : Datetime}

/-- On an aware version the tagged loop body renders `classifyTagged`. -/
theorem taggedAction_refines {vs : List PackageVersion} (haware : AwareTimestamps lib vs)
    {v : PackageVersion} (hv : v ∈ vs) (hcut : cutoff_date.utcoffset = some 0) :
    taggedAction lib cutoff_date search keep_tags_pattern delta v =
      .ok ((classifyTagged search cutoff_date.wall (createdInstant lib) v).render
        keep_tags_pattern delta, dateOf lib v) := by
  obtain ⟨hd, o, ho⟩ := haware.date hv
  rw [taggedAction_eq hd, Datetime.gt_aware ho hcut]
  simp only [classifyTagged, createdInstant, ho, Option.getD_some, Int.sub_zero]
  split
  · rfl
  · by_cases h : cutoff_date.wall < (dateOf lib v).wall - o <;>
      simp [h, Except.map, Decision.render, Reason.text]

/-- On an aware version, against a dictionary of aware kept versions listed with their
ids, the orphan loop body renders `classifyOrphan`. -/
theorem orphanAction_refines {vs : List PackageVersion} (haware : AwareTimestamps lib vs)
    {v : PackageVersion} (hv : v ∈ vs) {kept : List PackageVersion}
    (hkept : AwareTimestamps lib kept) :
    orphanAction lib (kept.map fun k => (k.id, dateOf lib k)) v =
      .ok ((classifyOrphan (createdInstant lib) kept v).render keep_tags_pattern delta) := by
  obtain ⟨hd, o, ho⟩ := haware.date hv
  have hsub : ∀ e ∈ kept.map fun k => (k.id, dateOf lib k), ((dateOf lib v).sub e.2).isOk := by
    simp only [List.mem_map]
    rintro _ ⟨k, hk, rfl⟩
    obtain ⟨-, ok, hok⟩ := hkept.date hk
    exact Datetime.sub_isOk (by simp [ho]) (by simp [hok])
  have hfind : (kept.find? fun k => withinTolerance (dateOf lib v) (dateOf lib k)) =
      kept.find? fun k => decide ((createdInstant lib v - createdInstant lib k).natAbs ≤ 10000000) := by
    simp only [← List.filter_head?]
    congr 1
    refine List.filter_congr fun k hk => ?_
    obtain ⟨-, ok, hok⟩ := hkept.date hk
    simp [withinTolerance_aware ho hok, createdInstant, ho, hok]
  rw [orphanAction_eq hd, firstMatch_eq_find hsub, List.find?_map]
  simp only [Function.comp_def, hfind, classifyOrphan]
  cases kept.find? fun k => decide ((createdInstant lib v - createdInstant lib k).natAbs ≤ 10000000) <;>
    rfl

/-- With distinct ids, the tagged loop's dictionary lists `keptTagged`, in order, with
their dates. -/
theorem foldl_recordKept_refines (cutoff : Int) (createdAt : PackageVersion → Int)
    (date : PackageVersion → Datetime) {vs : List PackageVersion} (hids : (vs.map (·.id)).Nodup) :
    ((vs.filter IsTagged).map fun v =>
      ((classifyTagged search cutoff createdAt v).render keep_tags_pattern delta, date v)).foldl
        recordKept [] = (keptTagged search cutoff createdAt vs).map fun k => (k.id, date k) := by
  have hkeep : ((vs.filter IsTagged).map fun v =>
      ((classifyTagged search cutoff createdAt v).render keep_tags_pattern delta, date v)).filter
        (·.1.action = .keep) =
      (keptTagged search cutoff createdAt vs).map fun v =>
        ((classifyTagged search cutoff createdAt v).render keep_tags_pattern delta, date v) := by
    simp [keptTagged, List.filter_map, Function.comp_def]
  have hnd : ((keptTagged search cutoff createdAt vs).map (·.id)).Nodup :=
    hids.sublist (((List.filter_sublist _).trans (List.filter_sublist _)).map _)
  rw [foldl_recordKept_of_nodup _ [] (by simpa [hkeep, Function.comp_def] using hnd), hkeep]
  simp

end Refinement

/-- **The script refines the policy.** On versions with distinct ids whose timestamps carry
an offset, with a keep pattern that compiles to `search`: with `remove_all` every version is
deleted, in input order, for the forced reason; without it, whenever the cutoff is
representable, the script returns `classify` with each reason as its text. -/
theorem findVersionsToClean_refines (lib : Stdlib) (now : UtcDatetime)
    (vs : List PackageVersion) (tagged_max_age : Int) (keep_tags_pattern : String)
    (search : String → Bool) (hids : (vs.map (·.id)).Nodup) (haware : AwareTimestamps lib vs)
    (hpat : lib.compile keep_tags_pattern = some search) :
    findVersionsToClean lib now vs tagged_max_age keep_tags_pattern true =
        .ok (vs.map fun v => ⟨v, .delete, removeAllReason⟩) ∧
    ∀ hcut : CutoffRepresentable now.val tagged_max_age,
      findVersionsToClean lib now vs tagged_max_age keep_tags_pattern false =
        .ok ((classify search (now.val.wall - tagged_max_age * 1000000) (createdInstant lib) false
          vs).map (Decision.render keep_tags_pattern ⟨tagged_max_age * 1000000, hcut.delta⟩)) := by
  refine ⟨rfl, fun hcut => ?_⟩
  have htagged : vs.filter hasRealTags = vs.filter IsTagged :=
    List.filter_congr fun v _ => hasRealTags_eq v
  have horphan : vs.filter (!hasRealTags ·) = vs.filter (¬IsTagged ·) :=
    List.filter_congr fun v _ => by simp [hasRealTags_eq]
  let cutoff := now.val.wall - tagged_max_age * 1000000
  refine (findVersionsToClean_ok_iff lib now vs tagged_max_age keep_tags_pattern _).2
    ⟨hcut.maxAge, hcut.cutoffDate, search,
      (vs.filter IsTagged).map (fun v =>
        ((classifyTagged search cutoff (createdInstant lib) v).render keep_tags_pattern hcut.maxAge,
          dateOf lib v)),
      (vs.filter (¬IsTagged ·)).map (fun v =>
        (classifyOrphan (createdInstant lib) (keptTagged search cutoff (createdInstant lib) vs)
          v).render keep_tags_pattern hcut.maxAge),
      hcut.timedelta_subTimedelta.1, hcut.timedelta_subTimedelta.2,
      by simp [compilePattern, hpat], ?_, ?_, ?_⟩
  · rw [htagged]
    exact mapM_eq_ok_map fun v hv =>
      taggedAction_refines haware (List.mem_of_mem_filter hv) now.property
  · rw [horphan, foldl_recordKept_refines _ _ _ hids]
    exact mapM_eq_ok_map fun v hv =>
      orphanAction_refines haware (List.mem_of_mem_filter hv) fun k hk =>
        haware k (((List.filter_sublist _).trans (List.filter_sublist _)).subset hk)
  · simp [classify, Function.comp_def, CutoffRepresentable.maxAge]

/-! ## When the script returns -/

section Returns

variable {lib : Stdlib} {vs : List PackageVersion} {cutoff_date : Datetime}
  {pattern : String → Bool} {keep_tags_pattern : String} {delta : Timedelta}

/-- On an aware version, against a dictionary of aware dates, the orphan loop body returns. -/
theorem orphanAction_ok_of_aware (haware : AwareTimestamps lib vs) {v : PackageVersion}
    (hv : v ∈ vs) {kept : List (Int × Datetime)} (hkept : ∀ e ∈ kept, e.2.utcoffset.isSome) :
    ∃ a, orphanAction lib kept v = .ok a := by
  obtain ⟨hd, o, ho⟩ := haware.date hv
  rw [orphanAction_eq hd, firstMatch_eq_find fun e he =>
    Datetime.sub_isOk (by simp [ho]) (hkept e he)]
  exact ⟨_, rfl⟩

/-- The dictionary holds dates the tagged loop parsed, so on aware versions aware dates. -/
theorem foldl_recordKept_aware (haware : AwareTimestamps lib vs)
    {entries : List (CleanupAction × Datetime)}
    (h : (vs.filter hasRealTags).mapM
      (taggedAction lib cutoff_date pattern keep_tags_pattern delta) = .ok entries) :
    ∀ e ∈ entries.foldl recordKept [], e.2.utcoffset.isSome := by
  intro e he
  obtain h' | ⟨x, hx, -, rfl⟩ := mem_foldl_recordKept he
  · cases h'
  · obtain ⟨v, hv, hvx⟩ := (mem_mapM_ok h).2 x hx
    exact haware.isSome (List.mem_of_mem_filter hv) (taggedAction_ok hvx).1

end Returns

/-- **The script returns exactly when the cutoff exists.** On versions whose timestamps
parse to aware datetimes, with a keep pattern that compiles, `find_versions_to_clean` returns
if and only if `remove_all` is set or the cutoff is representable. The subtractions of the
correlation loop never raise: two aware datetimes are always less than a `timedelta` apart. -/
theorem findVersionsToClean_returns_iff (lib : Stdlib) (now : UtcDatetime)
    (vs : List PackageVersion) (tagged_max_age : Int) (keep_tags_pattern : String)
    (remove_all : Bool) (haware : AwareTimestamps lib vs)
    (hpat : (lib.compile keep_tags_pattern).isSome) :
    (∃ acts, findVersionsToClean lib now vs tagged_max_age keep_tags_pattern remove_all =
      .ok acts) ↔ remove_all = true ∨ CutoffRepresentable now.val tagged_max_age := by
  cases remove_all with
  | true => exact ⟨fun _ => .inl rfl, fun _ => ⟨_, rfl⟩⟩
  | false =>
    simp only [Bool.false_eq_true, false_or]
    constructor
    · rintro ⟨acts, h⟩
      obtain ⟨delta, cutoff, -, -, -, h1, h2, -⟩ :=
        (findVersionsToClean_ok_iff lib now vs tagged_max_age keep_tags_pattern acts).1 h
      exact ⟨timedelta_ok_iff.1 h1 ▸ delta.range, (cutoff_of_ok h1 h2).1 ▸ cutoff.wall_range⟩
    · intro hcut
      obtain ⟨search, hs⟩ := Option.isSome_iff_exists.1 hpat
      obtain ⟨entries, hent⟩ : ∃ entries, (vs.filter hasRealTags).mapM
          (taggedAction lib hcut.cutoffDate search keep_tags_pattern hcut.maxAge) = .ok entries :=
        mapM_ok_of_forall fun v hv =>
          ⟨_, taggedAction_refines haware (List.mem_of_mem_filter hv) now.property⟩
      obtain ⟨orphans, horph⟩ := mapM_ok_of_forall fun v hv =>
        orphanAction_ok_of_aware haware (List.mem_of_mem_filter hv) (foldl_recordKept_aware haware hent)
      exact ⟨_, (findVersionsToClean_ok_iff lib now vs tagged_max_age keep_tags_pattern _).2
        ⟨_, _, search, entries, orphans, hcut.timedelta_subTimedelta.1,
          hcut.timedelta_subTimedelta.2, by simp [compilePattern, hs], hent, horph, rfl⟩⟩

/-! ## Runs on the sample versions -/

/-- A manifest list tagged `latest` and with its commit, an image pushed three seconds after
it, and an untagged image from three days before: the shape of the script's own tests. -/
def sampleVersions : List PackageVersion :=
  [⟨1001, "2026-11-08T00:00:00Z", ⟨some ⟨["latest", "git-commit-abcd123"]⟩⟩⟩,
    ⟨2001, "2026-11-08T00:00:03Z", ⟨some ⟨[]⟩⟩⟩,
    ⟨3001, "2026-11-06T00:00:00Z", ⟨some ⟨[]⟩⟩⟩]

theorem findVersionsToClean_refines_sample :
    findVersionsToClean sampleLib sampleNow sampleVersions 172800 "^latest-" false =
      .ok ((classify (fun t => "latest-".data.isPrefixOf t.data)
        (sampleNow.val.wall - 172800 * 1000000) (createdInstant sampleLib) false
          sampleVersions).map (Decision.render "^latest-" ⟨172800 * 1000000, by decide⟩)) :=
  (findVersionsToClean_refines sampleLib sampleNow sampleVersions 172800 "^latest-" _
    (by decide) (by decide) rfl).2 (by decide)

example : (findVersionsToClean sampleLib sampleNow sampleVersions 172800 "^latest-" false).map
    (·.map fun a => (a.version.id, a.action)) = .ok [(1001, .keep), (2001, .keep), (3001, .delete)] := by
  decide

/-- A max age of a million million seconds, over thirty million years, is no `timedelta`. -/
theorem findVersionsToClean_overflow :
    (sampleLib.compile "^latest-").isSome ∧
      findVersionsToClean sampleLib sampleNow sampleVersions 1000000000000000 "^latest-" false =
        .error .OverflowError := by
  decide

theorem findVersionsToClean_returns_sample :
    ∃ acts, findVersionsToClean sampleLib sampleNow sampleVersions 604800 "^latest-" false =
      .ok acts :=
  (findVersionsToClean_returns_iff sampleLib sampleNow sampleVersions 604800 "^latest-" false
    (by decide) rfl).2 (.inr (by decide))

/-- A max age of a hundred thousand million seconds, some three thousand years, puts the
cutoff before the year 1. -/
theorem findVersionsToClean_cutoff_overflow :
    AwareTimestamps sampleLib sampleVersions ∧ (sampleLib.compile "^latest-").isSome ∧
      findVersionsToClean sampleLib sampleNow sampleVersions 100000000000 "^latest-" false =
        .error .OverflowError := by
  decide

end GhcrCleanup.Policy
