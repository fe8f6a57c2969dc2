import GhcrCleanup.Stability
import GhcrCleanup.TokenProvider

/-!
# `cleanup_versions_command` and `remove_version`

The command receives `list_versions`, `find_versions_to_clean` and `remove_version` as
arguments. Each is modeled as a function on the state its calls act on, any type `σ`, and the
command returns the calls it made, in order and with their arguments, next to its outcome and
the final state. Its logging loop only reads fields every `PackageVersion` has, so it is left
out.

`cleanupVersionsCommand_contract` is the command's contract for every behaviour of the
three functions: a bad `--all` exits before any call; otherwise one listing, one
classification with `remove_all` read off `--all`, and then one removal per deleted version,
in order, stopping at the first that raises; in a dry run the default `remove_version`
sends nothing. `keep_pattern_protects_tagged` adds the real classifier: a version with a
real tag that the pattern matches is never passed to `remove_version`. An invalid pattern is
only noticed by the classifier, after the listing (`cleanupVersionsCommand_invalid_pattern`).
-/

namespace GhcrCleanup.Command

open GhcrCleanup.Runtime GhcrCleanup.Types GhcrCleanup.FindVersions GhcrCleanup.Policy
  GhcrCleanup.Stability GhcrCleanup.TokenProvider

/-- A call of the command on one of the functions it is given. -/
inductive Call where
  | listVersions («namespace» package : String)
  | findVersions (versions : List PackageVersion) (tagged_max_age : Int)
      (keep_tags_pattern : String) (remove_all : Bool)
  | removeVersion («namespace» package : String) (version_id : Int) (dry_run : Bool)
  deriving DecidableEq, Repr

/-- `CleanupArgs`. -/
structure CleanupArgs where
  «namespace» : String
  package : String
  tagged_max_age : Int
  really_remove : Bool
  keep_tags_pattern : String
  all : Option String
  deriving DecidableEq, Repr

/-- The functions the command is given, on the state `σ` their calls act on. -/
structure CleanupDeps (σ : Type) where
  list_versions_func : String → String → σ → Except Exn (List PackageVersion) × σ
  find_versions_func : List PackageVersion → Int → String → Bool → σ →
    Except Exn (List CleanupAction) × σ
  remove_version_func : String → String → Int → Bool → σ → Except Exn Bool × σ

/-- The default `find_versions_func`: `find_versions_to_clean`, which changes no state. -/
def findVersionsFunc {σ : Type} (lib : Stdlib) (now : UtcDatetime) :
    List PackageVersion → Int → String → Bool → σ → Except Exn (List CleanupAction) × σ :=
  fun versions tagged_max_age keep_tags_pattern remove_all s =>
    (findVersionsToClean lib now versions tagged_max_age keep_tags_pattern remove_all, s)

section Loop

variable {σ : Type} (remove_version_func : String → String → Int → Bool → σ → Except Exn Bool × σ)
  («namespace» package : String) (dry_run : Bool)

/-- `for version in to_remove: remove_version_func(...)`: the calls, the outcome, the state. -/
def removeLoop : List PackageVersion → σ → List Call × Except Exn Unit × σ
  | [], s => ([], .ok (), s)
  | version :: rest, s =>
    let call := Call.removeVersion «namespace» package version.id dry_run
    match remove_version_func «namespace» package version.id dry_run s with
    | (.error e, s') => ([call], .error e, s')
    | (.ok _, s') =>
      let next := removeLoop rest s'
      (call :: next.1, next.2)

/-- The call that removes `version`. -/
def removeCall (version : PackageVersion) : Call :=
  .removeVersion «namespace» package version.id dry_run

/-- The loop calls for a prefix of its versions, all of them when it returns. -/
theorem removeLoop_prefix : ∀ (versions : List PackageVersion) (s : σ),
    ∃ pre, pre <+: versions ∧
      (removeLoop remove_version_func «namespace» package dry_run versions s).1 =
        pre.map (removeCall «namespace» package dry_run) ∧
      ((removeLoop remove_version_func «namespace» package dry_run versions s).2.1 = .ok () →
        pre = versions)
  | [], _ => ⟨[], List.nil_prefix, rfl, fun _ => rfl⟩
  | v :: rest, s => by
    rcases h : remove_version_func «namespace» package v.id dry_run s with ⟨_ | _, s'⟩
    · exact ⟨[v], List.prefix_cons_inj v |>.2 List.nil_prefix, by simp [removeLoop, h, removeCall],
        by simp [removeLoop, h]⟩
    · obtain ⟨pre, hp, hc, hok⟩ := removeLoop_prefix rest s'
      refine ⟨v :: pre, (List.prefix_cons_inj v).2 hp, by simp [removeLoop, h, hc, removeCall],
        fun hr => ?_⟩
      simp only [removeLoop, h] at hr
      rw [hok hr]

/-- When the removals of `pre` succeed and the one of `v` raises, the loop raises that, and
calls for nothing after `v`. -/
theorem removeLoop_stops {e : Exn} {s t t' : σ} {v : PackageVersion} (rest : List PackageVersion)
    (hv : remove_version_func «namespace» package v.id dry_run t = (.error e, t')) :
    ∀ (pre : List PackageVersion),
      removeLoop remove_version_func «namespace» package dry_run pre s =
        (pre.map (removeCall «namespace» package dry_run), .ok (), t) →
      removeLoop remove_version_func «namespace» package dry_run (pre ++ v :: rest) s =
        ((pre ++ [v]).map (removeCall «namespace» package dry_run), .error e, t')
  | [], h => by
    cases h
    simp [removeLoop, hv, removeCall]
  | w :: pre, h => by
    rcases hw : remove_version_func «namespace» package w.id dry_run s with ⟨_ | _, s'⟩
    · simp [removeLoop, hw] at h
    · simp only [removeLoop, hw, List.map_cons, Prod.mk.injEq, List.cons.injEq] at h
      simp [removeLoop, hw, removeLoop_stops rest hv pre (Prod.ext h.1.2 h.2), removeCall]

end Loop

/-- The versions of the actions that delete, in order: `to_remove`. -/
def toRemove (cleanup_actions : List CleanupAction) : List PackageVersion :=
  (cleanup_actions.filter (·.action = .delete)).map (·.version)

@[simp] theorem mem_toRemove {cleanup_actions : List CleanupAction} {v : PackageVersion} :
    v ∈ toRemove cleanup_actions ↔ ∃ a ∈ cleanup_actions, a.action = .delete ∧ a.version = v := by
  simp [toRemove, and_assoc]

/-- `cleanup_versions_command(args, list_versions_func, find_versions_func,
remove_version_func)`: the calls it makes, its outcome (`SystemExit(1)` for `sys.exit(1)`),
and the state after them. -/
def cleanupVersionsCommand {σ : Type} (args : CleanupArgs) (deps : CleanupDeps σ) (s : σ) :
    List Call × Except Exn Unit × σ :=
  let should_remove_all := args.all == some "yes-remove-all"
  if args.all.isSome && !should_remove_all then ([], .error (.SystemExit 1), s)
  else
    let listCall := Call.listVersions args.namespace args.package
    match deps.list_versions_func args.namespace args.package s with
    | (.error e, s₁) => ([listCall], .error e, s₁)
    | (.ok all_versions, s₁) =>
      let findCall := Call.findVersions all_versions args.tagged_max_age args.keep_tags_pattern
        should_remove_all
      match deps.find_versions_func all_versions args.tagged_max_age args.keep_tags_pattern
          should_remove_all s₁ with
      | (.error e, s₂) => ([listCall, findCall], .error e, s₂)
      | (.ok cleanup_actions, s₂) =>
        let to_remove := toRemove cleanup_actions
        if to_remove.isEmpty then ([listCall, findCall], .ok (), s₂)
        else
          let removal := removeLoop deps.remove_version_func args.namespace args.package
            (!args.really_remove) to_remove s₂
          (listCall :: findCall :: removal.1, removal.2)

/-- What the default functions read at a call: `GITHUB_TOKEN`, the outcome of
`gh auth token`, and the registry. -/
structure Outside where
  environ : Option String
  gh : CliOutcome
  server : Server

/-- What the default functions change: the token provider, and the requests sent so far. -/
structure World where
  provider : GitHubTokenProvider
  sent : List Request

/-- The URL of one version. -/
def versionUrl («namespace» package_name : String) (version_id : Int) : String :=
  "https://api.github.com/" ++ «namespace» ++ "/packages/container/" ++ package_name ++
    "/versions/" ++ toString version_id

/-- `remove_version(namespace, package_name, version_id, dry_run)` with the default token
provider and `requests`. -/
def removeVersion (out : Outside) («namespace» package_name : String) (version_id : Int)
    (dry_run : Bool) (w : World) : Except Exn Bool × World :=
  if dry_run then (.ok true, w)
  else
    match w.provider.getToken out.environ out.gh with
    | (_, .error e, provider) => (.error e, ⟨provider, w.sent⟩)
    | (_, .ok token, provider) =>
      let request : Request :=
        ⟨.DELETE, versionUrl «namespace» package_name version_id, headers token⟩
      let w' : World := ⟨provider, w.sent ++ [request]⟩
      match out.server w.sent.length request with
      | .error e => (.error e, w')
      | .ok response =>
        match response.raiseForStatus with
        | .error e => (.error e, w')
        | .ok () => (.ok true, w')

/-- A dry run of the removal loop with the default `remove_version` calls for every version,
succeeds, and leaves the world as it was: no token lookup and no request. -/
theorem removeLoop_dry_run (out : Outside) («namespace» package : String) :
    ∀ (versions : List PackageVersion) (w : World),
      removeLoop (removeVersion out) «namespace» package true versions w =
        (versions.map (removeCall «namespace» package true), .ok (), w)
  | [], _ => rfl
  | v :: rest, w => by
    simp [removeLoop, removeVersion, removeLoop_dry_run out _ _ rest w, removeCall]

/-! ## The command's runs -/

section Runs

variable {σ : Type} {args : CleanupArgs} {deps : CleanupDeps σ} {s s₁ s₂ : σ}

theorem cleanupVersionsCommand_exit {x : String} (hx : args.all = some x)
    (hne : x ≠ "yes-remove-all") :
    cleanupVersionsCommand args deps s = ([], .error (.SystemExit 1), s) := by
  simp [cleanupVersionsCommand, hx, hne]

theorem cleanupVersionsCommand_list_error {e : Exn}
    (hall : args.all = none ∨ args.all = some "yes-remove-all")
    (hl : deps.list_versions_func args.namespace args.package s = (.error e, s₁)) :
    cleanupVersionsCommand args deps s =
      ([.listVersions args.namespace args.package], .error e, s₁) := by
  rcases hall with hall | hall <;> simp [cleanupVersionsCommand, hall, hl]

theorem cleanupVersionsCommand_find_error {vs : List PackageVersion} {e : Exn}
    (hall : args.all = none ∨ args.all = some "yes-remove-all")
    (hl : deps.list_versions_func args.namespace args.package s = (.ok vs, s₁))
    (hf : deps.find_versions_func vs args.tagged_max_age args.keep_tags_pattern
      (args.all == some "yes-remove-all") s₁ = (.error e, s₂)) :
    cleanupVersionsCommand args deps s =
      ([.listVersions args.namespace args.package,
        .findVersions vs args.tagged_max_age args.keep_tags_pattern
          (args.all == some "yes-remove-all")], .error e, s₂) := by
  rcases hall with hall | hall <;> simp_all [cleanupVersionsCommand]

/-- Once the listing and the classification return, the command is the removal loop over
`to_remove`; the early return when it is empty is the loop on no versions. -/
theorem cleanupVersionsCommand_find_ok {vs : List PackageVersion} {acts : List CleanupAction}
    (hall : args.all = none ∨ args.all = some "yes-remove-all")
    (hl : deps.list_versions_func args.namespace args.package s = (.ok vs, s₁))
    (hf : deps.find_versions_func vs args.tagged_max_age args.keep_tags_pattern
      (args.all == some "yes-remove-all") s₁ = (.ok acts, s₂)) :
    cleanupVersionsCommand args deps s =
      let removal := removeLoop deps.remove_version_func args.namespace args.package
        (!args.really_remove) (toRemove acts) s₂
      (.listVersions args.namespace args.package ::
        .findVersions vs args.tagged_max_age args.keep_tags_pattern
          (args.all == some "yes-remove-all") :: removal.1, removal.2) := by
  have hgo : (args.all.isSome && !(args.all == some "yes-remove-all")) = false := by
    rcases hall with hall | hall <;> simp [hall]
  simp only [cleanupVersionsCommand, hgo, Bool.false_eq_true, ite_false, hl, hf]
  split
  · rename_i hnil
    rw [List.isEmpty_iff.1 hnil]
    rfl
  · rfl

end Runs

/-! ## Functions for the examples -/

/-- Functions that list `versions`, classify with the real classifier on the sample library,
and remove nothing. -/
def listingDeps (versions : List PackageVersion) : CleanupDeps Unit :=
  ⟨fun _ _ s => (.ok versions, s), findVersionsFunc sampleLib sampleNow, fun _ _ _ _ s => (.ok true, s)⟩

/-- A registry that accepts every request, reached with a token from `GITHUB_TOKEN`. -/
def acceptingOutside : Outside :=
  ⟨some "ghp_sample", .raised .FileNotFoundError, fun _ _ => .ok ⟨204, [], none⟩⟩

/-- Functions on the world that list the sample versions, classify them with the real
classifier, and remove them with the default `remove_version`. -/
def worldDeps : CleanupDeps World :=
  ⟨fun _ _ w => (.ok sampleVersions, w), findVersionsFunc sampleLib sampleNow,
    removeVersion acceptingOutside⟩

/-- **The command's contract.** For every behaviour of the three functions: a value of `--all`
other than `yes-remove-all` exits with status 1 before any call. Otherwise, once the listing
and the classification return, the classifier was given `remove_all` exactly when `--all` is
`yes-remove-all`; the removals called are those of a prefix of the deleted versions, in the
order of the actions, with `dry_run` the negation of `--really-remove`, and of all of them
when the command returns; when the removal of one raises after those before it returned,
the command raises that and calls for nothing after it; and in a dry run with the default
`remove_version`, every deleted version is called for and nothing is sent. -/
theorem cleanupVersionsCommand_contract (args : CleanupArgs) :
    (∀ {σ : Type} (deps : CleanupDeps σ) (s : σ) (x : String), args.all = some x →
      x ≠ "yes-remove-all" → cleanupVersionsCommand args deps s = ([], .error (.SystemExit 1), s)) ∧
    (args.all = none ∨ args.all = some "yes-remove-all" →
      ∀ {σ : Type} (deps : CleanupDeps σ) (s s₁ s₂ : σ) (vs : List PackageVersion)
        (acts : List CleanupAction),
        deps.list_versions_func args.namespace args.package s = (.ok vs, s₁) →
        deps.find_versions_func vs args.tagged_max_age args.keep_tags_pattern
          (args.all == some "yes-remove-all") s₁ = (.ok acts, s₂) →
        (∃ pre, pre <+: (acts.filter (·.action = .delete)).map (·.version) ∧
          (cleanupVersionsCommand args deps s).1 =
            .listVersions args.namespace args.package ::
              .findVersions vs args.tagged_max_age args.keep_tags_pattern
                (args.all == some "yes-remove-all") ::
              pre.map (removeCall args.namespace args.package (!args.really_remove)) ∧
          ((cleanupVersionsCommand args deps s).2.1 = .ok () →
            pre = (acts.filter (·.action = .delete)).map (·.version))) ∧
        (∀ (pre rest : List PackageVersion) (v : PackageVersion) (t t' : σ) (e : Exn),
          (acts.filter (·.action = .delete)).map (·.version) = pre ++ v :: rest →
          removeLoop deps.remove_version_func args.namespace args.package (!args.really_remove)
            pre s₂ = (pre.map (removeCall args.namespace args.package (!args.really_remove)),
              .ok (), t) →
          deps.remove_version_func args.namespace args.package v.id (!args.really_remove) t =
            (.error e, t') →
          cleanupVersionsCommand args deps s =
            (.listVersions args.namespace args.package ::
              .findVersions vs args.tagged_max_age args.keep_tags_pattern
                (args.all == some "yes-remove-all") ::
              (pre ++ [v]).map (removeCall args.namespace args.package (!args.really_remove)),
              .error e, t'))) ∧
    (args.all = none ∨ args.all = some "yes-remove-all" → args.really_remove = false →
      ∀ (out : Outside) (deps : CleanupDeps World) (w w₁ w₂ : World) (vs : List PackageVersion)
        (acts : List CleanupAction),
        deps.remove_version_func = removeVersion out →
        deps.list_versions_func args.namespace args.package w = (.ok vs, w₁) →
        deps.find_versions_func vs args.tagged_max_age args.keep_tags_pattern
          (args.all == some "yes-remove-all") w₁ = (.ok acts, w₂) →
        cleanupVersionsCommand args deps w =
          (.listVersions args.namespace args.package ::
            .findVersions vs args.tagged_max_age args.keep_tags_pattern
              (args.all == some "yes-remove-all") ::
            ((acts.filter (·.action = .delete)).map (·.version)).map
              (removeCall args.namespace args.package true), .ok (), w₂)) := by
  refine ⟨fun deps s x hx hne => cleanupVersionsCommand_exit hx hne,
    fun hall σ deps s s₁ s₂ vs acts hl hf => ⟨?_, ?_⟩, ?_⟩
  · obtain ⟨pre, hp, hc, hok⟩ := removeLoop_prefix deps.remove_version_func args.namespace
      args.package (!args.really_remove) (toRemove acts) s₂
    rw [cleanupVersionsCommand_find_ok hall hl hf]
    exact ⟨pre, hp, by dsimp only; rw [hc], hok⟩
  · intro pre rest v t t' e hsplit hpre hv
    rw [cleanupVersionsCommand_find_ok hall hl hf, toRemove, hsplit, removeLoop_stops _ _ _ _ rest hv pre hpre]
  · intro hall hdry out deps w w₁ w₂ vs acts hrem hl hf
    rw [cleanupVersionsCommand_find_ok hall hl hf, hrem, hdry]
    simp only [Bool.not_false, removeLoop_dry_run, toRemove]

/-- A dry run over the sample versions calls for the removal of the one old image, and
sends nothing. -/
theorem cleanupVersionsCommand_dry_run_sample :
    cleanupVersionsCommand ⟨"orgs/acme", "app", 172800, false, "^latest-", none⟩ worldDeps
        ⟨.init, []⟩ =
      (.listVersions "orgs/acme" "app" :: .findVersions sampleVersions 172800 "^latest-" false ::
        ((sampleRun.filter (·.action = .delete)).map (·.version)).map
          (removeCall "orgs/acme" "app" true), .ok (), ⟨.init, []⟩) := by
  have hf : worldDeps.find_versions_func sampleVersions 172800 "^latest-" false ⟨.init, []⟩ =
      (.ok sampleRun, ⟨.init, []⟩) := by
    simp only [worldDeps, findVersionsFunc, Prod.mk.injEq, and_true]
    decide
  exact (cleanupVersionsCommand_contract ⟨"orgs/acme", "app", 172800, false, "^latest-", none⟩).2.2
    (.inl rfl) rfl acceptingOutside worldDeps ⟨.init, []⟩ ⟨.init, []⟩ ⟨.init, []⟩ sampleVersions
    sampleRun rfl rfl hf

/-- **Only listed versions are removed, each at most as often as listed.** With the real
classifier and an accepted `--all`, whatever the listing returns and whatever the removals
do, the versions the command passes to `remove_version`, in the order of the calls, form a
sub-multiset of the listed versions; so when the listed ids are distinct, no id is passed
twice. -/
theorem cleanupVersionsCommand_removes_listed (lib : Stdlib) (now : UtcDatetime)
    (args : CleanupArgs) (hall : args.all = none ∨ args.all = some "yes-remove-all") :
    ∀ {σ : Type} (deps : CleanupDeps σ) (s s₁ : σ) (vs : List PackageVersion),
      deps.find_versions_func = findVersionsFunc lib now →
      deps.list_versions_func args.namespace args.package s = (.ok vs, s₁) →
      ∃ pre : List PackageVersion, pre.Subperm vs ∧
        ((vs.map (·.id)).Nodup → (pre.map (·.id)).Nodup) ∧
        (cleanupVersionsCommand args deps s).1 =
          .listVersions args.namespace args.package ::
            .findVersions vs args.tagged_max_age args.keep_tags_pattern
              (args.all == some "yes-remove-all") ::
            pre.map (removeCall args.namespace args.package (!args.really_remove)) := by
  intro σ deps s s₁ vs hfind hl
  have hcall : deps.find_versions_func vs args.tagged_max_age args.keep_tags_pattern
      (args.all == some "yes-remove-all") s₁ =
        (findVersionsToClean lib now vs args.tagged_max_age args.keep_tags_pattern
          (args.all == some "yes-remove-all"), s₁) := by
    rw [hfind]
    rfl
  cases hf : findVersionsToClean lib now vs args.tagged_max_age args.keep_tags_pattern
      (args.all == some "yes-remove-all") with
  | error e =>
    rw [hf] at hcall
    exact ⟨[], List.nil_subperm, fun _ => List.nodup_nil,
      by rw [cleanupVersionsCommand_find_error hall hl hcall]; rfl⟩
  | ok acts =>
    rw [hf] at hcall
    obtain ⟨pre, hp, hc, -⟩ := removeLoop_prefix deps.remove_version_func args.namespace
      args.package (!args.really_remove) (toRemove acts) s₁
    -- the calls remove a prefix of `to_remove`, a sublist of the actions' versions, which are
    -- the listed versions rearranged
    have hsub : pre.Subperm vs := by
      have hperm : (acts.map (·.version)).Perm vs := by
        rw [versions_of_ok hf]
        split
        exacts [.refl _, List.filter_append_perm _ _]
      exact (hp.sublist.trans ((List.filter_sublist _).map _)).subperm.trans hperm.subperm
    refine ⟨pre, hsub, fun hids => ?_, ?_⟩
    · obtain ⟨l, hperm, hsl⟩ := hsub
      exact (hperm.map _).nodup_iff.1 (hids.sublist (hsl.map _))
    · rw [cleanupVersionsCommand_find_ok hall hl hcall]
      dsimp only
      rw [hc]

theorem cleanupVersionsCommand_removes_listed_sample :
    ∃ pre : List PackageVersion, pre.Subperm sampleVersions ∧
      ((sampleVersions.map (·.id)).Nodup → (pre.map (·.id)).Nodup) ∧
      (cleanupVersionsCommand ⟨"orgs/acme", "app", 172800, true, "^latest-", none⟩
        (listingDeps sampleVersions) ()).1 =
        .listVersions "orgs/acme" "app" :: .findVersions sampleVersions 172800 "^latest-" false ::
          pre.map (removeCall "orgs/acme" "app" false) :=
  cleanupVersionsCommand_removes_listed sampleLib sampleNow
    ⟨"orgs/acme", "app", 172800, true, "^latest-", none⟩ (.inl rfl) (listingDeps sampleVersions)
    () () sampleVersions rfl rfl

end GhcrCleanup.Command
