import GhcrCleanup.Command
import GhcrCleanup.ListVersions

/-!
# A run of `cleanup-versions` with the default functions

`main` calls `cleanup_versions_command(args)`, so the command lists with `list_versions`,
classifies with `find_versions_to_clean` and removes with `remove_version`, and the listing
and the removals share the module's `default_token_provider`. Here the three defaults act on
one `World`: the provider, and the requests sent so far, which the registry numbers.

`cleanupVersionsCommand_requests` says what such a run sends, from any world: GET requests
for the listing, then DELETE requests, all with the bearer token the listing obtained (the
removals find it cached); DELETE requests only with `--really-remove`, and only for versions
that the classification of the listed versions marked `delete`.

The listing loop runs while the registry names a next page, which it may do forever. A
listing that has not ended after `fuel` pages is cut there and raises `Other "fuel"`; the
results below hold for every `fuel`, so for every prefix of a run that does not end.
-/

namespace GhcrCleanup.Session

open GhcrCleanup.Runtime GhcrCleanup.Types GhcrCleanup.TokenProvider GhcrCleanup.ListVersions
  GhcrCleanup.FindVersions GhcrCleanup.Policy GhcrCleanup.Command

/-- `list_versions(namespace, package_name)` with the default token provider and `requests`,
on the world. -/
def listVersionsFunc (out : Outside) (fuel : Nat) («namespace» package_name : String) (w : World) :
    Except Exn (List PackageVersion) × World :=
  let call := w.provider.getToken out.environ out.gh
  let listing := listVersions «namespace» package_name call.2.1
    (fun n => out.server (w.sent.length + n)) fuel
  (listing.2.getD (.error (.Other "fuel")), ⟨call.2.2, w.sent ++ listing.1⟩)

/-- The default functions of `cleanup_versions_command`. -/
def defaultDeps (lib : Stdlib) (now : UtcDatetime) (out : Outside) (fuel : Nat) :
    CleanupDeps World :=
  ⟨listVersionsFunc out fuel, findVersionsFunc lib now, removeVersion out⟩

/-- The listing sends GET requests with the token it obtained, which stays cached; or it
obtains none, sends nothing and raises. -/
theorem listVersionsFunc_spec (out : Outside) (fuel : Nat) («namespace» package_name : String)
    (w : World) :
    ∃ gets, (listVersionsFunc out fuel «namespace» package_name w).2.sent = w.sent ++ gets ∧
      ((∃ T, T ≠ "" ∧ (listVersionsFunc out fuel «namespace» package_name w).2.provider._token = some T ∧
          ∀ r ∈ gets, r.method = .GET ∧ r.headers = headers T) ∨
        (gets = [] ∧ ∃ e, (listVersionsFunc out fuel «namespace» package_name w).1 = .error e)) := by
  obtain ⟨T, hT, effs, p, h, hp⟩ | ⟨effs, e, h⟩ : (∃ T, T ≠ "" ∧ ∃ effs p,
      w.provider.getToken out.environ out.gh = (effs, .ok T, p) ∧ p._token = some T) ∨
      ∃ effs e, w.provider.getToken out.environ out.gh = (effs, .error e, w.provider) := by
    rcases getToken_cases w.provider out.environ out.gh with ⟨T, hp, hT, h⟩ | ⟨_, T, hT, h⟩ | h
    exacts [.inl ⟨T, hT, _, _, h, hp⟩, .inl ⟨T, hT, _, _, h, rfl⟩, .inr h]
  · exact ⟨_, by simp only [listVersionsFunc, h], .inl ⟨T, hT, by simp only [listVersionsFunc, h, hp],
      listVersions_requests «namespace» package_name T (fun n => out.server (w.sent.length + n)) fuel⟩⟩
  · exact ⟨[], by simp [listVersionsFunc, h, listVersions_no_token],
      .inr ⟨rfl, e, by simp [listVersionsFunc, h, listVersions_no_token]⟩⟩

/-- With a token cached, `remove_version` keeps the provider and sends at most one request: in
a real run, the DELETE of the version with that token. -/
theorem removeVersion_cached (out : Outside) («namespace» package : String) (version_id : Int)
    (dry_run : Bool) {w : World} {T : String} (hp : w.provider._token = some T) (hT : T ≠ "") :
    ∃ new, (removeVersion out «namespace» package version_id dry_run w).2 =
        ⟨w.provider, w.sent ++ new⟩ ∧
      ∀ r ∈ new, dry_run = false ∧
        r = ⟨.DELETE, versionUrl «namespace» package version_id, headers T⟩ := by
  cases dry_run with
  | true => exact ⟨[], by rw [List.append_nil]; rfl, by simp⟩
  | false =>
    refine ⟨[⟨.DELETE, versionUrl «namespace» package version_id, headers T⟩], ?_, by simp⟩
    simp only [removeVersion, getToken_cached hp hT, Bool.false_eq_true, ite_false]
    split
    · rfl
    · split <;> rfl

/-- With a token cached, the removal loop keeps the provider and sends only DELETE requests
with that token, in a real run, for versions it was given. -/
theorem removeLoop_cached (out : Outside) («namespace» package : String) (dry_run : Bool)
    {T : String} (hT : T ≠ "") :
    ∀ (versions : List PackageVersion) (w : World), w.provider._token = some T →
      ∃ new, (removeLoop (removeVersion out) «namespace» package dry_run versions w).2.2 =
          ⟨w.provider, w.sent ++ new⟩ ∧
        ∀ r ∈ new, dry_run = false ∧ r.method = .DELETE ∧ r.headers = headers T ∧
          ∃ v ∈ versions, r.url = versionUrl «namespace» package v.id
  | [], w, _ => ⟨[], by rw [List.append_nil]; rfl, by simp⟩
  | v :: rest, w, hp => by
    obtain ⟨new₁, hw₁, hnew₁⟩ := removeVersion_cached out «namespace» package v.id dry_run hp hT
    have hfirst : ∀ r ∈ new₁, dry_run = false ∧ r.method = .DELETE ∧ r.headers = headers T ∧
        ∃ u ∈ v :: rest, r.url = versionUrl «namespace» package u.id := fun r hr => by
      obtain ⟨hd, rfl⟩ := hnew₁ r hr
      exact ⟨hd, rfl, rfl, v, List.mem_cons_self _ _, rfl⟩
    rcases h : removeVersion out «namespace» package v.id dry_run w with ⟨_ | _, w₁⟩ <;>
      rw [h] at hw₁ <;> dsimp only at hw₁ <;> subst hw₁
    · exact ⟨new₁, by simp [removeLoop, h], hfirst⟩
    · obtain ⟨new₂, hw₂, hnew₂⟩ :=
        removeLoop_cached out «namespace» package dry_run hT rest ⟨w.provider, w.sent ++ new₁⟩ hp
      refine ⟨new₁ ++ new₂, by simp [removeLoop, h, hw₂], fun r hr => ?_⟩
      rcases List.mem_append.1 hr with hr | hr
      · exact hfirst r hr
      · obtain ⟨hd, hm, hh, u, hu, hurl⟩ := hnew₂ r hr
        exact ⟨hd, hm, hh, u, List.mem_cons_of_mem _ hu, hurl⟩

/-- **What a run sends.** From any world, a run of the command with its default functions
sends GET requests, then DELETE requests, all with one bearer token; DELETE requests only
with `--really-remove`, and each for a version that the classification of the listed
versions marked `delete`. -/
theorem cleanupVersionsCommand_requests (lib : Stdlib) (now : UtcDatetime) (out : Outside)
    (fuel : Nat) (args : CleanupArgs) (w : World) :
    ∃ gets deletes,
      (cleanupVersionsCommand args (defaultDeps lib now out fuel) w).2.2.sent =
        w.sent ++ gets ++ deletes ∧
      (∃ T, ∀ r ∈ gets ++ deletes, r.headers = headers T) ∧
      (∀ r ∈ gets, r.method = .GET) ∧
      (deletes ≠ [] → args.really_remove = true) ∧
      ∀ r ∈ deletes, r.method = .DELETE ∧
        ∃ (w₁ : World) (vs : List PackageVersion) (acts : List CleanupAction),
          listVersionsFunc out fuel args.namespace args.package w = (.ok vs, w₁) ∧
          findVersionsToClean lib now vs args.tagged_max_age args.keep_tags_pattern
            (args.all == some "yes-remove-all") = .ok acts ∧
          ∃ a ∈ acts, a.action = .delete ∧ r.url = versionUrl args.namespace args.package a.version.id := by
  obtain ⟨x, hx, hne⟩ | hall : (∃ x, args.all = some x ∧ x ≠ "yes-remove-all") ∨
      args.all = none ∨ args.all = some "yes-remove-all" := by
    cases args.all <;> simp [em']
  · exact ⟨[], [], by rw [cleanupVersionsCommand_exit hx hne]; simp, ⟨"", by simp⟩, by simp,
      by simp, by simp⟩
  obtain ⟨gets, hsent, hspec⟩ := listVersionsFunc_spec out fuel args.namespace args.package w
  -- the listing's requests: GET requests with one bearer token
  have hgets : (∃ T, ∀ r ∈ gets ++ [], r.headers = headers T) ∧ ∀ r ∈ gets, r.method = .GET := by
    rcases hspec with ⟨T, -, -, hr⟩ | ⟨rfl, -⟩
    · exact ⟨⟨T, fun r h => (hr r (by simpa using h)).2⟩, fun r h => (hr r h).1⟩
    · exact ⟨⟨"", by simp⟩, by simp⟩
  rcases hl : (defaultDeps lib now out fuel).list_versions_func args.namespace args.package w with
    ⟨_ | vs, w₁⟩ <;> rw [show listVersionsFunc out fuel args.namespace args.package w = _ from hl] at hsent hspec
  · exact ⟨gets, [], by rw [cleanupVersionsCommand_list_error hall hl, List.append_nil]; exact hsent,
      hgets.1, hgets.2, by simp, by simp⟩
  obtain ⟨T, hT, hp, hr⟩ | ⟨-, e, ⟨⟩⟩ := hspec
  have hf : (defaultDeps lib now out fuel).find_versions_func vs args.tagged_max_age
      args.keep_tags_pattern (args.all == some "yes-remove-all") w₁ =
        (findVersionsToClean lib now vs args.tagged_max_age args.keep_tags_pattern
          (args.all == some "yes-remove-all"), w₁) := rfl
  rcases hfind : findVersionsToClean lib now vs args.tagged_max_age args.keep_tags_pattern
      (args.all == some "yes-remove-all") with e | acts <;> rw [hfind] at hf
  · exact ⟨gets, [], by rw [cleanupVersionsCommand_find_error hall hl hf, List.append_nil]; exact hsent,
      hgets.1, hgets.2, by simp, by simp⟩
  obtain ⟨dels, hw₂, hdels⟩ := removeLoop_cached out args.namespace args.package
    (!args.really_remove) hT (toRemove acts) w₁ hp
  refine ⟨gets, dels, ?_, ⟨T, fun r h => ?_⟩, hgets.2, fun hne => ?_, fun r h => ?_⟩
  · rw [cleanupVersionsCommand_find_ok hall hl hf]
    dsimp only
    rw [show (defaultDeps lib now out fuel).remove_version_func = removeVersion out from rfl,
      hw₂, hsent]
  · rcases List.mem_append.1 h with h | h
    exacts [(hr r h).2, (hdels r h).2.2.1]
  · obtain ⟨r, h⟩ := List.exists_mem_of_ne_nil _ hne
    simpa using (hdels r h).1
  · obtain ⟨-, hm, -, v, hv, hurl⟩ := hdels r h
    obtain ⟨a, ha, hdel, rfl⟩ := mem_toRemove.1 hv
    exact ⟨hm, w₁, vs, acts, hl, hfind, a, ha, hdel, hurl⟩

/-! ## Runs the registry accepts -/

/-- With a token cached and a registry that accepts the DELETE, a real removal sends that
DELETE and returns. -/
theorem removeVersion_accepted {out : Outside} («namespace» package : String)
    (version_id : Int) {w : World} {T : String} (hp : w.provider._token = some T) (hT : T ≠ "")
    (haccept : ∀ n (r : Request), r.method = .DELETE →
      ∃ resp : Response, out.server n r = .ok resp ∧ resp.raiseForStatus = .ok ()) :
    removeVersion out «namespace» package version_id false w =
      (.ok true, ⟨w.provider, w.sent ++ [⟨.DELETE, versionUrl «namespace» package version_id, headers T⟩]⟩) := by
  obtain ⟨resp, hresp, hok⟩ := haccept w.sent.length
    ⟨.DELETE, versionUrl «namespace» package version_id, headers T⟩ rfl
  simp only [removeVersion, getToken_cached hp hT, Bool.false_eq_true, ite_false, hresp, hok]

/-- With a token cached and a registry that accepts every DELETE, the real removal loop sends
one DELETE per version, in order, and returns. -/
theorem removeLoop_accepted {out : Outside} («namespace» package : String) {T : String}
    (hT : T ≠ "") (haccept : ∀ n (r : Request), r.method = .DELETE →
      ∃ resp : Response, out.server n r = .ok resp ∧ resp.raiseForStatus = .ok ()) :
    ∀ (versions : List PackageVersion) (w : World), w.provider._token = some T →
      (removeLoop (removeVersion out) «namespace» package false versions w).2 =
        (.ok (), ⟨w.provider, w.sent ++ versions.map fun v =>
          ⟨.DELETE, versionUrl «namespace» package v.id, headers T⟩⟩)
  | [], w, _ => by simp [removeLoop]
  | v :: rest, w, hp => by
    have hrest := removeLoop_accepted «namespace» package hT haccept rest
      ⟨w.provider, w.sent ++ [⟨.DELETE, versionUrl «namespace» package v.id, headers T⟩]⟩ hp
    simp [removeLoop, removeVersion_accepted «namespace» package v.id hp hT haccept, hrest]

/-- **A real run removes everything it marks.** With `--really-remove`, once the listing has
returned `vs` and the classification `acts`, a run with the default functions against a
registry that accepts every DELETE returns normally, having sent after the listing's
requests exactly one DELETE per version marked `delete`, in the order of the actions, with
the token the listing cached. With `--all=yes-remove-all` those are all the listed versions,
in listing order. -/
theorem cleanupVersionsCommand_removes_marked (lib : Stdlib) (now : UtcDatetime)
    (out : Outside) (fuel : Nat) (args : CleanupArgs) (w w₁ : World) (vs : List PackageVersion)
    (acts : List CleanupAction) (hall : args.all = none ∨ args.all = some "yes-remove-all")
    (hreally : args.really_remove = true)
    (hl : listVersionsFunc out fuel args.namespace args.package w = (.ok vs, w₁))
    (hf : findVersionsToClean lib now vs args.tagged_max_age args.keep_tags_pattern
      (args.all == some "yes-remove-all") = .ok acts)
    (haccept : ∀ n (r : Request), r.method = .DELETE →
      ∃ resp : Response, out.server n r = .ok resp ∧ resp.raiseForStatus = .ok ()) :
    ∃ T, w₁.provider._token = some T ∧
      (cleanupVersionsCommand args (defaultDeps lib now out fuel) w).2 =
        (.ok (), ⟨w₁.provider, w₁.sent ++ ((acts.filter (·.action = .delete)).map (·.version)).map
          fun v => ⟨.DELETE, versionUrl args.namespace args.package v.id, headers T⟩⟩) ∧
      (args.all = some "yes-remove-all" → (acts.filter (·.action = .delete)).map (·.version) = vs) := by
  obtain ⟨gets, -, hspec⟩ := listVersionsFunc_spec out fuel args.namespace args.package w
  rw [hl] at hspec
  obtain ⟨T, hT, hp, -⟩ | ⟨-, e, ⟨⟩⟩ := hspec
  have hf' : (defaultDeps lib now out fuel).find_versions_func vs args.tagged_max_age
      args.keep_tags_pattern (args.all == some "yes-remove-all") w₁ = (.ok acts, w₁) := by
    simp only [defaultDeps, findVersionsFunc, hf]
  refine ⟨T, hp, ?_, fun hyes => ?_⟩
  · rw [cleanupVersionsCommand_find_ok hall hl hf', hreally]
    exact removeLoop_accepted args.namespace args.package hT haccept _ w₁ hp
  · simp only [hyes, beq_self_eq_true, findVersionsToClean, ite_true, Except.ok.injEq] at hf
    simp [toRemove, ← hf, List.filter_map, Function.comp_def]

/-- A registry that serves the sample versions on one page and accepts every deletion, reached
with a token from `GITHUB_TOKEN`. -/
def sampleOutside : Outside :=
  ⟨some "ghp_sample", .raised .FileNotFoundError, fun _ r =>
    .ok ⟨if r.method = .GET then 200 else 204, if r.method = .GET then sampleVersions else [], none⟩⟩

theorem cleanupVersionsCommand_removes_marked_sample :
    ∃ T, (listVersionsFunc sampleOutside 1 "orgs/acme" "app" ⟨.init, []⟩).2.provider._token = some T ∧
      (cleanupVersionsCommand ⟨"orgs/acme", "app", 604800, true, "^latest-", some "yes-remove-all"⟩
          (defaultDeps sampleLib sampleNow sampleOutside 1) ⟨.init, []⟩).2 =
        (.ok (), ⟨(listVersionsFunc sampleOutside 1 "orgs/acme" "app" ⟨.init, []⟩).2.provider,
          (listVersionsFunc sampleOutside 1 "orgs/acme" "app" ⟨.init, []⟩).2.sent ++
            (((sampleVersions.map fun v => (⟨v, .delete, removeAllReason⟩ : CleanupAction)).filter (·.action = .delete)).map
              (·.version)).map fun v => ⟨.DELETE, versionUrl "orgs/acme" "app" v.id, headers T⟩⟩) ∧
      (some "yes-remove-all" = some "yes-remove-all" →
        ((sampleVersions.map fun v => (⟨v, .delete, removeAllReason⟩ : CleanupAction)).filter (·.action = .delete)).map
          (·.version) = sampleVersions) :=
  cleanupVersionsCommand_removes_marked sampleLib sampleNow sampleOutside 1
    ⟨"orgs/acme", "app", 604800, true, "^latest-", some "yes-remove-all"⟩ ⟨.init, []⟩
    (listVersionsFunc sampleOutside 1 "orgs/acme" "app" ⟨.init, []⟩).2 sampleVersions
    (sampleVersions.map fun v => ⟨v, .delete, removeAllReason⟩) (.inr rfl) rfl rfl rfl
    fun _ _ h => ⟨_, rfl, by simp [Response.raiseForStatus, h]⟩

end GhcrCleanup.Session
