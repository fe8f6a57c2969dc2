import Mathlib.Data.List.Forall2
import Mathlib.Data.List.Nodup
import GhcrCleanup.Types

/-!
# `find_versions_to_clean`, as the script computes it

The retention policy. Unless `remove_all` is set, the versions are split into the tagged
ones and the potential orphans (untagged, or tagged only `git-commit-*`). A tagged version
is kept when a tag matches the keep pattern or when it is newer than the cutoff
`now - tagged_max_age`; the creation times of the kept ones go into the dictionary
`kept_tagged_versions_info`. A potential orphan is then kept when its creation time lies
within ten seconds of one in that dictionary, the first such entry being cited.

The two loops are written as the script writes them, with their accumulators;
`taggedLoop_eq` and `orphanLoop_eq` restate them as a `mapM` of the loop body followed by
the dictionary updates, which is the form every later proof works with.
-/

namespace GhcrCleanup.FindVersions

open GhcrCleanup.Runtime GhcrCleanup.Types

/-- `git_commit_regex.match(tag)` for `git_commit_regex = re.compile(r"^git-commit-")`. -/
def gitCommitMatch (tag : String) : Bool := startsWith tag "git-commit-"

/-- The partition test: at least one tag, unless the only tag is a `git-commit-*` one. -/
def hasRealTags (v : PackageVersion) : Bool :=
  match v.tags with
  | [] => false
  | [tag] => !gitCommitMatch tag
  | _ => true

/-- `datetime.fromisoformat(version['created_at'].replace('Z', '+00:00'))`. -/
def createdDate (lib : Stdlib) (v : PackageVersion) : Except Exn Datetime :=
  match lib.fromisoformat (replaceChar v.created_at 'Z' "+00:00") with
  | some d => .ok d
  | none => .error .ValueError

/-- `re.compile(keep_tags_pattern)`, as the `search` of the compiled pattern. -/
def compilePattern (lib : Stdlib) (keep_tags_pattern : String) : Except Exn (String → Bool) :=
  match lib.compile keep_tags_pattern with
  | some search => .ok search
  | none => .error .ReError

theorem compilePattern_ok {lib : Stdlib} {keep_tags_pattern : String} {search : String → Bool}
    (h : compilePattern lib keep_tags_pattern = .ok search) :
    lib.compile keep_tags_pattern = some search := by
  unfold compilePattern at h
  split at h <;> cases h
  assumption

/-! ## Reasons -/

def removeAllReason : String := "Marked for deletion by --all=yes-remove-all flag"

def olderReason (tagged_max_age_delta : Timedelta) : String :=
  "Tagged version older than '" ++ tagged_max_age_delta.str ++ "'"

def patternReason (keep_tags_pattern : String) : String :=
  "Tagged version matches keep pattern '" ++ keep_tags_pattern ++ "'"

def newerReason (tagged_max_age_delta : Timedelta) : String :=
  "Tagged version newer than '" ++ tagged_max_age_delta.str ++ "'"

def orphanReason : String := "Orphan version"

def correlatedReason (kept_id : Int) : String :=
  "Untagged version matches timestamp of kept version " ++ toString kept_id

/-! ## The loops -/

/-- `timedelta(seconds=timestamp_tolerance_seconds)` with `timestamp_tolerance_seconds = 10`. -/
def timeTolerance : Timedelta := ⟨10 * 1000000, by decide⟩

/-- `kept_tagged_versions_info[k] = d`: a new key goes last, an existing key keeps its place
and takes the new value. -/
def dictSet (info : List (Int × Datetime)) (k : Int) (d : Datetime) : List (Int × Datetime) :=
  if info.any (·.1 = k) then info.map fun e => if e.1 = k then (k, d) else e
  else info ++ [(k, d)]

/-- The body of the loop over `tagged_versions`: the action for `version`, with the
`created_date` it parsed. -/
def taggedAction (lib : Stdlib) (cutoff_date : Datetime) (pattern : String → Bool)
    (keep_tags_pattern : String) (tagged_max_age_delta : Timedelta) (version : PackageVersion) :
    Except Exn (CleanupAction × Datetime) := do
  let created_date ← createdDate lib version
  let should_keep_due_to_pattern := version.tags.any pattern
  if should_keep_due_to_pattern then
    return (⟨version, .keep, patternReason keep_tags_pattern⟩, created_date)
  else if ← created_date.gt cutoff_date then
    return (⟨version, .keep, newerReason tagged_max_age_delta⟩, created_date)
  else
    return (⟨version, .delete, olderReason tagged_max_age_delta⟩, created_date)

/-- What the tagged loop records of one of its actions. -/
def recordKept (kept : List (Int × Datetime)) (entry : CleanupAction × Datetime) :
    List (Int × Datetime) :=
  if entry.1.action = .keep then dictSet kept entry.1.version.id entry.2 else kept

/-- `for version in tagged_versions:`, accumulating `cleanup_actions` and
`kept_tagged_versions_info`. -/
def taggedLoop (lib : Stdlib) (cutoff_date : Datetime) (pattern : String → Bool)
    (keep_tags_pattern : String) (tagged_max_age_delta : Timedelta) :
    List PackageVersion → List CleanupAction → List (Int × Datetime) →
      Except Exn (List CleanupAction × List (Int × Datetime))
  | [], cleanup_actions, kept => .ok (cleanup_actions, kept)
  | version :: rest, cleanup_actions, kept => do
    let entry ← taggedAction lib cutoff_date pattern keep_tags_pattern tagged_max_age_delta version
    taggedLoop lib cutoff_date pattern keep_tags_pattern tagged_max_age_delta rest
      (cleanup_actions ++ [entry.1]) (recordKept kept entry)

/-- `for kept_id, kept_timestamp in kept_tagged_versions_info.items():`, up to the `break`:
the first kept id within the tolerance. -/
def firstMatch (orphan_created_date : Datetime) : List (Int × Datetime) → Except Exn (Option Int)
  | [] => .ok none
  | (kept_id, kept_timestamp) :: rest => do
    let d ← orphan_created_date.sub kept_timestamp
    if d.abs.us ≤ timeTolerance.us then return some kept_id
    else firstMatch orphan_created_date rest

/-- The body of the loop over `potential_orphan_versions`. -/
def orphanAction (lib : Stdlib) (kept : List (Int × Datetime)) (version : PackageVersion) :
    Except Exn CleanupAction := do
  let orphan_created_date ← createdDate lib version
  match ← firstMatch orphan_created_date kept with
  | some kept_id => return ⟨version, .keep, correlatedReason kept_id⟩
  | none => return ⟨version, .delete, orphanReason⟩

/-- `for version in potential_orphan_versions:`, accumulating `cleanup_actions`. -/
def orphanLoop (lib : Stdlib) (kept : List (Int × Datetime)) :
    List PackageVersion → List CleanupAction → Except Exn (List CleanupAction)
  | [], cleanup_actions => .ok cleanup_actions
  | version :: rest, cleanup_actions => do
    let action ← orphanAction lib kept version
    orphanLoop lib kept rest (cleanup_actions ++ [action])

/-- `find_versions_to_clean(versions, tagged_max_age, keep_tags_pattern, remove_all)`, with
`now` the value of `datetime.now(timezone.utc)` and `lib` the library calls it makes. -/
def findVersionsToClean (lib : Stdlib) (now : UtcDatetime) (versions : List PackageVersion)
    (tagged_max_age : Int) (keep_tags_pattern : String) (remove_all : Bool) :
    Except Exn (List CleanupAction) :=
  if remove_all then .ok (versions.map fun version => ⟨version, .delete, removeAllReason⟩)
  else do
    let (tagged_versions, potential_orphan_versions) := versions.partition hasRealTags
    let tagged_max_age_delta ← timedelta (tagged_max_age * 1000000)
    let cutoff_date ← now.val.subTimedelta tagged_max_age_delta
    let pattern ← compilePattern lib keep_tags_pattern
    let (cleanup_actions, kept) ← taggedLoop lib cutoff_date pattern keep_tags_pattern
      tagged_max_age_delta tagged_versions [] []
    orphanLoop lib kept potential_orphan_versions cleanup_actions

/-! ## The loop bodies -/

section Bodies

variable {lib : Stdlib} {cutoff_date : Datetime} {pattern : String → Bool}
  {keep_tags_pattern : String} {tagged_max_age_delta : Timedelta} {v : PackageVersion}
  {d : Datetime}

theorem taggedAction_eq (hd : createdDate lib v = .ok d) :
    taggedAction lib cutoff_date pattern keep_tags_pattern tagged_max_age_delta v =
      if v.tags.any pattern then .ok (⟨v, .keep, patternReason keep_tags_pattern⟩, d)
      else (d.gt cutoff_date).map fun newer =>
        (if newer then ⟨v, .keep, newerReason tagged_max_age_delta⟩
          else ⟨v, .delete, olderReason tagged_max_age_delta⟩, d) := by
  simp only [taggedAction, hd, bind, Except.bind, pure, Except.pure]
  split
  · rfl
  · cases d.gt cutoff_date with
    | error e => rfl
    | ok newer => cases newer <;> rfl

/-- The tagged loop body acts on the version it is given, at the date it parsed. -/
theorem taggedAction_ok {e : CleanupAction × Datetime}
    (h : taggedAction lib cutoff_date pattern keep_tags_pattern tagged_max_age_delta v = .ok e) :
    createdDate lib v = .ok e.2 ∧ e.1.version = v := by
  cases hd : createdDate lib v with
  | error err => simp [taggedAction, hd, bind, Except.bind] at h
  | ok d =>
    rw [taggedAction_eq hd] at h
    split at h
    · cases h; exact ⟨rfl, rfl⟩
    · obtain ⟨newer, -, rfl⟩ := (map_eq_ok _ _ _).1 h
      cases newer <;> exact ⟨rfl, rfl⟩

/-- `abs(orphan_created_date - kept_timestamp) <= time_tolerance`, false when the
subtraction raises. -/
def withinTolerance (orphan kept : Datetime) : Bool :=
  match orphan.sub kept with
  | .ok t => decide (t.abs.us ≤ timeTolerance.us)
  | .error _ => false

/-- Between aware datetimes the test is on the distance of their UTC instants. -/
theorem withinTolerance_aware {a b : Datetime} {oa ob : Int} (ha : a.utcoffset = some oa)
    (hb : b.utcoffset = some ob) :
    withinTolerance a b = decide (((a.wall - oa) - (b.wall - ob)).natAbs ≤ 10000000) := by
  obtain ⟨t, ht, hus⟩ := Datetime.sub_aware ha hb
  simp only [withinTolerance, ht, Timedelta.abs, timeTolerance]
  split <;> simp only [decide_eq_decide] <;> omega

theorem orphanAction_eq {kept : List (Int × Datetime)} (hd : createdDate lib v = .ok d) :
    orphanAction lib kept v = (firstMatch d kept).map fun r =>
      match r with
      | some kept_id => ⟨v, .keep, correlatedReason kept_id⟩
      | none => ⟨v, .delete, orphanReason⟩ := by
  simp only [orphanAction, hd, bind, Except.bind, pure, Except.pure]
  cases firstMatch d kept with
  | error e => rfl
  | ok r => cases r <;> rfl

theorem orphanAction_ok {kept : List (Int × Datetime)} {a : CleanupAction}
    (h : orphanAction lib kept v = .ok a) :
    ∃ d r, createdDate lib v = .ok d ∧ firstMatch d kept = .ok r ∧ a.version = v ∧
      (a.action = .keep ↔ r.isSome) := by
  cases hd : createdDate lib v with
  | error err => simp [orphanAction, hd, bind, Except.bind] at h
  | ok d =>
    rw [orphanAction_eq hd] at h
    obtain ⟨r, hr, rfl⟩ := (map_eq_ok _ _ _).1 h
    cases r <;> exact ⟨d, _, rfl, hr, rfl, by simp⟩

theorem orphanAction_version {kept : List (Int × Datetime)} {a : CleanupAction}
    (h : orphanAction lib kept v = .ok a) : a.version = v := by
  obtain ⟨-, -, -, -, hv, -⟩ := orphanAction_ok h
  exact hv

end Bodies

/-! ## The dictionary of kept tagged versions -/

theorem mem_dictSet {info : List (Int × Datetime)} {k : Int} {d : Datetime} {e : Int × Datetime}
    (h : e ∈ dictSet info k d) : e ∈ info ∨ e = (k, d) := by
  unfold dictSet at h
  split at h
  · obtain ⟨e', he', rfl⟩ := List.mem_map.1 h
    split
    · exact .inr rfl
    · exact .inl he'
  · simpa using h

theorem dictSet_fresh {info : List (Int × Datetime)} {k : Int} (h : k ∉ info.map (·.1))
    (d : Datetime) : dictSet info k d = info ++ [(k, d)] := by
  simp only [dictSet, List.any_eq_true, decide_eq_true_eq]
  rw [if_neg]
  rintro ⟨e, he, rfl⟩
  exact h (List.mem_map_of_mem _ he)

@[simp] theorem recordKept_delete {kept : List (Int × Datetime)} {x : CleanupAction × Datetime}
    (h : x.1.action = .delete) : recordKept kept x = kept := by
  simp [recordKept, h]

/-- Every entry of the dictionary comes from a kept action of the loop. -/
theorem mem_foldl_recordKept {e : Int × Datetime} :
    ∀ {entries : List (CleanupAction × Datetime)} {kept : List (Int × Datetime)},
      e ∈ entries.foldl recordKept kept →
        e ∈ kept ∨ ∃ x ∈ entries, x.1.action = .keep ∧ e = (x.1.version.id, x.2)
  | [], _, h => .inl h
  | x :: xs, kept, h => by
    rcases @mem_foldl_recordKept _ xs _ h with h | ⟨y, hy, hk, rfl⟩
    · unfold recordKept at h
      split at h
      · rcases mem_dictSet h with h | rfl
        · exact .inl h
        · exact .inr ⟨x, List.mem_cons_self _ _, ‹_›, rfl⟩
      · exact .inl h
    · exact .inr ⟨y, List.mem_cons_of_mem _ hy, hk, rfl⟩

/-- With distinct ids, the dictionary lists the kept actions in the loop's order. -/
theorem foldl_recordKept_of_nodup :
    ∀ (entries : List (CleanupAction × Datetime)) (kept : List (Int × Datetime)),
      (kept.map (·.1) ++ (entries.filter (·.1.action = .keep)).map (·.1.version.id)).Nodup →
      entries.foldl recordKept kept =
        kept ++ (entries.filter (·.1.action = .keep)).map fun x => (x.1.version.id, x.2)
  | [], kept, _ => by simp
  | x :: xs, kept, hnd => by
    by_cases hx : x.1.action = .keep
    · have hfresh : x.1.version.id ∉ kept.map (·.1) := by
        simp only [List.filter_cons, hx, decide_True, ite_true, List.map_cons] at hnd
        exact fun h => (List.nodup_append.1 hnd).2.2 h (List.mem_cons_self _ _)
      have hrec : recordKept kept x = kept ++ [(x.1.version.id, x.2)] := by
        simp [recordKept, hx, dictSet_fresh hfresh]
      rw [List.foldl_cons, hrec, foldl_recordKept_of_nodup xs _ (by simpa [hx] using hnd)]
      simp [hx]
    · have hdel : x.1.action = .delete := by cases h : x.1.action <;> simp_all
      rw [List.foldl_cons, recordKept_delete hdel,
        foldl_recordKept_of_nodup xs kept (by simpa [hx] using hnd)]
      simp [hx]

/-- With distinct ids, every kept action is in the dictionary with its date. -/
theorem mem_foldl_recordKept_of_keep {entries : List (CleanupAction × Datetime)}
    (hnd : (entries.map (·.1.version.id)).Nodup) {x : CleanupAction × Datetime}
    (hx : x ∈ entries) (hk : x.1.action = .keep) :
    (x.1.version.id, x.2) ∈ entries.foldl recordKept [] := by
  rw [foldl_recordKept_of_nodup entries []
    (by simpa [Function.comp_def] using hnd.sublist ((List.filter_sublist _).map _))]
  exact List.mem_append_right _ (List.mem_map_of_mem _ (List.mem_filter.2 ⟨hx, by simpa using hk⟩))

/-- Dropping deleted actions leaves the dictionary as it was. -/
theorem foldl_recordKept_filter (p : CleanupAction × Datetime → Bool) :
    ∀ (entries : List (CleanupAction × Datetime)) (kept : List (Int × Datetime)),
      (∀ x ∈ entries, p x = false → x.1.action = .delete) →
      (entries.filter p).foldl recordKept kept = entries.foldl recordKept kept
  | [], _, _ => rfl
  | x :: xs, kept, h => by
    have hrest := foldl_recordKept_filter p xs
    by_cases hp : p x
    · simp only [List.filter_cons, hp, ite_true, List.foldl_cons]
      exact hrest _ fun y hy => h y (List.mem_cons_of_mem _ hy)
    · simp only [List.filter_cons, hp, List.foldl_cons, Bool.false_eq_true, ite_false,
        recordKept_delete (h x (List.mem_cons_self _ _) (by simpa using hp))]
      exact hrest _ fun y hy => h y (List.mem_cons_of_mem _ hy)

/-! ## The inner loop over the dictionary -/

/-- A cited id belongs to an entry within the tolerance. -/
theorem firstMatch_some {o : Datetime} {kept : List (Int × Datetime)} {k : Int}
    (h : firstMatch o kept = .ok (some k)) : ∃ e ∈ kept, e.1 = k ∧ withinTolerance o e.2 := by
  induction kept with
  | nil => cases h
  | cons e kept ih =>
    obtain ⟨kept_id, t⟩ := e
    cases hs : o.sub t with
    | error err => simp [firstMatch, hs, bind, Except.bind] at h
    | ok td =>
      by_cases hw : td.abs.us ≤ timeTolerance.us
      · simp [firstMatch, hs, hw, bind, Except.bind, pure, Except.pure] at h
        exact ⟨_, List.mem_cons_self _ _, h, by simp [withinTolerance, hs, hw]⟩
      · simp only [firstMatch, hs, hw, bind, Except.bind, if_false] at h
        obtain ⟨e, he, hk, hwe⟩ := ih h
        exact ⟨e, List.mem_cons_of_mem _ he, hk, hwe⟩

/-- When no id is cited, every entry was compared and none is within the tolerance. -/
theorem firstMatch_none {o : Datetime} {kept : List (Int × Datetime)}
    (h : firstMatch o kept = .ok none) : ∀ e ∈ kept, (o.sub e.2).isOk ∧ withinTolerance o e.2 = false := by
  induction kept with
  | nil => simp
  | cons e kept ih =>
    obtain ⟨kept_id, t⟩ := e
    cases hs : o.sub t with
    | error err => simp [firstMatch, hs, bind, Except.bind] at h
    | ok td =>
      by_cases hw : td.abs.us ≤ timeTolerance.us
      · simp [firstMatch, hs, hw, bind, Except.bind, pure, Except.pure] at h
      · simp only [firstMatch, hs, hw, bind, Except.bind, if_false] at h
        simpa [withinTolerance, hs, hw, Except.isOk, Except.toBool] using ih h

/-- When every subtraction succeeds, the inner loop cites the first entry within the
tolerance, in the dictionary's order. -/
theorem firstMatch_eq_find {o : Datetime} {kept : List (Int × Datetime)}
    (h : ∀ e ∈ kept, (o.sub e.2).isOk) :
    firstMatch o kept = .ok ((kept.find? fun e => withinTolerance o e.2).map (·.1)) := by
  induction kept with
  | nil => rfl
  | cons e kept ih =>
    obtain ⟨kept_id, t⟩ := e
    have hrest := ih fun e he => h e (List.mem_cons_of_mem _ he)
    cases hs : o.sub t with
    | error err => simpa [hs, Except.isOk, Except.toBool] using h _ (List.mem_cons_self _ _)
    | ok td =>
      by_cases hw : td.abs.us ≤ timeTolerance.us <;>
        simp [firstMatch, hs, hw, withinTolerance, hrest, bind, Except.bind, pure, Except.pure]

/-! ## The loops as `mapM` -/

/-- A `mapM` in `Except` succeeds exactly when every element does. -/
theorem mapM_ok_iff {α β : Type} (f : α → Except Exn β) :
    ∀ (l : List α) (bs : List β), l.mapM f = .ok bs ↔ List.Forall₂ (fun a b => f a = .ok b) l bs
  | [], bs => by
    rw [List.mapM_nil, List.forall₂_nil_left_iff]
    exact ⟨fun h => (Except.ok.inj h).symm, fun h => h ▸ rfl⟩
  | a :: l, bs => by
    rw [List.mapM_cons, List.forall₂_cons_left_iff]
    cases f a <;> cases hl : l.mapM f <;>
      simp only [bind, Except.bind, pure, Except.pure, ← mapM_ok_iff f l, hl] <;> simp [eq_comm]

theorem mapM_eq_ok_map {α β : Type} {f : α → Except Exn β} {g : α → β} {l : List α}
    (h : ∀ x ∈ l, f x = .ok (g x)) : l.mapM f = .ok (l.map g) :=
  (mapM_ok_iff f l _).2 (List.forall₂_map_right_iff.2 (List.forall₂_same.2 h))

theorem mapM_ok_of_forall {α β : Type} {f : α → Except Exn β} :
    ∀ {l : List α}, (∀ x ∈ l, ∃ b, f x = .ok b) → ∃ bs, l.mapM f = .ok bs
  | [], _ => ⟨[], rfl⟩
  | a :: l, h => by
    obtain ⟨b, hb⟩ := h a (List.mem_cons_self _ _)
    obtain ⟨bs, hbs⟩ := mapM_ok_of_forall fun x hx => h x (List.mem_cons_of_mem _ hx)
    exact ⟨b :: bs, (mapM_ok_iff f _ _).2 (.cons hb ((mapM_ok_iff f _ _).1 hbs))⟩

section MapM

variable {α β : Type} {f : α → Except Exn β} {l : List α} {bs : List β}

/-- Every input has its output among the results, and every result comes from an input. -/
theorem mem_mapM_ok (h : l.mapM f = .ok bs) :
    (∀ a ∈ l, ∃ b ∈ bs, f a = .ok b) ∧ ∀ b ∈ bs, ∃ a ∈ l, f a = .ok b := by
  have h2 := (mapM_ok_iff f l bs).1 h
  clear h
  induction h2 with
  | nil => simp
  | cons hab _ ih =>
    simp only [List.forall_mem_cons]
    exact ⟨⟨⟨_, List.mem_cons_self _ _, hab⟩, fun a ha =>
        (ih.1 a ha).imp fun _ ⟨hb, h⟩ => ⟨.tail _ hb, h⟩⟩,
      ⟨⟨_, List.mem_cons_self _ _, hab⟩, fun b hb =>
        (ih.2 b hb).imp fun _ ⟨ha, h⟩ => ⟨.tail _ ha, h⟩⟩⟩

/-- When each result names its input, the results name the inputs in order. -/
theorem mapM_map_eq {g : β → α} (hg : ∀ a b, f a = .ok b → g b = a) (h : l.mapM f = .ok bs) :
    bs.map g = l := by
  have h2 := (mapM_ok_iff f l bs).1 h
  clear h
  induction h2 with
  | nil => rfl
  | cons hab _ ih => rw [List.map_cons, hg _ _ hab, ih]

/-- Filtering the inputs filters the results, when the test reads the same on both. -/
theorem mapM_filter {p : α → Bool} {q : β → Bool} (hpq : ∀ a b, f a = .ok b → q b = p a)
    (h : l.mapM f = .ok bs) : (l.filter p).mapM f = .ok (bs.filter q) :=
  (mapM_ok_iff f _ _).2 (List.rel_filter (fun a b hab => show p a = true ↔ q b = true by rw [hpq a b hab])
    ((mapM_ok_iff f _ _).1 h))

end MapM

/-- With distinct ids among the versions, the tagged loop's entries have distinct ids. -/
theorem mapM_taggedAction_nodup {lib : Stdlib} {cutoff_date : Datetime} {pattern : String → Bool}
    {keep_tags_pattern : String} {tagged_max_age_delta : Timedelta} {vs : List PackageVersion}
    {entries : List (CleanupAction × Datetime)} (hids : (vs.map (·.id)).Nodup)
    (h : (vs.filter hasRealTags).mapM
      (taggedAction lib cutoff_date pattern keep_tags_pattern tagged_max_age_delta) = .ok entries) :
    (entries.map (·.1.version.id)).Nodup := by
  have hvers := mapM_map_eq (g := fun x => x.1.version) (fun _ _ h => (taggedAction_ok h).2) h
  have hsub : ((vs.filter hasRealTags).map (·.id)).Nodup :=
    hids.sublist ((List.filter_sublist _).map _)
  simpa only [← hvers, List.map_map, Function.comp_def] using hsub

theorem taggedLoop_eq (lib : Stdlib) (cutoff_date : Datetime) (pattern : String → Bool)
    (keep_tags_pattern : String) (tagged_max_age_delta : Timedelta) :
    ∀ (vs : List PackageVersion) (acc : List CleanupAction) (kept : List (Int × Datetime)),
      taggedLoop lib cutoff_date pattern keep_tags_pattern tagged_max_age_delta vs acc kept =
        (vs.mapM (taggedAction lib cutoff_date pattern keep_tags_pattern tagged_max_age_delta)).map
          fun entries => (acc ++ entries.map Prod.fst, entries.foldl recordKept kept)
  | [], acc, kept => by rw [List.mapM_nil]; simp [taggedLoop, pure, Except.pure, Except.map]
  | v :: vs, acc, kept => by
    rw [taggedLoop, List.mapM_cons]
    cases taggedAction lib cutoff_date pattern keep_tags_pattern tagged_max_age_delta v with
    | error e => rfl
    | ok entry =>
      simp only [bind, Except.bind, taggedLoop_eq lib cutoff_date pattern keep_tags_pattern
        tagged_max_age_delta vs]
      cases vs.mapM (taggedAction lib cutoff_date pattern keep_tags_pattern tagged_max_age_delta) <;>
        simp [Except.map, pure, Except.pure]

theorem orphanLoop_eq (lib : Stdlib) (kept : List (Int × Datetime)) :
    ∀ (vs : List PackageVersion) (acc : List CleanupAction),
      orphanLoop lib kept vs acc = (vs.mapM (orphanAction lib kept)).map (acc ++ ·)
  | [], acc => by rw [List.mapM_nil]; simp [orphanLoop, pure, Except.pure, Except.map]
  | v :: vs, acc => by
    rw [orphanLoop, List.mapM_cons]
    cases orphanAction lib kept v with
    | error e => rfl
    | ok a =>
      simp only [bind, Except.bind, orphanLoop_eq lib kept vs]
      cases vs.mapM (orphanAction lib kept) <;> simp [Except.map, pure, Except.pure]

/-- The cutoff of a run is `now` less the max age, at offset zero. -/
theorem cutoff_of_ok {now : UtcDatetime} {tagged_max_age : Int} {delta : Timedelta}
    {cutoff : Datetime} (h1 : timedelta (tagged_max_age * 1000000) = .ok delta)
    (h2 : now.val.subTimedelta delta = .ok cutoff) :
    cutoff.wall = now.val.wall - tagged_max_age * 1000000 ∧ cutoff.utcoffset = some 0 := by
  obtain ⟨hw, ho⟩ := subTimedelta_ok_iff.1 h2
  exact ⟨by rw [hw, timedelta_ok_iff.1 h1], ho.trans now.property⟩

/-- **Inversion of `find_versions_to_clean` without `remove_all`.** It returns exactly when
the cutoff is representable, the pattern compiles and both loop bodies succeed on every
version; the result is then the tagged actions, in order, followed by the orphan actions,
in order, the orphans being judged against the dictionary the tagged loop built. -/
theorem findVersionsToClean_ok_iff (lib : Stdlib) (now : UtcDatetime)
    (versions : List PackageVersion) (tagged_max_age : Int) (keep_tags_pattern : String)
    (acts : List CleanupAction) :
    findVersionsToClean lib now versions tagged_max_age keep_tags_pattern false = .ok acts ↔
      ∃ delta cutoff pattern entries orphans,
        timedelta (tagged_max_age * 1000000) = .ok delta ∧
        now.val.subTimedelta delta = .ok cutoff ∧
        compilePattern lib keep_tags_pattern = .ok pattern ∧
        (versions.filter hasRealTags).mapM
          (taggedAction lib cutoff pattern keep_tags_pattern delta) = .ok entries ∧
        (versions.filter (!hasRealTags ·)).mapM
          (orphanAction lib (entries.foldl recordKept [])) = .ok orphans ∧
        acts = entries.map Prod.fst ++ orphans := by
  simp only [findVersionsToClean, Bool.false_eq_true, ite_false, List.partition_eq_filter_filter,
    taggedLoop_eq, orphanLoop_eq, bind_eq_ok, map_eq_ok]
  constructor
  · rintro ⟨delta, h1, cutoff, h2, pattern, h3, _, ⟨entries, h4, rfl⟩, orphans, h5, rfl⟩
    exact ⟨delta, cutoff, pattern, entries, orphans, h1, h2, h3, h4, h5, by simp⟩
  · rintro ⟨delta, cutoff, pattern, entries, orphans, h1, h2, h3, h4, h5, rfl⟩
    exact ⟨delta, h1, cutoff, h2, pattern, h3, _, ⟨entries, h4, rfl⟩, orphans, h5, by simp⟩

/-- Whenever a run returns, it gives one action per version: with `remove_all` to the versions
in input order, otherwise to the tagged versions in input order and then to the potential
orphans in input order. -/
theorem versions_of_ok {lib : Stdlib} {now : UtcDatetime} {versions : List PackageVersion}
    {tagged_max_age : Int} {keep_tags_pattern : String} {remove_all : Bool}
    {acts : List CleanupAction}
    (h : findVersionsToClean lib now versions tagged_max_age keep_tags_pattern remove_all =
      .ok acts) :
    acts.map (·.version) = if remove_all then versions
      else versions.filter hasRealTags ++ versions.filter (!hasRealTags ·) := by
  cases remove_all with
  | true =>
    simp only [findVersionsToClean, ite_true, Except.ok.injEq] at h
    simp [← h, Function.comp_def]
  | false =>
    obtain ⟨delta, cutoff, pattern, entries, orphans, -, -, -, h4, h5, rfl⟩ :=
      (findVersionsToClean_ok_iff lib now versions tagged_max_age keep_tags_pattern acts).1 h
    simp only [List.map_append, List.map_map, Function.comp_def, Bool.false_eq_true, ite_false]
    rw [mapM_map_eq (fun _ _ h => (taggedAction_ok h).2) h4,
      mapM_map_eq (fun _ _ h => orphanAction_version h) h5]

end GhcrCleanup.FindVersions
