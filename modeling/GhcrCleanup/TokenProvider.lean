import GhcrCleanup.Runtime

/-!
# `GitHubTokenProvider`: a one-slot token cache

The provider's only state is `_token`. `get_token` consults the environment and the `gh`
CLI only when nothing usable is cached, and caches what it finds there; `clear_token`
empties the slot. The environment and the CLI are read afresh at every call, so a run is a
list of operations, each carrying what `GITHUB_TOKEN` and `gh auth token` give at that
moment. `CacheOk` is the invariant of every run from the constructor, and between two
`clear_token` calls every token handed out is the same one.
-/

namespace GhcrCleanup.TokenProvider

open GhcrCleanup.Runtime

/-- What `subprocess.run(["gh", "auth", "token"], ...)` gives: the finished process, or the
exception it raises (`FileNotFoundError` when `gh` is not installed). -/
inductive CliOutcome where
  | completed (returncode : Int) (stdout : String)
  | raised (e : Exn)

/-- What `get_token` does to the outside world. -/
inductive Effect where
  /-- `self._environ.get('GITHUB_TOKEN')` -/
  | readEnv
  /-- `self._subprocess.run(["gh", "auth", "token"], ...)` -/
  | runCli
  deriving DecidableEq, Repr

structure GitHubTokenProvider where
  _token : Option String
  deriving DecidableEq, Repr

/-- `GitHubTokenProvider()`. -/
def GitHubTokenProvider.init : GitHubTokenProvider := ⟨none⟩

/-- The message of the `AuthenticationError` that `get_token` raises. -/
def authMessage : String :=
  "Unable to retrieve GitHub token.\n" ++ "Please either:\n" ++
    "  1. Set the GITHUB_TOKEN environment variable, or\n" ++
    "  2. Install and authenticate with GitHub CLI (gh)"

/-- Method 2 of `get_token`, and the final `raise` when it fails too. Only
`FileNotFoundError` is caught; anything else `subprocess.run` raises goes through. -/
def GitHubTokenProvider.fromCli (self : GitHubTokenProvider) :
    CliOutcome → Except Exn String × GitHubTokenProvider
  | .completed returncode stdout =>
    if returncode = 0 ∧ strip stdout ≠ "" then (.ok (strip stdout), ⟨some (strip stdout)⟩)
    else (.error (.AuthenticationError authMessage), self)
  | .raised .FileNotFoundError => (.error (.AuthenticationError authMessage), self)
  | .raised e => (.error e, self)

/-- Methods 1 and 2 of `get_token`: a non-empty `GITHUB_TOKEN` wins, else the CLI. -/
def GitHubTokenProvider.lookup (self : GitHubTokenProvider) (environ : Option String)
    (gh : CliOutcome) : List Effect × Except Exn String × GitHubTokenProvider :=
  match environ with
  | some token =>
    if token ≠ "" then ([.readEnv], .ok token, ⟨some token⟩)
    else ([.readEnv, .runCli], self.fromCli gh)
  | none => ([.readEnv, .runCli], self.fromCli gh)

/-- `get_token()`, given what `GITHUB_TOKEN` and `gh auth token` give at the call: the
effects, the token or the exception, and the provider after the call. -/
def GitHubTokenProvider.getToken (self : GitHubTokenProvider) (environ : Option String)
    (gh : CliOutcome) : List Effect × Except Exn String × GitHubTokenProvider :=
  match self._token with
  | some t => if t ≠ "" then ([], .ok t, self) else self.lookup environ gh
  | none => self.lookup environ gh

/-- `clear_token()`. -/
def GitHubTokenProvider.clearToken (_ : GitHubTokenProvider) : GitHubTokenProvider := ⟨none⟩

/-- A call on the provider. -/
inductive TokenOp where
  | getToken (environ : Option String) (gh : CliOutcome)
  | clearToken

/-- The provider after one call. -/
def step (p : GitHubTokenProvider) : TokenOp → GitHubTokenProvider
  | .getToken environ gh => (p.getToken environ gh).2.2
  | .clearToken => p.clearToken

/-- The provider after a run. -/
def run (p : GitHubTokenProvider) (ops : List TokenOp) : GitHubTokenProvider :=
  ops.foldl step p

/-- The tokens the successful `get_token` calls of a run hand out, in order. -/
def tokens : GitHubTokenProvider → List TokenOp → List String
  | _, [] => []
  | p, .clearToken :: ops => tokens p.clearToken ops
  | p, .getToken environ gh :: ops =>
    match p.getToken environ gh with
    | (_, .ok t, p') => t :: tokens p' ops
    | (_, .error _, p') => tokens p' ops

/-- The cache holds nothing or a non-empty token. -/
def CacheOk (p : GitHubTokenProvider) : Prop := ∀ t, p._token = some t → t ≠ ""

/-! ## What one call can do -/

/-- The CLI either yields a non-empty token, now cached, or fails leaving the provider. -/
theorem fromCli_cases (p : GitHubTokenProvider) (gh : CliOutcome) :
    (∃ t, t ≠ "" ∧ p.fromCli gh = (.ok t, ⟨some t⟩)) ∨ ∃ e, p.fromCli gh = (.error e, p) := by
  unfold GitHubTokenProvider.fromCli
  split
  · split
    · exact .inl ⟨_, ‹_ ∧ _›.2, rfl⟩
    · exact .inr ⟨_, rfl⟩
  all_goals exact .inr ⟨_, rfl⟩

/-- **Inversion of `get_token`.** A call returns the cached token and changes nothing, or
finds a non-empty token and caches it, or raises and leaves the provider as it was. -/
theorem getToken_cases (p : GitHubTokenProvider) (environ : Option String)
    (gh : CliOutcome) :
    (∃ t, p._token = some t ∧ t ≠ "" ∧ p.getToken environ gh = ([], .ok t, p)) ∨
    (∃ effs t, t ≠ "" ∧ p.getToken environ gh = (effs, .ok t, ⟨some t⟩)) ∨
    (∃ effs e, p.getToken environ gh = (effs, .error e, p)) := by
  have hlookup : (∃ effs t, t ≠ "" ∧ p.lookup environ gh = (effs, .ok t, ⟨some t⟩)) ∨
      (∃ effs e, p.lookup environ gh = (effs, .error e, p)) := by
    have hcli : ∀ effs : List Effect, (∃ effs' t, t ≠ "" ∧ (effs, p.fromCli gh) = (effs', .ok t, ⟨some t⟩)) ∨
        (∃ effs' e, (effs, p.fromCli gh) = (effs', .error e, p)) := fun effs => by
      rcases fromCli_cases p gh with ⟨t, ht, h⟩ | ⟨e, h⟩ <;> rw [h]
      exacts [.inl ⟨_, t, ht, rfl⟩, .inr ⟨_, e, rfl⟩]
    unfold GitHubTokenProvider.lookup
    split
    · split
      · exact .inl ⟨_, _, ‹_›, rfl⟩
      · exact hcli _
    · exact hcli _
  unfold GitHubTokenProvider.getToken
  split
  · split
    · exact .inl ⟨_, ‹_›, ‹_›, rfl⟩
    · exact .inr hlookup
  · exact .inr hlookup

theorem getToken_cached {p : GitHubTokenProvider} {t : String} (hp : p._token = some t)
    (ht : t ≠ "") (environ : Option String) (gh : CliOutcome) :
    p.getToken environ gh = ([], .ok t, p) := by
  simp [GitHubTokenProvider.getToken, hp, ht]

/-- With nothing cached, a non-empty `GITHUB_TOKEN` is returned and cached, and the CLI is
not run. -/
theorem getToken_environ {p : GitHubTokenProvider} (hp : p._token = none) {t : String}
    (ht : t ≠ "") (gh : CliOutcome) :
    p.getToken (some t) gh = ([.readEnv], .ok t, ⟨some t⟩) := by
  simp [GitHubTokenProvider.getToken, GitHubTokenProvider.lookup, hp, ht]

/-- With nothing cached and no usable `GITHUB_TOKEN`, the CLI decides. -/
theorem getToken_cli {p : GitHubTokenProvider} (hp : p._token = none) {environ : Option String}
    (henv : environ = none ∨ environ = some "") (gh : CliOutcome) :
    p.getToken environ gh = ([.readEnv, .runCli], p.fromCli gh) := by
  rcases henv with rfl | rfl <;> simp [GitHubTokenProvider.getToken, GitHubTokenProvider.lookup, hp]

@[simp] theorem clearToken_token (p : GitHubTokenProvider) : p.clearToken._token = none := rfl

/-- A run that ends with `clear_token` leaves the cache empty. -/
theorem run_clearToken_token (p : GitHubTokenProvider) (ops : List TokenOp) :
    (run p (ops ++ [.clearToken]))._token = none := by
  simp [run, List.foldl_append, step]

/-- One call keeps the cache well formed. -/
theorem cacheOk_step {p : GitHubTokenProvider} (hp : CacheOk p) (op : TokenOp) :
    CacheOk (step p op) := by
  cases op with
  | clearToken => intro t h; simp [step] at h
  | getToken environ gh =>
    rcases getToken_cases p environ gh with ⟨t, -, -, h⟩ | ⟨effs, t, ht, h⟩ | ⟨effs, e, h⟩ <;>
      simp only [step, h]
    · exact hp
    · intro t' h'; cases h'; exact ht
    · exact hp

/-- Every run from the constructor keeps the cache well formed. -/
theorem cacheOk_run (ops : List TokenOp) : CacheOk (run .init ops) := by
  suffices ∀ p, CacheOk p → CacheOk (run p ops) from this _ (by intro t h; cases h)
  induction ops with
  | nil => exact fun p hp => hp
  | cons op ops ih => exact fun p hp => ih _ (cacheOk_step hp op)

/-! ## Runs without `clear_token` -/

/-- Once a token is cached, a run without `clear_token` hands out only that token. -/
theorem tokens_of_cached {p : GitHubTokenProvider} {t : String} (hp : p._token = some t)
    (ht : t ≠ "") (ops : List TokenOp) (hops : ∀ op ∈ ops, op ≠ .clearToken) :
    ∀ t' ∈ tokens p ops, t' = t := by
  induction ops with
  | nil => simp [tokens]
  | cons op ops ih =>
    cases op with
    | clearToken => exact absurd rfl (hops _ (List.mem_cons_self _ _))
    | getToken environ gh =>
      simp only [tokens, getToken_cached hp ht, List.mem_cons]
      rintro t' (rfl | h')
      · rfl
      · exact ih (fun op h => hops op (List.mem_cons_of_mem _ h)) t' h'

/-- A run without `clear_token` hands out one token at most. -/
theorem tokens_agree (p : GitHubTokenProvider) (ops : List TokenOp)
    (hops : ∀ op ∈ ops, op ≠ .clearToken) :
    ∀ t₁ ∈ tokens p ops, ∀ t₂ ∈ tokens p ops, t₁ = t₂ := by
  suffices ∃ t, ∀ t' ∈ tokens p ops, t' = t by
    obtain ⟨t, h⟩ := this
    intro t₁ h₁ t₂ h₂
    rw [h _ h₁, h _ h₂]
  induction ops generalizing p with
  | nil => exact ⟨"", by simp [tokens]⟩
  | cons op ops ih =>
    have hrest : ∀ op ∈ ops, op ≠ .clearToken := fun op h => hops op (List.mem_cons_of_mem _ h)
    cases op with
    | clearToken => exact absurd rfl (hops _ (List.mem_cons_self _ _))
    | getToken environ gh =>
      have hcons : ∀ {q : GitHubTokenProvider} {t : String}, q._token = some t → t ≠ "" →
          ∃ t', ∀ x ∈ t :: tokens q ops, x = t' := fun hq ht =>
        ⟨_, fun x hx => (List.mem_cons.1 hx).elim id (tokens_of_cached hq ht ops hrest x)⟩
      rcases getToken_cases p environ gh with ⟨t, hp, ht, h⟩ | ⟨effs, t, ht, h⟩ | ⟨effs, e, h⟩ <;>
        simp only [tokens, h]
      · exact hcons hp ht
      · exact hcons rfl ht
      · exact ih p hrest

/-- **The token cache over every run from the constructor.** The cache is empty or holds a
non-empty token; a cached token is returned with no effect, and a `clear_token` empties the
cache; with nothing cached a non-empty
`GITHUB_TOKEN` wins, then a successful `gh auth token`, and otherwise `AuthenticationError`
leaves the cache empty; and until the next `clear_token` one token is handed out. -/
theorem getToken_cache_laws (ops : List TokenOp) (environ : Option String)
    (gh : CliOutcome) :
    CacheOk (run .init ops) ∧
    (∀ t, (run .init ops)._token = some t →
      (run .init ops).getToken environ gh = ([], .ok t, run .init ops)) ∧
    (run .init (ops ++ [.clearToken]))._token = none ∧
    ((run .init ops)._token = none →
      (∀ t, environ = some t → t ≠ "" →
        (run .init ops).getToken environ gh = ([.readEnv], .ok t, ⟨some t⟩)) ∧
      ((environ = none ∨ environ = some "") →
        (∀ out, gh = .completed 0 out → strip out ≠ "" →
          (run .init ops).getToken environ gh =
            ([.readEnv, .runCli], .ok (strip out), ⟨some (strip out)⟩)) ∧
        ((gh = .raised .FileNotFoundError ∨
            ∃ rc out, gh = .completed rc out ∧ ¬(rc = 0 ∧ strip out ≠ "")) →
          (run .init ops).getToken environ gh =
            ([.readEnv, .runCli], .error (.AuthenticationError authMessage), run .init ops)))) ∧
    (∀ rest, (∀ op ∈ rest, op ≠ .clearToken) →
      ∀ t₁ ∈ tokens (run .init ops) rest, ∀ t₂ ∈ tokens (run .init ops) rest, t₁ = t₂) := by
  refine ⟨cacheOk_run ops, fun t h => getToken_cached h (cacheOk_run ops t h) environ gh,
    run_clearToken_token _ ops, fun hp => ⟨fun t he ht => he ▸ getToken_environ hp ht gh, fun henv => ?_⟩,
    fun rest => tokens_agree _ rest⟩
  rw [getToken_cli hp henv]
  refine ⟨fun out hgh hout => ?_, fun hfail => ?_⟩
  · simp [hgh, GitHubTokenProvider.fromCli, hout]
  · rcases hfail with rfl | ⟨rc, out, rfl, hno⟩
    · rfl
    · simp [GitHubTokenProvider.fromCli, hno]

end GhcrCleanup.TokenProvider
