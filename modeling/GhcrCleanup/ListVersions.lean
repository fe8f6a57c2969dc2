import GhcrCleanup.Types

/-!
# `list_versions`: following the registry's `Link` headers

`list_versions` asks for the first page of versions and then, as long as the previous
response's `Link` header names a `rel="next"` URL, for that URL. The header is split on
commas; of the pieces that contain `rel="next"`, the last one whose `<...>` the regular
expression `<([^>]+)>` finds decides the next URL.

For a header made of entries `<url>; rel="r"` whose URLs are non-empty and free of `,`, `<`,
`>` and `"`, and whose relation values are free of `"`, the next URL is the URL of the last
entry with relation `next` (`nextPage_linkHeader`). A relation value holding a quote can
smuggle a second `rel="next"` into its entry, which the substring test cannot tell apart.
So a chain of pages whose headers each name exactly one next page is fetched page by page
and concatenated, whatever the order and number of the other entries
(`listVersions_chain`). For any header at all, the loop over the pieces keeps the offer of
the last piece that has one (`nextPage_spec`). The loop remembers no page it fetched, so a
registry whose pages link back keeps it running forever (`listVersions_link_cycle`).
-/

namespace GhcrCleanup.ListVersions

open GhcrCleanup.Runtime GhcrCleanup.Types

/-- `re.search(r'<([^>]+)>', link).group(1)`: the text after the first `<` that is
followed by at least one character other than `>` and then by a `>`. -/
def angleGroup : List Char → Option String
  | [] => none
  | c :: rest =>
    if c = '<' then
      let body := rest.takeWhile (· != '>')
      if body ≠ [] ∧ body.length < rest.length then some ⟨body⟩ else angleGroup rest
    else angleGroup rest

/-- The `rel="next"` the loop looks for in each piece of the header. -/
def relNext : List Char := "rel=\"next\"".data

/-- One round of `for link in links:`. -/
def nextStep (nextPage : Option String) (link : List Char) : Option String :=
  if relNext <:+: link then
    match angleGroup link with
    | some url => some url
    | none => nextPage
  else nextPage

/-- The `next_page` that `list_versions` takes from a response. -/
def nextPage (response : Response) : Option String :=
  match response.link with
  | some link => (link.data.splitOn ',').foldl nextStep none
  | none => none

/-- The first URL `list_versions` fetches. -/
def versionsUrl («namespace» package_name : String) : String :=
  "https://api.github.com/" ++ «namespace» ++ "/packages/container/" ++ package_name ++
    "/versions?per_page=100"

/-- The `while next_page:` loop, from request number `sent` on, with `fuel` bounding its
rounds: the requests sent, and the versions gathered or the exception raised, or `none`
when the fuel ran out. -/
def fetchPages (server : Server) (hdrs : List (String × String)) :
    Nat → Nat → Option String → List PackageVersion →
      List Request × Option (Except Exn (List PackageVersion))
  | fuel, sent, nextPage, all_versions =>
    match nextPage.filter (· ≠ "") with
    | none => ([], some (.ok all_versions))
    | some url =>
      match fuel with
      | 0 => ([], none)
      | fuel + 1 =>
        let request : Request := ⟨.GET, url, hdrs⟩
        match server sent request >>= fun r => r.raiseForStatus.map fun _ => r with
        | .error e => ([request], some (.error e))
        | .ok response =>
          let (requests, result) := fetchPages server hdrs fuel (sent + 1)
            (GhcrCleanup.ListVersions.nextPage response) (all_versions ++ response.json)
          (request :: requests, result)

/-- `list_versions(namespace, package_name, token_provider, requests)`, given what
`token_provider.get_token()` gives and how the registry answers. -/
def listVersions («namespace» package_name : String) (token : Except Exn String)
    (server : Server) (fuel : Nat) : List Request × Option (Except Exn (List PackageVersion)) :=
  match token with
  | .error e => ([], some (.error e))
  | .ok token => fetchPages server (headers token) fuel 0
      (some (versionsUrl «namespace» package_name)) []

/-! ## Splitting on commas -/

theorem splitOn_append_sep {α : Type} [DecidableEq α] (x : α) (a b : List α) :
    (a ++ x :: b).splitOn x = a.splitOn x ++ b.splitOn x := by
  simp only [List.splitOn]
  induction a with
  | nil => simp
  | cons h t ih =>
    rw [List.cons_append, List.splitOnP_cons, List.splitOnP_cons, ih]
    split
    · rfl
    · obtain ⟨p, ps, hp⟩ := List.exists_cons_of_ne_nil (List.splitOnP_ne_nil (· == x) t)
      simp [hp]

theorem intercalate_cons_cons {α : Type} (x : α) (l l' : List α) (ls : List (List α)) :
    [x].intercalate (l :: l' :: ls) = l ++ x :: [x].intercalate (l' :: ls) := rfl

/-- Splitting a comma-joined list splits each part. -/
theorem splitOn_intercalate_flatMap {α : Type} [DecidableEq α] (x : α) :
    ∀ (ls : List (List α)), ls ≠ [] → ([x].intercalate ls).splitOn x = ls.flatMap (·.splitOn x)
  | [], h => absurd rfl h
  | [l], _ => by simp [List.intercalate]
  | l :: l' :: ls, _ => by
    rw [intercalate_cons_cons, splitOn_append_sep, splitOn_intercalate_flatMap x (l' :: ls) (List.cons_ne_nil _ _)]
    simp

theorem infix_intercalate {α : Type} (x : α) :
    ∀ {ls : List (List α)} {p : List α}, p ∈ ls → p <:+: [x].intercalate ls
  | [_], _, h => by simp_all [List.intercalate]
  | l :: l' :: ls, p, h => by
    rw [intercalate_cons_cons]
    rcases List.mem_cons.1 h with rfl | h
    · exact ⟨[], _, rfl⟩
    · exact (infix_intercalate x h).trans ⟨l ++ [x], [], by simp⟩

/-- Every piece of a split is a slice of the split list. -/
theorem infix_of_mem_splitOn {α : Type} [DecidableEq α] {x : α} {l p : List α}
    (h : p ∈ l.splitOn x) : p <:+: l := by
  simpa only [List.intercalate_splitOn] using infix_intercalate x h

/-! ## Headers made of well-formed entries -/

/-- One entry `<url>; rel="rel"` of a `Link` header, after `pad` spaces. -/
structure LinkEntry where
  pad : Nat
  url : String
  rel : String
  deriving DecidableEq, Repr

/-- The text of an entry. -/
def LinkEntry.render (e : LinkEntry) : List Char :=
  List.replicate e.pad ' ' ++ '<' :: e.url.data ++ '>' :: "; rel=".data ++ '"' :: e.rel.data ++ ['"']

/-- The `Link` header made of `entries`, joined by commas. -/
def linkHeader (entries : List LinkEntry) : String :=
  ⟨[','].intercalate (entries.map LinkEntry.render)⟩

/-- A non-empty URL free of `,`, `<`, `>` and `"`, and a relation value free of `"`. -/
def LinkEntry.WellFormed (e : LinkEntry) : Prop :=
  e.url ≠ "" ∧ (∀ c ∈ e.url.data, c ≠ ',' ∧ c ≠ '<' ∧ c ≠ '>' ∧ c ≠ '"') ∧ '"' ∉ e.rel.data

instance (e : LinkEntry) : Decidable e.WellFormed := inferInstanceAs (Decidable (_ ∧ _ ∧ _))

theorem dropWhile_render {e : LinkEntry} (hurl : '"' ∉ e.url.data) :
    e.render.dropWhile (· != '"') = '"' :: e.rel.data ++ ['"'] := by
  have hu : ∀ c ∈ e.url.data, (c != '"') = true := fun c hc => by
    simpa using fun h : c = '"' => hurl (h ▸ hc)
  simp [LinkEntry.render, List.dropWhile_append_of_pos hu]

/-- In a well-formed entry the substring `rel="next"` can only be the entry's own relation:
the entry has two quotes, and so has `rel="next"`. -/
theorem relNext_infix_render {e : LinkEntry} (hurl : '"' ∉ e.url.data)
    (hrel : '"' ∉ e.rel.data) : relNext <:+: e.render ↔ e.rel = "next" := by
  constructor
  · rintro ⟨s, t, h⟩
    have hs : '"' ∉ s := by
      have hc := congrArg (List.count '"') h
      simp [relNext, LinkEntry.render, List.count_replicate, List.count_eq_zero_of_not_mem hurl,
        List.count_eq_zero_of_not_mem hrel] at hc
      exact List.count_eq_zero.1 (by omega)
    have hd := congrArg (List.dropWhile (· != '"')) h
    have hs' : ∀ c ∈ s, (c != '"') = true := fun c hc => by
      simpa using fun h : c = '"' => hs (h ▸ hc)
    rw [dropWhile_render hurl, List.append_assoc, List.dropWhile_append_of_pos hs'] at hd
    have hd' : "next".data ++ '"' :: t = e.rel.data ++ ['"'] := by simpa [relNext] using hd
    have ht := congrArg (List.takeWhile (· != '"')) hd'
    have hr : ∀ c ∈ e.rel.data, (c != '"') = true := fun c hc => by
      simpa using fun h : c = '"' => hrel (h ▸ hc)
    rw [List.takeWhile_append_of_pos hr] at ht
    exact String.ext (by simpa using ht.symm)
  · intro h
    refine ⟨List.replicate e.pad ' ' ++ '<' :: e.url.data ++ '>' :: "; ".data, [], ?_⟩
    simp [LinkEntry.render, h, relNext]

theorem angleGroup_spaces (k : Nat) (l : List Char) :
    angleGroup (List.replicate k ' ' ++ l) = angleGroup l := by
  induction k with
  | zero => rfl
  | succ k ih => simp [List.replicate_succ, angleGroup, ih]

/-- The regular expression finds an entry's URL. -/
theorem angleGroup_render {e : LinkEntry} (hwf : e.WellFormed) :
    angleGroup e.render = some e.url := by
  obtain ⟨hne, hurl, -⟩ := hwf
  have hgt : ∀ c ∈ e.url.data, (c != '>') = true := fun c hc => by simpa using (hurl c hc).2.2.1
  have hne' : e.url.data ≠ [] := fun h => hne (String.ext h)
  simp [LinkEntry.render, angleGroup_spaces, angleGroup, List.takeWhile_append_of_pos hgt, hne']

theorem foldl_nextStep_of_not_infix (np : Option String) (l : List (List Char))
    (h : ∀ p ∈ l, ¬ relNext <:+: p) : l.foldl nextStep np = np := by
  induction l with
  | nil => rfl
  | cons p l ih =>
    simp only [List.foldl_cons, nextStep, if_neg (h p (List.mem_cons_self _ _))]
    exact ih fun q hq => h q (List.mem_cons_of_mem _ hq)

/-- The pieces of one well-formed entry set `next_page` to its URL when its relation is
`next`, and leave it alone otherwise, even when the relation holds commas. -/
theorem foldl_nextStep_render {e : LinkEntry} (hwf : e.WellFormed) (np : Option String) :
    (e.render.splitOn ',').foldl nextStep np = if e.rel = "next" then some e.url else np := by
  have hq : '"' ∉ e.url.data := fun h => (hwf.2.1 _ h).2.2.2 rfl
  split
  · next hnext =>
    have hurl : ',' ∉ e.url.data := fun h => (hwf.2.1 _ h).1 rfl
    have hcomma : ',' ∉ e.render := by simp [LinkEntry.render, hnext, hurl]
    have hsingle : ∀ c ∈ e.render, ¬(c == ',') = true := fun c hc h =>
      hcomma (by rwa [beq_iff_eq.1 h] at hc)
    rw [List.splitOn, List.splitOnP_eq_single _ _ hsingle]
    simp [nextStep, (relNext_infix_render hq hwf.2.2).2 hnext, angleGroup_render hwf]
  · next hnext =>
    exact foldl_nextStep_of_not_infix np _ fun p hp hinf =>
      hnext ((relNext_infix_render hq hwf.2.2).1 (hinf.trans (infix_of_mem_splitOn hp)))

/-- What the entries' relations do to `next_page`, entry by entry. -/
def relStep (nextPage : Option String) (e : LinkEntry) : Option String :=
  if e.rel = "next" then some e.url else nextPage

theorem foldl_nextStep_flatMap (entries : List LinkEntry) (hwf : ∀ e ∈ entries, e.WellFormed)
    (np : Option String) :
    ((entries.map LinkEntry.render).flatMap (·.splitOn ',')).foldl nextStep np =
      entries.foldl relStep np := by
  induction entries generalizing np with
  | nil => rfl
  | cons e entries ih =>
    simp only [List.map_cons, List.flatMap_cons, List.foldl_append, List.foldl_cons,
      foldl_nextStep_render (hwf e (List.mem_cons_self _ _))]
    exact ih (fun e' h => hwf e' (List.mem_cons_of_mem _ h)) _

/-- **The `Link` header, parsed.** For well-formed entries, the pieces of the split header
move `next_page` exactly as the entries' relations do. -/
theorem nextPage_linkHeader (entries : List LinkEntry) (hwf : ∀ e ∈ entries, e.WellFormed) :
    ((linkHeader entries).data.splitOn ',').foldl nextStep none = entries.foldl relStep none := by
  rcases entries with _ | ⟨e, entries⟩
  · rfl
  · rw [linkHeader, splitOn_intercalate_flatMap _ _ (by simp)]
    exact foldl_nextStep_flatMap _ hwf none

theorem foldl_relStep_of_filter_nil {entries : List LinkEntry}
    (h : entries.filter (·.rel = "next") = []) (np : Option String) :
    entries.foldl relStep np = np := by
  induction entries with
  | nil => rfl
  | cons e entries ih =>
    have he : e.rel ≠ "next" := by intro he; simp [he] at h
    simp only [List.filter_cons, he, decide_False] at h
    simp [relStep, he, ih h]

theorem foldl_relStep_of_filter_single {entries : List LinkEntry} {e : LinkEntry}
    (h : entries.filter (·.rel = "next") = [e]) (np : Option String) :
    entries.foldl relStep np = some e.url := by
  induction entries generalizing np with
  | nil => simp at h
  | cons a entries ih =>
    by_cases ha : a.rel = "next"
    · simp only [List.filter_cons, ha, decide_True, ite_true, List.cons.injEq] at h
      obtain ⟨rfl, h⟩ := h
      simp [relStep, ha, foldl_relStep_of_filter_nil h]
    · simp only [List.filter_cons, ha, decide_False] at h
      simp [relStep, ha, ih h]

/-! ## Any header -/

/-- What one piece of the header offers the loop: its `<...>` URL, when it contains
`rel="next"`. -/
def nextOffer (link : List Char) : Option String :=
  if relNext <:+: link then angleGroup link else none

theorem nextStep_eq (np : Option String) (link : List Char) :
    nextStep np link = (nextOffer link).or np := by
  unfold nextStep nextOffer
  split
  · cases angleGroup link <;> rfl
  · rfl

/-- The loop over the pieces keeps the last offer, or what it started with. -/
theorem foldl_nextStep_eq (parts : List (List Char)) (np : Option String) :
    parts.foldl nextStep np = (parts.filterMap nextOffer).getLast?.or np := by
  induction parts generalizing np with
  | nil => rfl
  | cons p ps ih =>
    rw [List.foldl_cons, ih, nextStep_eq, List.filterMap_cons]
    cases nextOffer p with
    | none => rfl
    | some u =>
      rw [List.getLast?_cons]
      cases (ps.filterMap nextOffer).getLast? <;> rfl

/-- What the regular expression `<([^>]+)>` finds: a non-empty text free of `>`, between a
`<` and a `>` of the piece. -/
theorem angleGroup_some : ∀ {cs : List Char} {url : String}, angleGroup cs = some url →
    url ≠ "" ∧ '>' ∉ url.data ∧ ('<' :: url.data ++ ['>']) <:+: cs
  | [], _, h => by simp [angleGroup] at h
  | c :: rest, url, h => by
    have hrest : ∀ {url}, angleGroup rest = some url →
        url ≠ "" ∧ '>' ∉ url.data ∧ ('<' :: url.data ++ ['>']) <:+: c :: rest :=
      fun h => (angleGroup_some h).imp_right (And.imp_right List.infix_cons)
    rw [angleGroup] at h
    split at h
    · dsimp only at h
      split at h
      · next hc hbody =>
        cases h
        obtain ⟨hne, hlt⟩ := hbody
        have hdrop : rest.dropWhile (· != '>') ≠ [] := fun h => by
          have := List.takeWhile_append_dropWhile (· != '>') rest
          rw [h, List.append_nil] at this
          rw [this] at hlt
          exact lt_irrefl _ hlt
        have hhead := List.head_dropWhile_not (· != '>') rest hdrop
        refine ⟨fun h => hne (congrArg String.data h), fun h => ?_, ?_⟩
        · simpa using List.mem_takeWhile_imp h
        · refine ⟨[], (rest.dropWhile (· != '>')).tail, ?_⟩
          conv_rhs => rw [hc, ← List.takeWhile_append_dropWhile (· != '>') rest,
            ← List.head_cons_tail _ hdrop]
          simp at hhead
          simp [hhead]
      · exact hrest h
    · exact hrest h

/-- The regular expression finds a match in every piece holding a non-empty text free of `>`
between a `<` and a `>`. -/
theorem angleGroup_isSome : ∀ {cs body : List Char}, body ≠ [] → '>' ∉ body →
    ('<' :: body ++ ['>']) <:+: cs → (angleGroup cs).isSome
  | [], _, _, _, h => by simp at h
  | c :: rest, body, hne, hgt, h => by
    rw [angleGroup]
    rcases List.infix_cons_iff.1 h with ⟨t, ht⟩ | hin
    · simp only [List.cons_append, List.append_assoc, List.singleton_append, List.cons.injEq] at ht
      obtain ⟨rfl, rfl⟩ := ht
      have hb : (body ++ '>' :: t).takeWhile (· != '>') = body := by
        rw [List.takeWhile_append_of_pos fun c hc => by simpa using fun h : c = '>' => hgt (h ▸ hc)]
        simp
      simp [hb, hne]
    · split
      · dsimp only
        split
        · rfl
        · exact angleGroup_isSome hne hgt hin
      · exact angleGroup_isSome hne hgt hin

/-- **Where the next URL comes from.** For every response, `list_versions` takes as next page
the `<...>` text of the last comma-separated piece of the `Link` header that contains
`rel="next"` and in which `<([^>]+)>` finds a match. So the URL is a non-empty text free of
`>`, standing between `<` and `>` in a piece that contains `rel="next"`, and there is a next
page whenever some piece containing `rel="next"` holds such a text. -/
theorem nextPage_spec (response : Response) :
    nextPage response = response.link.bind (fun link =>
      ((link.data.splitOn ',').filterMap nextOffer).getLast?) ∧
    (∀ url, nextPage response = some url → url ≠ "" ∧ '>' ∉ url.data ∧
      ∃ link, response.link = some link ∧ ∃ part ∈ link.data.splitOn ',',
        relNext <:+: part ∧ ('<' :: url.data ++ ['>']) <:+: part) ∧
    ∀ link, response.link = some link → ∀ part ∈ link.data.splitOn ',', relNext <:+: part →
      ∀ body : List Char, body ≠ [] → '>' ∉ body → ('<' :: body ++ ['>']) <:+: part →
        (nextPage response).isSome := by
  have heq : nextPage response = response.link.bind fun link =>
      ((link.data.splitOn ',').filterMap nextOffer).getLast? := by
    unfold nextPage
    cases response.link with
    | none => rfl
    | some link => simp [foldl_nextStep_eq]
  refine ⟨heq, fun url h => ?_, fun link hl part hp hrel body hne hgt hin => ?_⟩
  · rw [heq] at h
    obtain ⟨link, hl, hlast⟩ := Option.bind_eq_some.1 h
    obtain ⟨part, hpart, hoffer⟩ := List.mem_filterMap.1 (List.mem_of_getLast?_eq_some hlast)
    unfold nextOffer at hoffer
    split at hoffer
    · exact (angleGroup_some hoffer).imp_right
        (And.imp_right fun hinf => ⟨link, hl, part, hpart, ‹_›, hinf⟩)
    · cases hoffer
  · obtain ⟨u, hu⟩ := Option.isSome_iff_exists.1 (angleGroup_isSome hne hgt hin)
    have hmem : u ∈ (link.data.splitOn ',').filterMap nextOffer :=
      List.mem_filterMap.2 ⟨part, hp, by simp [nextOffer, hrel, hu]⟩
    rw [heq, hl, Option.some_bind, List.getLast?_isSome]
    exact List.ne_nil_of_mem hmem

/-! ## A chain of pages -/

/-- A page: the URL it is served at, its records, and its `Link` header as entries. -/
structure Page where
  url : String
  json : List PackageVersion
  link : Option (List LinkEntry)

/-- A header of well-formed entries, exactly one of them `rel="next"`, to `next`. -/
def LinksTo (link : Option (List LinkEntry)) (next : String) : Prop :=
  ∃ entries, link = some entries ∧ (∀ e ∈ entries, e.WellFormed) ∧
    ∃ e, entries.filter (·.rel = "next") = [e] ∧ e.url = next

/-- No header, or one of well-formed entries none of them `rel="next"`. -/
def LinksNowhere (link : Option (List LinkEntry)) : Prop :=
  link = none ∨ ∃ entries, link = some entries ∧ (∀ e ∈ entries, e.WellFormed) ∧
    entries.filter (·.rel = "next") = []

/-- Request number `sent`, a GET of `p.url`, is answered with `p` and a status that passes
`raise_for_status`. -/
def Serves (server : Server) (hdrs : List (String × String)) (sent : Nat) (p : Page) : Prop :=
  ∃ r : Response, server sent ⟨.GET, p.url, hdrs⟩ = .ok r ∧ r.raiseForStatus = .ok () ∧
    r.json = p.json ∧ r.link = p.link.map linkHeader

/-- `pages` are served from request number `sent` on, each naming the next one as its only
`rel="next"`, and the last naming none. -/
def ServesChain (server : Server) (hdrs : List (String × String)) : Nat → List Page → Prop
  | _, [] => False
  | sent, [p] => Serves server hdrs sent p ∧ LinksNowhere p.link
  | sent, p :: q :: ps =>
    Serves server hdrs sent p ∧ LinksTo p.link q.url ∧ ServesChain server hdrs (sent + 1) (q :: ps)

theorem nextPage_of_linksTo {r : Response} {link : Option (List LinkEntry)} {next : String}
    (hr : r.link = link.map linkHeader) (h : LinksTo link next) :
    nextPage r = some next ∧ next ≠ "" := by
  obtain ⟨entries, rfl, hwf, e, he, rfl⟩ := h
  have hmem : e ∈ entries := List.mem_of_mem_filter (he ▸ List.mem_singleton_self e)
  refine ⟨?_, fun h => (hwf e hmem).1 h⟩
  simp only [nextPage, hr, Option.map_some']
  rw [nextPage_linkHeader _ hwf, foldl_relStep_of_filter_single he]

theorem nextPage_of_linksNowhere {r : Response} {link : Option (List LinkEntry)}
    (hr : r.link = link.map linkHeader) (h : LinksNowhere link) : nextPage r = none := by
  rcases h with rfl | ⟨entries, rfl, hwf, he⟩
  · simp [nextPage, hr]
  · simp only [nextPage, hr, Option.map_some']
    rw [nextPage_linkHeader _ hwf, foldl_relStep_of_filter_nil he]

/-! ## The loop -/

theorem fetchPages_none (server : Server) (hdrs : List (String × String)) (fuel sent : Nat)
    (acc : List PackageVersion) : fetchPages server hdrs fuel sent none acc = ([], some (.ok acc)) := by
  rw [fetchPages]; rfl

/-- One round of the loop on a page that is served. -/
theorem fetchPages_served (server : Server) (hdrs : List (String × String)) (fuel sent : Nat)
    {url : String} (hurl : url ≠ "") (acc : List PackageVersion) {r : Response}
    (hget : server sent ⟨.GET, url, hdrs⟩ = .ok r) (hok : r.raiseForStatus = .ok ()) :
    fetchPages server hdrs (fuel + 1) sent (some url) acc =
      (⟨.GET, url, hdrs⟩ :: (fetchPages server hdrs fuel (sent + 1) (nextPage r) (acc ++ r.json)).1,
        (fetchPages server hdrs fuel (sent + 1) (nextPage r) (acc ++ r.json)).2) := by
  have hf : (some url).filter (· ≠ "") = some url := by simp [Option.filter, hurl]
  rw [fetchPages, hf]
  simp [hget, hok, bind, Except.bind, Except.map]

/-- The loop walks a served chain page by page, given one round of fuel per page. -/
theorem fetchPages_chain (server : Server) (hdrs : List (String × String)) :
    ∀ (pages : List Page) (p : Page) (sent fuel : Nat) (acc : List PackageVersion),
      ServesChain server hdrs sent (p :: pages) → p.url ≠ "" → pages.length < fuel →
      fetchPages server hdrs fuel sent (some p.url) acc =
        ((p :: pages).map fun q => ⟨.GET, q.url, hdrs⟩,
          some (.ok (acc ++ (p :: pages).flatMap (·.json))))
  | [], p, sent, fuel + 1, acc, ⟨⟨r, hget, hok, hjson, hlink⟩, hlast⟩, hurl, _ => by
    rw [fetchPages_served server hdrs fuel sent hurl acc hget hok,
      nextPage_of_linksNowhere hlink hlast, fetchPages_none]
    simp [hjson]
  | q :: pages, p, sent, fuel + 1, acc, ⟨⟨r, hget, hok, hjson, hlink⟩, hnext, hchain⟩, hurl, hfuel => by
    obtain ⟨hnp, hq⟩ := nextPage_of_linksTo hlink hnext
    rw [fetchPages_served server hdrs fuel sent hurl acc hget hok, hnp,
      fetchPages_chain server hdrs pages q (sent + 1) fuel _ hchain hq (by simpa using hfuel)]
    simp [hjson]

theorem versionsUrl_ne_empty («namespace» package_name : String) :
    versionsUrl «namespace» package_name ≠ "" := fun h => by
  have hlen := congrArg String.length h
  simp only [versionsUrl, String.length_append] at hlen
  have : "https://api.github.com/".length = 23 := by decide
  have : "".length = 0 := rfl
  omega

/-- Every request of the loop is a GET with the loop's headers. -/
theorem fetchPages_requests (server : Server) (hdrs : List (String × String)) (fuel : Nat) :
    ∀ (sent : Nat) (next : Option String) (acc : List PackageVersion),
      ∀ r ∈ (fetchPages server hdrs fuel sent next acc).1, r.method = .GET ∧ r.headers = hdrs := by
  induction fuel with
  | zero =>
    intro sent next acc r hr
    rw [fetchPages] at hr
    split at hr <;> simp at hr
  | succ fuel ih =>
    intro sent next acc r hr
    rw [fetchPages] at hr
    split at hr
    · simp at hr
    · split at hr
      · simp at hr
      · dsimp only at hr
        split at hr
        · rw [List.mem_singleton.1 hr]
          exact ⟨rfl, rfl⟩
        · rename_i hfuel _ _ _
          cases Nat.succ.inj hfuel
          rcases List.mem_cons.1 hr with rfl | hr
          · exact ⟨rfl, rfl⟩
          · exact ih _ _ _ r hr

/-- Every request of a listing is a GET with the bearer headers of its token. -/
theorem listVersions_requests («namespace» package_name token : String) (server : Server)
    (fuel : Nat) :
    ∀ r ∈ (listVersions «namespace» package_name (.ok token) server fuel).1,
      r.method = .GET ∧ r.headers = headers token :=
  fetchPages_requests server (headers token) fuel 0 _ []

/-- Without a token no request is made. -/
theorem listVersions_no_token («namespace» package_name : String) (e : Exn) (server : Server)
    (fuel : Nat) : listVersions «namespace» package_name (.error e) server fuel = ([], some (.error e)) :=
  rfl

/-- **Pagination.** A chain of pages starting at the versions URL, whose headers each name
the next page as their only `rel="next"` entry among well-formed entries in any order, is
fetched with one GET per page, in order and with the same headers, and the records come
back concatenated in page order. -/
theorem listVersions_chain («namespace» package_name token : String) (server : Server)
    (pages : List Page) (hfirst : pages.head?.map (·.url) = some (versionsUrl «namespace» package_name))
    (hchain : ServesChain server (headers token) 0 pages) (fuel : Nat) (hfuel : pages.length ≤ fuel) :
    listVersions «namespace» package_name (.ok token) server fuel =
      (pages.map fun p => ⟨.GET, p.url, headers token⟩, some (.ok (pages.flatMap (·.json)))) := by
  rcases pages with _ | ⟨p, pages⟩
  · exact hchain.elim
  · have hp : versionsUrl «namespace» package_name = p.url := by simpa using hfirst.symm
    rw [listVersions, hp, fetchPages_chain server _ pages p 0 fuel [] hchain
      (hp ▸ versionsUrl_ne_empty _ _) hfuel]
    simp

/-- The two pages of the repository's pagination test: a first page whose header lists
`next` before `last`, and a last page with no header. -/
def testPages : List Page :=
  [⟨versionsUrl "user/test" "test-package", [⟨1001, "2024-05-01T00:00:00Z", ⟨some ⟨["latest"]⟩⟩⟩],
      some [⟨0, "https://api.github.com/user/test/packages/container/test-package/versions?page=2&per_page=100", "next"⟩,
        ⟨1, "https://api.github.com/user/test/packages/container/test-package/versions?page=199&per_page=100", "last"⟩]⟩,
    ⟨"https://api.github.com/user/test/packages/container/test-package/versions?page=2&per_page=100",
      [⟨1002, "2024-05-02T00:00:00Z", ⟨some ⟨[]⟩⟩⟩], none⟩]

/-- A registry answering the n-th request with the n-th test page, status 200. -/
def testServer : Server := fun sent _ =>
  .ok (match testPages[sent]? with
    | some p => ⟨200, p.json, p.link.map linkHeader⟩
    | none => ⟨404, [], none⟩)

theorem listVersions_testPages :
    listVersions "user/test" "test-package" (.ok "test-token") testServer 2 =
      (testPages.map fun p => ⟨.GET, p.url, headers "test-token"⟩,
        some (.ok (testPages.flatMap (·.json)))) :=
  listVersions_chain "user/test" "test-package" "test-token" testServer testPages rfl
    ⟨⟨_, rfl, rfl, rfl, rfl⟩, ⟨_, rfl, by decide, _, rfl, rfl⟩, ⟨⟨_, rfl, rfl, rfl, rfl⟩, .inl rfl⟩⟩
    2 le_rfl

/-- A header whose second entry has a relation value holding a quote, and with it a
`rel="next"` of its own. -/
def quotedEntries : List LinkEntry :=
  [⟨0, "https://a", "next"⟩, ⟨1, "https://b", "x\" rel=\"next"⟩]

/-- A registry answering its first request with a page whose header lists `entries`, and
every later one with a last page. -/
def linkServer (entries : List LinkEntry) : Server := fun sent _ =>
  .ok (if sent = 0 then ⟨200, [], some (linkHeader entries)⟩ else ⟨200, [], none⟩)

/-- The header's only entry with relation `next` names `https://a`, yet the second request
goes to `https://b`; and a `next` entry with an empty URL ends the listing at the first
page. -/
theorem listVersions_quoted_rel :
    quotedEntries.filter (·.rel = "next") = [⟨0, "https://a", "next"⟩] ∧
    (listVersions "o" "p" (.ok "t") (linkServer quotedEntries) 3).1.map (·.url) =
      [versionsUrl "o" "p", "https://b"] ∧
    (listVersions "o" "p" (.ok "t") (linkServer [⟨0, "", "next"⟩]) 3).1.map (·.url) =
      [versionsUrl "o" "p"] := by
  decide

/-! ## A cycle of pages -/

/-- URLs that keep the loop going: the registry answers a GET of each, whatever its number,
with a status that passes `raise_for_status` and a `Link` header naming a next page among
them. -/
def Traps (server : Server) (hdrs : List (String × String)) (urls : List String) : Prop :=
  ∀ u ∈ urls, ∀ sent, ∃ r : Response, server sent ⟨.GET, u, hdrs⟩ = .ok r ∧
    r.raiseForStatus = .ok () ∧ ∃ u' ∈ urls, nextPage r = some u' ∧ u' ≠ ""

/-- From a trapping URL, the loop spends every round of fuel on a GET of a trapping URL and
never ends. -/
theorem fetchPages_trapped {server : Server} {hdrs : List (String × String)} {urls : List String}
    (htrap : Traps server hdrs urls) :
    ∀ (fuel sent : Nat) (u : String) (acc : List PackageVersion), u ∈ urls → u ≠ "" →
      (fetchPages server hdrs fuel sent (some u) acc).2 = none ∧
      (fetchPages server hdrs fuel sent (some u) acc).1.length = fuel ∧
      ∀ r ∈ (fetchPages server hdrs fuel sent (some u) acc).1, r.url ∈ urls
  | 0, sent, u, acc, _, hne => by simp [fetchPages, Option.filter, hne]
  | fuel + 1, sent, u, acc, hu, hne => by
    obtain ⟨r, hget, hok, u', hu', hnext, hne'⟩ := htrap u hu sent
    obtain ⟨hnone, hlen, hurls⟩ := fetchPages_trapped htrap fuel (sent + 1) u' (acc ++ r.json) hu' hne'
    rw [fetchPages_served server hdrs fuel sent hne acc hget hok, hnext]
    refine ⟨hnone, by simp [hlen], ?_⟩
    rintro _ (_ | ⟨_, hr⟩)
    exacts [hu, hurls _ hr]

/-- **A `Link` cycle keeps `list_versions` looping.** The loop keeps no record of the pages
it fetched. When the first URL is among URLs that the registry always answers successfully
with a next page among them, as when a page links back to an earlier one, then after any
number of rounds the loop is still running: it has sent one GET per round, each for one of
those URLs, and returned nothing. -/
theorem listVersions_link_cycle («namespace» package_name token : String) (server : Server)
    (urls : List String) (hfirst : versionsUrl «namespace» package_name ∈ urls)
    (htrap : Traps server (headers token) urls) (fuel : Nat) :
    (listVersions «namespace» package_name (.ok token) server fuel).2 = none ∧
    (listVersions «namespace» package_name (.ok token) server fuel).1.length = fuel ∧
    ∀ r ∈ (listVersions «namespace» package_name (.ok token) server fuel).1, r.url ∈ urls :=
  fetchPages_trapped htrap fuel 0 _ [] hfirst (versionsUrl_ne_empty _ _)

/-- A registry whose versions page links to itself. -/
def selfLinkServer : Server := fun _ request =>
  .ok ⟨200, [], some (linkHeader [⟨0, request.url, "next"⟩])⟩

theorem listVersions_self_link :
    versionsUrl "o" "p" ∈ [versionsUrl "o" "p"] ∧ Traps selfLinkServer (headers "t") [versionsUrl "o" "p"] ∧
    (listVersions "o" "p" (.ok "t") selfLinkServer 50).2 = none ∧
    (listVersions "o" "p" (.ok "t") selfLinkServer 50).1.length = 50 ∧
    ∀ r ∈ (listVersions "o" "p" (.ok "t") selfLinkServer 50).1, r.url ∈ [versionsUrl "o" "p"] := by
  have htrap : Traps selfLinkServer (headers "t") [versionsUrl "o" "p"] := by
    intro u hu _
    rw [List.mem_singleton.1 hu]
    have hlinks : LinksTo (some [⟨0, versionsUrl "o" "p", "next"⟩]) (versionsUrl "o" "p") :=
      ⟨_, rfl, by decide, _, rfl, rfl⟩
    exact ⟨_, rfl, rfl, _, List.mem_singleton_self _,
      @nextPage_of_linksTo _ (some [⟨0, versionsUrl "o" "p", "next"⟩]) _ rfl hlinks⟩
  exact ⟨List.mem_singleton_self _, htrap,
    listVersions_link_cycle "o" "p" "t" selfLinkServer _ (List.mem_singleton_self _) htrap 50⟩

end GhcrCleanup.ListVersions
