import GhcrCleanup.Runtime

/-!
# The records `ghcr.py` passes around

`PackageVersion` keeps the fields of a registry version record that the script acts on,
`CleanupAction` the verdict `find_versions_to_clean` gives one version. The registry's HTTP
API is seen through `Request` and `Response`, and the `Server` answers each request.
-/

namespace GhcrCleanup.Types

open GhcrCleanup.Runtime

/-- `ContainerMetadata`. -/
structure ContainerMetadata where
  tags : List String
  deriving DecidableEq, Repr

/-- `VersionMetadata`; the script also copes with a record that has no `container`. -/
structure VersionMetadata where
  container : Option ContainerMetadata
  deriving DecidableEq, Repr

/-- `PackageVersion`, with the fields the script acts on; the others are only logged. -/
structure PackageVersion where
  id : Int
  created_at : String
  metadata : VersionMetadata
  deriving DecidableEq, Repr

/-- `version.get('metadata', {}).get('container', {}).get('tags', [])`. -/
def PackageVersion.tags (v : PackageVersion) : List String :=
  match v.metadata.container with
  | some c => c.tags
  | none => []

/-- `Literal["keep", "delete"]`. -/
inductive Action where
  | keep
  | delete
  deriving DecidableEq, Repr

/-- `CleanupAction`. -/
structure CleanupAction where
  version : PackageVersion
  action : Action
  reason : String
  deriving DecidableEq, Repr

/-! ## The registry's HTTP API -/

/-- The headers of both registry calls. -/
def headers (token : String) : List (String × String) :=
  [("Accept", "application/vnd.github+json"), ("Authorization", "Bearer " ++ token),
    ("X-GitHub-Api-Version", "2022-11-28")]

inductive Method where
  | GET
  | DELETE
  deriving DecidableEq, Repr

structure Request where
  method : Method
  url : String
  headers : List (String × String)
  deriving DecidableEq, Repr

/-- A response: its status, its JSON body as version records, and its `Link` header. -/
structure Response where
  status_code : Nat
  json : List PackageVersion
  link : Option String

/-- `response.raise_for_status()`. -/
def Response.raiseForStatus (r : Response) : Except Exn Unit :=
  if 400 ≤ r.status_code ∧ r.status_code < 600 then .error (.HTTPError r.status_code)
  else .ok ()

/-- The registry: its answer to a request, given how many requests came before it. -/
def Server := Nat → Request → Except Exn Response

end GhcrCleanup.Types
