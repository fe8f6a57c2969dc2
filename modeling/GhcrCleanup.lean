import GhcrCleanup.Runtime
import GhcrCleanup.Types
import GhcrCleanup.TokenProvider
import GhcrCleanup.ListVersions
import GhcrCleanup.FindVersions
import GhcrCleanup.Policy
import GhcrCleanup.Stability
import GhcrCleanup.Command
import GhcrCleanup.Session
