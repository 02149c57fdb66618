import Cookbook.Main
import Cookbook.Proofs.Placeholder.Stripping
import Cookbook.Proofs.Convert.RoundTrip
import Cookbook.Proofs.Disk.Ways
import Cookbook.Proofs.Convert.Confinement
import Cookbook.Proofs.Recipe.Destination
import Cookbook.Proofs.Convert.Sparing
import Cookbook.Proofs.Recipe.Discovery
import Cookbook.Proofs.Convert.History
import Cookbook.Proofs.Convert.Lasting
import Cookbook.Proofs.Convert.Sources
import Cookbook.Proofs.CommandLine.Convert
import Cookbook.Proofs.Convert.Links
import Cookbook.Proofs.Convert.Preserving
import Cookbook.Proofs.Convert.Skipping
import Cookbook.Proofs.Convert.Image
import Cookbook.Proofs.Convert.Independence
import Cookbook.Proofs.Feed
import Cookbook.Proofs.Convert.Finishing
import Cookbook.Proofs.CommandLine.Rejecting
import Cookbook.Proofs.Validate.Bounds
import Cookbook.Proofs.Markup.Versions
import Cookbook.Proofs.Recipe.Drafts
import Cookbook.Proofs.Convert.Accepting
import Cookbook.Proofs.Disk.Retaining
import Cookbook.Proofs.Gradle.Building
import Cookbook.Proofs.Standing
import Cookbook.Proofs.Validate.Converting
import Cookbook.Proofs.Validate.Following
import Cookbook.Proofs.Validate.WorkingCopy
import Cookbook.Proofs.Validate.Internal
import Cookbook.Proofs.Recipe.Asking
import Cookbook.Proofs.Spelling
import Cookbook.Proofs.Placeholder.Undoing
import Cookbook.Proofs.Placeholder.Replacing
import Cookbook.Proofs.Placeholder.Settling
import Cookbook.Proofs.CommandLine.ExitCodes
import Cookbook.Proofs.Convert.Forgetting
import Cookbook.Proofs.Grammar
import Cookbook.Proofs.Placeholder.Passages
import Cookbook.Proofs.Placeholder.Lockstep
import Cookbook.Proofs.Recipe.Supporting
import Cookbook.Proofs.Recipe.Finding
import Cookbook.Proofs.VersionTable.Reading
import Cookbook.Proofs.Index
import Cookbook.Proofs.Placeholder.Settings
import Cookbook.Proofs.Convert.Normalizing
import Cookbook.Proofs.Convert.Enclosed
