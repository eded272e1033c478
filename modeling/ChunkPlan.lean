import ChunkPlan.Main
import ChunkPlan.Proofs.Forests
import ChunkPlan.Proofs.JsonText
import ChunkPlan.Proofs.Planning
import ChunkPlan.Proofs.Binary64
import ChunkPlan.Proofs.Files
import ChunkPlan.Proofs.Paths
import ChunkPlan.Proofs.CacheFile
import ChunkPlan.Proofs.CacheRuns
import ChunkPlan.Proofs.CharClasses
import ChunkPlan.Proofs.Literals
import ChunkPlan.Proofs.Positions
import ChunkPlan.Proofs.Grammar
import ChunkPlan.Proofs.Cuts
import ChunkPlan.Proofs.Layout
import ChunkPlan.Proofs.CachedScan
import ChunkPlan.Proofs.BuildTree
import ChunkPlan.Proofs.SearchRuns
import ChunkPlan.Proofs.SharedListing
import ChunkPlan.Proofs.ModuleFlags
import ChunkPlan.Proofs.WiderPools
import ChunkPlan.Proofs.ModuleMaps
import ChunkPlan.Proofs.Order
import ChunkPlan.Proofs.KnownProvides
import ChunkPlan.Proofs.DocumentedNames
import ChunkPlan.Proofs.DepsFiles
import ChunkPlan.Proofs.FileChanges
import ChunkPlan.Proofs.FailedRuns
import ChunkPlan.Proofs.UsedNamespaces
import ChunkPlan.Proofs.StoppedSearches
import ChunkPlan.Proofs.Replanning
import ChunkPlan.Proofs.TemplateLiterals
import ChunkPlan.Proofs.SlashReadings
import ChunkPlan.Proofs.UnclosedLiterals
import ChunkPlan.Proofs.FailedPlans
import ChunkPlan.Proofs.CacheReloads
import ChunkPlan.Proofs.ScriptWalks
import ChunkPlan.Proofs.BuiltInTemplates
import ChunkPlan.Proofs.DepsListings
import ChunkPlan.Proofs.LoaderUris
import ChunkPlan.Proofs.Clashes
import ChunkPlan.Proofs.NestedSearches
import ChunkPlan.Proofs.SearchOutcomes
import ChunkPlan.Proofs.IdentifierChains
