import CodeImpact.Chain
import CodeImpact.Change.Basic
import CodeImpact.Change.Classify
import CodeImpact.CodeGraph.Basic
import CodeImpact.CodeGraph.Heritage
import CodeImpact.CodeGraph.Merge
import CodeImpact.CodeGraph.Record
import CodeImpact.Command.Arguments
import CodeImpact.Command.Format
import CodeImpact.Command.Run
import CodeImpact.Command.Usage
import CodeImpact.Declaration
import CodeImpact.Diagnostic
import CodeImpact.Digest.Blake3
import CodeImpact.Digest.Hex
import CodeImpact.Digest.Sha256
import CodeImpact.Extraction.Basic
import CodeImpact.Extraction.Bindings
import CodeImpact.Extraction.Memo
import CodeImpact.Glob.Basic
import CodeImpact.Glob.IgnoreFile
import CodeImpact.Glob.Match
import CodeImpact.Grammar.Basic
import CodeImpact.Grammar.Java
import CodeImpact.Grammar.Python
import CodeImpact.Grammar.Registry
import CodeImpact.Grammar.Rust
import CodeImpact.Grammar.Script
import CodeImpact.Grammar.TypeName
import CodeImpact.Grammar.TypeScript
import CodeImpact.Impact.Basic
import CodeImpact.Impact.Report
import CodeImpact.Impact.Walk
import CodeImpact.Json.Basic
import CodeImpact.Json.Reader
import CodeImpact.Json.Writer
import CodeImpact.Main
import CodeImpact.Patch.Basic
import CodeImpact.Patch.Reader
import CodeImpact.Path.Basic
import CodeImpact.Path.Normal
import CodeImpact.Project.Analysis
import CodeImpact.Project.Assembly
import CodeImpact.Project.Discovery
import CodeImpact.Project.Disk
import CodeImpact.Proofs.Table
import CodeImpact.Proofs.Unique
import CodeImpact.RelationGraph.Basic
import CodeImpact.RelationGraph.Build
import CodeImpact.RelationGraph.Export
import CodeImpact.Resolver
import CodeImpact.Scope
import CodeImpact.Settings
import CodeImpact.Source.Language
import CodeImpact.Source.Tree
import CodeImpact.Table
import CodeImpact.Text.Affix
import CodeImpact.Text.Blank
import CodeImpact.Text.Letters
import CodeImpact.Text.Number
import CodeImpact.Wire.Capture
import CodeImpact.Wire.Change
import CodeImpact.Wire.Command
import CodeImpact.Wire.Diagnostic
import CodeImpact.Wire.Impact
import CodeImpact.Wire.Project
import CodeImpact.Wire.Record
import CodeImpact.Wire.Source
import CodeImpact.Proofs.Distance
import CodeImpact.Proofs.Traversal
import CodeImpact.Proofs.Report
import CodeImpact.Proofs.Relations
import CodeImpact.Proofs.Heritage
import CodeImpact.Proofs.Text
import CodeImpact.Proofs.DiffText
import CodeImpact.Proofs.DiffReading
import CodeImpact.Proofs.Classification
import CodeImpact.Proofs.Selection
import CodeImpact.Proofs.Occurrence
import CodeImpact.Proofs.Scopes
import CodeImpact.Proofs.Merging
import CodeImpact.Proofs.CallSites
import CodeImpact.Proofs.CallOwners
import CodeImpact.Proofs.Assembly
import CodeImpact.Proofs.Chains
import CodeImpact.Proofs.Consistency
import CodeImpact.Proofs.Declarations
import CodeImpact.Proofs.Methods
import CodeImpact.Proofs.HeritageEdges
import CodeImpact.Proofs.Implementations
import CodeImpact.Proofs.Renaming
import CodeImpact.Proofs.JsonReading
import CodeImpact.Proofs.GraphText
import CodeImpact.Proofs.FirstReports
import CodeImpact.Proofs.Coupling
import CodeImpact.Proofs.LevelGroups
import CodeImpact.Proofs.DepthLimit
import CodeImpact.Proofs.Widening
import CodeImpact.Proofs.Duality
import CodeImpact.Proofs.CallTargets
import CodeImpact.Proofs.TypeDeclarations
import CodeImpact.Proofs.MergeLaws
import CodeImpact.Proofs.CombinedReport
import CodeImpact.Proofs.RejectedHunks
import CodeImpact.Proofs.HunkHeaders
import CodeImpact.Proofs.HunksKept
import CodeImpact.Proofs.SectionPaths
import CodeImpact.Proofs.NormalPaths
import CodeImpact.Proofs.Resolution
import CodeImpact.Proofs.ModulePaths
import CodeImpact.Proofs.MemberTypes
import CodeImpact.Proofs.ChainOrder
import CodeImpact.Proofs.ScopeFrames
import CodeImpact.Proofs.Trimming
import CodeImpact.Proofs.TypeExpressions
import CodeImpact.Proofs.JavaImports
import CodeImpact.Proofs.UseTrees
import CodeImpact.Proofs.LineNumbers
import CodeImpact.Proofs.ArgumentOrder
import CodeImpact.Proofs.FollowedKinds
import CodeImpact.Proofs.DotReading
import CodeImpact.Proofs.DotText
import CodeImpact.Proofs.DiskPaths
import CodeImpact.Proofs.Discovery
import CodeImpact.Proofs.CanonicalPaths
import CodeImpact.Proofs.WorkerCounts
import CodeImpact.Proofs.Coherence
import CodeImpact.Proofs.SimpleNames
import CodeImpact.Proofs.CanonicalLevels
import CodeImpact.Proofs.KeyParts
import CodeImpact.Proofs.BodyTokens
import CodeImpact.Proofs.CodeEdits
