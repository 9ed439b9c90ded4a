import PropertyHarvest.Accumulation
import PropertyHarvest.Arena
import PropertyHarvest.Arena.Node
import PropertyHarvest.CallSite
import PropertyHarvest.Command
import PropertyHarvest.CommandLine
import PropertyHarvest.Concrete
import PropertyHarvest.Concrete.Building
import PropertyHarvest.Concrete.Form
import PropertyHarvest.Concrete.Lowering
import PropertyHarvest.Config
import PropertyHarvest.Config.Lookup
import PropertyHarvest.Declaration
import PropertyHarvest.Discovery
import PropertyHarvest.FileSystem
import PropertyHarvest.FileSystem.Links
import PropertyHarvest.Glob.Pattern
import PropertyHarvest.Glob.Search
import PropertyHarvest.Harvester
import PropertyHarvest.Idiom
import PropertyHarvest.Json
import PropertyHarvest.Json.Reader
import PropertyHarvest.Json.Token
import PropertyHarvest.Json.Writer
import PropertyHarvest.Kind
import PropertyHarvest.Literal
import PropertyHarvest.Main
import PropertyHarvest.MethodScope
import PropertyHarvest.Path
import PropertyHarvest.Project
import PropertyHarvest.Proofs.Accumulation.Calls
import PropertyHarvest.Proofs.Accumulation.Log
import PropertyHarvest.Proofs.Accumulation.Merge
import PropertyHarvest.Proofs.Arena.Construction
import PropertyHarvest.Proofs.Arena.Descent
import PropertyHarvest.Proofs.Arena.Ids
import PropertyHarvest.Proofs.Arena.Layout
import PropertyHarvest.Proofs.Arena.Lineage
import PropertyHarvest.Proofs.Arena.Siblings
import PropertyHarvest.Proofs.CallSite.Roles
import PropertyHarvest.Proofs.Command.Init
import PropertyHarvest.Proofs.Concrete.Building
import PropertyHarvest.Proofs.Concrete.Calls
import PropertyHarvest.Proofs.Concrete.Comments
import PropertyHarvest.Proofs.Concrete.Equations
import PropertyHarvest.Proofs.Concrete.Meaning
import PropertyHarvest.Proofs.Concrete.Names
import PropertyHarvest.Proofs.Concrete.Nesting
import PropertyHarvest.Proofs.Concrete.Parentheses
import PropertyHarvest.Proofs.Concrete.Rows
import PropertyHarvest.Proofs.Concrete.Shapes
import PropertyHarvest.Proofs.Config.Nearest
import PropertyHarvest.Proofs.Config.Reading
import PropertyHarvest.Proofs.Discovery.Ignores
import PropertyHarvest.Proofs.Discovery.Order
import PropertyHarvest.Proofs.Discovery.Patterns
import PropertyHarvest.Proofs.Discovery.Selection
import PropertyHarvest.Proofs.Discovery.Spelling
import PropertyHarvest.Proofs.FileSystem.Components
import PropertyHarvest.Proofs.FileSystem.Links
import PropertyHarvest.Proofs.FileSystem.Parents
import PropertyHarvest.Proofs.FileSystem.Places
import PropertyHarvest.Proofs.FileSystem.Writing
import PropertyHarvest.Proofs.Glob.Below
import PropertyHarvest.Proofs.Glob.Fitting
import PropertyHarvest.Proofs.Glob.Reading
import PropertyHarvest.Proofs.Glob.Search
import PropertyHarvest.Proofs.Harvester.Diagnostics
import PropertyHarvest.Proofs.Harvester.Events
import PropertyHarvest.Proofs.Harvester.Exactness
import PropertyHarvest.Proofs.Harvester.FileHandles
import PropertyHarvest.Proofs.Harvester.Isolation
import PropertyHarvest.Proofs.Harvester.Names
import PropertyHarvest.Proofs.Harvester.Plan
import PropertyHarvest.Proofs.Harvester.Redeclaration
import PropertyHarvest.Proofs.Harvester.RefusedArguments
import PropertyHarvest.Proofs.Harvester.Resemblance
import PropertyHarvest.Proofs.Harvester.Sharding
import PropertyHarvest.Proofs.Json.Grammar
import PropertyHarvest.Proofs.Json.RoundTrip
import PropertyHarvest.Proofs.Literal.Constants
import PropertyHarvest.Proofs.Literal.Grouping
import PropertyHarvest.Proofs.Literal.Templates
import PropertyHarvest.Proofs.MethodScope.History
import PropertyHarvest.Proofs.Report.Listing
import PropertyHarvest.Proofs.Report.Members
import PropertyHarvest.Proofs.Scan.Failures
import PropertyHarvest.Proofs.SourceFile.Comments
import PropertyHarvest.Proofs.SourceFile.Parentheses
import PropertyHarvest.Proofs.SourceFile.Shapes
import PropertyHarvest.Proofs.SourceFile.SyntaxErrors
import PropertyHarvest.Proofs.SourceFile.Verification
import PropertyHarvest.Proofs.Walk.Recursion
import PropertyHarvest.Report
import PropertyHarvest.Report.Messages
import PropertyHarvest.Report.Style
import PropertyHarvest.Scan
import PropertyHarvest.Snapshot
import PropertyHarvest.SourceFile
import PropertyHarvest.Text.Quoted
import PropertyHarvest.Tree
import PropertyHarvest.Tree.Description
import PropertyHarvest.Walk
