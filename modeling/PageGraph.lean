import PageGraph.Main
import PageGraph.Proofs.Page.Inclusion
import PageGraph.Proofs.Tree.Positions
import PageGraph.Proofs.Tree.Trails
import PageGraph.Proofs.Tree.Occurrences
import PageGraph.Proofs.Tree.Depth
import PageGraph.Proofs.Tree.Reachability
import PageGraph.Proofs.Tree.Walks
import PageGraph.Proofs.Tree.Cycles
import PageGraph.Proofs.Tree.Composition
import PageGraph.Proofs.Tree.Locality
import PageGraph.Proofs.Page.Sorting
import PageGraph.Proofs.Json.Fields
import PageGraph.Proofs.Tree.Growth
import PageGraph.Proofs.DataFile.Records
import PageGraph.Proofs.DataFile.Trees
import PageGraph.Proofs.FileSystem.Scanning
import PageGraph.Proofs.DataFile.RoundTrip
import PageGraph.Proofs.FileSystem.Places
import PageGraph.Proofs.Text.Utf8
import PageGraph.Proofs.FileSystem.Resolution
import PageGraph.Proofs.FileSystem.Reading
import PageGraph.Proofs.FileSystem.Writing
import PageGraph.Proofs.Disk.PlainNames
import PageGraph.Proofs.FileSystem.Directories
import PageGraph.Proofs.FileSystem.Walking
import PageGraph.Proofs.CommandLine.Writing
import PageGraph.Proofs.FileSystem.Templates
import PageGraph.Proofs.CommandLine.SavedRecords
import PageGraph.Proofs.CommandLine.ListedPages
import PageGraph.Proofs.Reference.CrossStore
import PageGraph.Proofs.Reference.Scan
import PageGraph.Proofs.CommandLine.Effects
import PageGraph.Proofs.CommandLine.Inventory
import PageGraph.Proofs.Page.Keys
import PageGraph.Proofs.Reference.StoreMacro
import PageGraph.Proofs.Reference.TemplateNames
import PageGraph.Proofs.PagePath.Chains
import PageGraph.Proofs.Reference.Relative
import PageGraph.Proofs.Reference.MultiStore
import PageGraph.Proofs.Reference.Locality
import PageGraph.Proofs.Tree.Levels
import PageGraph.Proofs.Drawing.Alike
import PageGraph.Proofs.Drawing.Legibility
import PageGraph.Proofs.Drawing.Limit
import PageGraph.Proofs.Tree.Includers
import PageGraph.Proofs.Tree.Totals
import PageGraph.Proofs.PagePath.Splitting
import PageGraph.Proofs.Settings.Overlay
