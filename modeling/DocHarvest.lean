import DocHarvest.Main
import DocHarvest.Proofs.Scope
import DocHarvest.Proofs.Scope.Walk
import DocHarvest.Proofs.Index.Resolution
import DocHarvest.Proofs.Index.Stability
import DocHarvest.Proofs.Markup.Nesting
import DocHarvest.Proofs.Markup.Reading
import DocHarvest.Proofs.Markup.Writing
import DocHarvest.Proofs.Markup.Attribute
import DocHarvest.Proofs.Markup.Partition
import DocHarvest.Proofs.Markup.Passthrough
import DocHarvest.Proofs.Block.Marker
import DocHarvest.Proofs.Block.Writing
import DocHarvest.Proofs.Markup.Flat
import DocHarvest.Proofs.Markup.Assembly
import DocHarvest.Proofs.Markup.Account
import DocHarvest.Proofs.Index.Filing
import DocHarvest.Proofs.Block.Comment
import DocHarvest.Proofs.Json.Grammar
import DocHarvest.Proofs.Json.Writing
import DocHarvest.Proofs.Json.Reading
import DocHarvest.Proofs.Json.Parsing
import DocHarvest.Proofs.Format
import DocHarvest.Proofs.Dictionary
import DocHarvest.Proofs.FileTree
import DocHarvest.Proofs.Record.Draft
import DocHarvest.Proofs.Record.Keys
import DocHarvest.Proofs.Index.Grouping
import DocHarvest.Proofs.Index.Lookup
import DocHarvest.Proofs.Index.Nearest
import DocHarvest.Proofs.Block.Key
import DocHarvest.Proofs.Block.Mark
import DocHarvest.Proofs.Format.Lines
import DocHarvest.Proofs.Command.Output
import DocHarvest.Proofs.Index.Ordering
import DocHarvest.Proofs.Index.Renaming
import DocHarvest.Proofs.Index.Separators
import DocHarvest.Proofs.Format.Framing
import DocHarvest.Proofs.Record.Closed
import DocHarvest.Proofs.Text.Position
import DocHarvest.Proofs.Block.Scan
import DocHarvest.Proofs.Block.Closing
import DocHarvest.Proofs.Block.Item
import DocHarvest.Proofs.Block.Page
import DocHarvest.Proofs.Param.Form
import DocHarvest.Proofs.Param.Writing
import DocHarvest.Proofs.Path.Order
import DocHarvest.Proofs.List
import DocHarvest.Proofs.Command.Discovery
import DocHarvest.Proofs.Path.Settling
import DocHarvest.Proofs.Glob
import DocHarvest.Proofs.Command.Selection
import DocHarvest.Proofs.Markup.Raw
import DocHarvest.Proofs.Markup.Files
import DocHarvest.Proofs.Markup.Spelling
import DocHarvest.Proofs.Param.Acceptance
import DocHarvest.Proofs.Param.Order
