import LivingGuide.Command.Run
import LivingGuide.CommandLine.Help
import LivingGuide.CommandLine.Parser
import LivingGuide.Main
import LivingGuide.Proofs.FirstError
import LivingGuide.Proofs.Guide.StableSort
import LivingGuide.Proofs.Guide.History
import LivingGuide.Proofs.Reading
import LivingGuide.Proofs.Modifier
import LivingGuide.Proofs.Comment
import LivingGuide.Proofs.Block
import LivingGuide.Proofs.RoundTrip
import LivingGuide.Proofs.Markup.Pieces
import LivingGuide.Proofs.Markup.Highlight
import LivingGuide.Proofs.Markup.Page
import LivingGuide.Proofs.Concatenation
import LivingGuide.Proofs.Json.Reader
import LivingGuide.Proofs.Json.Export
import LivingGuide.Proofs.Path
import LivingGuide.Proofs.FileSystem.Plain
import LivingGuide.Proofs.FileSystem.Walk
import LivingGuide.Proofs.Inventory
import LivingGuide.Proofs.FileOrder
import LivingGuide.Proofs.FileSystem.Put
import LivingGuide.Proofs.FileSystem.Change
import LivingGuide.Proofs.Confinement
import LivingGuide.Proofs.Draft.Directory
import LivingGuide.Proofs.Draft.Cover
import LivingGuide.Proofs.Yaml.Reader
import LivingGuide.Proofs.Draft.Reading
import LivingGuide.Proofs.LineEndings
import LivingGuide.Proofs.BlockOutcome
import LivingGuide.Proofs.Markup.Anchor
import LivingGuide.Proofs.Terminal.Paint
import LivingGuide.Proofs.Terminal.Origin
import LivingGuide.Proofs.Terminal.Presentation
import LivingGuide.Proofs.GroupOrder
import LivingGuide.Proofs.MarkerLine
import LivingGuide.Proofs.RunReader
import LivingGuide.Proofs.Guide.SortContract
import LivingGuide.Proofs.Guide.DocumentOrder
import LivingGuide.Proofs.SectionText
import LivingGuide.Proofs.Regex
import LivingGuide.Proofs.ModifierLine
import LivingGuide.Proofs.Markup.Attribute
import LivingGuide.Proofs.Markup.Document
import LivingGuide.Proofs.Check
import LivingGuide.Proofs.Placeholder
import LivingGuide.Proofs.Manifest.Pattern
import LivingGuide.Proofs.TextOrder
import LivingGuide.Proofs.FileSystem.WalkOrder
import LivingGuide.Proofs.DirectoryListing
import LivingGuide.Proofs.Manifest.Anywhere
import LivingGuide.Proofs.Manifest.Reach
import LivingGuide.Proofs.Relocation
import LivingGuide.Proofs.DeclaredModifiers
import LivingGuide.Proofs.Markup.TagExpression
import LivingGuide.Proofs.Spelling
import LivingGuide.Proofs.Inventory.History
