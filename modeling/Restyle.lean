import Restyle.Archive.Checksum
import Restyle.Archive.Name
import Restyle.Archive.Walk
import Restyle.Archive.Zip
import Restyle.Cli.Command
import Restyle.Cli.Flag
import Restyle.Cli.Help
import Restyle.Cli.Program
import Restyle.Config.Basic
import Restyle.Config.Load
import Restyle.Config.Output
import Restyle.Css.Combine
import Restyle.Css.Declaration
import Restyle.Css.Edit
import Restyle.Css.Merge
import Restyle.Css.Minify
import Restyle.Css.Outline
import Restyle.Css.Pipeline
import Restyle.Css.Query
import Restyle.Css.Rgb
import Restyle.Css.Step
import Restyle.Css.Token
import Restyle.Css.Undefined
import Restyle.Deflate.Bits
import Restyle.Deflate.Block
import Restyle.Deflate.Huffman
import Restyle.Deflate.Pack
import Restyle.Deflate.Token
import Restyle.Deflate.Unpack
import Restyle.Encoding.CodePage
import Restyle.Encoding.Decode
import Restyle.Encoding.Registry
import Restyle.Encoding.Table
import Restyle.Encoding.Unicode
import Restyle.FileName
import Restyle.Files.Access
import Restyle.Files.Disk
import Restyle.Job.Basic
import Restyle.Job.Command
import Restyle.Job.Sheet
import Restyle.Job.Source
import Restyle.Log.Line
import Restyle.Log.Logger
import Restyle.Log.Record
import Restyle.Log.Setup
import Restyle.Machine
import Restyle.Main
import Restyle.Order.Natural
import Restyle.Path
import Restyle.Program
import Restyle.Proofs.Archive.Walk
import Restyle.Proofs.Config.Accepted
import Restyle.Proofs.Config.Dump
import Restyle.Proofs.Config.Loading
import Restyle.Proofs.Config.Reloaded
import Restyle.Proofs.Css.Balance
import Restyle.Proofs.Css.Block
import Restyle.Proofs.Css.ClassSheet
import Restyle.Proofs.Css.Colour
import Restyle.Proofs.Css.Comment
import Restyle.Proofs.Css.Conserved
import Restyle.Proofs.Css.Declared
import Restyle.Proofs.Css.Deletion
import Restyle.Proofs.Css.Edit
import Restyle.Proofs.Css.Exposed
import Restyle.Proofs.Css.Extracted
import Restyle.Proofs.Css.FirstBlock
import Restyle.Proofs.Css.Flattened
import Restyle.Proofs.Css.Grammar
import Restyle.Proofs.Css.Groups
import Restyle.Proofs.Css.Lexeme
import Restyle.Proofs.Css.Literal
import Restyle.Proofs.Css.Minify
import Restyle.Proofs.Css.Passes
import Restyle.Proofs.Css.Pipeline
import Restyle.Proofs.Css.QueryTree
import Restyle.Proofs.Css.Removal
import Restyle.Proofs.Css.Rounds
import Restyle.Proofs.Css.Rule
import Restyle.Proofs.Css.Scan
import Restyle.Proofs.Css.Settled
import Restyle.Proofs.Css.Structure
import Restyle.Proofs.Css.Survey
import Restyle.Proofs.Css.Thinning
import Restyle.Proofs.Css.Token
import Restyle.Proofs.Css.Uncommented
import Restyle.Proofs.Css.Unconditional
import Restyle.Proofs.Css.Undefined
import Restyle.Proofs.Css.Word
import Restyle.Proofs.Css.WordTokens
import Restyle.Proofs.Encoding
import Restyle.Proofs.FileName
import Restyle.Proofs.Files.Creation
import Restyle.Proofs.Files.Listing
import Restyle.Proofs.Files.Rewriting
import Restyle.Proofs.Job.Cancelled
import Restyle.Proofs.Job.Directory
import Restyle.Proofs.Job.Entries
import Restyle.Proofs.Job.Inside
import Restyle.Proofs.Job.Numbering
import Restyle.Proofs.Job.Preserved
import Restyle.Proofs.Job.Resolution
import Restyle.Proofs.Job.Visits
import Restyle.Proofs.Malformed
import Restyle.Proofs.Report.Closing
import Restyle.Proofs.State.History
import Restyle.Proofs.Text.Blank
import Restyle.Proofs.Text.Lines
import Restyle.Proofs.Text.Quoted
import Restyle.Proofs.Text.Utf8
import Restyle.Proofs.Trace
import Restyle.Proofs.Yaml.Base64
import Restyle.Proofs.Yaml.Literal
import Restyle.Proofs.Yaml.Nodes
import Restyle.Proofs.Yaml.Outline
import Restyle.Proofs.Yaml.Plain
import Restyle.Proofs.Yaml.Quoted
import Restyle.Proofs.Yaml.Records
import Restyle.Proofs.Yaml.Scan
import Restyle.Proofs.Yaml.Source
import Restyle.Proofs.Yaml.Values
import Restyle.Report
import Restyle.State.Environment
import Restyle.State.Settings
import Restyle.Stream
import Restyle.Text.Blank
import Restyle.Text.Case
import Restyle.Text.Class
import Restyle.Text.Fold
import Restyle.Text.Printable
import Restyle.Text.Quoted
import Restyle.Text.Romanise
import Restyle.Text.Slug
import Restyle.Text.Split
import Restyle.Text.Utf8
import Restyle.Text.Word
import Restyle.Time
import Restyle.Trace
import Restyle.World
import Restyle.Yaml.Base64
import Restyle.Yaml.Decode
import Restyle.Yaml.Node
import Restyle.Yaml.Number
import Restyle.Yaml.Printer
import Restyle.Yaml.Resolve
import Restyle.Yaml.Scalar
import Restyle.Yaml.Source
import Restyle.Yaml.Token
