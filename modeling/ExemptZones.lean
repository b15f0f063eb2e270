import ExemptZones.Address.Basic
import ExemptZones.Address.Checksum
import ExemptZones.Address.Regroup
import ExemptZones.Address.Symbol
import ExemptZones.Bytes
import ExemptZones.Command.Basic
import ExemptZones.Command.Files
import ExemptZones.Command.Grammar
import ExemptZones.Command.Options
import ExemptZones.Command.Run
import ExemptZones.Command.Shell
import ExemptZones.Command.Wording
import ExemptZones.Config
import ExemptZones.Console.Cell
import ExemptZones.Console.Markup
import ExemptZones.Console.Table
import ExemptZones.Console.Terminal
import ExemptZones.Decimal.Digits
import ExemptZones.Decimal.Shortest
import ExemptZones.Decimal.Whole
import ExemptZones.Decision
import ExemptZones.Failure
import ExemptZones.Genesis.State
import ExemptZones.Genesis.Validate
import ExemptZones.Json.Reader
import ExemptZones.Json.Writer
import ExemptZones.Loading
import ExemptZones.Log
import ExemptZones.Main
import ExemptZones.Message
import ExemptZones.Page
import ExemptZones.Party
import ExemptZones.Proofs.AddressText
import ExemptZones.Proofs.Agreement
import ExemptZones.Proofs.Atomicity
import ExemptZones.Proofs.Batches
import ExemptZones.Proofs.Browsing
import ExemptZones.Proofs.Caching
import ExemptZones.Proofs.Change
import ExemptZones.Proofs.Checksum
import ExemptZones.Proofs.CommandLine
import ExemptZones.Proofs.Containment
import ExemptZones.Proofs.Contents
import ExemptZones.Proofs.Databases
import ExemptZones.Proofs.Edit
import ExemptZones.Proofs.ExitStatus
import ExemptZones.Proofs.GenesisFit
import ExemptZones.Proofs.Import
import ExemptZones.Proofs.JsonChars
import ExemptZones.Proofs.JsonText
import ExemptZones.Proofs.KeyOrder
import ExemptZones.Proofs.LegacyMigration
import ExemptZones.Proofs.ListingOutput
import ExemptZones.Proofs.Locality
import ExemptZones.Proofs.Marks
import ExemptZones.Proofs.Nesting
import ExemptZones.Proofs.Obstruction
import ExemptZones.Proofs.Outage
import ExemptZones.Proofs.PageWalk
import ExemptZones.Proofs.Paging
import ExemptZones.Proofs.PlainList
import ExemptZones.Proofs.Ranges
import ExemptZones.Proofs.ReadBack
import ExemptZones.Proofs.Reading
import ExemptZones.Proofs.Removal
import ExemptZones.Proofs.Resolution
import ExemptZones.Proofs.Script
import ExemptZones.Proofs.Session
import ExemptZones.Proofs.Snapshot
import ExemptZones.Proofs.Soundness
import ExemptZones.Proofs.StateFiles
import ExemptZones.Proofs.Validation
import ExemptZones.Proofs.Views
import ExemptZones.Proofs.YamlBlocks
import ExemptZones.Proofs.YamlLines
import ExemptZones.Proofs.YamlNodes
import ExemptZones.Proofs.YamlPlain
import ExemptZones.Proofs.YamlQuoted
import ExemptZones.Proofs.YamlTokens
import ExemptZones.Proofs.YamlWords
import ExemptZones.Query
import ExemptZones.Registry.Basic
import ExemptZones.Registry.Genesis
import ExemptZones.Registry.Listing
import ExemptZones.Registry.Membership
import ExemptZones.Registry.Messages
import ExemptZones.Registry.Migration
import ExemptZones.Registry.Queries
import ExemptZones.Report
import ExemptZones.Shape.Basic
import ExemptZones.Shape.Record
import ExemptZones.Shape.Scalar
import ExemptZones.Store.Basic
import ExemptZones.Store.File
import ExemptZones.Store.Records
import ExemptZones.Store.View
import ExemptZones.Text.Basic
import ExemptZones.Text.Blank
import ExemptZones.Text.CellWidth
import ExemptZones.Text.Hex
import ExemptZones.Text.Lines
import ExemptZones.Text.Printable
import ExemptZones.Text.Quoted
import ExemptZones.Text.Utf8
import ExemptZones.Value.Basic
import ExemptZones.Value.Shown
import ExemptZones.Yaml.Document
import ExemptZones.Yaml.Fault
import ExemptZones.Yaml.Kind
import ExemptZones.Yaml.Mark
import ExemptZones.Yaml.Node
import ExemptZones.Yaml.Scalar
import ExemptZones.Yaml.Spelling
import ExemptZones.Yaml.Token.Basic
import ExemptZones.Yaml.Token.Lexer
import ExemptZones.Yaml.Writer
import ExemptZones.Zone
