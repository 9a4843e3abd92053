import CommentTags.Artifact
import CommentTags.CommandLine.Arguments
import CommentTags.CommandLine.Command
import CommentTags.CommandLine.Footprint
import CommentTags.CommandLine.Help
import CommentTags.CommandLine.Run
import CommentTags.Comment.Declaration
import CommentTags.Comment.Tags
import CommentTags.Decimal.Binary64
import CommentTags.Decimal.Shortest
import CommentTags.Diagnostic
import CommentTags.Failure
import CommentTags.FileSystem
import CommentTags.FileText
import CommentTags.Grammar.Annotation
import CommentTags.Grammar.Cleaning
import CommentTags.Grammar.Description
import CommentTags.Grammar.Field
import CommentTags.Grammar.Identifier
import CommentTags.Grammar.Parameter
import CommentTags.Grammar.Tag
import CommentTags.Json.Basic
import CommentTags.Json.Printer
import CommentTags.Json.Reader
import CommentTags.Listing
import CommentTags.Log
import CommentTags.Main
import CommentTags.NodeFile
import CommentTags.NodeFile.Extraction
import CommentTags.Pairing
import CommentTags.Pairing.Journal
import CommentTags.Path
import CommentTags.Proofs.Annotations
import CommentTags.Proofs.ArtifactFormat
import CommentTags.Proofs.ArtifactRoundTrip
import CommentTags.Proofs.BracePairs
import CommentTags.Proofs.CleanedText
import CommentTags.Proofs.Cleaning
import CommentTags.Proofs.CommentDivision
import CommentTags.Proofs.CommentRoundTrip
import CommentTags.Proofs.DataTypes
import CommentTags.Proofs.Diagnostics
import CommentTags.Proofs.Directories
import CommentTags.Proofs.DirectoryWrites
import CommentTags.Proofs.ExtractOrder
import CommentTags.Proofs.ExtractRun
import CommentTags.Proofs.Extraction
import CommentTags.Proofs.Failure
import CommentTags.Proofs.Feeding
import CommentTags.Proofs.FieldPlaces
import CommentTags.Proofs.Fields
import CommentTags.Proofs.FileGrowth
import CommentTags.Proofs.Files
import CommentTags.Proofs.FreeText
import CommentTags.Proofs.JsonRoundTrip
import CommentTags.Proofs.JsonText
import CommentTags.Proofs.Layout
import CommentTags.Proofs.ListingLines
import CommentTags.Proofs.MarkerRenaming
import CommentTags.Proofs.Pairing
import CommentTags.Proofs.ParameterNesting
import CommentTags.Proofs.ParameterPieces
import CommentTags.Proofs.Scanning
import CommentTags.Proofs.SettingsDocument
import CommentTags.Proofs.SettingsFields
import CommentTags.Proofs.StringLiterals
import CommentTags.Proofs.TagLabels
import CommentTags.Proofs.TagStarts
import CommentTags.Proofs.TokenInvariants
import CommentTags.Settings
import CommentTags.Settings.Document
import CommentTags.SourceNode
import CommentTags.Text.Basic
import CommentTags.Text.Blank
import CommentTags.Text.Digits
import CommentTags.Text.Printable
import CommentTags.Text.Quoted
import CommentTags.Text.Ranges
import CommentTags.Text.Word
import CommentTags.Token
import CommentTags.Token.Fields
import CommentTags.TokenTree
import CommentTags.Yaml.Cursor
import CommentTags.Yaml.Error
import CommentTags.Yaml.Graph
import CommentTags.Yaml.Graph.Build
import CommentTags.Yaml.Graph.Settle
import CommentTags.Yaml.Lexeme
import CommentTags.Yaml.Lexeme.Layout
import CommentTags.Yaml.Lexeme.Property
import CommentTags.Yaml.Lexeme.Scalar
import CommentTags.Yaml.Scalar
import CommentTags.Yaml.Tag
import CommentTags.Yaml.Value
