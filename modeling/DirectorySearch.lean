import DirectorySearch.Command.Arguments
import DirectorySearch.Command.Directory
import DirectorySearch.Command.FileTree
import DirectorySearch.Command.Host
import DirectorySearch.Command.LogLevel
import DirectorySearch.Command.Run
import DirectorySearch.Decimal.Double
import DirectorySearch.Decimal.Layout
import DirectorySearch.Decimal.Shortest
import DirectorySearch.Digest.Sha256
import DirectorySearch.Filter.Basic
import DirectorySearch.Filter.Encoding
import DirectorySearch.Filter.Escape
import DirectorySearch.Filter.Reader
import DirectorySearch.Filter.Token
import DirectorySearch.Filter.Writer
import DirectorySearch.Json.Basic
import DirectorySearch.Json.Draft
import DirectorySearch.Json.Form
import DirectorySearch.Main
import DirectorySearch.Pattern.Basic
import DirectorySearch.Pattern.Reader
import DirectorySearch.Proofs.Assembly
import DirectorySearch.Proofs.Attempts
import DirectorySearch.Proofs.Attribute
import DirectorySearch.Proofs.AttributeCheck
import DirectorySearch.Proofs.Canonical
import DirectorySearch.Proofs.Columns
import DirectorySearch.Proofs.Component
import DirectorySearch.Proofs.ComponentCount
import DirectorySearch.Proofs.DisplayNames
import DirectorySearch.Proofs.ErrorPosition
import DirectorySearch.Proofs.Escape
import DirectorySearch.Proofs.Except
import DirectorySearch.Proofs.Failure
import DirectorySearch.Proofs.FormRange
import DirectorySearch.Proofs.Forms
import DirectorySearch.Proofs.Grammar
import DirectorySearch.Proofs.GrammarRules
import DirectorySearch.Proofs.Items
import DirectorySearch.Proofs.JsonGrammar
import DirectorySearch.Proofs.JsonText
import DirectorySearch.Proofs.Layout
import DirectorySearch.Proofs.Like
import DirectorySearch.Proofs.LikeMeaning
import DirectorySearch.Proofs.Logic
import DirectorySearch.Proofs.Matching
import DirectorySearch.Proofs.Members
import DirectorySearch.Proofs.NegatedItems
import DirectorySearch.Proofs.Negation
import DirectorySearch.Proofs.Nesting
import DirectorySearch.Proofs.Numeral
import DirectorySearch.Proofs.Overrides
import DirectorySearch.Proofs.ParsingExpression
import DirectorySearch.Proofs.QueryLayout
import DirectorySearch.Proofs.QueryText
import DirectorySearch.Proofs.Quoting
import DirectorySearch.Proofs.Reading
import DirectorySearch.Proofs.Refusal
import DirectorySearch.Proofs.Rendering
import DirectorySearch.Proofs.Request
import DirectorySearch.Proofs.Rounding
import DirectorySearch.Proofs.Rows
import DirectorySearch.Proofs.SearchOutput
import DirectorySearch.Proofs.Searchability
import DirectorySearch.Proofs.Shortest
import DirectorySearch.Proofs.Skeleton
import DirectorySearch.Proofs.Stability
import DirectorySearch.Proofs.SyntaxTree
import DirectorySearch.Proofs.Tags
import DirectorySearch.Proofs.Unescaping
import DirectorySearch.Proofs.Utf8
import DirectorySearch.Query.Basic
import DirectorySearch.Query.Decoding
import DirectorySearch.Query.Encoding
import DirectorySearch.Search.Assertion
import DirectorySearch.Search.Like
import DirectorySearch.Search.Negation
import DirectorySearch.Search.Problem
import DirectorySearch.Search.Request
import DirectorySearch.Search.Selection
import DirectorySearch.Search.Settings
import DirectorySearch.Settings.Basic
import DirectorySearch.Settings.Document
import DirectorySearch.Settings.Log
import DirectorySearch.Text.Alphabetic
import DirectorySearch.Text.Blank
import DirectorySearch.Text.Extending
import DirectorySearch.Text.Hex
import DirectorySearch.Text.Numeric
import DirectorySearch.Text.Quoted
import DirectorySearch.Text.Ranges
import DirectorySearch.Text.Unprintable
import DirectorySearch.Text.Utf8
import DirectorySearch.Yaml.Cursor
import DirectorySearch.Yaml.Node
import DirectorySearch.Yaml.Scalar
import DirectorySearch.Yaml.Token
