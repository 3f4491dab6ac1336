import AgentBridge.Backend
import AgentBridge.Backend.Handlers
import AgentBridge.Call
import AgentBridge.CommandLine.Command
import AgentBridge.CommandLine.Help
import AgentBridge.CommandLine.Invocation
import AgentBridge.CommandLine.Run
import AgentBridge.CommandLine.Scan
import AgentBridge.CommandLine.Usage
import AgentBridge.Config
import AgentBridge.Disguise
import AgentBridge.Envelope
import AgentBridge.Environment
import AgentBridge.Error
import AgentBridge.Folder
import AgentBridge.Json.Writer
import AgentBridge.Json.Lexeme
import AgentBridge.Json.Reader
import AgentBridge.Json.Value
import AgentBridge.Link
import AgentBridge.Log
import AgentBridge.Main
import AgentBridge.Number.Binary64
import AgentBridge.Number.Decimal
import AgentBridge.Number.Shortest
import AgentBridge.Operation
import AgentBridge.Path
import AgentBridge.Proofs.Exchange
import AgentBridge.Proofs.Failures
import AgentBridge.Proofs.FloatText
import AgentBridge.Proofs.Leading
import AgentBridge.Proofs.Lexemes
import AgentBridge.Proofs.Numerals
import AgentBridge.Proofs.Outcome
import AgentBridge.Proofs.Printing
import AgentBridge.Proofs.Quoting
import AgentBridge.Proofs.Readable
import AgentBridge.Proofs.Reading
import AgentBridge.Proofs.RoundTrip
import AgentBridge.Proofs.Rounding
import AgentBridge.Proofs.ShortestDigits
import AgentBridge.Proofs.Trimming
import AgentBridge.Proofs.Truncation
import AgentBridge.Proofs.Utf8
import AgentBridge.Reply
import AgentBridge.Request
import AgentBridge.Session
import AgentBridge.Shape
import AgentBridge.StatusPage
import AgentBridge.Terminal
import AgentBridge.Text
import AgentBridge.Text.Blank
import AgentBridge.Text.Digit
import AgentBridge.Text.Lowercase
import AgentBridge.Text.Pattern
import AgentBridge.Text.Pieces
import AgentBridge.Text.Quoted
import AgentBridge.Text.Similar
import AgentBridge.Text.Utf8
import AgentBridge.Url
import AgentBridge.Url.Authority
import AgentBridge.Proofs.Parameters
import AgentBridge.Proofs.Addresses
import AgentBridge.Proofs.LinkForms
import AgentBridge.Proofs.Links
import AgentBridge.Proofs.Calls
import AgentBridge.Proofs.Operations
import AgentBridge.Proofs.Spelling
import AgentBridge.Proofs.Influence
import AgentBridge.Proofs.Endings
import AgentBridge.Proofs.Grammar
import AgentBridge.Proofs.Standard
import AgentBridge.Proofs.Commands
import AgentBridge.Proofs.Emitted
import AgentBridge.Proofs.Tasks
import AgentBridge.Proofs.OutcomeLine
import AgentBridge.Proofs.ExitStatus
import AgentBridge.Proofs.OpenedLinks
import AgentBridge.Proofs.Disguises
import AgentBridge.Proofs.Options
import AgentBridge.Proofs.Secrets
import AgentBridge.Proofs.Sessions
import AgentBridge.Proofs.Streams
import AgentBridge.Proofs.Tokens
import AgentBridge.Proofs.Documents
import AgentBridge.Proofs.Envelopes
import AgentBridge.Proofs.LineEnds
import AgentBridge.Proofs.InlineDisguises
import AgentBridge.Proofs.Characters
import AgentBridge.Proofs.Presentation
import AgentBridge.Proofs.Patterns
import AgentBridge.Proofs.Unwritable
import AgentBridge.Proofs.Domains
import AgentBridge.Proofs.Padding
import AgentBridge.Proofs.Requests
import AgentBridge.Proofs.ShortNames
import AgentBridge.Proofs.Decimals
import AgentBridge.Proofs.Literals
import AgentBridge.Proofs.NumberSpellings
import AgentBridge.Proofs.Configurations
