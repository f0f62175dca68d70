import SymbolIndex.Candidate.Pattern
import SymbolIndex.Candidate.Selection
import SymbolIndex.Candidate.Source
import SymbolIndex.Database.Basic
import SymbolIndex.Database.Cell
import SymbolIndex.Database.Edit
import SymbolIndex.Database.Records
import SymbolIndex.Digest.Sha256
import SymbolIndex.Dirty.FileLog
import SymbolIndex.Dirty.Log
import SymbolIndex.Dirty.TableLog
import SymbolIndex.Index.Config
import SymbolIndex.Index.Document
import SymbolIndex.Index.Freshness
import SymbolIndex.Index.Indexer
import SymbolIndex.Index.Opening
import SymbolIndex.Index.Pass
import SymbolIndex.Integer
import SymbolIndex.Json.Basic
import SymbolIndex.Json.Decode
import SymbolIndex.Json.Parser
import SymbolIndex.Json.Printer
import SymbolIndex.Ordered.Key
import SymbolIndex.Ordered.Map
import SymbolIndex.Ordered.Set
import SymbolIndex.Path
import SymbolIndex.Proofs.Database.Families
import SymbolIndex.Proofs.Database.Rows
import SymbolIndex.Proofs.Database.Symbols
import SymbolIndex.Proofs.Digest.Sha256
import SymbolIndex.Proofs.Json.RoundTrip
import SymbolIndex.Proofs.Ordered.Map
import SymbolIndex.Proofs.Record.Keys
import SymbolIndex.Proofs.Record.RoundTrip
import SymbolIndex.Proofs.Search.Catalog
import SymbolIndex.Proofs.Search.Condition
import SymbolIndex.Proofs.Search.Exactness
import SymbolIndex.Proofs.Search.FileIndex
import SymbolIndex.Proofs.Search.Glob
import SymbolIndex.Proofs.Search.Index
import SymbolIndex.Proofs.Search.Plan
import SymbolIndex.Proofs.Search.Scan
import SymbolIndex.Proofs.Search.TableIndex
import SymbolIndex.Proofs.Store.Agreement
import SymbolIndex.Proofs.Store.Buffer
import SymbolIndex.Proofs.Store.FileNames
import SymbolIndex.Proofs.Store.Files
import SymbolIndex.Proofs.Store.Ledger
import SymbolIndex.Proofs.Store.Opening
import SymbolIndex.Proofs.Store.Shelf
import SymbolIndex.Proofs.Store.Tables
import SymbolIndex.Proofs.Store.Transparency
import SymbolIndex.Proofs.Store.Verdicts
import SymbolIndex.Proofs.System.Disk
import SymbolIndex.Proofs.System.Files
import SymbolIndex.Proofs.System.Paths
import SymbolIndex.Proofs.System.Run
import SymbolIndex.Proofs.Text.Utf8
import SymbolIndex.Query
import SymbolIndex.Record.Basic
import SymbolIndex.Record.Codec
import SymbolIndex.Record.Key
import SymbolIndex.Record.Kind
import SymbolIndex.Search.Condition
import SymbolIndex.Search.Criteria
import SymbolIndex.Search.Entry
import SymbolIndex.Search.Error
import SymbolIndex.Search.FileIndex
import SymbolIndex.Search.Glob
import SymbolIndex.Search.Hydration
import SymbolIndex.Search.Index
import SymbolIndex.Search.Plan
import SymbolIndex.Search.Scan
import SymbolIndex.Search.TableIndex
import SymbolIndex.Store.Backend
import SymbolIndex.Store.Basic
import SymbolIndex.Store.Buffer
import SymbolIndex.Store.Files
import SymbolIndex.Store.Tables
import SymbolIndex.System.Disk
import SymbolIndex.System.Outside
import SymbolIndex.System.Script
import SymbolIndex.Text.Lines
import SymbolIndex.Text.Printable
import SymbolIndex.Text.Quoted
import SymbolIndex.Text.Utf8
import SymbolIndex.Toml.Basic
import SymbolIndex.Toml.Parser
import SymbolIndex.Uri.FileUri
import SymbolIndex.Uri.Host
import SymbolIndex.Uri.Percent
import SymbolIndex.Uri.Reader
import SymbolIndex.Proofs.Uri.FileUri
import SymbolIndex.Proofs.Text.Lines
import SymbolIndex.Proofs.Dirty.FileLog
import SymbolIndex.Proofs.Dirty.Log
import SymbolIndex.Proofs.System.Along
import SymbolIndex.Proofs.Index.Parts
import SymbolIndex.Proofs.Index.Records
import SymbolIndex.Proofs.Index.Holdings
import SymbolIndex.Proofs.Index.Stands
import SymbolIndex.Proofs.Index.Document
import SymbolIndex.Proofs.Index.Pass
import SymbolIndex.Proofs.Candidate.Listing
import SymbolIndex.Proofs.Index.Operations
import SymbolIndex.Proofs.Index.Opening
import SymbolIndex.Proofs.Index.History
import SymbolIndex.Proofs.Index.Searching
import SymbolIndex.Proofs.Index.References
import SymbolIndex.Proofs.Index.Replay
import SymbolIndex.Proofs.Index.Choice
import SymbolIndex.Proofs.Index.Repeated
import SymbolIndex.Proofs.Index.Interleaving
import SymbolIndex.Proofs.Index.Edits
import SymbolIndex.Proofs.Dirty.Handles
import SymbolIndex.Proofs.Dirty.Due
import SymbolIndex.Proofs.Index.Definitions
import SymbolIndex.Proofs.Index.Commuting
import SymbolIndex.Proofs.Dirty.Interrupted
import SymbolIndex.Proofs.Dirty.Threads
import SymbolIndex.Proofs.Index.Failing
import SymbolIndex.Proofs.Record.Written
import SymbolIndex.Proofs.Search.Entry
import SymbolIndex.Proofs.Store.Healing
import SymbolIndex.Proofs.Index.Taking
import SymbolIndex.Proofs.Index.Queued
import SymbolIndex.Proofs.System.Through
import SymbolIndex.Proofs.Search.Persisted
import SymbolIndex.Proofs.Index.Withholding
import SymbolIndex.Proofs.Index.Lagging
import SymbolIndex.Proofs.Index.Trailing
import SymbolIndex.Proofs.Search.Clause
import SymbolIndex.Proofs.System.Consulting
import SymbolIndex.Proofs.Store.Sweeping
import SymbolIndex.Proofs.Index.OneByOne
import SymbolIndex.Proofs.Index.Stamps
import SymbolIndex.Proofs.Json.Fuel
import SymbolIndex.Proofs.Json.Blank
import SymbolIndex.Proofs.Text.RawLines
import SymbolIndex.Proofs.Search.FileLines
import SymbolIndex.Proofs.Search.Reopening
import SymbolIndex.Proofs.Search.Durable
import SymbolIndex.Proofs.Store.Enduring
import SymbolIndex.Proofs.Store.Refusals
import SymbolIndex.Proofs.Uri.Percent
import SymbolIndex.Proofs.Uri.Reader
import SymbolIndex.Proofs.Uri.Canonical
import SymbolIndex.Proofs.System.Named
import SymbolIndex.Proofs.Store.Misfiled
import SymbolIndex.Proofs.Search.Kinds
import SymbolIndex.Proofs.Store.Addresses
import SymbolIndex.Proofs.Store.Integrity
