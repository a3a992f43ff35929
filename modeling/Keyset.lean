import Keyset.Calendar.Date
import Keyset.Calendar.Instant
import Keyset.Config
import Keyset.Config.Load
import Keyset.ConfigError
import Keyset.Document
import Keyset.Json.Document
import Keyset.Json.Reader
import Keyset.Json.Record
import Keyset.Json.Value
import Keyset.Json.Writer
import Keyset.Number.Binary64
import Keyset.Number.Fixed
import Keyset.Number.Shortest
import Keyset.Numeral
import Keyset.Page
import Keyset.Page.Fetch
import Keyset.Page.Neighbours
import Keyset.Page.Walk
import Keyset.Path
import Keyset.Scalar
import Keyset.Scalar.Codec
import Keyset.Scalar.Kind
import Keyset.Schema
import Keyset.Schema.Codec
import Keyset.Schema.Route
import Keyset.SortKey
import Keyset.Sorting
import Keyset.Sorting.Pivot
import Keyset.Sorting.Short
import Keyset.Store
import Keyset.Store.Outage
import Keyset.Store.Table
import Keyset.Text
import Keyset.Token
import Keyset.Trace
import Keyset.Yaml.Document
import Keyset.Yaml.Lexer
import Keyset.Yaml.Node
import Keyset.Yaml.Resolve
import Keyset.Yaml.Scalar.Block
import Keyset.Yaml.Scalar.Flow
import Keyset.Yaml.Source
import Keyset.Yaml.Token
import Keyset.Proofs.InsertionSort
import Keyset.Proofs.Prefixes
import Keyset.Proofs.ScalarOrder
import Keyset.Proofs.TableOrder
import Keyset.Proofs.Boundaries
import Keyset.Proofs.Windows
import Keyset.Proofs.EmittedTokens
import Keyset.Proofs.Navigation
import Keyset.Proofs.ReachedPages
import Keyset.Proofs.CompleteWalk
import Keyset.Proofs.StrayOffsets
import Keyset.Proofs.BackwardWalk
import Keyset.Proofs.ChangedListings
import Keyset.Proofs.RunOffsets
import Keyset.Proofs.StaleCounts
import Keyset.Proofs.DigitTexts
import Keyset.Proofs.CalendarTexts
import Keyset.Proofs.DecimalTexts
import Keyset.Proofs.NearestDoubles
import Keyset.Proofs.NumberTexts
import Keyset.Proofs.JsonTexts
import Keyset.Proofs.TokenValues
import Keyset.Proofs.TokenTexts
import Keyset.Proofs.FloatBoundaries
import Keyset.Proofs.TextWalks
import Keyset.Proofs.FetchedAgain
import Keyset.Proofs.MixedRuns
import Keyset.Proofs.ComparisonOrder
import Keyset.Proofs.CanonicalTables
import Keyset.Proofs.MergeSort
import Keyset.Proofs.PivotSort
import Keyset.Proofs.RunSort
import Keyset.Proofs.OverlappingViews
import Keyset.Proofs.TokenGrammar
import Keyset.Proofs.SortFailures
import Keyset.Proofs.Camps
import Keyset.Proofs.IncomparableRecords
import Keyset.Proofs.DoubleValues
import Keyset.Proofs.ShortestDigits
import Keyset.Proofs.PrintedDoubles
import Keyset.Proofs.KeptDecimals
import Keyset.Proofs.JsonLayouts
import Keyset.Proofs.NumberTokens
import Keyset.Proofs.Routes
import Keyset.Proofs.DefaultOrderings
import Keyset.Proofs.KeyResolution
import Keyset.Proofs.DottedPaths
import Keyset.Proofs.ValidSchemas
import Keyset.Proofs.RegisteredModels
import Keyset.Proofs.ByteOrder
import Keyset.Proofs.ListingConfigs
import Keyset.Proofs.WordCounters
import Keyset.Proofs.WordPages
import Keyset.Proofs.ClashingBoundaries
import Keyset.Proofs.WordTokens
import Keyset.Proofs.RememberedCounts
