import Splice.Arguments
import Splice.Assembly
import Splice.Bundle
import Splice.Codec.Basic
import Splice.Codec.Encoding
import Splice.Codec.Utf16
import Splice.Codec.Utf8
import Splice.CommandLine.Invocation
import Splice.CommandLine.Topic
import Splice.Config
import Splice.Config.Lookup
import Splice.Directive
import Splice.Discovery
import Splice.Disk
import Splice.Disk.Change
import Splice.Event
import Splice.Exhaustion
import Splice.Failure
import Splice.Graph
import Splice.Json
import Splice.Keyed
import Splice.Locator
import Splice.Main
import Splice.Number.Binary64
import Splice.Number.Shortest
import Splice.Output
import Splice.Path.Normal
import Splice.Path.Real
import Splice.Path.Route
import Splice.Program
import Splice.Reference
import Splice.Rule
import Splice.Setup
import Splice.Source
import Splice.Stamp
import Splice.Text.Basic
import Splice.Text.Blank
import Splice.Text.Digit
import Splice.Text.Line
import Splice.Text.LowerCase
import Splice.Text.Printable
import Splice.Text.Quoted
import Splice.Toml.Document
import Splice.Toml.Item
import Splice.Toml.Quoted
import Splice.Toml.Scalar
import Splice.Toml.Table
import Splice.Tree
import Splice.Value
import Splice.Proofs.Scan
import Splice.Proofs.Splicing
import Splice.Proofs.OwnLines
import Splice.Proofs.Visit
import Splice.Proofs.BuiltGraph
import Splice.Proofs.Expansion
import Splice.Proofs.NormalPath
import Splice.Proofs.RuleWords
import Splice.Proofs.Renaming
import Splice.Proofs.Dependence
import Splice.Proofs.HeldFiles
import Splice.Proofs.Utf8
import Splice.Proofs.Codecs
import Splice.Proofs.BundleOnDisk
import Splice.Proofs.Merging
import Splice.Proofs.JoinedNames
import Splice.Proofs.StoredNames
import Splice.Proofs.RealPath
import Splice.Proofs.Identities
import Splice.Proofs.Lookups
import Splice.Proofs.WrittenFiles
import Splice.Proofs.CommandRuns
import Splice.Proofs.BuildEffects
import Splice.Proofs.FilledDisks
import Splice.Proofs.ChangedDisks
import Splice.Proofs.WrittenText
import Splice.Proofs.Grammar
import Splice.Proofs.LineEnds
import Splice.Proofs.JoinedLines
import Splice.Proofs.Flattened
import Splice.Proofs.Iterations
import Splice.Proofs.MissingFiles
import Splice.Proofs.DistinctKeys
import Splice.Proofs.DeepMerge
import Splice.Proofs.Overrides
import Splice.Proofs.NearestFile
import Splice.Proofs.SearchPaths
