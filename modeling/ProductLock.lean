import ProductLock.Main
import ProductLock.Proofs.Numeral
import ProductLock.Proofs.Version.Grammar
import ProductLock.Proofs.Version.Order
import ProductLock.Proofs.Dependency.Terms
import ProductLock.Proofs.Dependency.Merge
import ProductLock.Proofs.Dependency.Merged
import ProductLock.Proofs.Dependency.Conflict
import ProductLock.Proofs.Resolution.Gather
import ProductLock.Proofs.Resolution.Entries
import ProductLock.Proofs.Resolution.Declared
import ProductLock.Proofs.Resolution.Satisfiable
import ProductLock.Proofs.Resolution.Contents
import ProductLock.Proofs.Resolution.Conflict
import ProductLock.Proofs.Lockfile.Line
import ProductLock.Proofs.Text.Lines
import ProductLock.Proofs.Lockfile.RoundTrip
import ProductLock.Proofs.Dependency.Masking
import ProductLock.Proofs.Dependency.Diverging
import ProductLock.Proofs.Resolution.Order
import ProductLock.Proofs.Resolution.Ignored
import ProductLock.Proofs.Resolution.Stable
import ProductLock.Proofs.Version.Comparison
import ProductLock.Proofs.Resolution.Redundant
import ProductLock.Proofs.Tree.Basic
import ProductLock.Proofs.Tree.Replace
import ProductLock.Proofs.Tree.Files
import ProductLock.Proofs.Plan
import ProductLock.Proofs.Tree.Frame
import ProductLock.Proofs.Lockfile.Sync
import ProductLock.Proofs.Lockfile.Modes
import ProductLock.Proofs.Lockfile.Gate
import ProductLock.Proofs.Double.Text
import ProductLock.Proofs.Json.Text
import ProductLock.Proofs.Json.Number
import ProductLock.Proofs.Json.Scalar
import ProductLock.Proofs.Json.Document
import ProductLock.Proofs.Manifest
import ProductLock.Proofs.CommandLine.Request
import ProductLock.Proofs.CommandLine.Resolve
import ProductLock.Proofs.CommandLine.Rerun
import ProductLock.Proofs.CommandLine.Decision
import ProductLock.Proofs.CommandLine.Refusal
import ProductLock.Proofs.CommandLine.Failing
import ProductLock.Proofs.Schema
import ProductLock.Proofs.Json.Limit
import ProductLock.Proofs.Recommendation.Blob
import ProductLock.Proofs.Recommendation.Discovery
import ProductLock.Proofs.Lockfile.Records
import ProductLock.Proofs.Lockfile.Normal
import ProductLock.Proofs.Config.Load
import ProductLock.Proofs.Resolution.Superfluous
import ProductLock.Proofs.Version.Fault
import ProductLock.Proofs.Dependency.Refusal
import ProductLock.Proofs.Dependency.Laws
import ProductLock.Proofs.Resolution.Permuted
import ProductLock.Proofs.Version.Spelling
import ProductLock.Proofs.Version.Kinds
import ProductLock.Proofs.Version.Matching
import ProductLock.Proofs.Version.Inclusion
import ProductLock.Proofs.Recommendation.Whole
import ProductLock.Proofs.Recommendation.Files
import ProductLock.Proofs.Lockfile.Release
import ProductLock.Proofs.Product
import ProductLock.Proofs.Json.Exact
import ProductLock.Proofs.Manifest.Extensions
import ProductLock.Proofs.Manifest.RoundTrip
import ProductLock.Proofs.Tree.Atomic
import ProductLock.Proofs.Tree.Fault
import ProductLock.Proofs.Tree.Changes
import ProductLock.Proofs.Json.Range
import ProductLock.Proofs.Diff.Block
import ProductLock.Proofs.Diff.Script
import ProductLock.Proofs.Diff.Unified
import ProductLock.Proofs.Lockfile.Difference
