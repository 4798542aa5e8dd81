import EventBuckets.Main
import EventBuckets.State.Cbor
import EventBuckets.Proofs.Ring
import EventBuckets.Proofs.Sound
import EventBuckets.Proofs.SampledSpans
import EventBuckets.Proofs.InStep
import EventBuckets.Proofs.Jumps
import EventBuckets.Proofs.Conservation
import EventBuckets.Proofs.Nearest
import EventBuckets.Proofs.NumberText
import EventBuckets.Proofs.Restored
import EventBuckets.Proofs.UnknownTags
import EventBuckets.Proofs.RestoredCounts
import EventBuckets.Proofs.Compatible
import EventBuckets.Proofs.Contents
import EventBuckets.Proofs.Removal
import EventBuckets.Proofs.Names
import EventBuckets.Proofs.Reuse
import EventBuckets.Proofs.Merging
import EventBuckets.Proofs.SpanAgreement
import EventBuckets.Proofs.Lines
import EventBuckets.Proofs.Passing
import EventBuckets.Proofs.SpanLines
import EventBuckets.Proofs.CborText
import EventBuckets.Proofs.JsonText
import EventBuckets.Proofs.Encodings
import EventBuckets.Proofs.Skipped
import EventBuckets.Proofs.Available
import EventBuckets.Proofs.SameRecords
import EventBuckets.Proofs.Coherence
import EventBuckets.Proofs.Listing
import EventBuckets.Proofs.Grammar
import EventBuckets.Proofs.Conformance
import EventBuckets.Proofs.Atomic
import EventBuckets.Proofs.Iteration
import EventBuckets.Proofs.Release
import EventBuckets.Proofs.ReleaseCount
import EventBuckets.Proofs.Numeric
import EventBuckets.Proofs.Sampling
import EventBuckets.Proofs.Departures
import EventBuckets.Proofs.SkipsFirst
import EventBuckets.Proofs.FeatureAgreement
import EventBuckets.Proofs.Bijection
import EventBuckets.Proofs.MergeLaws
import EventBuckets.Proofs.Summaries
import EventBuckets.Proofs.Dimensions
import EventBuckets.Proofs.Lengths
import EventBuckets.Proofs.Sharing
