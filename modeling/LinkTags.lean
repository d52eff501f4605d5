import LinkTags.Main
import LinkTags.Proofs.Query.RoundTrip
import LinkTags.Proofs.Listing.Agreement
import LinkTags.Proofs.Query.Diagnosis
import LinkTags.Proofs.FileSystem.Entry
import LinkTags.Proofs.Search.Rewriting
import LinkTags.Proofs.FileSystem.Carry
import LinkTags.Proofs.Tagging.Effect
import LinkTags.Proofs.Tagging.Inverse
import LinkTags.Proofs.Tagging.Conflict
import LinkTags.Proofs.Search.Change
import LinkTags.Proofs.Run.Operations
import LinkTags.Proofs.Run.Safety
import LinkTags.Proofs.Tag.RoundTrip
import LinkTags.Proofs.FileSystem.Straight
import LinkTags.Proofs.Tag.Faithful
import LinkTags.Proofs.Run.Batch
import LinkTags.Proofs.Run.Call
import LinkTags.Proofs.Run.Undo
import LinkTags.Proofs.Listing.Complete
import LinkTags.Proofs.Library.Root
import LinkTags.Proofs.Run.List
import LinkTags.Proofs.Search.Failure
import LinkTags.Proofs.FileSystem.Links
import LinkTags.Proofs.Tagging.TagOutcome
import LinkTags.Proofs.Library.Discovery
import LinkTags.Proofs.Tagging.UntagOutcome
import LinkTags.Proofs.Query.Runs
import LinkTags.Proofs.Search.Leaf
import LinkTags.Proofs.Search.Order
import LinkTags.Proofs.Library.Start
import LinkTags.Proofs.Listing.Loop
import LinkTags.Proofs.Listing.Files
import LinkTags.Proofs.Run.Skip
import LinkTags.Proofs.Library.Init
import LinkTags.Proofs.Query.Compose
import LinkTags.Proofs.Library.Descent
import LinkTags.Proofs.Path.Normal
import LinkTags.Proofs.Tag.Resolve
import LinkTags.Proofs.Run.Report
import LinkTags.Proofs.Query.Reading
import LinkTags.Proofs.Listing.Parents
