import MapChain.Main
import MapChain.Session.Call
import MapChain.Proofs.Mappings.Groups
import MapChain.Proofs.Mappings.Reading
import MapChain.Proofs.Mappings.RoundTrip
import MapChain.Proofs.Mappings.Sums
import MapChain.Proofs.Mappings.Accepting
import MapChain.Proofs.Graph.Reach
import MapChain.Proofs.Graph.Tracing
import MapChain.Proofs.Graph.Ending
import MapChain.Proofs.Graph.Growth
import MapChain.Proofs.Path.Joining
import MapChain.Proofs.Path.Settling
import MapChain.Proofs.Path.Naming
import MapChain.Proofs.Json.Reading
import MapChain.Proofs.Json.Printing
import MapChain.Proofs.Base64.Reading
import MapChain.Proofs.SourceMap.Shrinking
import MapChain.Proofs.SourceMap.Writing
import MapChain.Proofs.Reference.Finding
import MapChain.Proofs.Reference.Coding
import MapChain.Proofs.Session.Flight
import MapChain.Proofs.Session.Attaching
import MapChain.Proofs.Session.Soundness
import MapChain.Proofs.Session.Fetching
import MapChain.Proofs.Session.Integrating
import MapChain.Proofs.Session.Awaiting
import MapChain.Proofs.Session.Waves
import MapChain.Proofs.Session.Folding
import MapChain.Proofs.Session.Surviving
import MapChain.Proofs.Session.Reached
import MapChain.Proofs.Session.Places
import MapChain.Proofs.Session.Consistency
import MapChain.Proofs.Session.Orderly
import MapChain.Proofs.Session.Calls
import MapChain.Proofs.Session.Stranding
import MapChain.Proofs.Session.Leading
import MapChain.Proofs.Session.Room
import MapChain.Proofs.Session.Quieting
import MapChain.Proofs.Session.Halting
import MapChain.Proofs.Chain.Flattening
import MapChain.Proofs.Chain.Carrying
import MapChain.Proofs.Chain.Manners
import MapChain.Proofs.Chain.Contents
import MapChain.Proofs.Chain.Numbering
import MapChain.Proofs.Chain.Emitting
import MapChain.Proofs.Chain.Refusing
import MapChain.Proofs.Chain.Inlining
import MapChain.Proofs.FileSystem.Writing
import MapChain.Proofs.Chain.Referring
import MapChain.Proofs.Path.Relating
import MapChain.Proofs.Template.Filling
import MapChain.Proofs.Chain.Distinguishing
import MapChain.Proofs.Mappings.Caching
import MapChain.Proofs.Session.Histories
import MapChain.Proofs.Session.Finality
import MapChain.Proofs.Session.Capacity
import MapChain.Proofs.Session.Origins
import MapChain.Proofs.Session.Standing
import MapChain.Proofs.Session.Orders
import MapChain.Proofs.Chain.Returning
import MapChain.Proofs.Reference.Covering
import MapChain.Proofs.Reference.Stripping
import MapChain.Proofs.Graph.Hitting
import MapChain.Proofs.Graph.Circling
import MapChain.Proofs.Graph.Stopping
import MapChain.Proofs.Chain.Keeping
import MapChain.Proofs.Chain.Repeating
import MapChain.Proofs.Chain.Agreeing
import MapChain.Proofs.Reference.Appending
import MapChain.Proofs.Reference.Rewriting
import MapChain.Proofs.Chain.Rewriting
import MapChain.Proofs.Reference.Recognizing
import MapChain.Proofs.Mappings.Limits
import MapChain.Proofs.Mappings.Canonical
import MapChain.Proofs.Chain.Counting
import MapChain.Proofs.Chain.Wrapping
import MapChain.Proofs.Path.Locating
import MapChain.Proofs.Path.Crossing
import MapChain.Proofs.Text.Replacing
import MapChain.Proofs.Template.Reading
import MapChain.Proofs.Template.Expanding
import MapChain.Proofs.Session.Seeding
import MapChain.Proofs.Session.Overriding
import MapChain.Proofs.Mappings.Evicting
import MapChain.Proofs.Words.Arithmetic
import MapChain.Proofs.Words.Reading
import MapChain.Proofs.Words.Writing
