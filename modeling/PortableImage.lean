import PortableImage.Backend.Bytecode
import PortableImage.Graph.Arena.Laws
import PortableImage.Graph.Script
import PortableImage.Reading
import PortableImage.Session.Run
import PortableImage.Proofs.Graph.Growth
import PortableImage.Proofs.Graph.Spread
import PortableImage.Proofs.Graph.Accounts
import PortableImage.Proofs.Graph.Saturation
import PortableImage.Proofs.Graph.Plan
import PortableImage.Proofs.Graph.LeastFixedPoint
import PortableImage.Proofs.Graph.Quiescence
import PortableImage.Proofs.Graph.Failures
import PortableImage.Proofs.Portable.SoundLedgers
import PortableImage.Proofs.Portable.DiscoveryOrder
import PortableImage.Proofs.Portable.TypeSignatures
import PortableImage.Proofs.Program.Assembly
import PortableImage.Proofs.Program.Admission
import PortableImage.Proofs.Program.MemberIndices
import PortableImage.Proofs.Program.Family
import PortableImage.Proofs.Program.Receivers
import PortableImage.Proofs.Session.Yields
import PortableImage.Proofs.Session.Planning
import PortableImage.Proofs.Session.Answers
import PortableImage.Proofs.Session.Expanding
import PortableImage.Proofs.Session.Emitting
import PortableImage.Proofs.Session.Finishing
import PortableImage.Proofs.Session.Completion
import PortableImage.Proofs.Session.ClosedImages
import PortableImage.Proofs.Session.UsedSlots
import PortableImage.Proofs.Graph.Twins
import PortableImage.Proofs.Backend.Blindness
import PortableImage.Proofs.Graph.Starting
import PortableImage.Proofs.Graph.Renumbering
import PortableImage.Proofs.Portable.SignatureFaults
import PortableImage.Proofs.Session.AgreeingEmissions
import PortableImage.Proofs.Session.CleanEmissions
import PortableImage.Proofs.Session.RootOrder
import PortableImage.Proofs.Session.ListedTokens
import PortableImage.Proofs.Graph.Interruption
import PortableImage.Proofs.Session.Interruption
import PortableImage.Proofs.Backend.Forwarding
import PortableImage.Proofs.Session.Faults
import PortableImage.Proofs.Session.Requesters
import PortableImage.Proofs.Session.InwardNeeds
import PortableImage.Proofs.Session.Concluding
import PortableImage.Proofs.Session.Strays
import PortableImage.Proofs.Session.Parts
import PortableImage.Proofs.Session.Indifference
import PortableImage.Proofs.Graph.Restaging
import PortableImage.Proofs.Session.FewerMarks
import PortableImage.Proofs.Session.Rebinding
import PortableImage.Proofs.Session.MoreRoots
import PortableImage.Proofs.Graph.Conservation
import PortableImage.Proofs.Portable.LedgerHistories
import PortableImage.Portable.EntryForm
import PortableImage.Proofs.Portable.EntrySignatures
import PortableImage.Proofs.Session.CompiledCallees
import PortableImage.Proofs.Program.ReferenceRows
import PortableImage.Proofs.Program.RegistrationOrder
import PortableImage.Proofs.Graph.FirstFailure
import PortableImage.Proofs.Program.Lineages
import PortableImage.Proofs.Portable.LocalTokens
import PortableImage.Proofs.Graph.Attention
import PortableImage.Proofs.Graph.Lifetime
import PortableImage.Proofs.Portable.WrittenTables
import PortableImage.Proofs.Graph.ArenaHistories
import PortableImage.Proofs.Graph.EdgeEnds
import PortableImage.Proofs.Graph.PictureText
import PortableImage.Proofs.Graph.Pictures
import PortableImage.Proofs.Session.StandingAnswers
import PortableImage.Proofs.Session.TidyLayouts
import PortableImage.Proofs.Session.EmittedSlots
import PortableImage.Proofs.Session.LaidOutArtifacts
import PortableImage.Proofs.Portable.CompressedNumbers
import PortableImage.Proofs.Session.ReferenceWays
