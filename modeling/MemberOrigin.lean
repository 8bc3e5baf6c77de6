import MemberOrigin.Main
import MemberOrigin.Proofs.Classification.Runs
import MemberOrigin.Proofs.Generated.Equals
import MemberOrigin.Proofs.Generated.PrintMembers
import MemberOrigin.Proofs.Ty.RoundTrip
import MemberOrigin.Session
import MemberOrigin.Ty.Node
import MemberOrigin.Proofs.Classification.ComparedFields
import MemberOrigin.Proofs.Classification.Rearrangement
import MemberOrigin.Proofs.Classification.RenderedText
import MemberOrigin.Proofs.Dump.Places
import MemberOrigin.Proofs.Ty.Faithful
import MemberOrigin.Proofs.Cli.ExitCodes
import MemberOrigin.Proofs.Generated.FirstReturn
import MemberOrigin.Proofs.Generated.MembersStep
import MemberOrigin.Proofs.Ty.Identity
import MemberOrigin.Proofs.Ty.ValueTuple
import MemberOrigin.Proofs.Ty.Erasure
import MemberOrigin.Proofs.Code.ShortCircuit
import MemberOrigin.Proofs.Classification.StoredValues
import MemberOrigin.Proofs.Dump.Entries
import MemberOrigin.Proofs.Dump.Reports
import MemberOrigin.Proofs.Dump.DefaultTokens
import MemberOrigin.Proofs.Cli.NearestConfig
import MemberOrigin.Proofs.Cli.Grammar
import MemberOrigin.Proofs.Code.Listing
import MemberOrigin.Proofs.Dump.Instructions
import MemberOrigin.Proofs.Dump.CallSites
import MemberOrigin.Proofs.Ty.Segments
