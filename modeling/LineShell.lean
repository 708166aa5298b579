import LineShell.Main
import LineShell.ProcessTable
import LineShell.Proofs.Encoding
import LineShell.Proofs.Input
import LineShell.Proofs.Reading
import LineShell.Proofs.Action
import LineShell.Proofs.SharedInput
import LineShell.Proofs.Serial
import LineShell.Proofs.Turns
import LineShell.Proofs.Layers
import LineShell.Proofs.Command
import LineShell.Proofs.Transparency
import LineShell.Proofs.Endings
import LineShell.Proofs.Refusals
import LineShell.Proofs.Nesting
import LineShell.Proofs.Escapes
import LineShell.Proofs.Fitting
import LineShell.Proofs.Showing
import LineShell.Proofs.Display
import LineShell.Proofs.Statuses
import LineShell.Proofs.Exits
import LineShell.Proofs.Debugging
import LineShell.Proofs.Exhaustion
import LineShell.Proofs.Interruption
import LineShell.Proofs.Front
import LineShell.Proofs.Departure
import LineShell.Proofs.Forks
import LineShell.Proofs.Steps
import LineShell.Proofs.Reaping
import LineShell.Proofs.Flushing
import LineShell.Proofs.Numerals
import LineShell.Proofs.ExitCodes
import LineShell.Proofs.Requests
import LineShell.Proofs.Locations
import LineShell.Proofs.Decoding
import LineShell.Proofs.Documents
import LineShell.Proofs.Channels
