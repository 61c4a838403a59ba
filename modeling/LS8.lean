import LS8.Inspect
import LS8.Main
import LS8.Proofs.Cycle
import LS8.Proofs.Faults
import LS8.Proofs.Stack
import LS8.Proofs.Table
import LS8.Proofs.Emission
import LS8.Proofs.Comparison
import LS8.Proofs.Printing
import LS8.Proofs.Addresses
import LS8.Proofs.StraightLine
import LS8.Proofs.Calls
import LS8.Proofs.Tracing
import LS8.Proofs.Chronicle
import LS8.Proofs.Overlay
import LS8.Proofs.Depth
import LS8.Proofs.Parsing
import LS8.Proofs.Rendering
import LS8.Proofs.Recurrence
import LS8.Proofs.Invocation
import LS8.Proofs.EndToEnd
import LS8.Proofs.Divergence
import LS8.Proofs.Footprint
import LS8.Proofs.Transcript
import LS8.Proofs.Countdown
import LS8.Proofs.Subroutine
import LS8.Proofs.Composition
import LS8.Proofs.Losslessness
import LS8.Proofs.Saving
import LS8.Proofs.Writes
import LS8.Proofs.Quotation
