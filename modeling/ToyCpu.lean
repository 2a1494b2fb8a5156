import ToyCpu.Main
import ToyCpu.Memory.Lemmas
import ToyCpu.Proofs.Frame
import ToyCpu.Proofs.Moves
import ToyCpu.Proofs.Replay
import ToyCpu.Proofs.Isolation
import ToyCpu.Proofs.TraceShape
import ToyCpu.Proofs.Progress
import ToyCpu.Proofs.SplitRun
import ToyCpu.Proofs.Pausing
import ToyCpu.Proofs.Words
import ToyCpu.Proofs.Rounding
import ToyCpu.Proofs.Digits
import ToyCpu.Proofs.Shortest
import ToyCpu.Proofs.DecimalGrammar
import ToyCpu.Proofs.Numerals
import ToyCpu.Proofs.JsonText
import ToyCpu.Proofs.SnapshotCodec
import ToyCpu.Proofs.Canonical
import ToyCpu.Proofs.Likeness
import ToyCpu.Proofs.Resuming
import ToyCpu.Proofs.Renumbering
import ToyCpu.Proofs.RunStates
import ToyCpu.Proofs.Indistinct
import ToyCpu.Proofs.Conversation
import ToyCpu.Proofs.Fewest
import ToyCpu.Proofs.Worth
import ToyCpu.Proofs.NumberText
import ToyCpu.Proofs.Faults
import ToyCpu.Proofs.StoredValues
import ToyCpu.Proofs.Leftovers
import ToyCpu.Proofs.Nearest
import ToyCpu.Proofs.NumberGrammar
import ToyCpu.Proofs.BareAddresses
import ToyCpu.Proofs.FreeAddresses
import ToyCpu.Proofs.Appending
import ToyCpu.Proofs.Overwriting
import ToyCpu.Proofs.InFlight
import ToyCpu.Proofs.Stepping
import ToyCpu.Proofs.Capitals
import ToyCpu.Proofs.Decoding
import ToyCpu.Proofs.TraceLines
import ToyCpu.Proofs.Operations
import ToyCpu.Proofs.Listing
import ToyCpu.Proofs.FinalState
