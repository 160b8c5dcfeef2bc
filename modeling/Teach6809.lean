import Teach6809.Main
import Teach6809.Proofs.Assembly.BranchRange
import Teach6809.Proofs.Assembly.Canonical
import Teach6809.Proofs.Assembly.FirstViolation
import Teach6809.Proofs.Assembly.LabelAddress
import Teach6809.Proofs.Assembly.Layout
import Teach6809.Proofs.CommandLine.Compile
import Teach6809.Proofs.Console.Dump
import Teach6809.Proofs.Debugger.Arguments
import Teach6809.Proofs.Debugger.Counting
import Teach6809.Proofs.Debugger.Inert
import Teach6809.Proofs.Debugger.Number
import Teach6809.Proofs.Debugger.Reading
import Teach6809.Proofs.Decode.RoundTrip
import Teach6809.Proofs.Decode.Table
import Teach6809.Proofs.Machine.Arithmetic
import Teach6809.Proofs.Machine.Control
import Teach6809.Proofs.Machine.Fault
import Teach6809.Proofs.Machine.Forward
import Teach6809.Proofs.Machine.InPlace
import Teach6809.Proofs.Machine.Reload
import Teach6809.Proofs.Machine.Return
import Teach6809.Proofs.Machine.Retyped
import Teach6809.Proofs.Machine.StepLimit
import Teach6809.Proofs.Machine.Transfer
import Teach6809.Proofs.Operand.Address
import Teach6809.Proofs.Simulator.Broadcast
import Teach6809.Proofs.Simulator.Fresh
import Teach6809.Proofs.Simulator.Mirror
import Teach6809.Proofs.Simulator.Reason
import Teach6809.Proofs.Simulator.Resume
import Teach6809.Proofs.Simulator.Walk
