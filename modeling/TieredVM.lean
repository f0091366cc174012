import TieredVM.Instruction.Listing
import TieredVM.Image.Decode
import TieredVM.Image.Encode
import TieredVM.Text.Quoted
import TieredVM.Text.Utf8
import TieredVM.Program.Dump
import TieredVM.Assembler.Steps
import TieredVM.Assembler.Tables
import TieredVM.Verify.Load
import TieredVM.Machine.Interpreter
import TieredVM.Machine.Threaded
import TieredVM.Machine.Calls
import TieredVM.Machine.Access
import TieredVM.Session.Perform
import TieredVM.CommandLine.Invocation
import TieredVM.Main
import TieredVM.Proofs.Except
import TieredVM.Proofs.Instruction.Encoding
import TieredVM.Proofs.Verify.Typing
import TieredVM.Proofs.Verify.Walk
import TieredVM.Proofs.Verify.Acceptance
import TieredVM.Proofs.Machine.Perform
import TieredVM.Proofs.Machine.Alignment
import TieredVM.Proofs.Machine.Effect
import TieredVM.Proofs.Machine.Follow
import TieredVM.Proofs.Session.Reached
import TieredVM.Proofs.Session.Transparency
import TieredVM.Proofs.Image.Numbering
import TieredVM.Proofs.Verify.Accepted
import TieredVM.Proofs.Verify.Reordering
import TieredVM.Proofs.Verify.Linking
import TieredVM.Proofs.Expression.Computes
import TieredVM.Proofs.Machine.Contents
import TieredVM.Proofs.Verify.CallGraph
import TieredVM.Proofs.Machine.Frame
import TieredVM.Proofs.Verify.Flow
import TieredVM.Proofs.Machine.Typed
import TieredVM.Proofs.Session.Safety
import TieredVM.Proofs.Image.Reading
import TieredVM.Proofs.Image.Codec
import TieredVM.Proofs.Machine.Moves
import TieredVM.Proofs.Session.Visits
import TieredVM.Proofs.Machine.Slots
import TieredVM.Proofs.Session.Counting
import TieredVM.Proofs.Session.Commands
import TieredVM.Proofs.Session.Accounts
import TieredVM.Proofs.Machine.Yields
import TieredVM.Proofs.Session.Brackets
import TieredVM.Proofs.Machine.Bounds
import TieredVM.Proofs.Session.Robustness
import TieredVM.Proofs.Verify.ControlPath
import TieredVM.Proofs.Machine.Translation
import TieredVM.Proofs.Machine.Host
import TieredVM.Proofs.Session.Timeless
import TieredVM.Proofs.CommandLine.Selection
import TieredVM.Proofs.CommandLine.Stages
import TieredVM.Proofs.CommandLine.Invocation
import TieredVM.Proofs.CommandLine.Live
import TieredVM.Proofs.Verify.FileOrder
import TieredVM.Proofs.Image.Truncation
import TieredVM.Proofs.Assembler.Assembly
import TieredVM.Proofs.Instruction.Stream
import TieredVM.Proofs.Machine.Storage
import TieredVM.Proofs.Assembler.Contract
import TieredVM.Proofs.Assembler.Container
import TieredVM.Proofs.Session.LoopFree
import TieredVM.Proofs.Session.Interference
import TieredVM.Proofs.CommandLine.Grammar
import TieredVM.Proofs.Program.Lines
import TieredVM.Proofs.Program.Faithful
import TieredVM.Proofs.Instruction.Operand
