import Chip8.Emulator.Command
import Chip8.Main
import Chip8.Proofs.Addresses
import Chip8.Proofs.Domain
import Chip8.Proofs.Faults
import Chip8.Proofs.BlockRead
import Chip8.Proofs.BlockWrite
import Chip8.Proofs.WriteCheck
import Chip8.Proofs.Step
import Chip8.Proofs.InterpreterArea
import Chip8.Proofs.Loading
import Chip8.Proofs.RunStates
import Chip8.Proofs.Subroutines
import Chip8.Proofs.KeyWait
import Chip8.Proofs.Pacing
import Chip8.Proofs.PacingRange
import Chip8.Proofs.PowerOn
import Chip8.Proofs.History
import Chip8.Proofs.Countdown
import Chip8.Proofs.DrawFlag
import Chip8.Proofs.Commutation
import Chip8.Proofs.Replay
import Chip8.Proofs.Hidden
import Chip8.Proofs.Peek
import Chip8.Proofs.TableOrder
import Chip8.Proofs.LogStates
import Chip8.Proofs.Sprite
import Chip8.Proofs.Torus
import Chip8.Proofs.Assembly
import Chip8.Proofs.Disassembly
import Chip8.Proofs.Ownership
import Chip8.Proofs.StraightLine
import Chip8.Proofs.KeyEvents
import Chip8.Proofs.Arithmetic
import Chip8.Proofs.BlockTransfer
import Chip8.Proofs.Drawing
