import ChipEight.Hex
import ChipEight.Error
import ChipEight.Layout
import ChipEight.Timer
import ChipEight.Display.Basic
import ChipEight.Display.Sprite
import ChipEight.Font
import ChipEight.Instruction.Basic
import ChipEight.Instruction.Encoding
import ChipEight.Instruction.Listing
import ChipEight.Keypad
import ChipEight.Host
import ChipEight.Memory
import ChipEight.Machine.Basic
import ChipEight.Log
import ChipEight.Machine.Execute
import ChipEight.Machine.Step
import ChipEight.Machine.Run
import ChipEight.Setup
import ChipEight.Proofs.Effects
import ChipEight.Proofs.Fault
import ChipEight.Proofs.CallStack
import ChipEight.Proofs.Beeper
import ChipEight.Proofs.StraightLine
import ChipEight.Proofs.WellFormed
import ChipEight.Proofs.IndexOut
import ChipEight.Proofs.KeyWait
import ChipEight.Proofs.Pixels
import ChipEight.Proofs.Plain.Step
import ChipEight.Proofs.Plain.Agreement
import ChipEight.Proofs.RunSteps
import ChipEight.Proofs.FaultCauses
import ChipEight.Proofs.Lockstep
import ChipEight.Proofs.Ticks
import ChipEight.Proofs.MemorySize
import ChipEight.Proofs.Countdown
import ChipEight.Proofs.Writes
import ChipEight.Proofs.Answers
import ChipEight.Proofs.Readings
import ChipEight.Proofs.Halts
import ChipEight.Proofs.Missing
import ChipEight.Proofs.Drawing
import ChipEight.Proofs.Stamps
import ChipEight.Proofs.Arithmetic
import ChipEight.Proofs.Footprint
import ChipEight.Proofs.SpriteSource
import ChipEight.Proofs.IndexSums
import ChipEight.Proofs.SavedRegisters
import ChipEight.Proofs.Decoding
import ChipEight.Proofs.Numerals
import ChipEight.Proofs.Messages
import ChipEight.Proofs.Lines
import ChipEight.Proofs.LogTrail
import ChipEight.Proofs.ExactLoad
import ChipEight.Proofs.Glyphs
import ChipEight.Proofs.SetupCalls
import ChipEight.Proofs.Partition
