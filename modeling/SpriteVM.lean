import SpriteVM.Instruction.Pattern
import SpriteVM.Machine.Action
import SpriteVM.Inspect.Overview
import SpriteVM.Main
import SpriteVM.Proofs.Reachable
import SpriteVM.Proofs.Failure
import SpriteVM.Proofs.Subroutine
import SpriteVM.Proofs.Footprint
import SpriteVM.Proofs.Waiting
import SpriteVM.Proofs.Cadence
import SpriteVM.Proofs.Isolation
import SpriteVM.Proofs.Assembling
import SpriteVM.Proofs.Hints
import SpriteVM.Proofs.Randomness
import SpriteVM.Proofs.Dialogue
import SpriteVM.Proofs.Condensing
import SpriteVM.Proofs.Reading
import SpriteVM.Proofs.Sprites
import SpriteVM.Proofs.Answering
import SpriteVM.Proofs.Telling
import SpriteVM.Proofs.Tables
import SpriteVM.Proofs.MemoryTable
import SpriteVM.Proofs.Lossless
import SpriteVM.Proofs.Layering
import SpriteVM.Proofs.Branching
import SpriteVM.Proofs.Arithmetic
import SpriteVM.Proofs.Transfers
import SpriteVM.Proofs.Loading
import SpriteVM.Proofs.Listing
import SpriteVM.Proofs.Walking
import SpriteVM.Proofs.Dumping
import SpriteVM.Proofs.Parsing
import SpriteVM.Proofs.Printing
import SpriteVM.Proofs.Mnemonics
import SpriteVM.Proofs.Partition
import SpriteVM.Proofs.Grid
import SpriteVM.Proofs.Logging
import SpriteVM.Proofs.Keys
