import Lox.CommandLine
import Lox.Description
import Lox.Main
import Lox.Outline
import Lox.Proofs.Scan.Nesting
import Lox.Proofs.Scan.Tiling
import Lox.Proofs.Scan.Lexicon
import Lox.Proofs.Scan.Tokens
import Lox.Proofs.Scan.Joining
import Lox.Proofs.Scan.Lines
import Lox.Proofs.Scan.Comments
import Lox.Proofs.Number.Text
import Lox.Proofs.Scan.Respelling
import Lox.Proofs.Grammar.Derivation
import Lox.Proofs.Grammar.Renaming
import Lox.Proofs.Grammar.Elsewhere
import Lox.Proofs.Grammar.Independence
import Lox.Proofs.Grammar.Boundary
import Lox.Proofs.Grammar.Trail
import Lox.Proofs.Grammar.Reads
import Lox.Proofs.Grammar.Truncation
import Lox.Proofs.Grammar.Soundness
import Lox.Proofs.Grammar.Completeness
import Lox.Proofs.Grammar.Recovery
import Lox.Proofs.Grammar.MissingOperand
import Lox.Proofs.Grammar.Printing
import Lox.Proofs.Grammar.Offences
import Lox.Proofs.Grammar.Legal
import Lox.Proofs.Cursor.Programs
import Lox.Proofs.Offsets.Pieces
import Lox.Proofs.Run.Ends
import Lox.Proofs.Run.Legal
import Lox.Proofs.Run.Parts
import Lox.Proofs.Run.Fuel
import Lox.Proofs.Run.Translation
import Lox.Proofs.Run.Likeness
import Lox.Proofs.Run.Lockstep
import Lox.Proofs.Run.Reach
import Lox.Proofs.Run.Locality
import Lox.Proofs.Run.Sequence
import Lox.Proofs.Run.Moved
import Lox.Proofs.Run.Spelled
import Lox.Proofs.Run.Renamed
import Lox.Proofs.Run.Scoping
import Lox.Proofs.Run.Made
import Lox.Proofs.Run.Points
import Lox.Proofs.Session.History
import Lox.Proofs.Session.ControlFlow
import Lox.Proofs.Session.Blame
import Lox.Proofs.Session.Splitting
import Lox.Proofs.Session.Frames
import Lox.Proofs.Session.Rejected
import Lox.Proofs.Session.Order
import Lox.Proofs.Session.Cells
import Lox.Proofs.Session.Interning
import Lox.Proofs.Session.Prompt
import Lox.Proofs.Run.Elements
import Lox.Proofs.Run.Room
import Lox.Proofs.Run.Bare
import Lox.Proofs.Run.Loops
