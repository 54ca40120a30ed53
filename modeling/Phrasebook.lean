import Phrasebook.Main
import Phrasebook.Store.Check
import Phrasebook.Proofs.Calls
import Phrasebook.Proofs.Tally
import Phrasebook.Proofs.Revival
import Phrasebook.Proofs.Sampling
import Phrasebook.Proofs.Reread
import Phrasebook.Proofs.WellFormed
import Phrasebook.Proofs.Grammar
import Phrasebook.Proofs.Dispatch
import Phrasebook.Proofs.Loops
import Phrasebook.Proofs.Dangling
import Phrasebook.Journal
import Phrasebook.Proofs.Ending
import Phrasebook.Proofs.Lines
import Phrasebook.Proofs.Making
import Phrasebook.Proofs.Heads
import Phrasebook.Proofs.Rows
import Phrasebook.Proofs.Shown
import Phrasebook.Proofs.Apart
import Phrasebook.Proofs.Joining
import Phrasebook.Proofs.Trailing
import Phrasebook.Proofs.Nesting
import Phrasebook.Proofs.Faults
import Phrasebook.Proofs.Inlining
import Phrasebook.Proofs.Glosses
import Phrasebook.Proofs.Overwriting
import Phrasebook.Proofs.Replay
import Phrasebook.Proofs.Reports
import Phrasebook.Proofs.Attempts
import Phrasebook.Proofs.Blame
import Phrasebook.Proofs.Agreement
import Phrasebook.Proofs.Turns
import Phrasebook.Proofs.Blocks
import Phrasebook.Proofs.Spacing
import Phrasebook.Proofs.Entities
import Phrasebook.Proofs.Circles
import Phrasebook.Proofs.Requests
import Phrasebook.Proofs.Unwrapping
import Phrasebook.Proofs.Changes
import Phrasebook.Proofs.Literal
import Phrasebook.Proofs.Merging
import Phrasebook.Proofs.Asking
import Phrasebook.Proofs.Tokens
import Phrasebook.Proofs.Limits
import Phrasebook.Proofs.Overdrawing
import Phrasebook.Proofs.Addressing
import Phrasebook.Proofs.Seams
