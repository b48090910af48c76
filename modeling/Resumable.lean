import Resumable.Log
import Resumable.Session.Request
import Resumable.Tree.Printer
import Resumable.Proofs.Body.Cuts
import Resumable.Proofs.Body.Partition
import Resumable.Proofs.Body.Cases
import Resumable.Proofs.Body.Contents
import Resumable.Proofs.Body.Execution
import Resumable.Proofs.Body.Code
import Resumable.Proofs.Body.Meaning
import Resumable.Proofs.Body.Simulation
import Resumable.Proofs.Region.History
import Resumable.Proofs.Region.Layout
import Resumable.Proofs.Region.Nesting
import Resumable.Proofs.Body.Announcement
import Resumable.Proofs.Session.Performing
import Resumable.Proofs.Session.Recording
import Resumable.Proofs.Session.Layout
import Resumable.Proofs.Session.Blocks
import Resumable.Proofs.Session.Runs
import Resumable.Proofs.Session.Announcement
import Resumable.Proofs.Label.Unmarked
import Resumable.Proofs.Session.Outcomes
import Resumable.Proofs.Session.Effects
import Resumable.Proofs.Body.Numbering
import Resumable.Proofs.Session.Soundness
import Resumable.Proofs.Session.Verdicts
import Resumable.Proofs.Session.Completeness
import Resumable.Proofs.Region.Scopes
import Resumable.Proofs.Region.Targets
import Resumable.Proofs.Body.Frames
import Resumable.Proofs.Session.Growth
import Resumable.Proofs.Session.Wrapping
import Resumable.Proofs.Session.Stages
import Resumable.Proofs.Body.Bookkeeping
import Resumable.Proofs.Session.Bookkeeping
import Resumable.Proofs.Session.Attempts
import Resumable.Proofs.Body.Flat
import Resumable.Proofs.Session.Statements
import Resumable.Proofs.Session.Handlers
import Resumable.Proofs.Session.Searches
import Resumable.Proofs.Session.Targets
import Resumable.Proofs.Region.Replay
import Resumable.Proofs.Session.Nameless
import Resumable.Proofs.Session.Replay
import Resumable.Proofs.Name.Temporary
import Resumable.Proofs.Name.Allocator
import Resumable.Proofs.Name.Pool
import Resumable.Proofs.Session.Naming
import Resumable.Proofs.Session.Capture
import Resumable.Proofs.Source.Position
import Resumable.Proofs.Tree.Wrappers
import Resumable.Proofs.Tree.Marks
import Resumable.Proofs.Tree.Mapping
import Resumable.Proofs.Tree.Lines
import Resumable.Proofs.Body.Reading
import Resumable.Proofs.Body.SourceMap
import Resumable.Proofs.Body.Shape
import Resumable.Proofs.Session.Shape
import Resumable.Proofs.Tree.Composition
import Resumable.Proofs.Tree.Filling
import Resumable.Proofs.Tree.Respelling
import Resumable.Proofs.Text.Words
import Resumable.Proofs.Tree.Beginnings
import Resumable.Proofs.Tree.DanglingElse
import Resumable.Proofs.Text.Units
import Resumable.Proofs.Text.Literal
import Resumable.Proofs.Tree.Literals
import Resumable.Proofs.Text.Replacement
import Resumable.Proofs.Text.Template
import Resumable.Proofs.Text.Arguments
import Resumable.Proofs.Session.Rebuilding
import Resumable.Proofs.Session.Recorderwise
import Resumable.Proofs.Session.Spans
import Resumable.Proofs.Session.Timeline
import Resumable.Proofs.Text.LongestMatch
import Resumable.Proofs.Tree.PrefixChains
import Resumable.Proofs.Name.Candidates
import Resumable.Proofs.Text.Elision
import Resumable.Proofs.Tree.ArrayElements
