import TokenSearch.Binary.Format
import TokenSearch.Binary32.Basic
import TokenSearch.Binary32.Arithmetic
import TokenSearch.Binary32.Elementary
import TokenSearch.Binary32.Text
import TokenSearch.Record
import TokenSearch.Configuration.Fault
import TokenSearch.Session
import TokenSearch.Configuration.Basic
import TokenSearch.ScoreMatrix
import TokenSearch.Selection.Argmax
import TokenSearch.Selection.Selector
import TokenSearch.Configuration.Reader
import TokenSearch.SequenceStore
import TokenSearch.Termination
import TokenSearch.ScoreBuffer
import TokenSearch.Buffer
import TokenSearch.Generation
import TokenSearch.Proofs.Selection.Order
import TokenSearch.Proofs.Faultless
import TokenSearch.Proofs.Rows
import TokenSearch.Proofs.Scoring
import TokenSearch.Proofs.Search.State
import TokenSearch.Proofs.Selection.Best
import TokenSearch.Proofs.Selection.Cells
import TokenSearch.Proofs.Selection.FullSort
import TokenSearch.Proofs.Selection.Selector
import TokenSearch.Proofs.Search.Greedy
import TokenSearch.Proofs.Beam.Candidates
import TokenSearch.Proofs.Beam.Independence
import TokenSearch.Proofs.Beam.Flags
import TokenSearch.Proofs.Beam.Live
import TokenSearch.Proofs.Search.Completion
import TokenSearch.Proofs.Beam.Hypotheses
import TokenSearch.Proofs.Beam.Output
import TokenSearch.Proofs.Search.Faults
import TokenSearch.Proofs.Beam.Distinct
import TokenSearch.Proofs.Beam.Stopping
import TokenSearch.Proofs.Beam.MinLength
import TokenSearch.Proofs.Beam.RealCandidates
import TokenSearch.Proofs.Sequences.History
import TokenSearch.Proofs.Beam.Process
import TokenSearch.Proofs.Beam.Pool
import TokenSearch.Proofs.RepetitionPenalty
import TokenSearch.Proofs.Selection.Agreement
import TokenSearch.Proofs.Beam.FinalRows
import TokenSearch.Proofs.Beam.LifeCycle
import TokenSearch.Proofs.Sequences.Agreement
import TokenSearch.Proofs.Beam.LastingAnswer
import TokenSearch.Proofs.Beam.FailedRead
import TokenSearch.Proofs.Configuration.Rendering
