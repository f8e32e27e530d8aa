import Escalation.Event
import Escalation.Failure.Basic
import Escalation.Failure.Class
import Escalation.Failure.Display
import Escalation.Failure.Stored
import Escalation.Failure.SystemError
import Escalation.Failure.Trace
import Escalation.Machine.Delivery
import Escalation.Machine.Overrides
import Escalation.Machine.Perform
import Escalation.Machine.Raising
import Escalation.Machine.Record
import Escalation.Machine.State
import Escalation.Machine.Threads
import Escalation.Override.Link
import Escalation.Override.Stack
import Escalation.Policy.Basic
import Escalation.Policy.Sink
import Escalation.Policy.Verdict
import Escalation.Program.Draft
import Escalation.Program.Op
import Escalation.Program.Statement
import Escalation.Report
import Escalation.Session
import Escalation.Settings
import Escalation.Table
import Escalation.Text.Blank
import Escalation.Text.Excerpt
import Escalation.Text.Indent
import Escalation.Text.Layout
import Escalation.Text.Magnitude
import Escalation.Text.Quoted
import Escalation.Text.Replace
import Escalation.Text.Visible
import Escalation.Proofs.Contract
import Escalation.Proofs.Aside
import Escalation.Proofs.Discipline
import Escalation.Proofs.Governed
import Escalation.Proofs.Moments
import Escalation.Proofs.History
import Escalation.Proofs.Ledger
import Escalation.Proofs.Following
import Escalation.Proofs.Refinement
import Escalation.Proofs.NextLink
import Escalation.Proofs.Scoped
import Escalation.Proofs.Restoration
import Escalation.Proofs.Chain
import Escalation.Proofs.Outcome
import Escalation.Proofs.Dispatch
import Escalation.Proofs.Agreement
import Escalation.Proofs.Removal
import Escalation.Proofs.ReleaseOrder
import Escalation.Proofs.Floor
import Escalation.Proofs.Relay
import Escalation.Proofs.Finishing
import Escalation.Proofs.Termination
import Escalation.Proofs.Composition
import Escalation.Proofs.Course
import Escalation.Proofs.Transcript
import Escalation.Proofs.Emission
import Escalation.Proofs.Reading
import Escalation.Proofs.Narrative
import Escalation.Proofs.Layers
import Escalation.Proofs.Builds
import Escalation.Proofs.Ownership
import Escalation.Proofs.Accounting
import Escalation.Proofs.Places
import Escalation.Proofs.Lifetime
import Escalation.Proofs.Variables
import Escalation.Proofs.Writing
import Escalation.Proofs.Catching
import Escalation.Proofs.Preloading
import Escalation.Proofs.Loading
import Escalation.Proofs.StoredForms
import Escalation.Proofs.Remarks
import Escalation.Proofs.Capturing
import Escalation.Proofs.Bearing
import Escalation.Proofs.Provenance
import Escalation.Proofs.Reporting
import Escalation.Proofs.Raises
