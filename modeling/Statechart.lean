import Statechart.Checkpoint.Binary
import Statechart.Checkpoint.Document
import Statechart.Real.Reader
import Statechart.Session.Histories
import Statechart.Session.Run
import Statechart.Session.Scopes
import Statechart.Proofs.Layout
import Statechart.Proofs.Callbacks
import Statechart.Proofs.Rules
import Statechart.Proofs.Outline
import Statechart.Proofs.Idle
import Statechart.Proofs.Building
import Statechart.Proofs.Composing
import Statechart.Proofs.Moves
import Statechart.Proofs.Operating
import Statechart.Proofs.Activity
import Statechart.Proofs.Transitions
import Statechart.Proofs.Places
import Statechart.Proofs.Ways
import Statechart.Proofs.Spans
import Statechart.Proofs.Ledger
import Statechart.Proofs.Reaching
import Statechart.Proofs.Receipts
import Statechart.Proofs.Lasting
import Statechart.Proofs.Mailboxes
import Statechart.Proofs.Departures
import Statechart.Proofs.Extent
import Statechart.Proofs.Failures
import Statechart.Proofs.Steering
import Statechart.Proofs.Descent
import Statechart.Proofs.Commands
import Statechart.Proofs.Segments
import Statechart.Proofs.Blueprints
import Statechart.Proofs.Naming
import Statechart.Proofs.Restoring
import Statechart.Proofs.Surveys
import Statechart.Proofs.Recorders
import Statechart.Proofs.Notifications
import Statechart.Proofs.Links
import Statechart.Proofs.Variables
import Statechart.Proofs.Scopes
import Statechart.Proofs.Recalls
import Statechart.Proofs.Expansion
import Statechart.Proofs.Deliveries
import Statechart.Proofs.Documents
import Statechart.Proofs.Instants
import Statechart.Proofs.Encodings
import Statechart.Proofs.Declining
import Statechart.Proofs.Lookups
import Statechart.Proofs.Bystanders
import Statechart.Proofs.Parallel
import Statechart.Proofs.Arrangements
import Statechart.Proofs.Exchanges
import Statechart.Proofs.Raising
import Statechart.Proofs.Reordering
import Statechart.Proofs.Pieces
import Statechart.Proofs.Violations
import Statechart.Proofs.Interleaving
import Statechart.Proofs.Resetting
import Statechart.Proofs.Leaving
import Statechart.Proofs.Numbering
import Statechart.Proofs.Constructing
import Statechart.Proofs.Growing
import Statechart.Proofs.Remarks
import Statechart.Proofs.Instances
