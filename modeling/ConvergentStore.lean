import ConvergentStore.Network.Step
import ConvergentStore.Proofs.Channel.Numbering
import ConvergentStore.Proofs.Network.Settling
import ConvergentStore.Proofs.Replica.Breaking
import ConvergentStore.Proofs.Replica.Key
import ConvergentStore.Proofs.Replica.Overflow
import ConvergentStore.Proofs.Session.Acceptance
import ConvergentStore.Proofs.Session.Growth
import ConvergentStore.Proofs.Session.Independence
import ConvergentStore.Proofs.Session.Listening
import ConvergentStore.Proofs.Session.Publication
import ConvergentStore.Proofs.Session.Redelivery
import ConvergentStore.Replicated.Guard
import ConvergentStore.Session.Step
import ConvergentStore.Proofs.Replica.ClearText
import ConvergentStore.Proofs.Replica.Effect
import ConvergentStore.Proofs.Session.Exhaustion
import ConvergentStore.Proofs.Session.Outcomes
import ConvergentStore.Proofs.Json.Reader
import ConvergentStore.Proofs.Number.Grammar
import ConvergentStore.Proofs.Text.Grammar
import ConvergentStore.Proofs.Json.Grammar
import ConvergentStore.Proofs.Json.Members
import ConvergentStore.Proofs.Operation.Shape
import ConvergentStore.Proofs.Operation.Reading
import ConvergentStore.Proofs.Number.Rounding
import ConvergentStore.Proofs.Replicated.Listing
import ConvergentStore.Proofs.Replicated.Foremost
import ConvergentStore.Proofs.Replicated.Sums
import ConvergentStore.Proofs.Session.Timing
import ConvergentStore.Proofs.Replica.Screening
import ConvergentStore.Proofs.Replicated.Batch
import ConvergentStore.Proofs.Retry.Runs
import ConvergentStore.Proofs.Text.Blank
import ConvergentStore.Proofs.Retry.Delays
import ConvergentStore.Proofs.Number.Lenient
import ConvergentStore.Proofs.Settings
import ConvergentStore.Proofs.Replicated.Rejection
