import Strands.Scenario.Play
import Strands.Settings
import Strands.Proofs.Event
import Strands.Proofs.Stake
import Strands.Proofs.Move
import Strands.Proofs.StepAccounts
import Strands.Proofs.History
import Strands.Proofs.Law
import Strands.Proofs.Record
import Strands.Proofs.Once
import Strands.Proofs.Ground
import Strands.Proofs.Grounding
import Strands.Proofs.Place
import Strands.Proofs.Sound
import Strands.Proofs.Completion
import Strands.Proofs.Lanes
import Strands.Proofs.Serial
import Strands.Proofs.Finished
import Strands.Proofs.Sheltered
import Strands.Proofs.Handles
import Strands.Proofs.Beat
import Strands.Proofs.Calm
import Strands.Proofs.RunQueueSteps
import Strands.Proofs.Backing
import Strands.Proofs.Closing
import Strands.Proofs.Deed
import Strands.Proofs.Plain
import Strands.Proofs.Quest
import Strands.Proofs.Vouched
import Strands.Proofs.Units
import Strands.Proofs.Delivery
import Strands.Proofs.Drain
import Strands.Proofs.Course
import Strands.Proofs.Resolving
import Strands.Proofs.Pipeline
import Strands.Proofs.Cells
import Strands.Proofs.LaneUnits
import Strands.Proofs.Sequential
import Strands.Proofs.Apart
import Strands.Proofs.Tokens
import Strands.Proofs.Placed
import Strands.Proofs.Joining
import Strands.Proofs.StopNotes
import Strands.Proofs.Stopping
import Strands.Proofs.Sweeps
import Strands.Proofs.ReceiverGroups
import Strands.Proofs.GroupFree
import Strands.Proofs.Alike
import Strands.Proofs.SweepSurvivors
import Strands.Proofs.Workers
import Strands.Proofs.Bypass
import Strands.Proofs.StackShape
import Strands.Proofs.Shutting
import Strands.Proofs.Deadlock
import Strands.Proofs.SelfWait
import Strands.Proofs.Quiesce
import Strands.Proofs.Turns
import Strands.Proofs.Attempts
import Strands.Proofs.WriteOnce
import Strands.Proofs.Activity
import Strands.Proofs.Faults
import Strands.Proofs.CallEnding
import Strands.Proofs.Calling
import Strands.Proofs.Underway
import Strands.Proofs.BellLock
import Strands.Proofs.Containment
import Strands.Proofs.Hosted
import Strands.Proofs.Rejection
import Strands.Proofs.Arity
import Strands.Proofs.Askings
import Strands.Proofs.Choosing
import Strands.Proofs.Sealed
import Strands.Proofs.FlightShares
import Strands.Proofs.Operations
import Strands.Proofs.Refusing
import Strands.Proofs.Scheduling
import Strands.Proofs.TurnedAway
import Strands.Proofs.Absorbing
import Strands.Proofs.Counts
import Strands.Proofs.Handlers
import Strands.Proofs.Reclaiming
import Strands.Proofs.Waking
import Strands.Proofs.Sameness
