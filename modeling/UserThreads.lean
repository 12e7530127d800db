import UserThreads.Transition.Chains
import UserThreads.Transition.ForkJoin
import UserThreads.Transition.GuardedRun
import UserThreads.Transition.History
import UserThreads.Transition.Line
import UserThreads.Transition.Tracked
import UserThreads.Model.State
import UserThreads.Model.Scheduler
import UserThreads.Model.Pool
import UserThreads.Model.Thread
import UserThreads.Model.Sync
import UserThreads.Model.Signal
import UserThreads.Model.Step
import UserThreads.Model.Cleanup
import UserThreads.Model.Context
import UserThreads.Model.Fault
import UserThreads.Model.ForkJoin
import UserThreads.Model.Preemption
import UserThreads.Model.Programs
import UserThreads.Abstract.Move
import UserThreads.Abstract.Contract
import UserThreads.Abstract.Invariant
import UserThreads.Abstract.Scheduling
import UserThreads.Abstract.Joining
import UserThreads.Abstract.Memory
import UserThreads.Abstract.Preservation
import UserThreads.Abstract.Ranks
import UserThreads.Abstract.Switching
import UserThreads.Operations.Dispatch
import UserThreads.Operations.Scheduler
import UserThreads.Operations.Create
import UserThreads.Operations.Join
import UserThreads.Operations.Signal
import UserThreads.Operations.Sync
import UserThreads.Operations.Step
import UserThreads.Operations.Preemption
import UserThreads.Operations.Advance
import UserThreads.Operations.Cleanup
import UserThreads.Operations.Context
import UserThreads.Operations.Outline
import UserThreads.Operations.Standing
import UserThreads.Operations.Outcome
import UserThreads.Operations.Creation
import UserThreads.Operations.ForkJoin
import UserThreads.Operations.Interleaving
import UserThreads.Operations.Lifetimes
import UserThreads.Operations.Line
import UserThreads.Operations.LineExit
import UserThreads.Operations.LineStep
import UserThreads.Operations.Writes
import UserThreads.Operations.WritesStep
import UserThreads.Operations.Quiet
import UserThreads.Operations.Objects
import UserThreads.Operations.Position
import UserThreads.Operations.Ranks
import UserThreads.Operations.RanksYield
import UserThreads.Operations.RanksStep
import UserThreads.Operations.Twins
import UserThreads.Operations.TwinsSync
import UserThreads.Operations.TwinsCreate
import UserThreads.Operations.TwinsStep
import UserThreads.History.Identity
import UserThreads.History.Queues
import UserThreads.History.Slots
import UserThreads.History.Crew
import UserThreads.History.Ownership
import UserThreads.Laws.Memory
import UserThreads.Laws.Join
import UserThreads.Laws.Fault
import UserThreads.Laws.Cleanup
import UserThreads.Laws.Condition
import UserThreads.Laws.Context
import UserThreads.Laws.Cycle
import UserThreads.Laws.Destroyed
import UserThreads.Laws.Ending
import UserThreads.Laws.Failure
import UserThreads.Laws.Fifo
import UserThreads.Laws.Footprint
import UserThreads.Laws.ForkJoin
import UserThreads.Laws.Lifecycle
import UserThreads.Laws.Monitor
import UserThreads.Laws.Mutex
import UserThreads.Laws.Preemption
import UserThreads.Laws.Semaphore
import UserThreads.Laws.Objects
import UserThreads.Laws.Priority
import UserThreads.Laws.Programs
import UserThreads.Laws.Scheduler
import UserThreads.Laws.Signal
import UserThreads.Laws.Stability
import UserThreads.Laws.TimeSlices
import UserThreads.Laws.Update
import UserThreads.Laws.Wait
