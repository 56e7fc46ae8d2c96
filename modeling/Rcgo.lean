import Rcgo.Checker.ConstantArithmetic
import Rcgo.Checker.TypeIdentity
import Rcgo.Checker.UntypedUses
import Rcgo.Code.Agreement
import Rcgo.Code.BinaryExecution
import Rcgo.Code.LayoutCorrectness
import Rcgo.Code.LocalVariables
import Rcgo.Code.Preservation
import Rcgo.Code.UnaryOperators
import Rcgo.Composition.Determinism
import Rcgo.Composition.ElaborationFrames
import Rcgo.Composition.ExactAnalysis
import Rcgo.Composition.InstanceMemory
import Rcgo.Composition.Isolation
import Rcgo.Composition.PortMemory
import Rcgo.Composition.Recursion
import Rcgo.Foundation.Reporting
import Rcgo.Frontend.ErrorReporter
import Rcgo.Frontend.Main
import Rcgo.Frontend.TypeDeclarations
import Rcgo.Ownership.Protocol
import Rcgo.Scanner.Comments
import Rcgo.Scanner.DecodingBounds
import Rcgo.Scanner.IntegerLiterals
import Rcgo.Scanner.Rescanning
import Rcgo.Scheduler.ComponentTasks
import Rcgo.Scheduler.ExecutorAssertions
import Rcgo.Scheduler.ExecutorPool
import Rcgo.Scheduler.ExecutorQueues
import Rcgo.Scheduler.ExecutorStages
import Rcgo.Scheduler.LostWakeups
import Rcgo.Scheduler.PolledDescriptors
import Rcgo.Scheduler.Profile
import Rcgo.Scheduler.ProgramRing
import Rcgo.Scheduler.Progress
import Rcgo.Scheduler.Quiescence
import Rcgo.Scheduler.SkipCounting
import Rcgo.Scheduler.Starvation
import Rcgo.Scheduler.StuckRounds
import Rcgo.Scheduler.TaskConservation
import Rcgo.Scheduler.TerminationSafety
import Rcgo.Slices.Runs
import Rcgo.Storage.BlockTrees
import Rcgo.Storage.Kinship
import Rcgo.Storage.Precision
import Rcgo.Transaction.CallPaths
import Rcgo.Transaction.TwoPhase
