import Ktl.SharedPtr
import Ktl.ExceptionAllocator
import Ktl.Optional
import Ktl.StringLifetimes
import Ktl.VectorLifetimes
import Ktl.WeakLock
import Ktl.CatchFrames
import Ktl.ConditionVariable
import Ktl.ExceptionMessage
import Ktl.ExceptionProbe
import Ktl.IntrusivePtr
import Ktl.ObjectManagement
import Ktl.SystemThread
import Ktl.UnwindContext
import Ktl.ArrayUnwind
import Ktl.CatchBinding
import Ktl.HashTableStorage
import Ktl.HashTableEquality
import Ktl.PrimaryFrame
import Ktl.UniversalLock
import Ktl.UnwindRules
import Ktl.OperatorNew
import Ktl.StringAliasing
import Ktl.StringConcatenation
import Ktl.StringRelations
import Ktl.LexicographicalCompare
import Ktl.RangeShifts
import Ktl.UninitializedMemory
import Ktl.VectorAliasing
import Ktl.VectorExceptions
import Ktl.VectorInputRange
import Ktl.ConditionVariablePredicate
import Ktl.HashTableExceptions
import Ktl.LockAttempts
import Ktl.MpmcQueueUnsynchronized
import Ktl.OptionalComparison
import Ktl.SharedPtrChain
import Ktl.StringViewLengths
import Ktl.UninitializedBackout
import Ktl.UniqueLock
import Ktl.VectorRanges
import Ktl.RangeEquality
import Ktl.FirstOfSearch
import Ktl.TupleComparison
import Ktl.Clocks
import Ktl.ThreadDelays
import Ktl.BinarySearch
import Ktl.FunctionEntries
import Ktl.Iterators
import Ktl.AtomicIntegral
import Ktl.DriverLifecycle
