import Wingray.CrcRegister
import Wingray.CellMemory
import Wingray.GuardedRun
import Wingray.BoundedQueue
import Wingray.SavedLimit
import Wingray.RunTally
import Wingray.ResourceLedger
import Wingray.SharedLatch
import Wingray.StreamMachine
import Wingray.BitAssembly
import Wingray.WordAlignment
import Wingray.WhisperCrc
import Wingray.WhisperExchange
import Wingray.WhisperSerial
import Wingray.WhisperDock
import Wingray.WhisperUndock
import Wingray.WhisperIdentity
import Wingray.WhisperBudget
import Wingray.WhisperVerdict
import Wingray.WhisperRetry
import Wingray.WhisperRaw
import Wingray.WhisperReceive
import Wingray.WhisperSend
import Wingray.WhisperReadLoop
import Wingray.WhisperHidraw
import Wingray.SensorReader
import Wingray.SensorPoll
import Wingray.SensorSwitch
import Wingray.SensorPower
import Wingray.SensorDescriptors
import Wingray.SensorDelivery
import Wingray.InputEvents
import Wingray.AkmEvents
import Wingray.ReportEvents
import Wingray.SensorWait
import Wingray.AudioHardware
import Wingray.AudioDescriptors
import Wingray.AudioStandby
import Wingray.AudioBuffer
import Wingray.PowerGovernor
import Wingray.HwcTranslation
import Wingray.HwcFrames
import Wingray.HwcVsync
import Wingray.CrcPolynomial
import Wingray.WhisperRemainder
import Wingray.WhisperEcho
import Wingray.HwcRefresh
import Wingray.HwcPacing
import Wingray.ConditionVariable
import Wingray.HwcWakeup
import Wingray.CompassDelay
import Wingray.SensorRates
import Wingray.NotificationLight
import Wingray.AudioDownlink
import Wingray.OutcomeLogic
import Wingray.CountedStore
import Wingray.SharedBuffer
import Wingray.VectorImpl
import Wingray.VectorContents
import Wingray.VectorGrowth
import Wingray.VectorEdits
import Wingray.StableInsertion
import Wingray.VectorSort
import Wingray.VectorHeap
import Wingray.BinarySearch
import Wingray.KeyedList
import Wingray.SortedVector
import Wingray.SortedHeap
import Wingray.Parties
import Wingray.RefBase
import Wingray.RefBaseLedger
import Wingray.RefBaseThreads
import Wingray.RefBaseSteps
import Wingray.RefBaseRuns
import Wingray.RefBaseLifetime
import Wingray.RefBaseHooks
import Wingray.WhisperLine
import Wingray.WhisperCommand
import Wingray.WhisperWake
import Wingray.WhisperSession
import Wingray.SharedBufferThreads
import Wingray.SensorNodes
