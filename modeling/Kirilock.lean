import Kirilock.Runs
import Kirilock.Timed
import Kirilock.Ownership
import Kirilock.Parts
import Kirilock.Ranking
import Kirilock.Ledger
import Kirilock.Calls
import Kirilock.Buffer
import Kirilock.BufferSize
import Kirilock.Render
import Kirilock.Surface
import Kirilock.SurfaceFrame
import Kirilock.SurfaceOwn
import Kirilock.SurfaceRun
import Kirilock.SurfaceCommit
import Kirilock.SurfaceStall
import Kirilock.SurfaceHold
import Kirilock.SurfaceFlags
import Kirilock.SurfaceRetry
import Kirilock.SurfacePaint
import Kirilock.SurfaceClock
import Kirilock.BufferLedger
import Kirilock.RenderCache
import Kirilock.Lock
import Kirilock.LockStep
import Kirilock.LockOwn
import Kirilock.LockLive
import Kirilock.SurfaceAnew
import Kirilock.Main
import Kirilock.MainPlaces
import Kirilock.MainRun
import Kirilock.MainMoves
import Kirilock.MainHistories
import Kirilock.MainFrames
import Kirilock.MainSound
import Kirilock.MainOutputs
import Kirilock.MainAttach
import Kirilock.MainLock
import Kirilock.MainRead
import Kirilock.MainFlush
import Kirilock.MainGlobals
import Kirilock.SurfaceLedger
import Kirilock.MainLedger
import Kirilock.MainFinish
import Kirilock.MainClock
import Kirilock.MainExit
import Kirilock.Password
import Kirilock.PasswordStep
import Kirilock.PasswordVerdict
import Kirilock.PasswordEnd
import Kirilock.PasswordKill
import Kirilock.PasswordAnswer
import Kirilock.PasswordStop
import Kirilock.PasswordCancel
import Kirilock.PasswordWipe
import Kirilock.PasswordConv
import Kirilock.PasswordReply
import Kirilock.PasswordBack
import Kirilock.PasswordPort
import Kirilock.Fingerprint
import Kirilock.FingerprintStep
import Kirilock.FingerprintEnd
import Kirilock.FingerprintSignals
import Kirilock.FingerprintPipe
import Kirilock.FingerprintScan
import Kirilock.FingerprintLoop
import Kirilock.FingerprintBreaks
import Kirilock.FingerprintStop
import Kirilock.FingerprintSession
import Kirilock.FingerprintUnmet
import Kirilock.FingerprintBack
import Kirilock.FingerprintPort
import Kirilock.FingerprintOnce
import Kirilock.FingerprintVerdicts
import Kirilock.Hosts
import Kirilock.Coordinator
import Kirilock.CoordinatorStep
import Kirilock.CoordinatorGrant
import Kirilock.CoordinatorLine
import Kirilock.CoordinatorHandlers
import Kirilock.CoordinatorEnd
import Kirilock.CoordinatorLive
