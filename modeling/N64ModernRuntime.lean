import N64ModernRuntime.Lib.AddressMap
import N64ModernRuntime.Lib.CheckedBuffer
import N64ModernRuntime.Lib.CleanStreak
import N64ModernRuntime.Lib.ComparatorSet
import N64ModernRuntime.Lib.DelaySlot
import N64ModernRuntime.Lib.DueQueue
import N64ModernRuntime.Lib.FailingSteps
import N64ModernRuntime.Lib.Fallback
import N64ModernRuntime.Lib.IntrusiveList
import N64ModernRuntime.Lib.JsonText
import N64ModernRuntime.Lib.MipsIII
import N64ModernRuntime.Lib.MipsIIIFloat
import N64ModernRuntime.Lib.Numerals
import N64ModernRuntime.Lib.ProducerQueue
import N64ModernRuntime.Lib.RangeCursor
import N64ModernRuntime.Lib.Ring
import N64ModernRuntime.Lib.Segments
import N64ModernRuntime.Lib.SignedLog
import N64ModernRuntime.Lib.StdSort
import N64ModernRuntime.Lib.Transition
import N64ModernRuntime.Lib.Worklist
import N64ModernRuntime.Librecomp.AutoEnabled
import N64ModernRuntime.Librecomp.ChunkedLoads
import N64ModernRuntime.Librecomp.CodeMods
import N64ModernRuntime.Librecomp.ContentCallbacks
import N64ModernRuntime.Librecomp.Dispatchable
import N64ModernRuntime.Librecomp.Files
import N64ModernRuntime.Librecomp.FlashAgree
import N64ModernRuntime.Librecomp.FlashChip
import N64ModernRuntime.Librecomp.FragmentBinding
import N64ModernRuntime.Librecomp.FragmentInputs
import N64ModernRuntime.Librecomp.FragmentManifest
import N64ModernRuntime.Librecomp.FragmentTrust
import N64ModernRuntime.Librecomp.Fragments
import N64ModernRuntime.Librecomp.FuncMap
import N64ModernRuntime.Librecomp.GbCart
import N64ModernRuntime.Librecomp.GuestMemory
import N64ModernRuntime.Librecomp.HookRegen
import N64ModernRuntime.Librecomp.LeafRun
import N64ModernRuntime.Librecomp.LoadMods
import N64ModernRuntime.Librecomp.LoadUndone
import N64ModernRuntime.Librecomp.LoadedSections
import N64ModernRuntime.Librecomp.MipsControl
import N64ModernRuntime.Librecomp.MipsCop1
import N64ModernRuntime.Librecomp.MipsHost
import N64ModernRuntime.Librecomp.MipsInteger
import N64ModernRuntime.Librecomp.MipsInterp
import N64ModernRuntime.Librecomp.MissedAddress
import N64ModernRuntime.Librecomp.MissedFunction
import N64ModernRuntime.Librecomp.ModConfigThread
import N64ModernRuntime.Librecomp.ModContext
import N64ModernRuntime.Librecomp.ModOrder
import N64ModernRuntime.Librecomp.OverlayMoves
import N64ModernRuntime.Librecomp.Overlays
import N64ModernRuntime.Librecomp.RangeUnload
import N64ModernRuntime.Librecomp.RegenList
import N64ModernRuntime.Librecomp.RegenRelocs
import N64ModernRuntime.Librecomp.ResidentFunction
import N64ModernRuntime.Librecomp.RomReads
import N64ModernRuntime.Librecomp.SaveBounds
import N64ModernRuntime.Librecomp.SaveDevice
import N64ModernRuntime.Librecomp.Saving
import N64ModernRuntime.Librecomp.SectionAddresses
import N64ModernRuntime.Librecomp.Sections
import N64ModernRuntime.Librecomp.SelfHeal
import N64ModernRuntime.Librecomp.ShadowDiff
import N64ModernRuntime.Librecomp.ShardSource
import N64ModernRuntime.Librecomp.SiJoybus
import N64ModernRuntime.Librecomp.StaleDispatch
import N64ModernRuntime.Librecomp.SyntheticFragments
import N64ModernRuntime.Librecomp.Trampolines
import N64ModernRuntime.Librecomp.TransferPak
import N64ModernRuntime.Ultramodern.CorruptQueue
import N64ModernRuntime.Ultramodern.CosimAccounting
import N64ModernRuntime.Ultramodern.CosimDelivery
import N64ModernRuntime.Ultramodern.CosimEvents
import N64ModernRuntime.Ultramodern.CpuToken
import N64ModernRuntime.Ultramodern.Events
import N64ModernRuntime.Ultramodern.External
import N64ModernRuntime.Ultramodern.ExternalOrder
import N64ModernRuntime.Ultramodern.Membership
import N64ModernRuntime.Ultramodern.Mesgqueue
import N64ModernRuntime.Ultramodern.Priority
import N64ModernRuntime.Ultramodern.QueueChain
import N64ModernRuntime.Ultramodern.SetThreadPri
import N64ModernRuntime.Ultramodern.StepCases
import N64ModernRuntime.Ultramodern.ThreadQueue
import N64ModernRuntime.Ultramodern.Threads
import N64ModernRuntime.Ultramodern.Timer
import N64ModernRuntime.Ultramodern.TimerDeadline
import N64ModernRuntime.Ultramodern.Ultra64
import N64ModernRuntime.Ultramodern.ViPaths
import N64ModernRuntime.Ultramodern.Wakeup
import N64ModernRuntime.Librecomp.VersionString
import N64ModernRuntime.Librecomp.NativeExports
import N64ModernRuntime.Librecomp.ModsConfigFile
import N64ModernRuntime.Librecomp.GbRom
import N64ModernRuntime.Librecomp.PiBus
import N64ModernRuntime.Librecomp.PiDma
import N64ModernRuntime.Librecomp.ManifestJson
import N64ModernRuntime.Librecomp.StoredConfig
import N64ModernRuntime.Librecomp.OpenMods
import N64ModernRuntime.Librecomp.HookContexts
import N64ModernRuntime.Lib.SwappedWords
import N64ModernRuntime.Librecomp.ModLayout
import N64ModernRuntime.Librecomp.RomOrder
import N64ModernRuntime.Librecomp.MathRoutines
import N64ModernRuntime.Lib.PolynomialRemainder
import N64ModernRuntime.Librecomp.DataCrc
import N64ModernRuntime.Lib.LinearProbing
import N64ModernRuntime.Ultramodern.QueueStates
import N64ModernRuntime.Lib.PairedCopy
import N64ModernRuntime.Librecomp.RspDma
import N64ModernRuntime.Librecomp.VoiceList
import N64ModernRuntime.Lib.WriteLog
import N64ModernRuntime.Librecomp.LoadedHooks
import N64ModernRuntime.Librecomp.RegeneratedHooks
import N64ModernRuntime.Librecomp.HooksAttached
import N64ModernRuntime.Lib.Sse
import N64ModernRuntime.Librecomp.RspVector
import N64ModernRuntime.Librecomp.RspSimd
import N64ModernRuntime.Librecomp.RspAgreement
import N64ModernRuntime.Librecomp.RspProducts
import N64ModernRuntime.Librecomp.RspBuilds
import N64ModernRuntime.Librecomp.RspUnit
import N64ModernRuntime.Librecomp.RspMemory
import N64ModernRuntime.Librecomp.RspMicrocode
import N64ModernRuntime.Librecomp.RspArithmetic
import N64ModernRuntime.Librecomp.RspTransfers
import N64ModernRuntime.Librecomp.RspDivision
import N64ModernRuntime.Ultramodern.TaskPipeline
import N64ModernRuntime.Lib.AtomicCell
import N64ModernRuntime.Librecomp.SpStatus
import N64ModernRuntime.Librecomp.SpMirror
