import GpuHotSpot.HotSpotTool.OptionTable
import GpuHotSpot.Pipeline.TraceAccumulation
import GpuHotSpot.Pipeline.ThrottlingLaw
import GpuHotSpot.Pipeline.PolicyOrder
import GpuHotSpot.Pipeline.FreshTemperatures
import GpuHotSpot.Pipeline.BankColumns
import GpuHotSpot.Pipeline.VoltVector
import GpuHotSpot.Pipeline.LineBreaks
import GpuHotSpot.Pipeline.BankAliasing
import GpuHotSpot.GpuSimulator.KernelOrder
import GpuHotSpot.Tracer.EarlyTermination
import GpuHotSpot.Tracer.SpinlockFastForward
import GpuHotSpot.Tracer.AddressCompression
import GpuHotSpot.HotSpotTool.BlockMapConservation
import GpuHotSpot.HotSpotTool.GridRows
import GpuHotSpot.HotSpotTool.RetriedStep
import GpuHotSpot.HotSpotTool.LeakageColdStart
import GpuHotSpot.HotSpotTool.BankLeakage
import GpuHotSpot.HotSpotTool.LateralResistance
import GpuHotSpot.HotSpotTool.Multigrid
import GpuHotSpot.HotSpotTool.HandOver
import GpuHotSpot.Common.EpochLabels
import GpuHotSpot.Common.SequentialOrder
import GpuHotSpot.HotSpotTool.PolishMoves
import GpuHotSpot.HotSpotTool.ShapeCurves
import GpuHotSpot.HotSpotTool.WrapRim
import GpuHotSpot.HotSpotTool.FloorplanGrid
import GpuHotSpot.HotSpotTool.MatrixInverse
import GpuHotSpot.HotSpotTool.GaussJordan
import GpuHotSpot.Common.SyncDiscipline
import GpuHotSpot.Common.FutexDiscipline
import GpuHotSpot.Common.DramCache
import GpuHotSpot.Common.BarrierProgress
import GpuHotSpot.Common.LoopPredictor
import GpuHotSpot.Common.MemoryControllers
import GpuHotSpot.Common.MeshBroadcast
import GpuHotSpot.Common.ShmemPerf
import GpuHotSpot.Common.SmtProgress
import GpuHotSpot.Common.RobOrder
import GpuHotSpot.Common.RobDependences
import GpuHotSpot.Common.OpenFifo
import GpuHotSpot.Common.FirstUnused
import GpuHotSpot.Common.CoreCoordinates
import GpuHotSpot.Common.CoreWalk
import GpuHotSpot.Common.TimeSharing
import GpuHotSpot.Common.DvfsFrequencies
import GpuHotSpot.Common.LimitlessTrap
import GpuHotSpot.Common.DirectoryUnique
import GpuHotSpot.Common.TrueLru
import GpuHotSpot.Common.Tlb
import GpuHotSpot.Common.NruBits
import GpuHotSpot.Common.NucaCache
import GpuHotSpot.Common.GhbPrefetcher
import GpuHotSpot.Common.WindowedMG1
import GpuHotSpot.Common.ContentionModel
import GpuHotSpot.Common.ICacheStalls
import GpuHotSpot.Common.RobContentionNehalem
import GpuHotSpot.Common.DependencyMultisets
import GpuHotSpot.Common.SquashedDependencies
import GpuHotSpot.Common.SpinLoops
