import Gem5.Base.AddrDecode
import Gem5.Base.HistStor
import Gem5.Base.Tokenize
import Gem5.Sim.Checkpoint
import Gem5.Sim.GlobalEvent
import Gem5.Mem.DipSets
import Gem5.Mem.FalruHash
import Gem5.Mem.Flip
import Gem5.Mem.MemCheckerLinear
import Gem5.Mem.MemCheckerRuns
import Gem5.Mem.MshrQueue
import Gem5.Mem.MshrTargets
import Gem5.Mem.PacketQueue
import Gem5.Mem.ReuseDistance
import Gem5.Mem.SnapAssertions
import Gem5.Mem.SnoopFilter
import Gem5.Ruby.TopologyRouting
import Gem5.Ruby.MessageBufferOrder
import Gem5.Ruby.CacheMemory
import Gem5.Ruby.Set
import Gem5.Ruby.SwitchAllocator
import Gem5.Ruby.GarnetCredits
import Gem5.Cpu.RenameRuns
import Gem5.Cpu.StoreSetRuns
import Gem5.Cpu.BPredTraining
import Gem5.Cpu.BPredRas
import Gem5.Cpu.Tournament
import Gem5.Cpu.MinorForwarding
import Gem5.Cpu.MinorScoreboard
import Gem5.Cpu.MinorSplit
import Gem5.Mem.PageTable
import Gem5.Dev.PacketFifo
import Gem5.Dev.VirtRing
import Gem5.Mem.XbarLayer
import Gem5.Mem.AbstractMemory
import Gem5.Mem.DramReadQueue
import Gem5.Mem.Bridge
import Gem5.Dev.DmaPort
import Gem5.Dev.Gic
import Gem5.Cpu.MemDepWakeup
import Gem5.Cpu.IqOrder
import Gem5.Cpu.MemDepBarriers
import Gem5.Sim.Globals
import Gem5.Sim.ClockSchedule
