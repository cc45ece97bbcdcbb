import OpenCache.SetIndexing
import OpenCache.Windows
import OpenCache.Flushes
import OpenCache.PortCharges
import OpenCache.SplitFills
import OpenCache.DirtyThreshold
import OpenCache.Admissions
import OpenCache.HitLatency
import OpenCache.Resizing
import OpenCache.Returns
import OpenCache.TwoLevel
import OpenCache.ConfigString
import OpenCache.System
import OpenCache.Pins
import OpenCache.Fetches
import OpenCache.Tenants
import OpenCache.Forwarding
import OpenCache.Refusals
import OpenCache.Hazards
import OpenCache.DirtyLines
import OpenCache.QueueRoom
import OpenCache.TextureHits
import OpenCache.TextureSectors
import OpenCache.Evictions
import OpenCache.StaleHits
import OpenCache.Merges
import OpenCache.Revivals
import OpenCache.Writebacks
import OpenCache.Outstanding
import OpenCache.Coverage
import OpenCache.FillProtection
import OpenCache.FinalCheck
import OpenCache.Backpressure
import OpenCache.SectorMisses
import OpenCache.MemoryQueue
import OpenCache.LazyWrites
import OpenCache.Contents
import OpenCache.Coherence
import OpenCache.Bookkeeping
import OpenCache.Counting
import OpenCache.StatsMerge
import OpenCache.RecencyList
import OpenCache.Replacement
import OpenCache.VictimSearch
import OpenCache.Lockstep
import OpenCache.ReadAgreement
import OpenCache.Peaks
import OpenCache.Watermarks
import OpenCache.SatCounter
import OpenCache.Gem5.PlruTable
import OpenCache.Gem5.MshrRuns
import OpenCache.Gem5.FaLruRuns
import OpenCache.Gem5.EntryQueue
import OpenCache.Gem5.MissPath
import OpenCache.Gem5.MissPathRuns
