import IsoAlloc.Basic
import IsoAlloc.Zone
import IsoAlloc.BitSlotCache
import IsoAlloc.Chunk
import IsoAlloc.Root
import IsoAlloc.Lookup
import IsoAlloc.Destroy
import IsoAlloc.BigZone
import IsoAlloc.Thread
import IsoAlloc.Api
import IsoAlloc.Init
import IsoAlloc.SlotStates
import IsoAlloc.ZoneFrames
import IsoAlloc.RootFrames
import IsoAlloc.ZoneSize
import IsoAlloc.Events
import IsoAlloc.FreePath
import IsoAlloc.ZoneReuse
import IsoAlloc.BigZoneList
import IsoAlloc.SizeChain
import IsoAlloc.ChainWalks
import IsoAlloc.ZoneLookup
import IsoAlloc.QuarantineRace
import IsoAlloc.DoubleFree
import IsoAlloc.SlotCache
import IsoAlloc.CacheRuns
import IsoAlloc.Dispatch
import IsoAlloc.BigPlacement
import IsoAlloc.ZoneCache
import IsoAlloc.Refill
import IsoAlloc.FreeBounds
import IsoAlloc.Verifier
import IsoAlloc.Quarantine
import IsoAlloc.Layout
import IsoAlloc.GuardPages
import IsoAlloc.Isolation
import IsoAlloc.BigCanary
import IsoAlloc.BigList
import IsoAlloc.Retirement
import IsoAlloc.ChunkCanaries
