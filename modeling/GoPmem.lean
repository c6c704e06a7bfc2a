import GoPmem.Basic
import GoPmem.Memory
import GoPmem.Arena
import GoPmem.SpanLog.Value
import GoPmem.SpanLog.Log
import GoPmem.SpanLog.Revisions
import GoPmem.HeapBits
import GoPmem.ArenaLog
import GoPmem.LogAddPtrs
import GoPmem.UndoLog.Log
import GoPmem.UndoLog.Durable
import GoPmem.UndoLog.Transaction
import GoPmem.UndoLog.Recovery
import GoPmem.UndoLog.Invariant
import GoPmem.Init.Layout
import GoPmem.Init.PmallocInit
import GoPmem.Init.RegionLog
import GoPmem.Init.RegionRun
import GoPmem.Init.Concurrent
