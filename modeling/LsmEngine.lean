import LsmEngine.Basic
import LsmEngine.Memtable.InMemory
import LsmEngine.Memtable.Run
import LsmEngine.KeyRange
import LsmEngine.ValueLog
import LsmEngine.Engine.State
import LsmEngine.Engine.Write
import LsmEngine.Engine.Open
import LsmEngine.Engine.Run
import LsmEngine.Engine.Rollover
import LsmEngine.Engine.WriteSpec
import LsmEngine.Engine.Reopen
import LsmEngine.Engine.Replay
import LsmEngine.Engine.Capacity
import LsmEngine.Engine.Flush
import LsmEngine.Engine.BucketId
import LsmEngine.Engine.FlushAll
import LsmEngine.Engine.RolloverSafety
import LsmEngine.Engine.History
import LsmEngine.Engine.Serves
import LsmEngine.Engine.Read
import LsmEngine.Engine.ReadAfterFlush
