import Zephyr.Lib.WaitQ
import Zephyr.Lib.Reach
import Zephyr.Lib.Checked
import Zephyr.Lib.Stream
import Zephyr.Lib.Slist
import Zephyr.Lib.HeapOrder
import Zephyr.Lib.Bytes
import Zephyr.Lib.Walk
import Zephyr.Lib.Window
import Zephyr.Heap.Chunk
import Zephyr.Heap.Ops
import Zephyr.Heap.Aligned
import Zephyr.Heap.Realloc
import Zephyr.Heap.Blocks
import Zephyr.Work.Queue
import Zephyr.Work.Thread
import Zephyr.Work.Delayable
import Zephyr.Work.Cancel
import Zephyr.Work.Step
import Zephyr.Work.Inv
import Zephyr.Work.Inflight
import Zephyr.Work.Drain
import Zephyr.Pipe.Pipe
import Zephyr.Pipe.Stream
import Zephyr.Timeout.Wheel
import Zephyr.Timeout.Front
import Zephyr.Timeout.Sift
import Zephyr.Msgq.Msgq
import Zephyr.Msgq.Deque
import Zephyr.Msgq.Run
import Zephyr.Mutex.Mutex
import Zephyr.Mutex.Step
import Zephyr.Mutex.Queue
import Zephyr.Mutex.Inv
import Zephyr.Mutex.Spec
import Zephyr.Time.RoundTrip
import Zephyr.Time.Units
import Zephyr.Time.Timespec
import Zephyr.Time.Timeout
import Zephyr.Ring.Run
import Zephyr.Ring.Claim
import Zephyr.Ring.Ringq
import Zephyr.Ring.Item
import Zephyr.Spsc.Pbuf
import Zephyr.Spsc.Fifo
import Zephyr.Bitarray.Alloc
import Zephyr.Bitarray.Region
import Zephyr.Bitarray.Bits
import Zephyr.Onoff.Refs
import Zephyr.Json.Encode
import Zephyr.Json.Escape
import Zephyr.Rb.Tree
import Zephyr.Cbprintf.Package
import Zephyr.Cbprintf.Convert
import Zephyr.Cbprintf.Bounds
import Zephyr.Cobs.Cobs
import Zephyr.Cobs.RoundTrip
import Zephyr.Winstream.Winstream
import Zephyr.Winstream.Window
import Zephyr.Event.Event
import Zephyr.Event.Wait
import Zephyr.Slab.MemSlab
import Zephyr.Slab.Pool
import Zephyr.MinHeap.MinHeap
import Zephyr.MinHeap.Queue
import Zephyr.NetBuf.Buf
import Zephyr.NetBuf.Chain
import Zephyr.Nvs.Flash
import Zephyr.Nvs.Walk
import Zephyr.Nvs.Gc
import Zephyr.Nvs.Fs
import Zephyr.Nvs.Layout
import Zephyr.Nvs.RoundTrip
