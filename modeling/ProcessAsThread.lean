import ProcessAsThread.Threads.Initialized
import ProcessAsThread.Threads.Join
import ProcessAsThread.Threads.Indices
import ProcessAsThread.Threads.Status
import ProcessAsThread.Threads.Registration
import ProcessAsThread.Threads.Result
import ProcessAsThread.Heap.Carving
import ProcessAsThread.Heap.Safety
import ProcessAsThread.Heap.Libmythread
import ProcessAsThread.Heap.Release
import ProcessAsThread.Threads.Endings
import ProcessAsThread.Threads.Parents
import ProcessAsThread.Globals.Pmparser
import ProcessAsThread.Threads.Barrier
import ProcessAsThread.Threads.Handles
import ProcessAsThread.Threads.Mutex
import ProcessAsThread.Globals.Maps
import ProcessAsThread.Globals.Myglobals
import ProcessAsThread.Heap.HeapId
import ProcessAsThread.Heap.Sizes
import ProcessAsThread.Heap.Tempmalloc
import ProcessAsThread.Heap.Homecoming
import ProcessAsThread.Heap.Placement
import ProcessAsThread.Heap.Alignment
import ProcessAsThread.Heap.Realloc
import ProcessAsThread.Heap.Memalign
import ProcessAsThread.Threads.CloneFailure
import ProcessAsThread.Globals.LineFormat
import ProcessAsThread.Globals.ReadBounds
import ProcessAsThread.IntrusiveRing
import ProcessAsThread.HashMap.Table
import ProcessAsThread.HashMap.Chains
import ProcessAsThread.HashMap.Operations
import ProcessAsThread.HashMap.Refinement
import ProcessAsThread.HashMap.Counts
import ProcessAsThread.IntrusiveSequence
import ProcessAsThread.IntrusiveSplice
import ProcessAsThread.IntrusiveTransfer
import ProcessAsThread.HashMap.Iterator
import ProcessAsThread.HashMap.HashFuncs
import ProcessAsThread.Atomic
import ProcessAsThread.Heap.PageHeaps
import ProcessAsThread.Heap.Ledger
import ProcessAsThread.Library.BlockStore
import ProcessAsThread.Heap.Contents
import ProcessAsThread.Heap.Retention
import ProcessAsThread.Threads.Progress
import ProcessAsThread.Globals.Sharing
import ProcessAsThread.HashMap.Keys
import ProcessAsThread.HashMap.Locking
import ProcessAsThread.HashMap.Progress
import ProcessAsThread.HashMap.Linear
import ProcessAsThread.Library.Bitmap
import ProcessAsThread.Heap.SegHeap
