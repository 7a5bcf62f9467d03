import Zephyr.Heap.Ops

namespace Zephyr.Heap

-- The calls of the sys_heap API after sys_heap_init.
inductive HeapOp where
  | alloc (bytes : Nat)
  | alignedAlloc (align bytes : Nat)
  | free (mem : Nat)
  | realloc (mem bytes : Nat)
  | alignedRealloc (mem align bytes : Nat)
  deriving DecidableEq, Repr

-- Each call with the pointer it returns (0 for sys_heap_free).
def HeapOp.run (cfg : HeapConfig) (h : ZHeap) : HeapOp → ZHeap × Nat
  | .alloc bytes => sysHeapAlloc cfg h bytes
  | .alignedAlloc align bytes => sysHeapAlignedAlloc cfg h align bytes
  | .free mem => (sysHeapFree cfg h mem, 0)
  | .realloc mem bytes => sysHeapRealloc cfg h mem bytes
  | .alignedRealloc mem align bytes => sysHeapAlignedRealloc cfg h mem align bytes

def runHeap (cfg : HeapConfig) (h : ZHeap) : List HeapOp → ZHeap × List Nat
  | [] => (h, [])
  | op :: ops =>
    let r := op.run cfg h
    let rest := runHeap cfg r.1 ops
    (rest.1, r.2 :: rest.2)

end Zephyr.Heap
