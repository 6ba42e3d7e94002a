import TfPsaCrypto.Library.Bytes

/-!
# The buffer allocator

`memory_buffer_alloc.c` without the debug counters and the back traces. The headers are a map from
addresses; a header that is written changes the bytes where it lies.
-/

namespace TfPsaCrypto.Platform

open Bytes

/-! ## The heap -/

def magic1 : Nat := 0xFF00AA55

def magic2 : Nat := 0xEE119966

def memoryAlignMultiple : Nat := 4

/-- A null pointer is `none`. -/
structure MemoryHeader where
  magic1 : Nat
  size : Nat
  alloc : Nat
  prev : Option Nat
  next : Option Nat
  prevFree : Option Nat
  nextFree : Option Nat
  magic2 : Nat
  deriving DecidableEq, Repr

def MemoryHeader.zero : MemoryHeader :=
  { magic1 := 0, size := 0, alloc := 0, prev := none, next := none, prevFree := none
    nextFree := none, magic2 := 0 }

def sizeofMemoryHeader : Nat := 64

def MemoryHeader.bytes (hdr : MemoryHeader) : ByteString :=
  [hdr.magic1, hdr.size, hdr.alloc, hdr.prev.getD 0, hdr.next.getD 0, hdr.prevFree.getD 0,
    hdr.nextFree.getD 0, hdr.magic2].flatMap (toLE 8)

structure Heap where
  buf : Option Nat
  len : Nat
  first : Option Nat
  firstFree : Option Nat
  verify : Nat
  headers : Nat → MemoryHeader
  memory : Nat → UInt8

def Heap.write (heap : Heap) (p : Nat) (hdr : MemoryHeader) : Heap :=
  { heap with
    headers := fun a => if a = p then hdr else heap.headers a
    memory := fun a =>
      if p ≤ a ∧ a < p + sizeofMemoryHeader then hdr.bytes.getD (a - p) 0 else heap.memory a }

def Heap.modify (heap : Heap) (p : Nat) (f : MemoryHeader → MemoryHeader) : Heap :=
  heap.write p (f (heap.headers p))

def Heap.modifySome (heap : Heap) (p : Option Nat) (f : MemoryHeader → MemoryHeader) : Heap :=
  match p with
  | none => heap
  | some p => heap.modify p f

def Heap.memset (heap : Heap) (p n : Nat) : Heap :=
  { heap with memory := fun a => if p ≤ a ∧ a < p + n then 0 else heap.memory a }

/-- `p->next_free = v`, or `heap.first_free = v` where `p` is null. -/
def Heap.setNextFree (heap : Heap) (p v : Option Nat) : Heap :=
  match p with
  | some p => heap.modify p fun hdr => { hdr with nextFree := v }
  | none => { heap with firstFree := v }

def memoryVerifyAlloc : Nat := 1

def memoryVerifyFree : Nat := 2

/-! ## Verification -/

def verifyHeader (hdr : MemoryHeader) : Nat :=
  if hdr.magic1 ≠ magic1 then 1
  else if hdr.magic2 ≠ magic2 then 1
  else if hdr.alloc > 1 then 1
  else if hdr.prev ≠ none ∧ hdr.prev = hdr.next then 1
  else if hdr.prevFree ≠ none ∧ hdr.prevFree = hdr.nextFree then 1
  else 0

/-- The loop of `verify_chain`; `none` where the fuel does not suffice. -/
def verifyChainLoop (headers : Nat → MemoryHeader) : Nat → Nat → Option Nat → Option Nat
  | _, _, none => some 0
  | 0, _, some _ => none
  | fuel + 1, prv, some cur =>
    if verifyHeader (headers cur) ≠ 0 then some 1
    else if (headers cur).prev ≠ some prv then some 1
    else verifyChainLoop headers fuel cur (headers cur).next

def verifyChain (heap : Heap) : Option Nat :=
  match heap.first with
  | none => some 1
  | some first =>
    if verifyHeader (heap.headers first) ≠ 0 then some 1
    else if (heap.headers first).prev ≠ none then some 1
    else verifyChainLoop heap.headers heap.len first (heap.headers first).next

/-- The verification after a call: `none` where the process exits. -/
def Heap.verified (heap : Heap) (flag : Nat) : Option Unit :=
  if heap.verify &&& flag ≠ 0 ∧ verifyChain heap ≠ some 0 then none else some ()

/-! ## Allocation -/

/-- The loop that finds a block that fits; `none` where the fuel does not suffice. -/
def findFit (headers : Nat → MemoryHeader) (len : Nat) : Nat → Option Nat → Option (Option Nat)
  | _, none => some none
  | 0, some _ => none
  | fuel + 1, some cur =>
    if (headers cur).size ≥ len then some (some cur)
    else findFit headers len fuel (headers cur).nextFree

def Heap.takeBlock (heap : Heap) (cur : Nat) : Heap :=
  let heap := heap.modify cur fun hdr => { hdr with alloc := 1 }
  let heap := heap.setNextFree (heap.headers cur).prevFree (heap.headers cur).nextFree
  let heap := heap.modifySome (heap.headers cur).nextFree fun hdr =>
    { hdr with prevFree := (heap.headers cur).prevFree }
  heap.modify cur fun hdr => { hdr with prevFree := none, nextFree := none }

def Heap.splitBlock (heap : Heap) (cur len : Nat) : Heap :=
  let new := cur + sizeofMemoryHeader + len
  let heap := heap.modify new fun hdr =>
    { hdr with
      size := (heap.headers cur).size - len - sizeofMemoryHeader, alloc := 0
      prev := some cur, next := (heap.headers cur).next, magic1 := magic1, magic2 := magic2 }
  let heap := heap.modifySome (heap.headers new).next fun hdr => { hdr with prev := some new }
  -- Replace `cur` with `new` in the free list.
  let heap := heap.modify new fun hdr =>
    { hdr with
      prevFree := (heap.headers cur).prevFree, nextFree := (heap.headers cur).nextFree }
  let heap := heap.setNextFree (heap.headers new).prevFree (some new)
  let heap := heap.modifySome (heap.headers new).nextFree fun hdr =>
    { hdr with prevFree := some new }
  heap.modify cur fun hdr =>
    { hdr with alloc := 1, size := len, next := some new, prevFree := none, nextFree := none }

def Heap.allocBlock (heap : Heap) (cur len : Nat) : Heap :=
  if (heap.headers cur).size - len < sizeofMemoryHeader + memoryAlignMultiple then
    heap.takeBlock cur
  else heap.splitBlock cur len

def roundUp (len : Nat) : Nat :=
  if len % memoryAlignMultiple ≠ 0 then
    len - len % memoryAlignMultiple + memoryAlignMultiple
  else len

/-- The pointer and the heap; `none` where the process exits. -/
def bufferAllocCalloc (heap : Heap) (n size : Nat) : Option (Option Nat × Heap) :=
  if heap.buf = none ∨ heap.first = none then some (none, heap)
  else
    let originalLen := n * size % 2 ^ 64
    if n = 0 ∨ size = 0 ∨ originalLen / n ≠ size then some (none, heap)
    else if originalLen > 2 ^ 64 - memoryAlignMultiple then some (none, heap)
    else
      let len := roundUp originalLen
      match findFit heap.headers len (heap.len + 1) heap.firstFree with
      | none => none
      | some none => some (none, heap)
      | some (some cur) =>
        if (heap.headers cur).alloc ≠ 0 then none
        else
          let heap := heap.allocBlock cur len
          match heap.verified memoryVerifyAlloc with
          | none => none
          | some () =>
            let ret := cur + sizeofMemoryHeader
            some (some ret, heap.memset ret originalLen)

/-! ## Release -/

def Heap.mergeBefore (heap : Heap) (hdr prev : Nat) : Heap :=
  let heap := heap.modify prev fun h =>
    { h with
      size := h.size + (sizeofMemoryHeader + (heap.headers hdr).size)
      next := (heap.headers hdr).next }
  let heap := heap.modifySome (heap.headers prev).next fun h => { h with prev := some prev }
  heap.write hdr .zero

def Heap.unlinkFree (heap : Heap) (hdr : Nat) : Heap :=
  if (heap.headers hdr).prevFree ≠ none ∨ (heap.headers hdr).nextFree ≠ none then
    let heap := heap.setNextFree (heap.headers hdr).prevFree (heap.headers hdr).nextFree
    heap.modifySome (heap.headers hdr).nextFree fun h =>
      { h with prevFree := (heap.headers hdr).prevFree }
  else heap

def Heap.replaceFree (heap : Heap) (hdr old : Nat) : Heap :=
  let heap := heap.modify hdr fun h =>
    { h with
      prevFree := (heap.headers old).prevFree, nextFree := (heap.headers old).nextFree }
  let heap := heap.setNextFree (heap.headers hdr).prevFree (some hdr)
  heap.modifySome (heap.headers hdr).nextFree fun h => { h with prevFree := some hdr }

def Heap.mergeAfter (heap : Heap) (hdr old : Nat) : Heap :=
  let heap := heap.modify hdr fun h =>
    { h with
      size := h.size + (sizeofMemoryHeader + (heap.headers old).size)
      next := (heap.headers old).next }
  let heap := (heap.unlinkFree hdr).replaceFree hdr old
  let heap := heap.modifySome (heap.headers hdr).next fun h => { h with prev := some hdr }
  heap.write old .zero

def Heap.prepend (heap : Heap) (hdr : Nat) : Heap :=
  let heap := heap.modify hdr fun h => { h with nextFree := heap.firstFree }
  let heap := heap.modifySome heap.firstFree fun h => { h with prevFree := some hdr }
  { heap with firstFree := some hdr }

def Heap.freeNeighbour (heap : Heap) (p : Option Nat) : Option Nat :=
  match p with
  | none => none
  | some p => if (heap.headers p).alloc = 0 then some p else none

def Heap.release (heap : Heap) (hdr : Nat) : Heap :=
  let heap := heap.modify hdr fun h => { h with alloc := 0 }
  match heap.freeNeighbour (heap.headers hdr).prev with
  | some prev =>
    let heap := heap.mergeBefore hdr prev
    match heap.freeNeighbour (heap.headers prev).next with
    | some old => heap.mergeAfter prev old
    | none => heap
  | none =>
    match heap.freeNeighbour (heap.headers hdr).next with
    | some old => heap.mergeAfter hdr old
    | none => heap.prepend hdr

/-- `none` where the process exits. -/
def bufferAllocFree (heap : Heap) (ptr : Option Nat) : Option Heap :=
  match ptr, heap.buf, heap.first with
  | some p, some buf, some _ =>
    if p < buf ∨ p ≥ buf + heap.len then none
    else
      let hdr := p - sizeofMemoryHeader
      if verifyHeader (heap.headers hdr) ≠ 0 then none
      else if (heap.headers hdr).alloc ≠ 1 then none
      else
        let heap := heap.release hdr
        match heap.verified memoryVerifyFree with
        | none => none
        | some () => some heap
  | _, _, _ => some heap

/-! ## Initialisation -/

def emptyHeap (memory : Nat → UInt8) : Heap :=
  { buf := none, len := 0, first := none, firstFree := none, verify := 0
    headers := fun _ => .zero, memory := memory }

def mbedtlsMemoryBufferAllocInit (memory : Nat → UInt8) (buf len : Nat) : Heap :=
  if len < sizeofMemoryHeader + memoryAlignMultiple then emptyHeap memory
  else
    let shift :=
      if buf % memoryAlignMultiple ≠ 0 then memoryAlignMultiple - buf % memoryAlignMultiple else 0
    let len := len - shift
    let buf := buf + shift
    let heap := (emptyHeap memory).memset buf len
    let heap :=
      heap.modify buf fun hdr =>
        { hdr with size := len - sizeofMemoryHeader, magic1 := magic1, magic2 := magic2 }
    { heap with buf := some buf, len := len, first := some buf, firstFree := some buf }

def mbedtlsMemoryBufferSetVerify (heap : Heap) (verify : Nat) : Heap :=
  { heap with verify := verify }

end TfPsaCrypto.Platform
