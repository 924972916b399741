import Xdk.Lib.Bitmap
import Xdk.Lib.Padding
import Xdk.Lib.Ring
import Xdk.Lib.Transition
import Xdk.Lib.Word

/-! # The spans of the base slab allocator

`Slab_metadata_allocator` of `private/__span.h` hands out the blocks of one span and keeps a
bit for each of them.  Its memory is set up by the first thread that asks for a block: the
thread that moves `_initialized` from 0 to 1 lays the span out and stores 2, the others wait
for the 2.

`span_next_free` looks at one word of the bitmap after the other and tries to set the lowest
bit that it finds clear, with one compare-and-swap for each word; `span_free` clears the bit
of its block with as many compare-and-swaps as it takes.
-/

namespace Xdk.Slab

open Xdk.Lib

def pageSize : Nat := 4096

def headerBytes : Nat := 8

def bytesPerMword : Nat := 8

def bitsPerMword : Nat := 64

/-- The template parameters and the size of an element.  The constructor asserts that the span
    has a page at least, `init` fails for the alignment 0 and every allocation asserts that
    the alignment is another power of two. -/
structure Config where
  spanSize : Nat
  baseAlignment : Nat
  elemSize : Nat
  pages : pageSize ≤ spanSize
  alignment : ∃ exponent, 0 < exponent ∧ baseAlignment = 2 ^ exponent

theorem eight_power : ∃ exponent, 0 < exponent ∧ 8 = 2 ^ exponent := ⟨3, by decide, rfl⟩

def smallSpan : Config := ⟨4096, 8, 1024, by decide, eight_power⟩

structure Header where
  numBlocks : Nat
  bitmapSizeBytes : Nat
  firstBlockAddr : Nat
  lastBlockAddr : Nat
  deriving DecidableEq, Repr

/-! ## `init` -/

def growBitmap (numBlocks bitmapSizeBytes : Nat) : Nat :=
  if numBlocks % bitsPerMword = 0 then bitmapSizeBytes + bytesPerMword else bitmapSizeBytes

/-- The loop that balances the bytes of the bitmap against the bytes of the blocks. -/
def bestFit (config : Config) (numBlocks bitmapSizeBytes : Nat) : Nat × Nat :=
  if numBlocks * config.elemSize + bitmapSizeBytes < config.spanSize - headerBytes then
    if config.spanSize < numBlocks * config.elemSize + growBitmap numBlocks bitmapSizeBytes then
      (numBlocks, growBitmap numBlocks bitmapSizeBytes)
    else bestFit config (numBlocks + 1) (growBitmap numBlocks bitmapSizeBytes)
  else (numBlocks, bitmapSizeBytes)
-- the blocks until the bitmap grows next, and the bytes that it can still grow by
termination_by 64 * (config.spanSize - bitmapSizeBytes) + (64 - numBlocks % 64) % 64
decreasing_by
  rename_i room _
  have : bitmapSizeBytes < config.spanSize - 8 :=
    Nat.lt_of_le_of_lt (Nat.le_add_left _ _) room
  by_cases whole : numBlocks % 64 = 0
  · have grown : growBitmap numBlocks bitmapSizeBytes = bitmapSizeBytes + 8 := if_pos whole
    omega
  · have same : growBitmap numBlocks bitmapSizeBytes = bitmapSizeBytes := if_neg whole
    omega

def alignPointer (config : Config) (pointer : Nat) : Nat := padUp config.baseAlignment pointer

def alignFirst (alignment address : Nat) : Nat :=
  if 0 < alignment ∧ address % alignment ≠ 0 then alignFirst alignment (address + 1) else address
termination_by (alignment - address % alignment) % alignment
decreasing_by
  rename_i unaligned
  have nearer := sub_mod_succ unaligned.1 unaligned.2
  omega

/-- `init` with the memory that `malloc` has returned; `none` when an assertion fails.  The
    number of blocks is an `unsigned`, also where more blocks are lost to the alignment than
    there are. -/
def layout (config : Config) (unalignedData : Nat) : Option Header :=
  let data := alignPointer config unalignedData
  let fit := bestFit config 0 bytesPerMword
  let numBlocks := fit.1 - 1
  let tmp := data + headerBytes + fit.2
  let first := alignFirst config.baseAlignment tmp
  let lost := (first - tmp) / config.elemSize
  let left := wrapSub 32 numBlocks lost
  if config.spanSize % pageSize ≠ 0 ∨ unalignedData = 0 then none
  else if fit.2 * bytesPerMword < numBlocks then none
  else if config.elemSize = 0 then none
  else if left = 0 then none
  else some ⟨left, fit.2, first, first + left * config.elemSize⟩

namespace Header

def words (h : Header) : Nat := h.bitmapSizeBytes / bytesPerMword

def blockAddr (config : Config) (h : Header) (block : Nat) : Nat :=
  h.firstBlockAddr + config.elemSize * block

def inRange (h : Header) (ptr : Nat) : Bool := h.firstBlockAddr ≤ ptr ∧ ptr ≤ h.lastBlockAddr

def slot (config : Config) (h : Header) (ptr : Nat) : Nat :=
  (ptr - h.firstBlockAddr) / config.elemSize

end Header

/-! ## The two programs -/

inductive Status where
  | ok
  | outOfBounds
  deriving DecidableEq, Repr

inductive Pc where
  | idle
  -- `span_next_free` up to its wait, with `init`
  | loadInitialized
  | initTest
  | initCas
  | initBody
  | initStore
  | wait
  -- `__check_bitmap_word`
  | loadWord (w : Nat)
  | casWord (w : Nat) (current : BitVec 64)
  | returned (block : Option Nat)
  -- `span_free`
  | freeTest (ptr : Nat)
  | freeAssert (ptr slot retries : Nat)
  | freeLoad (ptr slot retries : Nat)
  | freeCas (ptr slot retries : Nat) (current : BitVec 64)
  | freed (status : Status)
  deriving DecidableEq, Repr

namespace Header

def scan (h : Header) (w : Nat) : Pc := if w < h.words then .loadWord w else .returned none

def checkWord (h : Header) (w : Nat) (current : BitVec 64) : Pc :=
  if current = BitVec.allOnes 64 then h.scan (w + 1)
  else if h.numBlocks ≤ lowestZero current + w * bitsPerMword then h.scan (w + 1)
  else .casWord w current

end Header

/-- A span and the threads that use it.  `held` says who has which block, and `inits` counts
    how often the span has been laid out. -/
structure Span (Thread : Type*) where
  initialized : Nat
  header : Option Header
  bitmap : Nat → BitVec 64
  threads : Thread → Pc
  held : List (Thread × Nat)
  inits : Nat

inductive SpanEvent (Thread : Type*) where
  | spanNextFree (thread : Thread)
  | spanFree (thread : Thread) (ptr : Nat)
  -- the thread that initialises gets its memory
  | malloc (thread : Thread) (unalignedData : Nat)
  | thread (thread : Thread)
  deriving DecidableEq

namespace Span

variable {Thread : Type*} [DecidableEq Thread]

def init : Span Thread := ⟨0, none, fun _ => 0, fun _ => .idle, [], 0⟩

def setPc (s : Span Thread) (thread : Thread) (pc : Pc) : Span Thread :=
  { s with threads := Function.update s.threads thread pc }

@[simp] theorem threads_setPc_self (s : Span Thread) (t : Thread) (pc : Pc) :
    (s.setPc t pc).threads t = pc :=
  Function.update_self _ _ _

theorem threads_setPc_of_ne (s : Span Thread) {t other : Thread} (pc : Pc)
    (ne : other ≠ t) : (s.setPc t pc).threads other = s.threads other :=
  Function.update_of_ne ne _ _

/-- The compare-and-swap of `__check_bitmap_word` and what follows it.  A block that is not
    aligned or out of range ends the program. -/
def takeBlock (config : Config) (s : Span Thread) (thread : Thread) (h : Header) (w : Nat)
    (current : BitVec 64) : Option (Span Thread) :=
  if s.bitmap w = current then
    let block := h.blockAddr config (lowestZero current + w * bitsPerMword)
    if block % config.baseAlignment ≠ 0 ∨ h.lastBlockAddr < block then none
    else some { s.setPc thread (.returned (some block)) with
      bitmap := Function.update s.bitmap w (setIn current (lowestZero current))
      held := s.held ++ [(thread, block)] }
  else some (s.setPc thread (h.scan (w + 1)))

def findSlot (config : Config) (s : Span Thread) (thread : Thread) (h : Header) (ptr : Nat) :
    Option (Span Thread) :=
  if h.inRange ptr then
    if h.numBlocks ≤ h.slot config ptr ∨ h.words < h.slot config ptr / bitsPerMword then none
    else some (s.setPc thread (.freeAssert ptr (h.slot config ptr) 0))
  else some (s.setPc thread (.freed .outOfBounds))

def giveBlock (s : Span Thread) (thread : Thread) (ptr slot retries : Nat)
    (current : BitVec 64) : Span Thread :=
  if s.bitmap (slot / bitsPerMword) = current then
    { s.setPc thread (.freed .ok) with
      bitmap := Function.update s.bitmap (slot / bitsPerMword)
        (clearIn current (slot % bitsPerMword))
      held := s.held.erase (thread, ptr) }
  else s.setPc thread (.freeAssert ptr slot (retries + 1))

def access (config : Config) (s : Span Thread) (thread : Thread) : Option (Span Thread) :=
  match s.threads thread with
  | .idle | .initBody => none
  | .loadInitialized =>
    some (s.setPc thread (if s.initialized = 0 then .initTest else .wait))
  | .initTest => some (s.setPc thread (if s.initialized = 0 then .initCas else .wait))
  | .initCas =>
    if s.initialized = 0 then some { s.setPc thread .initBody with initialized := 1 }
    else some (s.setPc thread .wait)
  | .initStore => some { s.setPc thread .wait with initialized := 2 }
  | .wait => if s.initialized < 2 then some s else s.header.map fun h => s.setPc thread (h.scan 0)
  | .loadWord w => s.header.map fun h => s.setPc thread (h.checkWord w (s.bitmap w))
  | .casWord w current => s.header.bind fun h => s.takeBlock config thread h w current
  | .returned _ | .freed _ => some (s.setPc thread .idle)
  | .freeTest ptr =>
    if s.initialized < 2 then none else s.header.bind fun h => s.findSlot config thread h ptr
  | .freeAssert ptr slot retries =>
    if 256 < retries ∨ bit s.bitmap slot = false then none
    else some (s.setPc thread (.freeLoad ptr slot retries))
  | .freeLoad ptr slot retries =>
    some (s.setPc thread (.freeCas ptr slot retries (s.bitmap (slot / bitsPerMword))))
  | .freeCas ptr slot retries current => some (s.giveBlock thread ptr slot retries current)

def step (config : Config) (s : Span Thread) : SpanEvent Thread → Option (Span Thread)
  | .spanNextFree thread =>
    match s.threads thread with
    | .idle => some (s.setPc thread .loadInitialized)
    | _ => none
  | .spanFree thread ptr =>
    match s.threads thread with
    | .idle => some (s.setPc thread (.freeTest ptr))
    | _ => none
  | .malloc thread unalignedData =>
    match s.threads thread with
    | .initBody =>
      (layout config unalignedData).map fun h =>
        { s.setPc thread .initStore with
          header := some h
          bitmap := fun _ => 0
          inits := s.inits + 1 }
    | _ => none
  | .thread thread => s.access config thread

end Span

end Xdk.Slab
