import Xdk.Lib.Padding
import Xdk.Nbb.Fifo

/-! # The fast slab allocator

`Fast_slab_allocator_T` of `exo/fast_slab.h` cuts a memory area into blocks of one size, each
behind a header, and keeps the headers of the free blocks in a non-blocking buffer with a place
for every block.  `alloc` is the consumer of the buffer and `free` its producer; each end has a
lock of its own, so that any number of threads may call them.

A block goes by the address of its header.
-/

namespace Xdk.FastSlab

open Xdk.Lib Xdk.Nbb

def headerSize : Nat := 64

/-- What the constructor is given; the alignment is an `int` that is not negative. -/
structure Params where
  memArea : Nat
  memLen : Nat
  blockLen : Nat
  alignment : Nat

namespace Params

def memEnd (params : Params) : Nat := params.memArea + params.memLen

def isPowerOfTwo (value : Nat) : Bool := value ≠ 0 ∧ value &&& (value - 1) = 0

def useAlignment (params : Params) : Option Nat :=
  if 1 < params.alignment ∧ ¬ isPowerOfTwo params.alignment then none
  else some (if params.alignment = 1 then 0 else params.alignment)

end Params

/-- Where the data of the next block begins: behind the header, aligned with `align_pointer`. -/
def place (alignment cur : Nat) : Nat := padUp alignment (cur + headerSize)

theorem lt_place (align cur : Nat) : cur + headerSize ≤ place align cur := le_padUp _ _

def headers (params : Params) (alignment cur : Nat) : List Nat :=
  if cur < params.memEnd then
    let d := place alignment cur
    let next := d + params.blockLen
    if next ≤ params.memEnd then (d - headerSize) :: headers params alignment next
    else headers params alignment next
  else []
termination_by params.memEnd - cur
decreasing_by
  all_goals
    have := lt_place alignment cur
    simp only [headerSize] at this
    omega

/-- `__num_of_blocks`; with an alignment, the loop that counts is the loop that makes the
    headers. -/
def numOfBlocks (params : Params) (alignment : Nat) : Nat :=
  if alignment = 0 then params.memLen / (headerSize + params.blockLen)
  else (headers params alignment params.memArea).length

/-- The buffer with the headers in it; `none` is the panic of the constructor. -/
def populate (shape : Shape) : List Nat → SymmetricNbb Nat → Option (SymmetricNbb Nat)
  | [], nbb => some nbb
  | header :: rest, nbb =>
    match nbb.insertItem shape header with
    | (.ok, nbb) => populate shape rest nbb
    | _ => none

/-- What the constructor has built: `blocks` are the headers with this allocator as their
    owner. -/
structure Built where
  blocks : List Nat
  shape : Shape
  nbb : SymmetricNbb Nat

/-- The constructor.  The number of blocks becomes the `int` that the buffer is given; a
    negative one is refused there. -/
def create (params : Params) : Option Built := do
  if params.memArea = 0 ∨ params.memLen = 0 then none
  let alignment ← params.useAlignment
  let number := numOfBlocks params alignment
  if number = 0 then none
  let shape ← Shape.create (wrap 32 number)
  let blocks := headers params alignment params.memArea
  let nbb ← populate shape blocks .init
  if blocks.length ≠ number then none
  return ⟨blocks, shape, nbb⟩

/-! ## The threads -/

/-- What `free` returns, unless it panics. -/
inductive Status where
  | ok
  | badParam
  deriving DecidableEq, Repr

inductive Pc where
  | idle
  -- `alloc`: in `read_item` up to the write to `_ac`, then the write to `_last_ac`
  | lockCons
  | read
  | readEnd (header : Nat)
  | unlockCons (result : Option Nat)
  | allocated (result : Option Nat)
  -- `free`: in `insert_item` up to the last write to `_uc`, then the write to `_last_uc`
  | free (block : Option Nat)
  | lockProd (header : Nat)
  | insert (header : Nat)
  | insertEnd
  | unlockProd (rejected : Option Nat)
  | freed (status : Status)
  -- `free` has panicked
  | failed
  deriving DecidableEq, Repr

/-- The allocator and its threads.  The buffer runs the consumer's program for the thread that
    has the consumer lock, and the producer's for the one that has the producer lock.  `out` has
    the blocks that are not in the buffer, with the thread that has them. -/
structure Allocator (Thread : Type*) where
  ring : Nbb.Parties Nat
  consLock : Option Thread
  prodLock : Option Thread
  threads : Thread → Pc
  out : List (Thread × Nat)

inductive SlabEvent (Thread : Type*) where
  | alloc (thread : Thread)
  | free (thread : Thread) (block : Option Nat)
  | thread (thread : Thread)
  deriving DecidableEq

namespace Allocator

variable {Thread : Type*} [DecidableEq Thread]

def new (built : Built) : Allocator Thread where
  ring :=
    { nbb := built.nbb
      producer := .idle
      consumer := .idle
      inserted := built.blocks
      slots := (List.range built.blocks.length).map (· % built.shape.size)
      taken := [] }
  consLock := none
  prodLock := none
  threads := fun _ => .idle
  out := []

def setPc (s : Allocator Thread) (thread : Thread) (pc : Pc) : Allocator Thread :=
  { s with threads := Function.update s.threads thread pc }

def readNext (ring : Nbb.Parties Nat) : Pc :=
  match ring.consumer with
  | .loadUc =>
    match SymmetricNbb.readCheck ring.nbb.lastAc ring.nbb.uc with
    | some _ => .unlockCons none
    | none => .read
  | .publish header => .readEnd header
  | _ => .read

def insertNext (shape : Shape) (ring : Nbb.Parties Nat) (header : Nat) : Pc :=
  match ring.producer with
  | .loadAc _ =>
    match SymmetricNbb.insertCheck shape ring.nbb.lastUc ring.nbb.ac with
    | some _ => .unlockProd (some header)
    | none => .insert header
  | .publish _ => .insertEnd
  | _ => .insert header

/-- The next access of a thread in `alloc`; a lock that is taken has to be waited for. -/
def allocStep (built : Built) (s : Allocator Thread) (thread : Thread) :
    Option (Allocator Thread) :=
  match s.threads thread with
  | .lockCons =>
    match s.consLock with
    | none => some { s.setPc thread .read with
        ring := { s.ring with consumer := .loadUc }
        consLock := some thread }
    | some _ => none
  | .read =>
    (s.ring.consume built.shape).map fun ring =>
      { s.setPc thread (readNext s.ring) with
        ring := ring
        out := match s.ring.consumer with
          | .publish header => s.out ++ [(thread, header)]
          | _ => s.out }
  | .readEnd header =>
    (s.ring.consume built.shape).map fun ring =>
      { s.setPc thread (.unlockCons (some header)) with ring := ring }
  | .unlockCons result => some { s.setPc thread (.allocated result) with consLock := none }
  | .allocated _ => some (s.setPc thread .idle)
  | _ => none

def freeStep (built : Built) (s : Allocator Thread) (thread : Thread) :
    Option (Allocator Thread) :=
  match s.threads thread with
  | .free none => some (s.setPc thread (.freed .badParam))
  | .free (some header) =>
    some (s.setPc thread (if header ∈ built.blocks then .lockProd header else .freed .badParam))
  | .lockProd header =>
    match s.prodLock with
    | none => some { s.setPc thread (.insert header) with
        ring := { s.ring with producer := .loadAc header }
        prodLock := some thread }
    | some _ => none
  | .insert header =>
    (s.ring.produce built.shape).map fun ring =>
      { s.setPc thread (insertNext built.shape s.ring header) with
        ring := ring
        out := match s.ring.producer with
          | .publish _ => s.out.erase (thread, header)
          | _ => s.out }
  | .insertEnd =>
    (s.ring.produce built.shape).map fun ring =>
      { s.setPc thread (.unlockProd none) with ring := ring }
  | .unlockProd rejected =>
    some { s.setPc thread (if rejected.isSome then .failed else .freed .ok) with prodLock := none }
  | .freed _ => some (s.setPc thread .idle)
  | _ => none

def step (built : Built) (s : Allocator Thread) : SlabEvent Thread → Option (Allocator Thread)
  | .alloc thread =>
    match s.threads thread with
    | .idle => some (s.setPc thread .lockCons)
    | _ => none
  | .free thread block =>
    match s.threads thread with
    | .idle => some (s.setPc thread (.free block))
    | _ => none
  | .thread thread => (s.allocStep built thread).or (s.freeStep built thread)

end Allocator

end Xdk.FastSlab
