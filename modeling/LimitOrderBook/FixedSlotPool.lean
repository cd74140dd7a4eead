import Mathlib.Data.List.Basic
import Mathlib.Data.List.Nodup
import Mathlib.Data.Nat.Basic
import Mathlib.Tactic.Linarith

namespace LimitOrderBook

/-!
# The fixed-slot pool

The model of `memory/fixed_slot_pool.hpp`.  A pool owns one byte range and
hands out slots of one size; the slot geometry is fixed by the first
allocation.  Addresses are natural numbers and zero is the null pointer.

`Holds` relates a pool to the list of addresses handed out and not taken back.
The three specification lemmas state what its users rely on: a pool with a free
slot serves it, a full pool refuses and stays as it was, and a held slot that
is returned is really taken back.
-/

/-- `std::align`: the aligned pointer and the space left behind it. -/
def align (alignment size pointer space : Nat) : Option (Nat × Nat) :=
  let padding := (alignment - pointer % alignment) % alignment
  if space < size + padding then
    none
  else
    some (pointer + padding, space - padding)

/-- What an allocation request answers. -/
inductive Allocation where
  | null
  | address (value : Nat)
  | badAlloc
  deriving DecidableEq, Repr

structure FixedSlotPool where
  storage : Nat
  capacityBytes : Nat
  firstInit : Bool := false
  freeSlots : List Nat := []
  inUses : List Bool := []
  freeCount : Nat := 0
  slotSz : Nat := 0
  slotAlignment : Nat := 0
  lastValidStart : Nat := 0
  firstValidStart : Nat := 0
  deriving DecidableEq, Repr

namespace FixedSlotPool

/-- The slot geometry of a pool whose aligned storage has `space` bytes. -/
def layout (pool : FixedSlotPool) (bytes alignment space : Nat) :
    FixedSlotPool :=
  let count := space / bytes
  let padding := pool.capacityBytes - space
  { pool with
    freeSlots := (List.range count).map fun i => padding + i * bytes
    inUses := List.replicate count false
    freeCount := count
    slotSz := bytes
    slotAlignment := alignment
    lastValidStart := padding + (count - 1) * bytes
    firstValidStart := padding
    firstInit := true }

/--
The lazy initialisation of the first allocation.  `metadata` says whether the
heap grants the two vectors their memory.
-/
def prepare
    (pool : FixedSlotPool) (metadata : Bool) (bytes alignment : Nat) :
    Option FixedSlotPool :=
  if pool.firstInit then
    some pool
  else
    match align alignment bytes pool.storage pool.capacityBytes with
    | none => none
    | some (_, space) =>
        if metadata then
          some (pool.layout bytes alignment space)
        else
          none

/-- The free block on top of the stack. -/
def topSlot (pool : FixedSlotPool) : Nat :=
  pool.freeSlots.getD (pool.freeCount - 1) 0

/-- Pop the free stack and mark the popped slot as used. -/
def pop (pool : FixedSlotPool) (bytes : Nat) : FixedSlotPool :=
  { pool with
    freeCount := pool.freeCount - 1
    inUses := pool.inUses.set
      ((pool.topSlot - pool.firstValidStart) / bytes) true }

/-- Serve a request from an initialised pool. -/
def take (pool : FixedSlotPool) (bytes alignment : Nat) :
    FixedSlotPool × Allocation :=
  if pool.freeCount = 0 then
    (pool, .badAlloc)
  else if pool.slotSz ≠ bytes ∨ pool.slotAlignment ≠ alignment then
    (pool, .badAlloc)
  else
    (pool.pop bytes, .address (pool.storage + pool.topSlot))

def allocate
    (pool : FixedSlotPool) (metadata : Bool) (bytes alignment : Nat) :
    FixedSlotPool × Allocation :=
  if bytes = 0 then
    (pool, .null)
  else
    match pool.prepare metadata bytes alignment with
    | none => (pool, .badAlloc)
    | some ready => ready.take bytes alignment

def deallocate (pool : FixedSlotPool) (pointer bytes : Nat) : FixedSlotPool :=
  if pointer = 0 ∨ bytes = 0 ∨ pool.firstInit = false ∨ bytes ≠ pool.slotSz then
    pool
  else
    -- The unsigned difference of a pointer below the storage wraps around.
    let start :=
      if pointer < pool.storage then
        pointer + 2 ^ 64 - pool.storage
      else
        pointer - pool.storage
    if pool.lastValidStart < start ∨ start < pool.firstValidStart then
      pool
    else if (start - pool.firstValidStart) % pool.slotSz ≠ 0 then
      pool
    else if align pool.slotAlignment pool.slotSz pointer pool.slotSz = none then
      pool
    else
      let index := (start - pool.firstValidStart) / bytes
      if pool.inUses.getD index false then
        { pool with
          inUses := pool.inUses.set index false
          freeSlots := pool.freeSlots.set pool.freeCount start
          freeCount := pool.freeCount + 1 }
      else
        pool

/-- Slots that fit the storage once its start is aligned. -/
def slotTotal (pool : FixedSlotPool) (bytes alignment : Nat) : Nat :=
  match align alignment bytes pool.storage pool.capacityBytes with
  | none => 0
  | some (_, space) => space / bytes

/-- Where slot `index` starts. -/
def slotStart (pool : FixedSlotPool) (index : Nat) : Nat :=
  pool.firstValidStart + index * pool.slotSz

/-- An initialised pool and the addresses it has handed out. -/
structure Ready
    (pool : FixedSlotPool) (bytes alignment : Nat) (held : List Nat) :
    Prop where
  slotSize : pool.slotSz = bytes
  slotAlign : pool.slotAlignment = alignment
  slotCount : pool.inUses.length = pool.slotTotal bytes alignment
  freeLength : pool.freeSlots.length = pool.inUses.length
  firstAligned : alignment ∣ pool.storage + pool.firstValidStart
  lastStart : pool.lastValidStart = pool.slotStart (pool.inUses.length - 1)
  accounted : pool.freeCount + held.length = pool.inUses.length
  freeNodup : (pool.freeSlots.take pool.freeCount).Nodup
  freeSlot : ∀ start ∈ pool.freeSlots.take pool.freeCount,
    ∃ index, start = pool.slotStart index ∧
      pool.inUses[index]? = some false
  heldNodup : held.Nodup
  heldSlot : ∀ address ∈ held,
    ∃ index, address = pool.storage + pool.slotStart index ∧
      pool.inUses[index]? = some true

/-- A pool used for one slot geometry and the addresses it has handed out. -/
structure Holds
    (pool : FixedSlotPool) (bytes alignment : Nat) (held : List Nat) :
    Prop where
  storagePos : 0 < pool.storage
  beforeInit : pool.firstInit = false → held = []
  afterInit : pool.firstInit = true → pool.Ready bytes alignment held

end FixedSlotPool

/-- An aligned pointer leaves room for one slot and is a multiple. -/
theorem align_some
    {alignment size pointer space aligned left : Nat}
    (alignmentPos : 0 < alignment)
    (aligns : align alignment size pointer space = some (aligned, left)) :
    alignment ∣ aligned ∧ size ≤ left ∧ left ≤ space ∧
      aligned = pointer + (space - left) := by
  simp only [align] at aligns
  split at aligns
  · cases aligns
  · rename_i roomy
    simp only [Option.some.injEq, Prod.mk.injEq] at aligns
    obtain ⟨rfl, rfl⟩ := aligns
    refine ⟨?_, by omega, by omega, by omega⟩
    have remainderLt := Nat.mod_lt pointer alignmentPos
    rcases Nat.eq_zero_or_pos (pointer % alignment) with zero | pos
    · simp [zero, Nat.dvd_of_mod_eq_zero zero]
    · rw [Nat.mod_eq_of_lt (by omega)]
      refine ⟨pointer / alignment + 1, ?_⟩
      have division := Nat.div_add_mod pointer alignment
      rw [Nat.mul_add, Nat.mul_one]
      omega

/-- A pointer that is already a multiple needs no padding. -/
theorem align_of_dvd
    {alignment size pointer : Nat}
    (aligned : alignment ∣ pointer) :
    align alignment size pointer size = some (pointer, size) := by
  have remainder : pointer % alignment = 0 := Nat.mod_eq_zero_of_dvd aligned
  simp [align, remainder]

namespace FixedSlotPool

variable {pool : FixedSlotPool} {bytes alignment : Nat} {held : List Nat}

theorem slotStart_injective
    (bytesPos : 0 < pool.slotSz) {first second : Nat}
    (same : pool.slotStart first = pool.slotStart second) :
    first = second := by
  simp only [slotStart, Nat.add_left_cancel_iff] at same
  exact Nat.eq_of_mul_eq_mul_right bytesPos same

theorem slotStart_index
    (bytesPos : 0 < pool.slotSz) (index : Nat) :
    (pool.slotStart index - pool.firstValidStart) / pool.slotSz = index := by
  simp [slotStart, Nat.mul_div_cancel _ bytesPos]

/-- The slot geometry fixed by the first allocation. -/
theorem prepare_fresh
    (bytesPos : 0 < bytes) (alignmentPos : 0 < alignment)
    (fresh : pool.firstInit = false)
    (roomy : 0 < pool.slotTotal bytes alignment) :
    ∃ ready,
      pool.prepare true bytes alignment = some ready ∧
        ready.storage = pool.storage ∧
        ready.capacityBytes = pool.capacityBytes ∧
        ready.firstInit = true ∧
        ready.Ready bytes alignment [] := by
  cases aligns : align alignment bytes pool.storage pool.capacityBytes with
  | none =>
      simp [slotTotal, aligns] at roomy
  | some result =>
      obtain ⟨aligned, space⟩ := result
      obtain ⟨multiple, _, spaceLe, alignedEq⟩ := align_some alignmentPos aligns
      refine ⟨pool.layout bytes alignment space,
        by simp [prepare, fresh, aligns], rfl, rfl, rfl, ?_⟩
      refine
        { slotSize := rfl
          slotAlign := rfl
          slotCount := by simp [slotTotal, layout, aligns]
          freeLength := by simp [layout]
          firstAligned := by simpa [layout, alignedEq] using multiple
          lastStart := by simp [slotStart, layout]
          accounted := by simp [layout]
          freeNodup := ?_
          freeSlot := ?_
          heldNodup := .nil
          heldSlot := by simp }
      · rw [List.take_of_length_le (by simp [layout])]
        refine List.Nodup.map ?_ List.nodup_range
        intro first second same
        exact Nat.eq_of_mul_eq_mul_right bytesPos (Nat.add_left_cancel same)
      · rw [List.take_of_length_le (by simp [layout])]
        intro start member
        obtain ⟨index, inRange, rfl⟩ := List.mem_map.mp member
        refine ⟨index, rfl, ?_⟩
        simp [layout, List.mem_range.mp inRange]

/-- The free stack is its top, which is a slot not in use, and the rest. -/
theorem Ready.top
    (bytesPos : 0 < bytes) (ready : pool.Ready bytes alignment held)
    (countPos : 0 < pool.freeCount) :
    pool.freeSlots.take pool.freeCount =
        pool.freeSlots.take (pool.freeCount - 1) ++ [pool.topSlot] ∧
      ∃ index, pool.topSlot = pool.slotStart index ∧
        pool.inUses[index]? = some false ∧
        (pool.topSlot - pool.firstValidStart) / bytes = index := by
  have sizePos : 0 < pool.slotSz := ready.slotSize ▸ bytesPos
  have inRange : pool.freeCount - 1 < pool.freeSlots.length := by
    have accounted := ready.accounted
    have freeLength := ready.freeLength
    omega
  have stackShape :
      pool.freeSlots.take pool.freeCount =
        pool.freeSlots.take (pool.freeCount - 1) ++ [pool.topSlot] := by
    conv_lhs => rw [show pool.freeCount = pool.freeCount - 1 + 1 by omega]
    rw [List.take_add_one]
    simp [topSlot, List.getElem?_eq_getElem inRange]
  obtain ⟨index, topShape, indexFree⟩ :=
    ready.freeSlot pool.topSlot (by rw [stackShape]; simp)
  refine ⟨stackShape, index, topShape, indexFree, ?_⟩
  rw [topShape, ← ready.slotSize, slotStart_index sizePos]

/-- Popping the free stack hands out a slot that was not in use. -/
theorem pop_ready
    (bytesPos : 0 < bytes)
    (ready : pool.Ready bytes alignment held)
    (countPos : 0 < pool.freeCount) :
    pool.storage + pool.topSlot ∉ held ∧
      (pool.pop bytes).Ready bytes alignment
        ((pool.storage + pool.topSlot) :: held) := by
  have sizePos : 0 < pool.slotSz := ready.slotSize ▸ bytesPos
  obtain ⟨stackShape, index, topShape, indexFree, topIndex⟩ :=
    ready.top bytesPos countPos
  have freeNodup := ready.freeNodup
  rw [stackShape, List.nodup_append] at freeNodup
  obtain ⟨belowNodup, _, topApart⟩ := freeNodup
  have indexLt : index < pool.inUses.length :=
    (List.getElem?_eq_some_iff.mp indexFree).1
  have fresh : pool.storage + pool.topSlot ∉ held := by
    intro member
    obtain ⟨other, addressShape, otherUsed⟩ := ready.heldSlot _ member
    rw [Nat.add_left_cancel_iff, topShape] at addressShape
    have sameIndex := slotStart_injective sizePos addressShape
    rw [sameIndex, otherUsed] at indexFree
    cases indexFree
  refine ⟨fresh, ?_⟩
  refine
    { slotSize := ready.slotSize
      slotAlign := ready.slotAlign
      slotCount := by simpa [pop, slotTotal] using ready.slotCount
      freeLength := by simpa [pop] using ready.freeLength
      firstAligned := ready.firstAligned
      lastStart := by simpa [slotStart, pop] using ready.lastStart
      accounted := ?_
      freeNodup := belowNodup
      freeSlot := ?_
      heldNodup := List.nodup_cons.mpr ⟨fresh, ready.heldNodup⟩
      heldSlot := ?_ }
  · have accounted := ready.accounted
    simp only [pop, List.length_cons, List.length_set]
    omega
  · intro other member
    obtain ⟨otherIndex, otherShape, otherFree⟩ :=
      ready.freeSlot other (by rw [stackShape]; exact List.mem_append_left _ member)
    refine ⟨otherIndex, otherShape, ?_⟩
    have apart : index ≠ otherIndex := by
      rintro rfl
      exact topApart other member pool.topSlot (by simp)
        (by rw [otherShape, topShape])
    simpa [pop, topIndex, List.getElem?_set_ne apart] using otherFree
  · intro address member
    rcases List.mem_cons.mp member with isNew | old
    · refine ⟨index, ?_, ?_⟩
      · rw [isNew, topShape]
        rfl
      · simp [pop, topIndex, List.getElem?_set_self indexLt]
    · obtain ⟨other, addressShape, otherUsed⟩ := ready.heldSlot address old
      refine ⟨other, addressShape, ?_⟩
      have apart : index ≠ other := by
        rintro rfl
        rw [otherUsed] at indexFree
        cases indexFree
      simpa [pop, topIndex, List.getElem?_set_ne apart] using otherUsed

/-- A pool with a free slot serves an allocation of its geometry. -/
theorem allocate_free
    (bytesPos : 0 < bytes) (alignmentPos : 0 < alignment)
    (holds : pool.Holds bytes alignment held)
    (free : held.length < pool.slotTotal bytes alignment) :
    ∃ next address,
      pool.allocate true bytes alignment = (next, .address address) ∧
        address ∉ held ∧
        next.storage = pool.storage ∧
        next.capacityBytes = pool.capacityBytes ∧
        next.Holds bytes alignment (address :: held) := by
  have bytesNe : bytes ≠ 0 := Nat.pos_iff_ne_zero.mp bytesPos
  -- Both cases end in `take` on an initialised pool of the same storage.
  have serve :
      ∃ ready, pool.prepare true bytes alignment = some ready ∧
        ready.storage = pool.storage ∧
        ready.capacityBytes = pool.capacityBytes ∧
        ready.firstInit = true ∧
        ready.Ready bytes alignment held := by
    cases init : pool.firstInit with
    | true =>
        exact ⟨pool, by simp [prepare, init], rfl, rfl, init,
          holds.afterInit init⟩
    | false =>
        have nothingHeld := holds.beforeInit init
        subst nothingHeld
        exact prepare_fresh bytesPos alignmentPos init
          (by simpa using free)
  obtain ⟨ready, prepared, sameStorage, sameCapacity, initialised, isReady⟩ :=
    serve
  have sameTotal :
      ready.slotTotal bytes alignment = pool.slotTotal bytes alignment := by
    simp [slotTotal, sameStorage, sameCapacity]
  have countPos : 0 < ready.freeCount := by
    have accounted := isReady.accounted
    have slotCount := isReady.slotCount
    omega
  obtain ⟨fresh, nextReady⟩ := pop_ready bytesPos isReady countPos
  refine ⟨ready.pop bytes, ready.storage + ready.topSlot, ?_, fresh,
    sameStorage, sameCapacity, ?_⟩
  · simp [allocate, bytesNe, prepared, take,
      Nat.pos_iff_ne_zero.mp countPos, isReady.slotSize, isReady.slotAlign]
  · exact
      { storagePos := by
          simpa [pop, sameStorage] using holds.storagePos
        beforeInit := by simp [pop, initialised]
        afterInit := fun _ => nextReady }

/-- A full pool refuses and stays as it was. -/
theorem allocate_full
    (bytesPos : 0 < bytes) (alignmentPos : 0 < alignment)
    (holds : pool.Holds bytes alignment held)
    (full : held.length = pool.slotTotal bytes alignment)
    (metadata : Bool) :
    pool.allocate metadata bytes alignment = (pool, .badAlloc) := by
  have bytesNe : bytes ≠ 0 := Nat.pos_iff_ne_zero.mp bytesPos
  cases init : pool.firstInit with
  | true =>
      have ready := holds.afterInit init
      have noneFree : pool.freeCount = 0 := by
        have accounted := ready.accounted
        have slotCount := ready.slotCount
        omega
      simp [allocate, bytesNe, prepare, init, take, noneFree]
  | false =>
      have nothingHeld := holds.beforeInit init
      subst nothingHeld
      cases aligns : align alignment bytes pool.storage pool.capacityBytes with
      | none =>
          simp [allocate, bytesNe, prepare, init, aligns]
      | some result =>
          obtain ⟨aligned, space⟩ := result
          obtain ⟨_, spaceGe, _, _⟩ := align_some alignmentPos aligns
          have positive : 0 < space / bytes := Nat.div_pos spaceGe bytesPos
          simp [slotTotal, aligns] at full
          omega

/-- A failed allocation never changes the pool. -/
theorem allocate_badAlloc
    {next : FixedSlotPool} {metadata : Bool}
    (holds : pool.Holds bytes alignment held)
    (bytesPos : 0 < bytes) (alignmentPos : 0 < alignment)
    (failed : pool.allocate metadata bytes alignment = (next, .badAlloc)) :
    next = pool := by
  by_cases full : held.length = pool.slotTotal bytes alignment
  · rw [allocate_full bytesPos alignmentPos holds full] at failed
    exact (Prod.mk.inj failed).1.symm
  · have bytesNe : bytes ≠ 0 := Nat.pos_iff_ne_zero.mp bytesPos
    cases metadata with
    | false =>
        cases init : pool.firstInit with
        | true =>
            simp only [allocate, bytesNe, if_false, prepare, init, if_true]
              at failed
            simp only [take] at failed
            split_ifs at failed <;> simp_all
        | false =>
            simp only [allocate, bytesNe, if_false, prepare, init] at failed
            cases aligns :
                align alignment bytes pool.storage pool.capacityBytes <;>
              simp_all
    | true =>
        have fits : held.length < pool.slotTotal bytes alignment := by
          cases init : pool.firstInit with
          | true =>
              have ready := holds.afterInit init
              have accounted := ready.accounted
              have slotCount := ready.slotCount
              omega
          | false =>
              have nothingHeld := holds.beforeInit init
              subst nothingHeld
              exact Nat.lt_of_le_of_ne (Nat.zero_le _) full
        obtain ⟨other, address, served, _⟩ :=
          allocate_free bytesPos alignmentPos holds fits
        rw [served] at failed
        cases failed

/-- Held slots never outnumber the slots that fit. -/
theorem Holds.length_le
    (holds : pool.Holds bytes alignment held) :
    held.length ≤ pool.slotTotal bytes alignment := by
  cases init : pool.firstInit with
  | true =>
      have ready := holds.afterInit init
      have accounted := ready.accounted
      have slotCount := ready.slotCount
      omega
  | false =>
      simp [holds.beforeInit init]

/-- Slots of a whole number of alignments are all aligned. -/
theorem Ready.multiple
    (ready : pool.Ready bytes alignment held) (wholeSlots : alignment ∣ bytes)
    (index : Nat) : alignment ∣ pool.storage + pool.slotStart index := by
  rw [slotStart, ← Nat.add_assoc, ready.slotSize]
  exact Nat.dvd_add ready.firstAligned (Dvd.dvd.mul_left wholeSlots index)

/-- The slots start between the first and the last one. -/
theorem Ready.slotStart_le
    (ready : pool.Ready bytes alignment held) {index : Nat}
    (indexLt : index < pool.inUses.length) :
    pool.firstValidStart ≤ pool.slotStart index ∧
      pool.slotStart index ≤ pool.lastValidStart := by
  have indexLe : index ≤ pool.inUses.length - 1 := by omega
  rw [ready.lastStart]
  exact ⟨by simp [slotStart],
    by simpa [slotStart] using Nat.mul_le_mul_right pool.slotSz indexLe⟩

/-- Mark a slot as free and push it on the free stack. -/
def release (pool : FixedSlotPool) (index : Nat) : FixedSlotPool :=
  { pool with
    inUses := pool.inUses.set index false
    freeSlots := pool.freeSlots.set pool.freeCount (pool.slotStart index)
    freeCount := pool.freeCount + 1 }

/-- An aligned slot under a used index is really taken back. -/
theorem deallocate_slot
    {index : Nat} (bytesPos : 0 < bytes) (storagePos : 0 < pool.storage)
    (init : pool.firstInit = true) (ready : pool.Ready bytes alignment held)
    (multiple : alignment ∣ pool.storage + pool.slotStart index)
    (used : pool.inUses[index]? = some true) :
    pool.deallocate (pool.storage + pool.slotStart index) bytes =
      pool.release index := by
  have sizePos : 0 < pool.slotSz := ready.slotSize ▸ bytesPos
  obtain ⟨aboveFirst, belowLast⟩ :=
    ready.slotStart_le (List.getElem?_eq_some_iff.mp used).1
  have addressNe : pool.storage + pool.slotStart index ≠ 0 := by omega
  have notBelow :
      ¬ pool.storage + pool.slotStart index < pool.storage := by omega
  have startEq :
      pool.storage + pool.slotStart index - pool.storage =
        pool.slotStart index := by omega
  have aligned :
      align pool.slotAlignment pool.slotSz
          (pool.storage + pool.slotStart index) pool.slotSz =
        some (pool.storage + pool.slotStart index, pool.slotSz) :=
    align_of_dvd (ready.slotAlign ▸ multiple)
  have whole :
      (pool.slotStart index - pool.firstValidStart) % pool.slotSz = 0 := by
    simp [slotStart]
  have indexEq :
      (pool.slotStart index - pool.firstValidStart) / bytes = index := by
    rw [← ready.slotSize, slotStart_index sizePos]
  simp only [deallocate, addressNe, Nat.pos_iff_ne_zero.mp bytesPos, init,
    ready.slotSize, ne_eq, not_true_eq_false, or_self, if_false,
    notBelow, startEq, Nat.not_lt.mpr belowLast, Nat.not_lt.mpr aboveFirst,
    Bool.true_eq_false]
  rw [ready.slotSize] at whole aligned
  simp [whole, aligned, indexEq, used, release, init, ready.slotSize]

/-- Releasing a held slot frees exactly that slot. -/
theorem Ready.release
    {index : Nat} (bytesPos : 0 < bytes)
    (ready : pool.Ready bytes alignment held)
    (member : pool.storage + pool.slotStart index ∈ held)
    (used : pool.inUses[index]? = some true) :
    (pool.release index).Ready bytes alignment
      (held.erase (pool.storage + pool.slotStart index)) := by
  have sizePos : 0 < pool.slotSz := ready.slotSize ▸ bytesPos
  have indexLt : index < pool.inUses.length :=
    (List.getElem?_eq_some_iff.mp used).1
  have heldPos : 0 < held.length := List.length_pos_of_mem member
  have roomFree : pool.freeCount < pool.freeSlots.length := by
    have accounted := ready.accounted
    have freeLength := ready.freeLength
    omega
  have freshFree :
      pool.slotStart index ∉ pool.freeSlots.take pool.freeCount := by
    intro isFree
    obtain ⟨other, sameStart, otherFree⟩ := ready.freeSlot _ isFree
    have sameIndex := slotStart_injective sizePos sameStart
    rw [← sameIndex, used] at otherFree
    cases otherFree
  have stackShape :
      (pool.freeSlots.set pool.freeCount (pool.slotStart index)).take
          (pool.freeCount + 1) =
        pool.freeSlots.take pool.freeCount ++ [pool.slotStart index] := by
    rw [List.take_add_one, List.getElem?_set_self roomFree,
      List.take_set_of_le (Nat.le_refl _)]
    rfl
  refine
    { slotSize := ready.slotSize
      slotAlign := ready.slotAlign
      slotCount := by
        simpa [FixedSlotPool.release, slotTotal] using ready.slotCount
      freeLength := by simpa [FixedSlotPool.release] using ready.freeLength
      firstAligned := ready.firstAligned
      lastStart := by
        simpa [FixedSlotPool.release, slotStart] using ready.lastStart
      accounted := ?_
      freeNodup := ?_
      freeSlot := ?_
      heldNodup := ready.heldNodup.erase _
      heldSlot := ?_ }
  · have accounted := ready.accounted
    simp only [FixedSlotPool.release, List.length_set,
      List.length_erase_of_mem member]
    omega
  · rw [FixedSlotPool.release, stackShape, List.nodup_append]
    refine ⟨ready.freeNodup, by simp, ?_⟩
    intro other isFree top isTop same
    simp only [List.mem_singleton] at isTop
    exact freshFree (isTop ▸ same ▸ isFree)
  · intro start isFree
    rw [FixedSlotPool.release, stackShape] at isFree
    rcases List.mem_append.mp isFree with below | top
    · obtain ⟨other, otherShape, otherFree⟩ := ready.freeSlot start below
      refine ⟨other, otherShape, ?_⟩
      by_cases same : index = other
      · subst same
        exact List.getElem?_set_self indexLt
      · rw [FixedSlotPool.release, List.getElem?_set_ne same]
        exact otherFree
    · simp only [List.mem_singleton] at top
      exact ⟨index, top, List.getElem?_set_self indexLt⟩
  · intro other stillHeld
    obtain ⟨apart, wasHeld⟩ := (ready.heldNodup.mem_erase_iff).mp stillHeld
    obtain ⟨otherIndex, otherShape, otherUsed⟩ := ready.heldSlot other wasHeld
    refine ⟨otherIndex, otherShape, ?_⟩
    have indexApart : index ≠ otherIndex := by
      rintro rfl
      exact apart otherShape
    rw [FixedSlotPool.release, List.getElem?_set_ne indexApart]
    exact otherUsed

/-- Returning a held slot is accepted and frees exactly that slot. -/
theorem deallocate_held
    {address : Nat}
    (bytesPos : 0 < bytes) (wholeSlots : alignment ∣ bytes)
    (holds : pool.Holds bytes alignment held)
    (member : address ∈ held) :
    (pool.deallocate address bytes).Holds bytes alignment
        (held.erase address) ∧
      (pool.deallocate address bytes).storage = pool.storage ∧
      (pool.deallocate address bytes).capacityBytes = pool.capacityBytes := by
  have init : pool.firstInit = true := by
    cases init : pool.firstInit with
    | true => rfl
    | false =>
        rw [holds.beforeInit init] at member
        cases member
  have ready := holds.afterInit init
  obtain ⟨index, rfl, used⟩ := ready.heldSlot address member
  rw [deallocate_slot bytesPos holds.storagePos init ready
    (ready.multiple wholeSlots index) used]
  refine ⟨?_, rfl, rfl⟩
  exact
    { storagePos := holds.storagePos
      beforeInit := by simp [release, init]
      afterInit := fun _ => ready.release bytesPos member used }

/-- What the lazy initialisation leaves is ready for the same addresses. -/
theorem prepare_ready
    {ready : FixedSlotPool} {metadata : Bool}
    (bytesPos : 0 < bytes) (alignmentPos : 0 < alignment)
    (holds : pool.Holds bytes alignment held)
    (prepared : pool.prepare metadata bytes alignment = some ready) :
    pool.prepare true bytes alignment = some ready ∧
      ready.storage = pool.storage ∧
      ready.capacityBytes = pool.capacityBytes ∧
      ready.firstInit = true ∧
      ready.Ready bytes alignment held := by
  cases init : pool.firstInit with
  | true =>
      simp only [prepare, init, if_true, Option.some.injEq] at prepared
      subst prepared
      exact ⟨by simp [prepare, init], rfl, rfl, init, holds.afterInit init⟩
  | false =>
      have nothingHeld := holds.beforeInit init
      subst nothingHeld
      cases aligns : align alignment bytes pool.storage pool.capacityBytes with
      | none =>
          simp [prepare, init, aligns] at prepared
      | some result =>
          obtain ⟨aligned, space⟩ := result
          obtain ⟨_, spaceGe, _, _⟩ := align_some alignmentPos aligns
          have roomy : 0 < pool.slotTotal bytes alignment := by
            simpa [slotTotal, aligns] using Nat.div_pos spaceGe bytesPos
          obtain ⟨fresh, freshPrepared, facts⟩ :=
            prepare_fresh bytesPos alignmentPos init roomy
          have same : fresh = ready := by
            cases metadata with
            | true =>
                rw [freshPrepared] at prepared
                exact Option.some.inj prepared
            | false =>
                simp [prepare, init, aligns] at prepared
          subst same
          exact ⟨freshPrepared, facts⟩

/-- An allocation that is served pops the top of a pool that is ready. -/
theorem allocate_pops
    {next : FixedSlotPool} {metadata : Bool} {address : Nat}
    (bytesPos : 0 < bytes) (alignmentPos : 0 < alignment)
    (holds : pool.Holds bytes alignment held)
    (served : pool.allocate metadata bytes alignment =
      (next, .address address)) :
    ∃ ready, pool.prepare metadata bytes alignment = some ready ∧
      ready.storage = pool.storage ∧
      ready.capacityBytes = pool.capacityBytes ∧
      ready.firstInit = true ∧
      ready.Ready bytes alignment held ∧
      0 < ready.freeCount ∧
      ready.pop bytes = next ∧ ready.storage + ready.topSlot = address := by
  have bytesNe : bytes ≠ 0 := Nat.pos_iff_ne_zero.mp bytesPos
  cases prepared : pool.prepare metadata bytes alignment with
  | none =>
      simp [allocate, bytesNe, prepared] at served
  | some ready =>
      obtain ⟨_, sameStorage, sameCapacity, init, isReady⟩ :=
        prepare_ready bytesPos alignmentPos holds prepared
      simp only [allocate, bytesNe, if_false, prepared, take,
        isReady.slotSize, isReady.slotAlign, ne_eq, not_true_eq_false,
        or_self] at served
      split_ifs at served with noneFree
      · cases served
      simp only [Prod.mk.injEq, Allocation.address.injEq] at served
      exact ⟨ready, rfl, sameStorage, sameCapacity, init, isReady,
        Nat.pos_of_ne_zero noneFree, served.1, served.2⟩

/-- Whatever the heap grants, a served address is new and now held. -/
theorem allocate_address
    {next : FixedSlotPool} {metadata : Bool} {address : Nat}
    (bytesPos : 0 < bytes) (alignmentPos : 0 < alignment)
    (holds : pool.Holds bytes alignment held)
    (served : pool.allocate metadata bytes alignment =
      (next, .address address)) :
    address ∉ held ∧
      next.storage = pool.storage ∧
      next.capacityBytes = pool.capacityBytes ∧
      next.Holds bytes alignment (address :: held) := by
  obtain ⟨ready, _, sameStorage, sameCapacity, init, isReady, countPos, rfl,
    rfl⟩ := allocate_pops bytesPos alignmentPos holds served
  obtain ⟨fresh, popped⟩ := pop_ready bytesPos isReady countPos
  exact ⟨fresh, sameStorage, sameCapacity,
    { storagePos := by simpa [pop, sameStorage] using holds.storagePos
      beforeInit := by simp [pop, init]
      afterInit := fun _ => popped }⟩

/-- Taking a slot back at once undoes all of an allocation but its set-up. -/
theorem allocate_undo
    {next : FixedSlotPool} {metadata : Bool} {address : Nat}
    (bytesPos : 0 < bytes) (alignmentPos : 0 < alignment)
    (wholeSlots : alignment ∣ bytes)
    (holds : pool.Holds bytes alignment held)
    (served : pool.allocate metadata bytes alignment =
      (next, .address address)) :
    pool.prepare metadata bytes alignment =
      some (next.deallocate address bytes) := by
  obtain ⟨ready, prepared, sameStorage, _, init, isReady, countPos, rfl, rfl⟩ :=
    allocate_pops bytesPos alignmentPos holds served
  rw [prepared]
  obtain ⟨_, popped⟩ := pop_ready bytesPos isReady countPos
  have inRange : ready.freeCount - 1 < ready.freeSlots.length := by
    have accounted := isReady.accounted
    have freeLength := isReady.freeLength
    omega
  have topGet : ready.freeSlots[ready.freeCount - 1]? =
      some ready.topSlot := by
    simp [topSlot, List.getElem?_eq_getElem inRange]
  obtain ⟨_, index, topShape, indexFree, topIndex⟩ :=
    isReady.top bytesPos countPos
  have indexLt : index < ready.inUses.length :=
    (List.getElem?_eq_some_iff.mp indexFree).1
  have used : (ready.pop bytes).inUses[index]? = some true := by
    simp [pop, topIndex, List.getElem?_set_self indexLt]
  have undone := deallocate_slot bytesPos
    (by simpa [pop, sameStorage] using holds.storagePos)
    (by simpa [pop] using init) popped (popped.multiple wholeSlots index)
    used
  have sameStart : (ready.pop bytes).slotStart index = ready.topSlot := by
    rw [topShape]
    rfl
  rw [sameStart] at undone
  rw [show (ready.pop bytes).storage = ready.storage from rfl] at undone
  rw [undone, release, sameStart]
  have usesBack :
      (ready.inUses.set index true).set index false = ready.inUses := by
    obtain ⟨_, isFree⟩ := List.getElem?_eq_some_iff.mp indexFree
    rw [List.set_set, ← isFree, List.set_getElem_self]
  have stackBack :
      ready.freeSlots.set (ready.freeCount - 1) ready.topSlot =
        ready.freeSlots := by
    obtain ⟨_, isTop⟩ := List.getElem?_eq_some_iff.mp topGet
    rw [← isTop, List.set_getElem_self]
  simp only [pop, topIndex, usesBack, stackBack,
    Nat.sub_add_cancel countPos]

theorem firstInit_of_prepare
    {ready : FixedSlotPool} {metadata : Bool}
    (prepared : pool.prepare metadata bytes alignment = some ready) :
    ready.firstInit = true := by
  simp only [prepare] at prepared
  split at prepared
  · rename_i init
    rw [← Option.some.inj prepared]
    exact init
  · split at prepared
    · cases prepared
    · split_ifs at prepared
      rw [← Option.some.inj prepared]
      rfl

theorem prepare_granted
    {ready : FixedSlotPool} {metadata : Bool}
    (prepared : pool.prepare metadata bytes alignment = some ready) :
    pool.prepare true bytes alignment = some ready := by
  cases metadata with
  | true => exact prepared
  | false =>
      cases init : pool.firstInit with
      | true => simpa [prepare, init] using prepared
      | false =>
          simp only [prepare, init, Bool.false_eq_true, if_false] at prepared
          split at prepared <;> cases prepared

/-- A served request is served alike when the heap grants everything. -/
theorem allocate_granted
    {next : FixedSlotPool} {metadata : Bool} {address : Nat}
    (served : pool.allocate metadata bytes alignment =
      (next, .address address)) :
    pool.allocate true bytes alignment = (next, .address address) ∧
      next.firstInit = true := by
  by_cases noBytes : bytes = 0
  · simp [allocate, noBytes] at served
  cases prepared : pool.prepare metadata bytes alignment with
  | none => simp [allocate, noBytes, prepared] at served
  | some ready =>
      simp only [allocate, noBytes, if_false, prepared,
        prepare_granted prepared] at served ⊢
      refine ⟨served, ?_⟩
      simp only [take] at served
      split_ifs at served
      · cases served
      · cases served
      · have init : ready.firstInit = true := firstInit_of_prepare prepared
        rw [← (Prod.mk.inj served).1]
        exact init

@[simp] theorem deallocate_firstInit (pointer : Nat) :
    (pool.deallocate pointer bytes).firstInit = pool.firstInit := by
  simp only [deallocate]
  split_ifs <;> rfl

/-- A set-up pool serves as the pool it was set up from would have. -/
theorem allocate_prepared
    {ready : FixedSlotPool} {metadata : Bool}
    (prepared : pool.prepare metadata bytes alignment = some ready)
    (bytesPos : 0 < bytes) (granted : Bool) :
    ready.allocate granted bytes alignment =
      pool.allocate metadata bytes alignment := by
  have bytesNe : bytes ≠ 0 := Nat.pos_iff_ne_zero.mp bytesPos
  have again : ready.prepare granted bytes alignment = some ready := by
    simp [prepare, firstInit_of_prepare prepared]
  simp only [allocate, bytesNe, if_false, prepared, again]

end FixedSlotPool

end LimitOrderBook
