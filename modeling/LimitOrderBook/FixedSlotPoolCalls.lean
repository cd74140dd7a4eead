import LimitOrderBook.FixedSlotPool
import Mathlib.Data.List.Count
import Mathlib.Data.List.Induction

namespace LimitOrderBook

/-!
# The pool under arbitrary calls

The pool trusts no caller: sizes and alignments may change from call to call
and any address may be released.  A history records the byte ranges that were
handed out and not accepted back.  `Tracks` ties the free stack and the used
flags to them; every call keeps it.
-/

namespace FixedSlotPool

/-- `try_allocate`: the second copy of `allocate`, which throws nothing. -/
def tryAllocate
    (pool : FixedSlotPool) (metadata : Bool) (bytes alignment : Nat) :
    FixedSlotPool × Allocation :=
  if bytes = 0 then
    (pool, .null)
  else
    match pool.prepare metadata bytes alignment with
    | none => (pool, .null)
    | some ready =>
        if ready.freeCount = 0 then
          (ready, .null)
        else if ready.slotSz ≠ bytes ∨ ready.slotAlignment ≠ alignment then
          (ready, .null)
        else
          (ready.pop bytes, .address (ready.storage + ready.topSlot))

/-- `count`: the free bytes. -/
def count (pool : FixedSlotPool) : Nat :=
  pool.freeCount * pool.slotSz

end FixedSlotPool

/-- One call; an alignment is a power of two. -/
inductive PoolCall where
  | allocate (metadata : Bool) (bytes exponent : Nat)
  | tryAllocate (metadata : Bool) (bytes exponent : Nat)
  | deallocate (pointer bytes : Nat)
  deriving DecidableEq

/-- A pool with the ranges it has handed out and not accepted back. -/
structure PoolHistory where
  pool : FixedSlotPool
  held : List (Nat × Nat) := []
  deriving DecidableEq

namespace PoolHistory

/-- Note down what a request was given. -/
def note
    (history : PoolHistory) (bytes : Nat)
    (outcome : FixedSlotPool × Allocation) : PoolHistory :=
  match outcome.2 with
  | .address address => ⟨outcome.1, (address, bytes) :: history.held⟩
  | .null => ⟨outcome.1, history.held⟩
  | .badAlloc => ⟨outcome.1, history.held⟩

/-- The answer of one call; a release answers nothing. -/
def answer (history : PoolHistory) : PoolCall → Allocation
  | .allocate metadata bytes exponent =>
      (history.pool.allocate metadata bytes (2 ^ exponent)).2
  | .tryAllocate metadata bytes exponent =>
      (history.pool.tryAllocate metadata bytes (2 ^ exponent)).2
  | .deallocate _ _ => .null

/-- One call.  A release is accepted when it changes the pool. -/
def call (history : PoolHistory) : PoolCall → PoolHistory
  | .allocate metadata bytes exponent =>
      history.note bytes
        (history.pool.allocate metadata bytes (2 ^ exponent))
  | .tryAllocate metadata bytes exponent =>
      history.note bytes
        (history.pool.tryAllocate metadata bytes (2 ^ exponent))
  | .deallocate pointer bytes =>
      let next := history.pool.deallocate pointer bytes
      ⟨next,
        if next = history.pool then history.held
        else history.held.erase (pointer, bytes)⟩

def after (history : PoolHistory) (calls : List PoolCall) : PoolHistory :=
  calls.foldl call history

/-- A new pool over a storage that the heap has granted. -/
def start (storage capacityBytes : Nat) : PoolHistory where
  pool := { storage := storage, capacityBytes := capacityBytes }

end PoolHistory

namespace FixedSlotPool

variable {pool ready : FixedSlotPool} {bytes alignment : Nat} {held : List Nat}
  {metadata : Bool}

/-- The flags, the free stack and the addresses handed out agree. -/
structure Tracks (pool : FixedSlotPool) (held : List Nat) : Prop where
  holds : pool.Holds pool.slotSz pool.slotAlignment held
  inMemory : pool.storage + pool.capacityBytes ≤ 2 ^ 64
  noSlots : pool.firstInit = false → pool.freeCount = 0 ∧ pool.inUses = []
  sizePos : pool.firstInit = true → 0 < pool.slotSz
  inside :
    pool.firstValidStart + pool.inUses.length * pool.slotSz ≤
      pool.capacityBytes
  used : ∀ index, pool.inUses[index]? = some true →
    pool.storage + pool.slotStart index ∈ held

/-- An untouched pool holds nothing for any geometry. -/
theorem Tracks.fresh
    (tracks : pool.Tracks held) (fresh : pool.firstInit = false)
    (bytes alignment : Nat) : pool.Holds bytes alignment held where
  storagePos := tracks.holds.storagePos
  beforeInit := tracks.holds.beforeInit
  afterInit init := by
    rw [fresh] at init
    cases init

/-- What the lazy initialisation leaves, whether it did anything or not. -/
structure Prepared
    (pool ready : FixedSlotPool) (held : List Nat) (bytes alignment : Nat) :
    Prop where
  tracks : ready.Tracks held
  init : ready.firstInit = true
  storage : ready.storage = pool.storage
  capacity : ready.capacityBytes = pool.capacityBytes
  old : pool.firstInit = true → ready = pool
  new : pool.firstInit = false →
    0 < ready.freeCount ∧ ready.slotSz = bytes ∧
      ready.slotAlignment = alignment

/-- The lazy initialisation keeps the agreement and fixes the geometry. -/
theorem Tracks.prepare
    (tracks : pool.Tracks held) (bytesPos : 0 < bytes)
    (alignmentPos : 0 < alignment)
    (prepared : pool.prepare metadata bytes alignment = some ready) :
    pool.Prepared ready held bytes alignment := by
  cases init : pool.firstInit with
  | true =>
      simp only [FixedSlotPool.prepare, init, if_true,
        Option.some.injEq] at prepared
      subst prepared
      exact ⟨tracks, init, rfl, rfl, fun _ => rfl, by simp [init]⟩
  | false =>
      obtain ⟨_, storage, capacity, initialised, isReady⟩ :=
        prepare_ready bytesPos alignmentPos (tracks.fresh init bytes alignment)
          prepared
      cases aligns : align alignment bytes pool.storage pool.capacityBytes with
      | none => simp [FixedSlotPool.prepare, init, aligns] at prepared
      | some result =>
          obtain ⟨aligned, space⟩ := result
          obtain ⟨_, spaceGe, spaceLe, _⟩ := align_some alignmentPos aligns
          have laidOut : pool.layout bytes alignment space = ready := by
            simp only [FixedSlotPool.prepare, init, aligns,
              Bool.false_eq_true, if_false] at prepared
            split_ifs at prepared
            exact Option.some.inj prepared
          have sizeEq := isReady.slotSize
          have alignEq := isReady.slotAlign
          have slotsPos : 0 < ready.freeCount := by
            subst laidOut
            exact Nat.div_pos spaceGe bytesPos
          refine ⟨?_, initialised, storage, capacity, by simp [init],
            fun _ => ⟨slotsPos, sizeEq, alignEq⟩⟩
          refine
            { holds :=
                { storagePos := storage ▸ tracks.holds.storagePos
                  beforeInit := by simp [initialised]
                  afterInit := fun _ => by rwa [sizeEq, alignEq] }
              inMemory := by rw [storage, capacity]; exact tracks.inMemory
              noSlots := by simp [initialised]
              sizePos := fun _ => sizeEq ▸ bytesPos
              inside := ?_
              used := ?_ }
          · subst laidOut
            have whole := Nat.div_mul_le_self space bytes
            simp only [layout, List.length_replicate]
            omega
          · intro index isUsed
            subst laidOut
            simp [layout, List.getElem?_replicate] at isUsed

/-- Handing out the top slot keeps the agreement. -/
theorem Tracks.pop
    (tracks : pool.Tracks held) (init : pool.firstInit = true)
    (countPos : 0 < pool.freeCount) :
    (pool.pop pool.slotSz).Tracks ((pool.storage + pool.topSlot) :: held) := by
  have ready := tracks.holds.afterInit init
  obtain ⟨_, popped⟩ := pop_ready (tracks.sizePos init) ready countPos
  obtain ⟨_, index, topShape, indexFree, topIndex⟩ :=
    ready.top (tracks.sizePos init) countPos
  refine
    { holds :=
        { storagePos := tracks.holds.storagePos
          beforeInit := by simp [FixedSlotPool.pop, init]
          afterInit := fun _ => popped }
      inMemory := tracks.inMemory
      noSlots := by simp [FixedSlotPool.pop, init]
      sizePos := fun _ => tracks.sizePos init
      inside := by simpa [FixedSlotPool.pop] using tracks.inside
      used := ?_ }
  intro other isUsed
  by_cases here : index = other
  · subst here
    rw [topShape]
    exact List.mem_cons_self
  · rw [FixedSlotPool.pop, topIndex, List.getElem?_set_ne here] at isUsed
    exact List.mem_cons_of_mem _ (tracks.used other isUsed)

/-- A request that is served takes the top slot of a pool of its geometry. -/
structure Serves
    (pool ready : FixedSlotPool) (held : List Nat) (metadata : Bool)
    (bytes alignment : Nat) : Prop where
  prepared : pool.Prepared ready held bytes alignment
  countPos : 0 < ready.freeCount
  slotSize : ready.slotSz = bytes
  slotAlign : ready.slotAlignment = alignment
  allocated : pool.allocate metadata bytes alignment =
    (ready.pop bytes, .address (ready.storage + ready.topSlot))
  tried : pool.tryAllocate metadata bytes alignment =
    (ready.pop bytes, .address (ready.storage + ready.topSlot))

/-- Both copies refuse a request and leave the pool alone. -/
structure Refuses
    (pool : FixedSlotPool) (metadata : Bool) (bytes alignment : Nat) :
    Prop where
  allocated : pool.allocate metadata bytes alignment =
    (pool, if bytes = 0 then .null else .badAlloc)
  tried : pool.tryAllocate metadata bytes alignment = (pool, .null)

theorem Tracks.request
    (tracks : pool.Tracks held) (alignmentPos : 0 < alignment)
    (metadata : Bool) (bytes : Nat) :
    (∃ ready, pool.Serves ready held metadata bytes alignment) ∨
      pool.Refuses metadata bytes alignment := by
  by_cases noBytes : bytes = 0
  · exact Or.inr ⟨by simp [allocate, noBytes], by simp [tryAllocate, noBytes]⟩
  cases prepared : pool.prepare metadata bytes alignment with
  | none =>
      exact Or.inr ⟨by simp [allocate, noBytes, prepared],
        by simp [tryAllocate, noBytes, prepared]⟩
  | some ready =>
      have facts :=
        tracks.prepare (Nat.pos_of_ne_zero noBytes) alignmentPos prepared
      by_cases matching : 0 < ready.freeCount ∧ ready.slotSz = bytes ∧
          ready.slotAlignment = alignment
      · obtain ⟨countPos, slotSize, slotAlign⟩ := matching
        have countNe := Nat.pos_iff_ne_zero.mp countPos
        exact Or.inl ⟨ready, facts, countPos, slotSize, slotAlign,
          by simp [allocate, noBytes, prepared, take, countNe, slotSize,
            slotAlign],
          by simp [tryAllocate, noBytes, prepared, countNe, slotSize,
            slotAlign]⟩
      · -- A fresh geometry always matches, so nothing was set up here.
        obtain rfl : ready = pool := by
          cases init : pool.firstInit with
          | true => exact facts.old init
          | false => exact absurd (facts.new init) matching
        by_cases noneFree : ready.freeCount = 0
        · exact Or.inr ⟨by simp [allocate, noBytes, prepared, take, noneFree],
            by simp [tryAllocate, noBytes, prepared, noneFree]⟩
        · have mismatch : ready.slotSz ≠ bytes ∨
              ready.slotAlignment ≠ alignment := by
            by_contra same
            rw [not_or, not_not, not_not] at same
            exact matching ⟨Nat.pos_of_ne_zero noneFree, same⟩
          exact Or.inr
            ⟨by simp [allocate, noBytes, prepared, take, noneFree, mismatch],
              by simp [tryAllocate, noBytes, prepared, noneFree, mismatch]⟩

/-- A slot of the pool that is in use, released with the slot size. -/
def Uses (pool : FixedSlotPool) (pointer bytes : Nat) : Prop :=
  bytes = pool.slotSz ∧
    ∃ index, pointer = pool.storage + pool.slotStart index ∧
      pool.inUses[index]? = some true

/-- A release is accepted for an aligned slot in use and ignored else. -/
theorem Tracks.deallocate_cases
    (tracks : pool.Tracks held) (pointer bytes : Nat) :
    pool.deallocate pointer bytes = pool ∨
      ∃ index, pointer = pool.storage + pool.slotStart index ∧
        bytes = pool.slotSz ∧ pool.inUses[index]? = some true ∧
        pool.deallocate pointer bytes = pool.release index := by
  unfold deallocate
  dsimp only
  generalize offset :
    (if pointer < pool.storage then pointer + 2 ^ 64 - pool.storage
      else pointer - pool.storage) = start
  split_ifs with unfit outside misplaced misaligned used
  · exact Or.inl rfl
  · exact Or.inl rfl
  · exact Or.inl rfl
  · exact Or.inl rfl
  · simp only [not_or, not_not, Bool.not_eq_false] at unfit
    simp only [not_or, not_lt] at outside
    obtain ⟨_, _, init, sizeEq⟩ := unfit
    have sizePos := tracks.sizePos init
    have ready := tracks.holds.afterInit init
    subst sizeEq
    have isUsed : pool.inUses[(start - pool.firstValidStart) / pool.slotSz]? =
        some true := by
      cases stored : pool.inUses[(start - pool.firstValidStart) / pool.slotSz]?
        with
      | none => simp [List.getD, stored] at used
      | some flag => simpa [List.getD, stored] using used
    have startEq : pool.slotStart
        ((start - pool.firstValidStart) / pool.slotSz) = start := by
      have division := Nat.div_mul_cancel
        (Nat.dvd_of_mod_eq_zero (not_not.mp misplaced))
      rw [slotStart, division]
      omega
    have slotsPos : 0 < pool.inUses.length :=
      Nat.zero_lt_of_lt (List.getElem?_eq_some_iff.mp isUsed).1
    have lastInside : pool.lastValidStart < pool.capacityBytes := by
      have last := ready.lastStart
      have inside := tracks.inside
      have lastSlot : (pool.inUses.length - 1 + 1) * pool.slotSz =
          pool.inUses.length * pool.slotSz := by
        rw [Nat.sub_add_cancel slotsPos]
      rw [Nat.succ_mul] at lastSlot
      rw [slotStart] at last
      omega
    have inMemory := tracks.inMemory
    -- A pointer below the storage wraps around to a start past the last slot.
    have notBelow : ¬ pointer < pool.storage := by
      intro below
      rw [if_pos below] at offset
      omega
    rw [if_neg notBelow] at offset
    refine Or.inr ⟨_, ?_, rfl, isUsed, ?_⟩
    · rw [startEq]
      omega
    · rw [release, startEq]
  · exact Or.inl rfl

/-- What is accepted back is no longer handed out. -/
theorem Tracks.release
    (tracks : pool.Tracks held) {index : Nat}
    (used : pool.inUses[index]? = some true) :
    (pool.release index).Tracks
      (held.erase (pool.storage + pool.slotStart index)) := by
  have indexLt := (List.getElem?_eq_some_iff.mp used).1
  have member := tracks.used index used
  have init : pool.firstInit = true := by
    cases init : pool.firstInit with
    | true => rfl
    | false =>
        rw [tracks.holds.beforeInit init] at member
        cases member
  have ready := tracks.holds.afterInit init
  have sizePos := tracks.sizePos init
  refine
    { holds :=
        { storagePos := tracks.holds.storagePos
          beforeInit := by simp [FixedSlotPool.release, init]
          afterInit := fun _ => ready.release sizePos member used }
      inMemory := tracks.inMemory
      noSlots := by simp [FixedSlotPool.release, init]
      sizePos := fun _ => sizePos
      inside := by simpa [FixedSlotPool.release] using tracks.inside
      used := ?_ }
  intro other isUsed
  by_cases here : index = other
  · subst here
    simp [FixedSlotPool.release, List.getElem?_set_self indexLt] at isUsed
  · rw [FixedSlotPool.release, List.getElem?_set_ne here] at isUsed
    refine (ready.heldNodup.mem_erase_iff).mpr ⟨?_, tracks.used other isUsed⟩
    intro same
    exact here (slotStart_injective sizePos (Nat.add_left_cancel same)).symm

theorem release_ne (pool : FixedSlotPool) (index : Nat) :
    pool.release index ≠ pool := by
  intro same
  have sameCount := congrArg freeCount same
  simp [release] at sameCount

/-- The used flags are counted by their positions. -/
theorem count_true_eq (flags : List Bool) :
    flags.count true =
      ((List.range flags.length).filter fun index =>
        decide (flags[index]? = some true)).length := by
  induction flags using List.reverseRecOn with
  | nil => rfl
  | append_singleton flags flag inductionHypothesis =>
      have earlier :
          ((List.range flags.length).filter fun index =>
              decide ((flags ++ [flag])[index]? = some true)) =
            (List.range flags.length).filter fun index =>
              decide (flags[index]? = some true) := by
        refine List.filter_congr fun index inRange => ?_
        rw [List.getElem?_append_left (List.mem_range.mp inRange)]
      rw [List.count_append, List.length_append, List.length_singleton,
        List.range_succ, List.filter_append, earlier, List.length_append,
        ← inductionHypothesis]
      cases flag with
      | true => simp
      | false => simp

/-- As many flags are set as addresses are handed out. -/
theorem Tracks.used_count (tracks : pool.Tracks held) :
    pool.inUses.count true = held.length := by
  cases init : pool.firstInit with
  | false =>
      rw [tracks.holds.beforeInit init, (tracks.noSlots init).2]
      rfl
  | true =>
      have ready := tracks.holds.afterInit init
      have sizePos := tracks.sizePos init
      have slots :
          (((List.range pool.inUses.length).filter fun index =>
              decide (pool.inUses[index]? = some true)).map fun index =>
            pool.storage + pool.slotStart index).Perm held := by
        refine (List.perm_ext_iff_of_nodup ?_ ready.heldNodup).mpr ?_
        · refine List.Nodup.map ?_ (List.nodup_range.filter _)
          intro first second same
          exact slotStart_injective sizePos (Nat.add_left_cancel same)
        · intro address
          simp only [List.mem_map, List.mem_filter, decide_eq_true_eq]
          constructor
          · rintro ⟨index, ⟨_, isUsed⟩, rfl⟩
            exact tracks.used index isUsed
          · intro member
            obtain ⟨index, rfl, isUsed⟩ := ready.heldSlot address member
            exact ⟨index, ⟨List.mem_range.mpr
              (List.getElem?_eq_some_iff.mp isUsed).1, isUsed⟩, rfl⟩
      rw [count_true_eq, ← slots.length_eq, List.length_map]

end FixedSlotPool

namespace PoolHistory

open FixedSlotPool

variable {history : PoolHistory}

/-- Every range has the slot size and starts at a tracked address. -/
def Wf (history : PoolHistory) : Prop :=
  ∃ addresses : List Nat,
    history.held =
        addresses.map (fun address => (address, history.pool.slotSz)) ∧
      history.pool.Tracks addresses

/-- What no later call changes. -/
structure Continues (history next : PoolHistory) : Prop where
  storage : next.pool.storage = history.pool.storage
  capacity : next.pool.capacityBytes = history.pool.capacityBytes
  geometry : history.pool.firstInit = true →
    next.pool.firstInit = true ∧
      next.pool.slotSz = history.pool.slotSz ∧
      next.pool.slotAlignment = history.pool.slotAlignment ∧
      next.pool.firstValidStart = history.pool.firstValidStart ∧
      next.pool.inUses.length = history.pool.inUses.length

theorem Continues.refl (history : PoolHistory) : history.Continues history :=
  ⟨rfl, rfl, fun init => ⟨init, rfl, rfl, rfl, rfl⟩⟩

theorem Continues.trans
    {next last : PoolHistory} (first : history.Continues next)
    (second : next.Continues last) : history.Continues last where
  storage := second.storage.trans first.storage
  capacity := second.capacity.trans first.capacity
  geometry init := by
    obtain ⟨nextInit, size, alignment, start, slots⟩ := first.geometry init
    obtain ⟨lastInit, lastSize, lastAlignment, lastStart, lastSlots⟩ :=
      second.geometry nextInit
    exact ⟨lastInit, lastSize.trans size, lastAlignment.trans alignment,
      lastStart.trans start, lastSlots.trans slots⟩

/-- A served request hands out one more range. -/
theorem served_wf
    {ready : FixedSlotPool} {addresses : List Nat} {metadata : Bool}
    {bytes alignment : Nat}
    (ranges : history.held =
      addresses.map fun address => (address, history.pool.slotSz))
    (tracks : history.pool.Tracks addresses)
    (serves : history.pool.Serves ready addresses metadata bytes alignment) :
    let next : PoolHistory :=
      ⟨ready.pop bytes,
        (ready.storage + ready.topSlot, bytes) :: history.held⟩
    next.Wf ∧ history.Continues next ∧ next.pool.firstInit = true := by
  obtain ⟨prepared, countPos, slotSize, slotAlign, _, _⟩ := serves
  intro next
  refine ⟨⟨(ready.storage + ready.topSlot) :: addresses, ?_, ?_⟩, ?_,
    prepared.init⟩
  · have sameRanges : history.held =
        addresses.map fun address => (address, bytes) := by
      cases init : history.pool.firstInit with
      | true => rw [ranges, ← slotSize, prepared.old init]
      | false => simp [ranges, tracks.holds.beforeInit init]
    simp [next, FixedSlotPool.pop, slotSize, sameRanges]
  · have popped := prepared.tracks.pop prepared.init countPos
    rwa [slotSize] at popped
  · refine ⟨prepared.storage, prepared.capacity, fun init => ?_⟩
    obtain rfl := prepared.old init
    exact ⟨init, rfl, rfl, rfl, by simp [next, FixedSlotPool.pop]⟩

/-- Every call keeps the agreement. -/
theorem Wf.call (wf : history.Wf) (made : PoolCall) :
    (history.call made).Wf ∧ history.Continues (history.call made) := by
  obtain ⟨addresses, ranges, tracks⟩ := wf
  cases made with
  | allocate metadata bytes exponent =>
      rcases tracks.request (Nat.two_pow_pos exponent) metadata bytes with
        ⟨ready, serves⟩ | refuses
      · obtain ⟨nextWf, continues, _⟩ := served_wf ranges tracks serves
        simp only [PoolHistory.call, note, serves.allocated]
        exact ⟨nextWf, continues⟩
      · have same : history.call (.allocate metadata bytes exponent) =
            history := by
          simp only [PoolHistory.call, note, refuses.allocated]
          split_ifs
          · rfl
          · rfl
        rw [same]
        exact ⟨⟨addresses, ranges, tracks⟩, .refl history⟩
  | tryAllocate metadata bytes exponent =>
      rcases tracks.request (Nat.two_pow_pos exponent) metadata bytes with
        ⟨ready, serves⟩ | refuses
      · obtain ⟨nextWf, continues, _⟩ := served_wf ranges tracks serves
        simp only [PoolHistory.call, note, serves.tried]
        exact ⟨nextWf, continues⟩
      · have same : history.call (.tryAllocate metadata bytes exponent) =
            history := by
          simp only [PoolHistory.call, note, refuses.tried]
        rw [same]
        exact ⟨⟨addresses, ranges, tracks⟩, .refl history⟩
  | deallocate pointer bytes =>
      simp only [PoolHistory.call]
      rcases tracks.deallocate_cases pointer bytes with
        ignored | ⟨index, rfl, rfl, used, accepted⟩
      · rw [ignored, if_pos rfl]
        exact ⟨⟨addresses, ranges, tracks⟩, .refl history⟩
      · rw [accepted, if_neg (release_ne history.pool index)]
        refine ⟨⟨_, ?_, tracks.release used⟩, rfl, rfl, fun init => ?_⟩
        · have injective : Function.Injective fun address : Nat =>
              (address, history.pool.slotSz) := by
            intro first second same
            exact (Prod.mk.inj same).1
          rw [ranges]
          exact (List.map_erase injective addresses).symm
        · exact ⟨init, rfl, rfl, rfl, by simp [FixedSlotPool.release]⟩

theorem Wf.after (wf : history.Wf) (calls : List PoolCall) :
    (history.after calls).Wf ∧ history.Continues (history.after calls) := by
  induction calls generalizing history with
  | nil => exact ⟨wf, .refl history⟩
  | cons made rest inductionHypothesis =>
      obtain ⟨nextWf, continues⟩ := wf.call made
      obtain ⟨lastWf, later⟩ := inductionHypothesis nextWf
      exact ⟨lastWf, continues.trans later⟩

theorem start_wf
    {storage capacityBytes : Nat} (storagePos : 0 < storage)
    (inMemory : storage + capacityBytes ≤ 2 ^ 64) :
    (start storage capacityBytes).Wf := by
  refine ⟨[], rfl, ?_⟩
  exact
    { holds :=
        { storagePos := storagePos
          beforeInit := fun _ => rfl
          afterInit := fun init => by cases init }
      inMemory := inMemory
      noSlots := fun _ => ⟨rfl, rfl⟩
      sizePos := fun init => by cases init
      inside := by simp [start]
      used := fun index isUsed => by simp [start] at isUsed }

/-- The starts on the free stack. -/
def freeStarts (history : PoolHistory) : List Nat :=
  history.pool.freeSlots.take history.pool.freeCount

/-- Nothing is handed out twice and no slot is lost track of. -/
structure Sound (history : PoolHistory) : Prop where
  disjoint : history.held.Pairwise fun first second =>
    first.1 + first.2 ≤ second.1 ∨ second.1 + second.2 ≤ first.1
  inside : ∀ range ∈ history.held,
    history.pool.storage ≤ range.1 ∧
      range.1 + range.2 ≤ history.pool.storage + history.pool.capacityBytes
  freeDistinct : history.freeStarts.Nodup
  freeUnused : ∀ start ∈ history.freeStarts,
    (∃ index, start = history.pool.slotStart index ∧
      history.pool.inUses[index]? = some false) ∧
    ∀ range ∈ history.held, range.1 ≠ history.pool.storage + start
  accounted :
    history.pool.freeCount + history.pool.inUses.count true =
      history.pool.inUses.length
  handedOut : history.pool.inUses.count true = history.held.length
  slotCount : history.pool.inUses.length =
    if history.pool.firstInit then
      history.pool.slotTotal history.pool.slotSz history.pool.slotAlignment
    else
      0
  misuse : ∀ pointer bytes, ¬ history.pool.Uses pointer bytes →
    history.pool.deallocate pointer bytes = history.pool
  alike : ∀ metadata bytes exponent, bytes ≠ 0 →
    ((history.pool.allocate metadata bytes (2 ^ exponent)).2 = .badAlloc ↔
      (history.pool.tryAllocate metadata bytes (2 ^ exponent)).2 = .null) ∧
    ((history.pool.allocate metadata bytes (2 ^ exponent)).2 ≠ .badAlloc →
      history.pool.allocate metadata bytes (2 ^ exponent) =
        history.pool.tryAllocate metadata bytes (2 ^ exponent))

theorem slots_apart
    {pool : FixedSlotPool} {first second : Nat} (different : first ≠ second) :
    pool.slotStart first + pool.slotSz ≤ pool.slotStart second ∨
      pool.slotStart second + pool.slotSz ≤ pool.slotStart first := by
  have next {low high : Nat} (below : low < high) :
      pool.slotStart low + pool.slotSz ≤ pool.slotStart high := by
    have stepped := Nat.mul_le_mul_right pool.slotSz below
    rw [Nat.succ_mul] at stepped
    simp only [slotStart]
    omega
  rcases Nat.lt_or_gt_of_ne different with below | above
  · exact Or.inl (next below)
  · exact Or.inr (next above)

theorem Wf.sound (wf : history.Wf) : history.Sound := by
  obtain ⟨addresses, ranges, tracks⟩ := wf
  have slotOf : ∀ address ∈ addresses, ∃ index,
      address = history.pool.storage + history.pool.slotStart index ∧
        history.pool.inUses[index]? = some true := by
    intro address member
    cases init : history.pool.firstInit with
    | true => exact (tracks.holds.afterInit init).heldSlot address member
    | false =>
        rw [tracks.holds.beforeInit init] at member
        cases member
  have nodup : addresses.Nodup := by
    cases init : history.pool.firstInit with
    | true => exact (tracks.holds.afterInit init).heldNodup
    | false => simp [tracks.holds.beforeInit init]
  constructor
  · rw [ranges, List.pairwise_map]
    refine nodup.imp_of_mem fun firstMember secondMember different => ?_
    obtain ⟨first, rfl, _⟩ := slotOf _ firstMember
    obtain ⟨second, rfl, _⟩ := slotOf _ secondMember
    have apart := @slots_apart history.pool first second fun same =>
      different (by rw [same])
    simp only
    omega
  · intro range member
    rw [ranges] at member
    obtain ⟨address, held, rfl⟩ := List.mem_map.mp member
    obtain ⟨index, rfl, used⟩ := slotOf address held
    have inside := tracks.inside
    have slot := Nat.mul_le_mul_right history.pool.slotSz
      (Nat.succ_le_of_lt (List.getElem?_eq_some_iff.mp used).1)
    rw [Nat.succ_mul] at slot
    simp only [slotStart]
    omega
  · cases init : history.pool.firstInit with
    | true => exact (tracks.holds.afterInit init).freeNodup
    | false => simp [freeStarts, (tracks.noSlots init).1]
  · intro start isFree
    cases init : history.pool.firstInit with
    | false => simp [freeStarts, (tracks.noSlots init).1] at isFree
    | true =>
        obtain ⟨index, rfl, free⟩ :=
          (tracks.holds.afterInit init).freeSlot start isFree
        refine ⟨⟨index, rfl, free⟩, fun range member same => ?_⟩
        rw [ranges] at member
        obtain ⟨address, held, rfl⟩ := List.mem_map.mp member
        obtain ⟨other, rfl, used⟩ := slotOf address held
        have sameIndex := slotStart_injective (tracks.sizePos init)
          (Nat.add_left_cancel same)
        rw [sameIndex, free] at used
        cases used
  · rw [tracks.used_count]
    cases init : history.pool.firstInit with
    | true => exact (tracks.holds.afterInit init).accounted
    | false =>
        simp [tracks.noSlots init, tracks.holds.beforeInit init]
  · rw [tracks.used_count, ranges, List.length_map]
  · cases init : history.pool.firstInit with
    | true => exact (tracks.holds.afterInit init).slotCount
    | false => simp [tracks.noSlots init]
  · intro pointer bytes unused
    rcases tracks.deallocate_cases pointer bytes with
      ignored | ⟨index, place, size, used, _⟩
    · exact ignored
    · exact absurd ⟨size, index, place, used⟩ unused
  · intro metadata bytes exponent bytesNe
    rcases tracks.request (Nat.two_pow_pos exponent) metadata bytes with
      ⟨ready, serves⟩ | refuses
    · rw [serves.allocated, serves.tried]
      simp
    · rw [refuses.allocated, refuses.tried]
      simp [bytesNe]

/-- A call that was given an address has set the pool up. -/
theorem Wf.answer_init
    (wf : history.Wf) {made : PoolCall} {address : Nat}
    (served : history.answer made = .address address) :
    (history.call made).pool.firstInit = true := by
  obtain ⟨addresses, ranges, tracks⟩ := wf
  cases made with
  | allocate metadata bytes exponent =>
      rcases tracks.request (Nat.two_pow_pos exponent) metadata bytes with
        ⟨ready, serves⟩ | refuses
      · simp only [PoolHistory.call, note, serves.allocated]
        exact serves.prepared.init
      · simp only [answer, refuses.allocated] at served
        split_ifs at served
  | tryAllocate metadata bytes exponent =>
      rcases tracks.request (Nat.two_pow_pos exponent) metadata bytes with
        ⟨ready, serves⟩ | refuses
      · simp only [PoolHistory.call, note, serves.tried]
        exact serves.prepared.init
      · simp only [answer, refuses.tried] at served
        cases served
  | deallocate pointer bytes => cases served

/--
However a pool is called, its histories are sound, and the first request it
serves fixes the number of its slots.
-/
theorem pool_sound
    (storage capacityBytes : Nat) (storagePos : 0 < storage)
    (inMemory : storage + capacityBytes ≤ 2 ^ 64) (calls : List PoolCall) :
    let history := (start storage capacityBytes).after calls
    history.Sound ∧ history.pool.storage = storage ∧
      history.pool.capacityBytes = capacityBytes ∧
      ∀ made address more, history.answer made = .address address →
        ((history.call made).after more).pool.inUses.length =
          (history.call made).pool.inUses.length := by
  intro history
  obtain ⟨wf, continues⟩ := (start_wf storagePos inMemory).after calls
  refine ⟨wf.sound, continues.storage, continues.capacity, ?_⟩
  intro made address more served
  obtain ⟨_, later⟩ := (wf.call made).1.after more
  obtain ⟨_, _, _, _, sameSlots⟩ :=
    later.geometry (wf.answer_init served)
  exact sameSlots

/-- Foreign, interior and repeated releases to a pool of four slots. -/
theorem pool_sound_misused :
    let history := (start 16 100).after
      [.tryAllocate true 200 3, .allocate true 24 3, .allocate false 24 3,
        .deallocate 0 24, .deallocate 41 24, .deallocate 8 24,
        .deallocate 88 8, .deallocate 88 24, .deallocate 88 24]
    history.held = [(64, 24)] ∧ history.pool.freeCount = 3 ∧
      history.Sound := by
  intro history
  exact ⟨by decide +kernel, by decide +kernel,
    (pool_sound 16 100 (by decide) (by decide) _).1⟩

end PoolHistory

end LimitOrderBook
