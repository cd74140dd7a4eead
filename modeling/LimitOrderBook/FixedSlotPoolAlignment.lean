import LimitOrderBook.FixedSlotPoolCalls

namespace LimitOrderBook

/-!
# Aligned slots

Only the first slot of a pool is aligned on purpose; the others follow at
multiples of the slot size.  A release checks the alignment of its pointer
again and ignores a slot that is not aligned, which is then lost.  A pool that
is used for one geometry gets all of its slots back exactly when the size is a
multiple of the alignment or there is only one slot.
-/

/-- A call that asks for one geometry. -/
def PoolCall.OfGeometry (bytes exponent : Nat) : PoolCall → Prop
  | .allocate _ size power => size = bytes ∧ power = exponent
  | .tryAllocate _ size power => size = bytes ∧ power = exponent
  | .deallocate _ size => size = bytes

namespace PoolHistory

open FixedSlotPool

variable {history : PoolHistory} {bytes exponent : Nat}

/-- Release every range that is handed out. -/
def releases (history : PoolHistory) (bytes : Nat) : List PoolCall :=
  history.held.map fun range => .deallocate range.1 bytes

/-- Ask for as many slots as there are. -/
def requests (history : PoolHistory) (bytes exponent : Nat) : List PoolCall :=
  List.replicate history.pool.inUses.length (.allocate false bytes exponent)

/-- What is handed out is aligned and can be taken back. -/
structure Reclaims (history : PoolHistory) (bytes exponent : Nat) : Prop where
  aligned : ∀ range ∈ history.held, 2 ^ exponent ∣ range.1
  released : ∀ range ∈ history.held,
    let next := history.call (.deallocate range.1 bytes)
    next.pool.count = history.pool.count + bytes ∧
      next.held = history.held.erase range ∧
      range.1 - history.pool.storage ∈ next.freeStarts
  emptied : (history.after (history.releases bytes)).held = []
  refilled :
    ((history.after (history.releases bytes)).after
      (history.requests bytes exponent)).held.length =
        history.pool.inUses.length

/-- A history of a pool that is set up for one geometry. -/
structure Fixed (history : PoolHistory) (bytes exponent : Nat) : Prop where
  wf : history.Wf
  init : history.pool.firstInit = true
  slotSize : history.pool.slotSz = bytes
  slotAlign : history.pool.slotAlignment = 2 ^ exponent

theorem Fixed.continues
    {next : PoolHistory} (fixed : history.Fixed bytes exponent)
    (nextWf : next.Wf) (continues : history.Continues next) :
    next.Fixed bytes exponent := by
  obtain ⟨init, size, alignment, _, _⟩ := continues.geometry fixed.init
  exact ⟨nextWf, init, size.trans fixed.slotSize,
    alignment.trans fixed.slotAlign⟩

theorem Fixed.bytesPos (fixed : history.Fixed bytes exponent) : 0 < bytes := by
  obtain ⟨_, _, tracks⟩ := fixed.wf
  exact fixed.slotSize ▸ tracks.sizePos fixed.init

/-- A free slot serves a request. -/
theorem Fixed.allocate
    (fixed : history.Fixed bytes exponent) (metadata : Bool)
    (free : 0 < history.pool.freeCount) :
    (history.call (.allocate metadata bytes exponent)).held.length =
        history.held.length + 1 ∧
      (history.call (.allocate metadata bytes exponent)).pool.freeCount =
        history.pool.freeCount - 1 := by
  have served : history.pool.allocate metadata bytes (2 ^ exponent) =
      (history.pool.pop bytes,
        .address (history.pool.storage + history.pool.topSlot)) := by
    simp [FixedSlotPool.allocate, Nat.pos_iff_ne_zero.mp fixed.bytesPos,
      prepare, fixed.init, take, Nat.pos_iff_ne_zero.mp free, fixed.slotSize,
      fixed.slotAlign]
  simp [call, note, served, pop]

theorem Fixed.fill
    (fixed : history.Fixed bytes exponent) (metadata : Bool) (count : Nat)
    (free : count ≤ history.pool.freeCount) :
    (history.after (List.replicate count
        (.allocate metadata bytes exponent))).held.length =
      history.held.length + count := by
  induction count generalizing history with
  | zero => rfl
  | succ count inductionHypothesis =>
      obtain ⟨longer, fewer⟩ := fixed.allocate metadata (by omega)
      obtain ⟨nextWf, continues⟩ :=
        fixed.wf.call (.allocate metadata bytes exponent)
      have filled := inductionHypothesis (fixed.continues nextWf continues)
        (by omega)
      rw [List.replicate_succ]
      refine filled.trans ?_
      omega

/-- The slots of a pool are all aligned. -/
def SlotsAligned (history : PoolHistory) (exponent : Nat) : Prop :=
  ∀ index < history.pool.inUses.length,
    2 ^ exponent ∣ history.pool.storage + history.pool.slotStart index

theorem SlotsAligned.continues
    {next : PoolHistory} (aligned : history.SlotsAligned exponent)
    (fixed : history.Fixed bytes exponent)
    (continues : history.Continues next) : next.SlotsAligned exponent := by
  obtain ⟨_, size, _, start, slots⟩ := continues.geometry fixed.init
  intro index inRange
  rw [slots] at inRange
  have multiple := aligned index inRange
  rw [slotStart] at multiple ⊢
  rwa [continues.storage, start, size]

/-- A range that is handed out is a slot in use. -/
theorem Fixed.held_slot
    (fixed : history.Fixed bytes exponent) {range : Nat × Nat}
    (member : range ∈ history.held) :
    ∃ index, range = (history.pool.storage + history.pool.slotStart index, bytes) ∧
      history.pool.inUses[index]? = some true := by
  obtain ⟨addresses, ranges, tracks⟩ := fixed.wf
  rw [ranges] at member
  obtain ⟨address, held, rfl⟩ := List.mem_map.mp member
  obtain ⟨index, rfl, used⟩ :=
    (tracks.holds.afterInit fixed.init).heldSlot address held
  exact ⟨index, by rw [fixed.slotSize], used⟩

/-- An aligned slot that is in use is taken back. -/
theorem Fixed.release
    (fixed : history.Fixed bytes exponent)
    (aligned : history.SlotsAligned exponent) {index : Nat}
    (used : history.pool.inUses[index]? = some true) :
    history.call (.deallocate
        (history.pool.storage + history.pool.slotStart index) bytes) =
      ⟨history.pool.release index,
        history.held.erase
          (history.pool.storage + history.pool.slotStart index, bytes)⟩ := by
  obtain ⟨_, _, tracks⟩ := fixed.wf
  have ready := tracks.holds.afterInit fixed.init
  rw [fixed.slotSize, fixed.slotAlign] at ready
  have accepted := deallocate_slot fixed.bytesPos tracks.holds.storagePos
    fixed.init ready (aligned index (List.getElem?_eq_some_iff.mp used).1) used
  simp only [call, accepted, if_neg (release_ne history.pool index)]

theorem Fixed.drain
    (fixed : history.Fixed bytes exponent)
    (aligned : history.SlotsAligned exponent) :
    (history.after (history.releases bytes)).held = [] := by
  unfold releases
  generalize handed : history.held = ranges
  induction ranges generalizing history with
  | nil => exact handed
  | cons range rest inductionHypothesis =>
      obtain ⟨index, rfl, used⟩ := fixed.held_slot (handed ▸ List.mem_cons_self)
      have released := fixed.release aligned used
      obtain ⟨nextWf, continues⟩ := fixed.wf.call (.deallocate
        (history.pool.storage + history.pool.slotStart index) bytes)
      refine inductionHypothesis (fixed.continues nextWf continues)
        (aligned.continues fixed continues) ?_
      rw [released, handed, List.erase_cons_head]

/-- The released slot is on top of the free stack. -/
theorem Fixed.release_free
    (fixed : history.Fixed bytes exponent) {index : Nat}
    (used : history.pool.inUses[index]? = some true) (held : List (Nat × Nat)) :
    history.pool.slotStart index ∈
      freeStarts ⟨history.pool.release index, held⟩ := by
  obtain ⟨addresses, _, tracks⟩ := fixed.wf
  have ready := tracks.holds.afterInit fixed.init
  have heldPos : 0 < addresses.length :=
    List.length_pos_of_mem (tracks.used index used)
  have room : history.pool.freeCount < history.pool.freeSlots.length := by
    have accounted := ready.accounted
    have freeLength := ready.freeLength
    omega
  have stored :
      (history.pool.freeSlots.set history.pool.freeCount
          (history.pool.slotStart index))[history.pool.freeCount]? =
        some (history.pool.slotStart index) := List.getElem?_set_self room
  refine List.mem_of_getElem? (i := history.pool.freeCount) ?_
  simpa [freeStarts, FixedSlotPool.release, List.getElem?_take_of_lt] using stored

theorem Fixed.reclaims
    (fixed : history.Fixed bytes exponent)
    (aligned : history.SlotsAligned exponent) :
    history.Reclaims bytes exponent where
  aligned range member := by
    obtain ⟨index, rfl, used⟩ := fixed.held_slot member
    exact aligned index (List.getElem?_eq_some_iff.mp used).1
  released range member := by
    obtain ⟨index, rfl, used⟩ := fixed.held_slot member
    intro next
    have released : next = _ := fixed.release aligned used
    rw [released]
    refine ⟨?_, rfl, ?_⟩
    · simp only [count, FixedSlotPool.release, fixed.slotSize]
      rw [Nat.succ_mul]
    · rw [Nat.add_sub_cancel_left]
      exact fixed.release_free used _
  emptied := fixed.drain aligned
  refilled := by
    obtain ⟨emptyWf, continues⟩ := fixed.wf.after (history.releases bytes)
    have empty := fixed.continues emptyWf continues
    obtain ⟨_, _, _, _, slots⟩ := continues.geometry fixed.init
    have accounted := empty.wf.sound.accounted
    rw [empty.wf.sound.handedOut, fixed.drain aligned] at accounted
    have filled := empty.fill false history.pool.inUses.length (by
      simp only [List.length_nil] at accounted
      omega)
    rw [requests, filled, fixed.drain aligned]
    simp

/-- The first request that is served sets the pool up for its geometry. -/
theorem first_fixed
    {storage capacityBytes address : Nat} {metadata : Bool}
    (storagePos : 0 < storage) (inMemory : storage + capacityBytes ≤ 2 ^ 64)
    (first : (start storage capacityBytes).answer
      (.allocate metadata bytes exponent) = .address address) :
    ((start storage capacityBytes).call
        (.allocate metadata bytes exponent)).Fixed bytes exponent ∧
      ((start storage capacityBytes).call
          (.allocate metadata bytes exponent)).pool.inUses.length =
        (start storage capacityBytes).pool.slotTotal bytes (2 ^ exponent) ∧
      0 < ((start storage capacityBytes).call
        (.allocate metadata bytes exponent)).pool.inUses.length := by
  have fresh := start_wf storagePos inMemory
  obtain ⟨nextWf, continues⟩ := fresh.call (.allocate metadata bytes exponent)
  have init := fresh.answer_init first
  have slotCount := nextWf.sound.slotCount
  obtain ⟨addresses, _, tracks⟩ := fresh
  rcases tracks.request (Nat.two_pow_pos exponent) metadata bytes with
    ⟨ready, serves⟩ | refuses
  · have served : ((start storage capacityBytes).call
        (.allocate metadata bytes exponent)).pool = ready.pop bytes := by
      simp only [call, note, serves.allocated]
    have fixed : ((start storage capacityBytes).call
        (.allocate metadata bytes exponent)).Fixed bytes exponent := by
      refine ⟨nextWf, init, ?_, ?_⟩
      · rw [served]
        exact serves.slotSize
      · rw [served]
        exact serves.slotAlign
    refine ⟨fixed, ?_, ?_⟩
    · rw [slotCount, if_pos init, fixed.slotSize, fixed.slotAlign, slotTotal,
        slotTotal, continues.storage, continues.capacity]
    · have ready := serves.prepared.tracks.holds.afterInit serves.prepared.init
      have accounted := ready.accounted
      have countPos := serves.countPos
      rw [served, FixedSlotPool.pop, List.length_set]
      omega
  · simp only [answer, refuses.allocated] at first
    split_ifs at first

/-- Once every slot is handed out, all of them are aligned. -/
theorem Fixed.slotsAligned
    (fixed : history.Fixed bytes exponent)
    (full : history.held.length = history.pool.inUses.length)
    (aligned : ∀ range ∈ history.held, 2 ^ exponent ∣ range.1) :
    history.SlotsAligned exponent := by
  have allUsed := List.count_eq_length.mp
    (fixed.wf.sound.handedOut.trans full)
  obtain ⟨addresses, ranges, tracks⟩ := fixed.wf
  intro index inRange
  have used : history.pool.inUses[index]? = some true := by
    rw [List.getElem?_eq_getElem inRange,
      ← allUsed _ (List.getElem_mem inRange)]
  refine aligned (_, history.pool.slotSz) ?_
  rw [ranges]
  exact List.mem_map.mpr ⟨_, tracks.used index used, rfl⟩

/--
A pool of one geometry hands out aligned slots and takes all of them back,
whatever is called, exactly when the alignment divides the size or the storage
has room for one slot only.
-/
theorem reclaims_iff
    (storage capacityBytes : Nat) (storagePos : 0 < storage)
    (inMemory : storage + capacityBytes ≤ 2 ^ 64) (metadata : Bool)
    (bytes exponent address : Nat)
    (first : (start storage capacityBytes).answer
      (.allocate metadata bytes exponent) = .address address) :
    (∀ calls, (∀ made ∈ calls, made.OfGeometry bytes exponent) →
      (((start storage capacityBytes).call
        (.allocate metadata bytes exponent)).after calls).Reclaims bytes
          exponent) ↔
      2 ^ exponent ∣ bytes ∨
        (start storage capacityBytes).pool.slotTotal bytes (2 ^ exponent) =
          1 := by
  obtain ⟨fixed, slotCount, slotsPos⟩ :=
    first_fixed storagePos inMemory first
  rw [← slotCount]
  generalize (start storage capacityBytes).call
    (.allocate metadata bytes exponent) = opened at fixed slotsPos ⊢
  obtain ⟨_, _, tracks⟩ := fixed.wf
  have ready := tracks.holds.afterInit fixed.init
  constructor
  · intro reclaims
    by_cases single : opened.pool.inUses.length = 1
    · exact Or.inr single
    refine Or.inl ?_
    -- Hand out every slot: the first two are then both aligned.
    let calls := List.replicate opened.pool.freeCount
      (PoolCall.allocate metadata bytes exponent)
    have ofGeometry : ∀ made ∈ calls, made.OfGeometry bytes exponent := by
      intro made member
      rw [List.eq_of_mem_replicate member]
      exact ⟨rfl, rfl⟩
    obtain ⟨fullWf, continues⟩ := fixed.wf.after calls
    have full := fixed.continues fullWf continues
    obtain ⟨_, _, _, _, slots⟩ := continues.geometry fixed.init
    have accounted := fixed.wf.sound.accounted
    rw [fixed.wf.sound.handedOut] at accounted
    have filled := fixed.fill metadata opened.pool.freeCount (Nat.le_refl _)
    have aligned := full.slotsAligned (by
      rw [slots, filled]
      omega) (reclaims calls ofGeometry).aligned
    have firstSlot := aligned 0 (by omega)
    have secondSlot := aligned 1 (by omega)
    rw [slotStart, Nat.zero_mul, Nat.add_zero] at firstSlot
    rw [slotStart, Nat.one_mul, ← Nat.add_assoc, full.slotSize] at secondSlot
    exact (Nat.dvd_add_right firstSlot).mp secondSlot
  · intro divides calls _
    have aligned : opened.SlotsAligned exponent := by
      intro index inRange
      rcases divides with whole | single
      · rw [fixed.slotSize, fixed.slotAlign] at ready
        exact ready.multiple whole index
      · have isFirst : index = 0 := by omega
        subst isFirst
        rw [fixed.slotAlign] at ready
        simpa [slotStart] using ready.firstAligned
    obtain ⟨laterWf, continues⟩ := fixed.wf.after calls
    exact (fixed.continues laterWf continues).reclaims
      (aligned.continues fixed continues)

/-- Three words, aligned as one. -/
theorem reclaims_iff_words :
    (((start 16 100).call (.allocate true 24 3)).after
      [.tryAllocate true 24 3, .deallocate 88 24,
        .allocate true 24 3]).Reclaims 24 3 := by
  refine (reclaims_iff 16 100 (by decide) (by decide) true 24 3 88
    (by decide +kernel)).mpr (Or.inl (by decide)) _ ?_
  simp [PoolCall.OfGeometry]

/-- The second slot of 24 bytes is not a multiple of 16 and is lost. -/
theorem reclaims_misaligned :
    let opened := (start 16 64).call (.allocate true 24 4)
    (start 16 64).answer (.allocate true 24 4) = .address 40 ∧
      opened.held = [(40, 24)] ∧ ¬ 2 ^ 4 ∣ 40 ∧
      opened.call (.deallocate 40 24) = opened ∧
      ¬ (opened.after []).Reclaims 24 4 := by
  intro opened
  have held : opened.held = [(40, 24)] := by decide +kernel
  have misaligned : ¬ 2 ^ 4 ∣ 40 := by decide
  refine ⟨by decide +kernel, held, misaligned, by decide +kernel, ?_⟩
  intro reclaims
  refine misaligned (reclaims.aligned (40, 24) ?_)
  change (40, 24) ∈ opened.held
  rw [held]
  exact List.mem_singleton_self _

end PoolHistory

end LimitOrderBook
