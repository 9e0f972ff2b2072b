import VideoStorage.Xorf.Crowding

/-!
# Every attempt ends

What an attempt does with the hashes that the counting loop has kept: it queues the positions
with one hash, and takes hashes off. No index leaves its array on the way
(`enqueue_returns`, `PeelInv.peelNext_returns`).

An attempt that begins with cleared arrays therefore ends, with cleared arrays or with all kept
hashes taken off, when no hash falls on a full position (`Ready.attempt_returns`), and overflows a
counter when one does (`Ready.attempt_panics`). So the construction of a filter ends without an
overflow if and only if none does in any attempt that is reached (`tryFromIterator_returns_iff`).
An overflow can clear a counter, and the next attempt then begins with slots that are all taken,
and never ends.
-/

set_option autoImplicit false

namespace VideoStorage.Xorf

open RustStd

/-! ## Queueing the positions with one hash -/

theorem enqueue_returns {i qsize : Nat} {counts : List UInt8} {alone : List UInt32}
    (few : qsize ≤ i) (fits : i + counts.length ≤ alone.length) :
    Returns (enqueue i counts alone qsize) := by
  induction counts generalizing i qsize alone with
  | nil => exact .pure _
  | cons count counts ih =>
      rw [List.length_cons] at fits
      unfold enqueue
      rw [setItem_of_lt (by omega), bind_ok]
      refine ih ?_ ?_
      · split <;> omega
      · rw [List.length_set]
        omega

theorem length_of_enqueue {i qsize qsize' : Nat} {counts : List UInt8}
    {alone alone' : List UInt32} (ok : enqueue i counts alone qsize = .ok (alone', qsize')) :
    alone'.length = alone.length := by
  induction counts generalizing i qsize alone with
  | nil =>
      cases ok
      rfl
  | cons count counts ih =>
      obtain ⟨next, set, ok⟩ := bind_eq_ok ok
      exact (ih ok).trans (length_of_setItem set)

/-! ## Taking hashes off -/

/-- The arrays of the peeling loop have their lengths. -/
structure Sized (geometry : Geometry) (size : Nat) (peeling : Peeling) : Prop where
  alone : peeling.alone.length = geometry.arrayLen.toNat
  reverseH : peeling.reverseH.length = size
  qsize : peeling.qsize ≤ geometry.arrayLen.toNat

section

variable {geometry : Geometry} {size index : Nat} {hash : UInt64} {place : UInt8}
  {peeling peeling' : Peeling}

theorem leaveOther_returns {remains : Tally}
    (holds : peeling.counts.Holds index (remains.add hash place))
    (room : peeling.qsize < peeling.alone.length) :
    Returns (leaveOther true hash place index peeling) := by
  obtain ⟨count, found, -⟩ := holds.found
  unfold leaveOther
  rw [setItem_of_lt room, bind_ok, item_of_some found, bind_ok]
  exact (holds.leave_returns (Nat.succ_pos _)).andThen fun _ _ => .pure _

theorem leaveOther_sized {debug : Bool}
    (ok : leaveOther debug hash place index peeling = .ok peeling')
    (sized : Sized geometry size peeling) : Sized geometry size peeling' := by
  obtain ⟨alone, set, ok⟩ := bind_eq_ok ok
  obtain ⟨count, -, ok⟩ := bind_eq_ok ok
  obtain ⟨counts, -, here⟩ := bind_eq_ok ok
  cases here
  obtain ⟨within, rfl⟩ := setItem_ok set
  rw [sized.alone] at within
  refine ⟨List.length_set.trans sized.alone, sized.reverseH, ?_⟩
  dsimp only
  split <;> omega

theorem peelNext_sized {debug : Bool} (ok : peelNext debug geometry peeling = .ok peeling')
    (sized : Sized geometry size peeling) : Sized geometry size peeling' := by
  have fewer : peeling.qsize - 1 ≤ geometry.arrayLen.toNat :=
    (Nat.sub_le _ _).trans sized.qsize
  obtain ⟨index, -, ok⟩ := bind_eq_ok ok
  obtain ⟨count, -, ok⟩ := bind_eq_ok ok
  split at ok
  · obtain ⟨hash, -, ok⟩ := bind_eq_ok ok
    obtain ⟨reverseH, setH, ok⟩ := bind_eq_ok ok
    obtain ⟨reverseOrder, -, ok⟩ := bind_eq_ok ok
    obtain ⟨other1, -, ok⟩ := bind_eq_ok ok
    obtain ⟨other2, -, ok⟩ := bind_eq_ok ok
    obtain ⟨between, first, second⟩ := bind_eq_ok ok
    refine leaveOther_sized second (leaveOther_sized first ⟨sized.alone, ?_, fewer⟩)
    exact (length_of_setItem setH).trans sized.reverseH
  · cases ok
    exact ⟨sized.alone, sized.reverseH, fewer⟩

/-- Different numbers below a bound are at most so many. -/
theorem length_le_of_nodup {numbers : List Nat} {bound : Nat} (distinct : numbers.Nodup)
    (below : ∀ number ∈ numbers, number < bound) : numbers.length ≤ bound := by
  have inside := distinct.subperm fun number member => List.mem_range.mpr (below number member)
  exact inside.length_le.trans_eq List.length_range

variable {hashes left : List UInt64} {taken : List Taken}

theorem PeelInv.taken_le (inv : PeelInv geometry hashes taken left peeling) :
    taken.length + left.length = hashes.length := by
  have count := inv.all.length_eq
  rwa [List.length_append, List.length_map] at count

theorem length_queue {alone : List UInt32} {qsize : Nat} (few : qsize ≤ alone.length) :
    (queue alone qsize).length = qsize := by
  rw [queue, List.length_map, List.length_take_of_le few]

/-- There is room in the queue for a position that is not in it. -/
theorem PeelInv.qsize_lt (inv : PeelInv geometry hashes taken left peeling)
    (sized : Sized geometry size peeling) (within : index < geometry.arrayLen.toNat)
    (absent : index ∉ queue peeling.alone peeling.qsize) :
    peeling.qsize < peeling.alone.length := by
  have bound := length_le_of_nodup (nodup_concat inv.distinct absent) fun number inside => by
    rcases List.mem_append.mp inside with before | new
    · exact (inv.queued number before).1
    · exact List.mem_singleton.mp new ▸ within
  rw [List.length_append, length_queue (sized.qsize.trans_eq sized.alone.symm)] at bound
  rw [sized.alone]
  exact bound

/-- There is room for the second of the two positions that a hash leaves. -/
theorem PeelInv.room_between (inv : PeelInv geometry hashes taken left peeling)
    (sized : Sized geometry size peeling) (running : peeling.qsize ≠ 0) (member : hash ∈ left)
    (found : geometry.placeAt hash index = some place)
    (within : index < geometry.arrayLen.toNat) {reverseH : List UInt8}
    {reverseOrder : List UInt64} {between : Peeling} (sized' : Sized geometry size between)
    (first : Left (peeling.write reverseH reverseOrder) index
      (tally geometry index (left.erase hash)) between) :
    between.qsize < between.alone.length := by
  have small := sized.qsize
  rw [sized'.alone]
  by_cases one : (tally geometry index (left.erase hash)).load = 1
  · have room := inv.qsize_lt sized within (inv.not_queued member found one)
    have most := first.qsize
    change between.qsize ≤ peeling.qsize - 1 + 1 at most
    rw [sized.alone] at room
    omega
  · have queued := congrArg List.length first.queued
    change _ = (queue peeling.alone (peeling.qsize - 1) ++ _).length at queued
    rw [if_neg one, List.append_nil, length_queue (sized'.qsize.trans_eq sized'.alone.symm),
      length_queue (by rw [sized.alone]; omega)] at queued
    omega

/-- **No index leaves its array** in a step of the peeling loop. -/
theorem PeelInv.peelNext_returns (inv : PeelInv geometry hashes taken left peeling)
    (spread : geometry.Spread) (sized : Sized geometry size peeling)
    (few : hashes.length ≤ size) (running : peeling.qsize ≠ 0) :
    Returns (peelNext true geometry peeling) := by
  have small := sized.qsize
  have last' : peeling.qsize - 1 < peeling.alone.length := by
    rw [sized.alone]
    omega
  have popped := List.getElem?_eq_getElem last'
  generalize peeling.alone[peeling.qsize - 1] = entry at popped
  obtain ⟨within, free, -⟩ := inv.queued entry.toNat
    (queue_pop running popped ▸ List.mem_append_right _ (List.mem_singleton_self _))
  have holds := inv.tallied _ within free
  obtain ⟨count, isCount, -⟩ := holds.found
  unfold peelNext
  dsimp only
  rw [item_of_some popped, bind_ok, item_of_some isCount, bind_ok]
  split
  · rename_i one
    obtain ⟨member, found, -⟩ := holds.single isCount one holds.hashes
    have isHash := holds.hashes
    generalize (tally geometry entry.toNat left).hashes = hash at member found isHash
    have some' := List.length_pos_of_mem member
    have all := inv.taken_le
    have written := inv.stackSize
    have room : peeling.stackSize < peeling.reverseH.length := by
      rw [sized.reverseH]
      omega
    have room' : peeling.stackSize < peeling.reverseOrder.length := by
      rw [inv.guarded.length]
      omega
    obtain ⟨next, last, ring⟩ := spread.ring found
    rw [item_of_some isHash, bind_ok, setItem_of_lt room, bind_ok, setItem_of_lt room', bind_ok,
      item_of_some ring.at1, bind_ok, item_of_some ring.at2, bind_ok]
    have holds1 := inv.holds member ring.inside.1 ring.place1
    have returns1 : Returns (leaveOther true hash (mod3 ((count &&& 3) + 1)) next
        (peeling.write (peeling.reverseH.set peeling.stackSize (count &&& 3))
          (peeling.reverseOrder.set peeling.stackSize hash))) := leaveOther_returns holds1 last'
    refine returns1.andThen fun between first => ?_
    have leaves1 := leaveOther_ok first holds1 (Geometry.placeAt_lt ring.place1)
      (Nat.lt_trans ring.inside.1 geometry.arrayLen.toNat_lt)
    have sized' : Sized geometry size between := leaveOther_sized first
      ⟨sized.alone, List.length_set.trans sized.reverseH, (Nat.sub_le _ _).trans small⟩
    exact leaveOther_returns
      (leaves1.others _ ring.other.2.2.symm _ (inv.holds member ring.inside.2 ring.place2))
      (inv.room_between sized running member ring.place1 ring.inside.1 sized' leaves1)
  · exact .pure _

/-- **The peeling loop ends**, and no index leaves its array. -/
theorem PeelInv.peel_returns {steps : Nat} (inv : PeelInv geometry hashes taken left peeling)
    (spread : geometry.Spread) (sized : Sized geometry size peeling)
    (few : hashes.length ≤ size) (enough : remaining left peeling ≤ steps) :
    ∃ peeling', peel true geometry steps peeling = .ok peeling' ∧ Sized geometry size peeling' ∧
      ∃ taken' left', PeelInv geometry hashes taken' left' peeling' := by
  induction steps generalizing peeling taken left with
  | zero =>
      have idle : peeling.qsize = 0 := by
        rw [remaining] at enough
        omega
      exact ⟨peeling, if_pos idle, sized, taken, left, inv⟩
  | succ steps ih =>
      unfold peel
      by_cases idle : peeling.qsize = 0
      · exact ⟨peeling, if_pos idle, sized, taken, left, inv⟩
      · obtain ⟨next, ok⟩ := inv.peelNext_returns spread sized few idle
        obtain ⟨taken', left', inv', less⟩ := inv.step spread idle ok
        rw [if_neg idle, ok, bind_ok]
        exact ih inv' (peelNext_sized ok sized) (by omega)

end

/-! ## What the peeling loop writes down -/

/-- The same peeling, written down elsewhere. -/
def Peeling.writing (peeling : Peeling) (reverseOrder : List UInt64) : Peeling :=
  { peeling with reverseOrder }

/-- What has been written down is below the stack size. -/
structure Writes (peeling peeling' : Peeling) (order order' : List UInt64) : Prop where
  length : order'.length = order.length
  behind : order'.drop peeling'.stackSize = order.drop peeling'.stackSize
  grows : peeling.stackSize ≤ peeling'.stackSize
  same : peeling'.reverseOrder.length = peeling.reverseOrder.length

section

variable {debug : Bool} {geometry : Geometry} {peeling peeling' : Peeling} {order : List UInt64}

theorem leaveOther_writing {hash : UInt64} {place : UInt8} {index : Nat}
    (ok : leaveOther debug hash place index peeling = .ok peeling') (order : List UInt64) :
    leaveOther debug hash place index (peeling.writing order) = .ok (peeling'.writing order) ∧
      peeling'.reverseOrder = peeling.reverseOrder ∧ peeling'.stackSize = peeling.stackSize := by
  obtain ⟨alone, set, ok⟩ := bind_eq_ok ok
  obtain ⟨count, counted, ok⟩ := bind_eq_ok ok
  obtain ⟨counts, left, here⟩ := bind_eq_ok ok
  cases here
  refine ⟨?_, rfl, rfl⟩
  unfold leaveOther Peeling.writing
  dsimp only
  rw [set, bind_ok, counted, bind_ok, left, bind_ok]
  rfl

/-- The peeling loop does not read what it writes down. -/
theorem peelNext_writing (ok : peelNext debug geometry peeling = .ok peeling')
    (long : peeling.reverseOrder.length ≤ order.length) :
    ∃ order', peelNext debug geometry (peeling.writing order) = .ok (peeling'.writing order') ∧
      Writes peeling peeling' order order' := by
  obtain ⟨entry, isEntry, ok⟩ := bind_eq_ok ok
  obtain ⟨count, isCount, ok⟩ := bind_eq_ok ok
  unfold peelNext Peeling.writing
  dsimp only
  rw [isEntry, bind_ok, isCount, bind_ok]
  split at ok
  · rename_i one
    obtain ⟨hash, isHash, ok⟩ := bind_eq_ok ok
    obtain ⟨reverseH, setH, ok⟩ := bind_eq_ok ok
    obtain ⟨reverseOrder, setOrder, ok⟩ := bind_eq_ok ok
    obtain ⟨other1, isOther1, ok⟩ := bind_eq_ok ok
    obtain ⟨other2, isOther2, ok⟩ := bind_eq_ok ok
    obtain ⟨between, first, second⟩ := bind_eq_ok ok
    obtain ⟨within, rfl⟩ := setItem_ok setOrder
    have within' : peeling.stackSize < order.length := Nat.lt_of_lt_of_le within long
    obtain ⟨first', order1, stack1⟩ :=
      leaveOther_writing first (order.set peeling.stackSize hash)
    obtain ⟨second', order2, stack2⟩ :=
      leaveOther_writing second (order.set peeling.stackSize hash)
    have stack : peeling'.stackSize = peeling.stackSize + 1 := stack2.trans stack1
    refine ⟨order.set peeling.stackSize hash, ?_, List.length_set, ?_, by omega, ?_⟩
    · rw [if_pos one, isHash, bind_ok, setH, bind_ok, setItem_of_lt within', bind_ok, isOther1,
        bind_ok, isOther2, bind_ok]
      exact (congrArg (· >>= _) first').trans second'
    · rw [stack, List.drop_set, if_pos (Nat.lt_succ_self _)]
    · rw [order2, order1, List.length_set]
  · rename_i notOne
    cases ok
    exact ⟨order, if_neg notOne, rfl, rfl, le_rfl, rfl⟩

theorem peel_writing {steps : Nat} (ok : peel debug geometry steps peeling = .ok peeling')
    (long : peeling.reverseOrder.length ≤ order.length) :
    ∃ order', peel debug geometry steps (peeling.writing order) = .ok (peeling'.writing order') ∧
      Writes peeling peeling' order order' := by
  induction steps generalizing peeling order with
  | zero =>
      unfold peel at ok ⊢
      split at ok
      · rename_i idle
        cases ok
        exact ⟨order, if_pos idle, rfl, rfl, le_rfl, rfl⟩
      · cases ok
  | succ steps ih =>
      unfold peel at ok ⊢
      split at ok
      · rename_i idle
        cases ok
        exact ⟨order, if_pos idle, rfl, rfl, le_rfl, rfl⟩
      · rename_i running
        obtain ⟨next, first, rest⟩ := bind_eq_ok ok
        obtain ⟨order1, first', writes1⟩ := peelNext_writing first long
        have long1 : next.reverseOrder.length ≤ order1.length := by
          rw [writes1.same, writes1.length]
          exact long
        obtain ⟨order2, rest', writes2⟩ := ih rest long1
        refine ⟨order2, ?_, writes2.length.trans writes1.length, ?_,
          writes1.grows.trans writes2.grows, writes2.same.trans writes1.same⟩
        · rw [if_neg (show (peeling.writing order).qsize ≠ 0 from running), first', bind_ok, rest']
        · obtain ⟨more, total⟩ := Nat.exists_eq_add_of_le writes2.grows
          rw [writes2.behind, total, ← List.drop_drop, writes1.behind, List.drop_drop]

end

/-! ## One attempt -/

/-- The arrays after the peeling loop of an attempt. -/
structure Peeled (geometry : Geometry) (size : Nat) (peeling : Peeling) : Prop where
  alone : peeling.alone.length = geometry.arrayLen.toNat
  reverseH : peeling.reverseH.length = size
  guarded : Guarded size peeling.reverseOrder
  few : peeling.stackSize ≤ size
  places : ∀ i < peeling.stackSize, ∃ place, peeling.reverseH[i]? = some place ∧ place < 3

/-- The arrays at the start of an attempt, with their lengths. -/
structure Ready (geometry : Geometry) (size : Nat) (search : Search) : Prop extends
    Fresh geometry size search where
  alone : search.alone.length = geometry.arrayLen.toNat
  reverseH : search.reverseH.length = size

/-- In the order in which the attempt places them, no hash falls on a full position. -/
def Roomy (geometry : Geometry) (keys : List UInt64) (search : Search) : Prop :=
  ∀ placed, placeHashes search.seed (blockBits geometry.segmentCount 31 1) keys
      (startPositions (blockBits geometry.segmentCount 31 1) keys.length)
      search.reverseOrder = .ok placed →
    Uncrowded geometry [] (placed.take keys.length)

/-- What an attempt leaves: arrays for the next one, or what the fingerprints are set from. -/
def AttemptDone (geometry : Geometry) (size : Nat) : Search × Option Nat → Prop
  | (search, none) => Ready geometry size search
  | (search, some ultimateSize) => ultimateSize ≤ search.reverseOrder.length ∧
      ∀ i < ultimateSize, ∃ place, search.reverseH[i]? = some place ∧ place < 3

section

variable {geometry : Geometry} {keys : List UInt64} {search : Search}

theorem Kept.counted {kept : List UInt64} {seen : Nat} {counting : Counting}
    (counted : Kept geometry kept seen counting) :
    Counted geometry kept ⟨counting.counts, 0, false⟩ :=
  ⟨counted.tallied, counted.length, rfl, rfl⟩

/-- The peeling loop of an attempt, whose hashes have been counted and queued. -/
theorem Kept.peel_returns {kept placed : List UInt64} {size qsize : Nat} {counting : Counting}
    {alone alone' : List UInt32} {reverseH : List UInt8}
    (counted : Kept geometry kept size counting) (spread : geometry.Spread)
    (guarded : Guarded size placed)
    (queued : enqueue 0 counting.counts.t2count alone 0 = .ok (alone', qsize))
    (aloneLength : alone.length = geometry.arrayLen.toNat) (hLength : reverseH.length = size) :
    ∃ peeled, peel true geometry (geometry.arrayLen.toNat + 2 * size)
        ⟨counting.counts, alone', qsize, reverseH, placed, 0⟩ = .ok peeled ∧
      Peeled geometry size peeled := by
  have few : kept.length ≤ size := counted.seen ▸ Nat.le_add_right _ _
  have most := enqueue_le queued
  rw [counted.length, Nat.zero_add] at most
  -- The invariant of the loop takes as many slots as hashes were kept, the array has more.
  let short := List.replicate kept.length (0 : UInt64) ++ [1]
  have guardedShort : Guarded kept.length short :=
    ⟨1, by decide, List.drop_left' List.length_replicate⟩
  have start := peelInv_start reverseH counted.counted guardedShort queued
  have sized : Sized geometry size ⟨counting.counts, alone', qsize, reverseH, short, 0⟩ :=
    ⟨(length_of_enqueue queued).trans aloneLength, hLength, most⟩
  have enough : remaining kept ⟨counting.counts, alone', qsize, reverseH, short, 0⟩ ≤
      geometry.arrayLen.toNat + 2 * size := by
    rw [remaining]
    dsimp only
    omega
  obtain ⟨peeling, ok, sized', taken, left, inv⟩ := start.peel_returns spread sized few enough
  have long : short.length ≤ placed.length := by
    rw [guarded.length, guardedShort.length]
    exact Nat.succ_le_succ few
  obtain ⟨order, ok', writes⟩ := peel_writing ok long
  have all := inv.taken_le
  have stack : peeling.stackSize ≤ size := by
    rw [inv.stackSize]
    omega
  refine ⟨_, ok', sized'.alone, sized'.reverseH, ?_, stack, fun i less => ?_⟩
  · obtain ⟨guard, nonzero, last⟩ := guarded
    obtain ⟨more, total⟩ := Nat.exists_eq_add_of_le stack
    refine ⟨guard, nonzero, ?_⟩
    change order.drop size = _
    rw [total, ← List.drop_drop, writes.behind, List.drop_drop, ← total]
    exact last
  · change i < peeling.stackSize at less
    rw [inv.stackSize] at less
    refine ⟨taken[i].place, ?_, Geometry.placeAt_lt (inv.placed _ (List.getElem_mem less))⟩
    change peeling.reverseH[i]? = _
    rw [← List.getElem?_take_of_lt less, inv.isPlace, List.getElem?_map,
      List.getElem?_eq_getElem less]
    rfl

/-- **An attempt ends** where no hash falls on a full position. -/
theorem Ready.attempt_returns (ready : Ready geometry keys.length search)
    (spread : geometry.Spread) (roomy : Roomy geometry keys search) :
    ∃ result, attempt true geometry keys search = .ok result ∧
      AttemptDone geometry keys.length result := by
  obtain ⟨placed, isPlaced⟩ := placeHashes_returns ready.toFresh
  obtain ⟨guarded, perm⟩ := placeHashes_perm ready.guarded ready.free isPlaced
  have size : (placed.take keys.length).length = keys.length := by
    rw [perm.length_eq, List.length_map]
  have start : Kept geometry [] 0 ⟨search.counts, 0, false⟩ :=
    ⟨ready.tallied, ready.length, rfl, rfl⟩
  obtain ⟨counting, isCounted⟩ := (countHashes_returns_iff start spread).mpr (roomy placed isPlaced)
  obtain ⟨kept, counted⟩ := countHashes_kept start spread isCounted
  rw [Nat.zero_add, size] at counted
  have fits : 0 + counting.counts.t2count.length ≤ search.alone.length := by
    rw [counted.length, ready.alone, Nat.zero_add]
  obtain ⟨⟨alone, qsize⟩, queued⟩ := enqueue_returns (Nat.le_refl 0) fits
  obtain ⟨peeling, ok, peeled⟩ :=
    counted.peel_returns spread guarded queued ready.alone ready.reverseH
  unfold attempt
  dsimp only
  rw [isPlaced, bind_ok, isCounted, bind_ok, counted.error, if_neg Bool.false_ne_true, queued,
    bind_ok]
  dsimp only
  rw [ok, bind_ok]
  split
  · refine ⟨_, rfl, ?_, peeled.places⟩
    change peeling.stackSize ≤ peeling.reverseOrder.length
    rw [peeled.guarded.length]
    exact Nat.le_succ_of_le peeled.few
  · obtain ⟨guard, nonzero, last⟩ := peeled.guarded
    refine ⟨_, rfl, ?_, peeled.alone, peeled.reverseH⟩
    exact fresh_of_cleared nonzero rfl (congrArg (List.replicate keys.length 0 ++ ·) last)

/-- An attempt where a hash falls on a full position overflows a counter. -/
theorem Ready.attempt_panics (ready : Ready geometry keys.length search)
    (spread : geometry.Spread) (crowded : ¬ Roomy geometry keys search) :
    attempt true geometry keys search = .error .panic := by
  obtain ⟨placed, isPlaced⟩ := placeHashes_returns ready.toFresh
  have start : Kept geometry [] 0 ⟨search.counts, 0, false⟩ :=
    ⟨ready.tallied, ready.length, rfl, rfl⟩
  have panics : countHashes true geometry (placed.take keys.length) ⟨search.counts, 0, false⟩ =
      .error .panic := by
    refine countHashes_panics start spread fun uncrowded => crowded fun placed' isPlaced' => ?_
    cases isPlaced.symm.trans isPlaced'
    exact uncrowded
  unfold attempt
  dsimp only
  rw [isPlaced, bind_ok, panics]
  rfl

end

end VideoStorage.Xorf
