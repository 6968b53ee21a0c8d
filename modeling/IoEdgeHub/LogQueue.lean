import Mathlib.Data.List.Induction
import IoEdgeHub.Log
import IoEdgeHub.Ring

/-!
The log ring (`sys/log.c`) as a queue. The counters run modulo 2^32 and the places in the
ring modulo 4096, which divides it, so that the bytes between the counters are one line of
items around the end of the ring. Whatever steps of the logger and lines of other tasks
follow one another, it is a queue that loses nothing: the bytes that were sent and those
still in the ring are the lines that were taken, in their order.
-/
namespace IoEdgeHub.LogQueue
open IoEdgeHub.CBuffers IoEdgeHub.Ring IoEdgeHub.Log

/-- How many bytes are in the ring. -/
def used (l : LogRing) : Nat := (l.ring_head - l.ring_tail).toNat

def stored (l : LogRing) : List UInt8 := items 4096 (read l.log_ring) l.ring_tail.toNat (used l)

/-- A piece that was sent keeps its room until the counter is moved. -/
def held : Place → Nat
  | .sent _ chunk => chunk.toNat
  | _ => 0

/-- The bytes that are still to be sent. -/
def unsent (s : System) : List UInt8 := (stored s.log).drop (held s.place)

/-- The queue that the ring and the logger stand for. -/
def queue (s : System) : Queue UInt8 where
  sent := s.emitted
  stored := stored s.log
  held := held s.place
  accepted := s.accepted
  rejected := s.rejected

/-- A piece of what the ring holds that ends where the ring does, or before. -/
structure Piece (l : LogRing) (tail chunk : UInt32) : Prop where
  front : tail = l.ring_tail
  inside : chunk.toNat ≤ used l
  straight : tail.toNat % 4096 + chunk.toNat ≤ 4096

/-- The piece that the logger has in hand. -/
def InHand (l : LogRing) : Place → Prop
  | .sending tail chunk => Piece l tail chunk
  | .sent tail chunk => Piece l tail chunk
  | _ => True

structure Inv (s : System) : Prop where
  lossless : (queue s).Lossless 4096
  piece : InHand s.log s.place

section
variable {s : System} {l : LogRing} {buf : List UInt8}

theorem off_toNat (counter : UInt32) : (counter &&& LOG_RING_MASK).toNat = counter.toNat % 4096 := by
  rw [UInt32.toNat_and]
  exact Nat.and_two_pow_sub_one_eq_mod counter.toNat 12

theorem rest_toNat {n : UInt32} (inside : n.toNat ≤ 4096) : (LOG_RING_SIZE - n).toNat = 4096 - n.toNat :=
  UInt32.toNat_sub_of_le _ _ (UInt32.le_iff_toNat_le.mpr inside)

theorem used_le (inv : Inv s) : used s.log ≤ 4096 := by
  have room := inv.lossless.room
  rw [queue, stored, length_items] at room
  exact room

theorem space_toNat (room : used l ≤ 4096) : (space l).toNat = 4096 - used l := rest_toNat room

/-- Where the next byte goes is behind the last one. -/
theorem head_place (l : LogRing) : l.ring_head.toNat % 4096 = (l.ring_tail.toNat + used l) % 4096 := by
  have sum : l.ring_tail + (l.ring_head - l.ring_tail) = l.ring_head := by
    rw [UInt32.add_comm, UInt32.sub_add_cancel]
  have counter : l.ring_head.toNat = (l.ring_tail.toNat + used l) % 2^32 := by
    rw [used, ← UInt32.toNat_add, sum]
  rw [counter]
  omega

theorem copy_two_pieces (l : LogRing) (fits : buf.length ≤ 4096) :
    ∃ ring, copy buf l = some ring ∧ TwoPieces 4096 l.ring_head.toNat buf 0 (read l.log_ring) (read ring) := by
  have low := Nat.mod_lt l.ring_head.toNat (show 0 < 4096 by decide)
  have off := off_toNat l.ring_head
  have rest : (LOG_RING_SIZE - (l.ring_head &&& LOG_RING_MASK)).toNat = 4096 - l.ring_head.toNat % 4096 := by
    rw [rest_toNat (by omega), off]
  have first : (buf.take (min (4096 - l.ring_head.toNat % 4096) buf.length)).length =
      min (4096 - l.ring_head.toNat % 4096) buf.length := by
    rw [List.length_take]
    omega
  have second : (buf.drop (min (4096 - l.ring_head.toNat % 4096) buf.length)).length =
      buf.length - min (4096 - l.ring_head.toNat % 4096) buf.length := List.length_drop
  obtain ⟨ring₁, wrote₁, reads₁⟩ := @poke_inside 4096 (l.ring_head.toNat % 4096)
    (buf.take (min (4096 - l.ring_head.toNat % 4096) buf.length)) l.log_ring (by omega)
  rw [first] at reads₁
  by_cases more : buf.length > min (4096 - l.ring_head.toNat % 4096) buf.length
  · obtain ⟨ring₂, wrote₂, reads₂⟩ := @poke_inside 4096 0
      (buf.drop (min (4096 - l.ring_head.toNat % 4096) buf.length)) ring₁ (by omega)
    rw [second] at reads₂
    refine ⟨ring₂, ?_, ⟨fits, ?_⟩⟩
    · unfold copy
      simp only [rest, off, wrote₁, Option.bind_eq_bind, Option.bind_some, if_pos more, wrote₂]
    · intro a inside
      rw [reads₂ a inside, reads₁ a inside]
      simp only [Nat.zero_le, true_and, Nat.zero_add, Nat.sub_zero]
  · refine ⟨ring₁, ?_, ⟨fits, ?_⟩⟩
    · unfold copy
      simp only [rest, off, wrote₁, Option.bind_eq_bind, Option.bind_some, if_neg more]
    · intro a inside
      rw [reads₁ a inside, if_neg (show ¬ a < buf.length - min (4096 - l.ring_head.toNat % 4096) buf.length by omega)]

/-- A line that fits is put behind what the ring holds, and changes nothing of it. -/
theorem log_push_fits (room : used l ≤ 4096) (fits : buf.length ≤ 4096 - used l) :
    ∃ l', log_push buf l = some l' ∧ l'.ring_tail = l.ring_tail ∧ l'.log_dropped = l.log_dropped ∧
      used l' = used l + buf.length ∧ stored l' = stored l ++ buf ∧
      ∀ i < used l, read l'.log_ring ((l.ring_tail.toNat + i) % 4096) = read l.log_ring ((l.ring_tail.toNat + i) % 4096) := by
  by_cases some_ : buf.length = 0
  · obtain rfl := List.length_eq_zero_iff.mp some_
    exact ⟨l, rfl, rfl, rfl, rfl, (List.append_nil _).symm, fun _ _ => rfl⟩
  obtain ⟨ring, copied, two⟩ := @copy_two_pieces buf l (by omega)
  have head := head_place l
  have counted : (l.ring_head + UInt32.ofNat buf.length - l.ring_tail).toNat = used l + buf.length := by
    have sum : l.ring_head + UInt32.ofNat buf.length - l.ring_tail =
        (l.ring_head - l.ring_tail) + UInt32.ofNat buf.length := by grind
    rw [sum, UInt32.toNat_add, UInt32.toNat_ofNat_of_lt' (show buf.length < 2^32 by omega)]
    exact Nat.mod_eq_of_lt (by show used l + buf.length < 2^32; omega)
  have kept : ∀ i < used l, read ring ((l.ring_tail.toNat + i) % 4096) = read l.log_ring ((l.ring_tail.toNat + i) % 4096) := by
    intro i inside
    -- seen from the head, the stored bytes begin behind the line and the rest of the room
    have place : (l.ring_tail.toNat + i) % 4096 = (l.ring_head.toNat + (4096 - used l + i)) % 4096 := by omega
    rw [place]
    exact two_pieces_others two (by omega) (by omega)
  refine ⟨{ l with log_ring := ring, ring_head := l.ring_head + UInt32.ofNat buf.length }, ?_, rfl, rfl, counted, ?_, kept⟩
  · unfold log_push
    rw [if_neg some_, if_neg (by rw [space_toNat room]; omega)]
    simp only [copied, Option.bind_eq_bind, Option.bind_some]
  · have line : items 4096 (read ring) (l.ring_tail.toNat + used l) buf.length = buf := by
      rw [← items_mod head]
      exact items_line (two_pieces_line two)
    have counter : used { l with log_ring := ring, ring_head := l.ring_head + UInt32.ofNat buf.length } =
        used l + buf.length := counted
    rw [stored, counter, items_add, line, items_kept kept]
    rfl

/-- A line that does not fit is counted and leaves no trace. -/
theorem log_push_full (room : used l ≤ 4096) (full : 4096 - used l < buf.length) :
    log_push buf l = some { l with log_dropped := l.log_dropped + 1 } := by
  unfold log_push
  rw [if_neg (by omega), if_pos (by rw [space_toNat room]; exact full)]

/-- More lines behind it do not matter to the piece in hand. -/
theorem in_hand_longer {l' : LogRing} (tail : l'.ring_tail = l.ring_tail) (longer : used l ≤ used l') {place : Place}
    (piece : InHand l place) : InHand l' place := by
  have still {tail_ chunk : UInt32} (piece : Piece l tail_ chunk) : Piece l' tail_ chunk :=
    ⟨piece.front.trans tail.symm, Nat.le_trans piece.inside longer, piece.straight⟩
  cases place with
  | sending _ _ => exact still piece
  | sent _ _ => exact still piece
  | asleep => trivial
  | draining => trivial
  | checking => trivial
  | clearing _ => trivial
  | reporting _ => trivial

/-- A line is taken or refused by the ring as by the queue. -/
theorem push_queue (inv : Inv s) (buf : List UInt8) :
    ∃ s', step s (.push buf) = some s' ∧ queue s' = (queue s).push 4096 buf ∧ InHand s'.log s'.place := by
  have room := used_le inv
  have length : (queue s).stored.length = used s.log := length_items ..
  by_cases fits : buf.length ≤ 4096 - used s.log
  · obtain ⟨l, pushed, tail, _, longer, stored_, _⟩ := log_push_fits room fits
    have taken : buf.length ≤ (space s.log).toNat := by rw [space_toNat room]; exact fits
    have queued : (queue s).push 4096 buf = _ := if_pos (by rw [length]; exact fits)
    refine ⟨{ s with log := l, notified := s.notified || buf ≠ [], accepted := s.accepted ++ [buf] }, ?_, ?_, ?_⟩
    · simp only [step, pushed, Option.bind_eq_bind, Option.bind_some, if_pos taken]
    · rw [queued]
      simp only [queue, stored_]
    · exact in_hand_longer tail (by rw [longer]; exact Nat.le_add_right _ _) inv.piece
  · have pushed := log_push_full room (Nat.lt_of_not_le fits)
    have refused : ¬ buf.length ≤ (space s.log).toNat := by rw [space_toNat room]; exact fits
    have queued : (queue s).push 4096 buf = _ := if_neg (by rw [length]; exact fits)
    refine ⟨{ s with
        log := { s.log with log_dropped := s.log.log_dropped + 1 }
        notified := s.notified || buf ≠ []
        rejected := s.rejected ++ [buf] }, ?_, ?_, ?_⟩
    · simp only [step, pushed, Option.bind_eq_bind, Option.bind_some, if_neg refused]
    · rw [queued]
      rfl
    · exact @in_hand_longer s.log { s.log with log_dropped := s.log.log_dropped + 1 } rfl (Nat.le_refl _) s.place inv.piece

/-- The piece that the logger takes up: all there is, or all up to the end of the ring. -/
theorem piece_taken (l : LogRing) : Piece l l.ring_tail
    (if LOG_RING_SIZE - (l.ring_tail &&& LOG_RING_MASK) > l.ring_head - l.ring_tail then l.ring_head - l.ring_tail
      else LOG_RING_SIZE - (l.ring_tail &&& LOG_RING_MASK)) := by
  have low := Nat.mod_lt l.ring_tail.toNat (show 0 < 4096 by decide)
  have off := off_toNat l.ring_tail
  have rest : (LOG_RING_SIZE - (l.ring_tail &&& LOG_RING_MASK)).toNat = 4096 - l.ring_tail.toNat % 4096 := by
    rw [rest_toNat (by omega), off]
  split_ifs with all
  · have fits := UInt32.lt_iff_toNat_lt.mp all
    exact ⟨rfl, Nat.le_refl _, by omega⟩
  · have fits := mt UInt32.lt_iff_toNat_lt.mpr all
    exact ⟨rfl, by unfold used; omega, by omega⟩

theorem peek_piece {tail chunk : UInt32} (piece : Piece l tail chunk) :
    peek (tail &&& LOG_RING_MASK).toNat chunk.toUInt16.toNat l.log_ring = some ((stored l).take chunk.toNat) := by
  have inside := piece.inside
  have straight := piece.straight
  have uncut : chunk.toUInt16.toNat = chunk.toNat := by
    rw [UInt32.toNat_toUInt16]
    omega
  obtain rfl := piece.front
  have cut : used l = chunk.toNat + (used l - chunk.toNat) := by omega
  have front : (stored l).take chunk.toNat = items 4096 (read l.log_ring) l.ring_tail.toNat chunk.toNat := by
    rw [stored, cut, items_add, List.take_left' (length_items ..)]
  rw [off_toNat, uncut, peek, if_pos straight, front, items_straight straight]

/-- Behind a piece that was sent the ring holds the rest. -/
theorem stored_released {tail chunk : UInt32} (piece : Piece l tail chunk) :
    stored { l with ring_tail := tail + chunk } = (stored l).drop chunk.toNat := by
  have inside := piece.inside
  obtain rfl := piece.front
  have fewer : used { l with ring_tail := l.ring_tail + chunk } = used l - chunk.toNat := by
    have counter : l.ring_head - (l.ring_tail + chunk) = (l.ring_head - l.ring_tail) - chunk := by grind
    unfold used
    rw [counter, UInt32.toNat_sub_of_le _ _ (UInt32.le_iff_toNat_le.mpr inside)]
  have place : (l.ring_tail + chunk).toNat % 4096 = (l.ring_tail.toNat + chunk.toNat) % 4096 := by
    rw [UInt32.toNat_add]
    omega
  have cut : used l = chunk.toNat + (used l - chunk.toNat) := by omega
  rw [stored, fewer, stored, cut, items_add, List.drop_left' (length_items ..), Nat.add_sub_cancel_left]
  exact items_mod place _

/-- What the logger can do in one step, place by place. -/
inductive LoggerStep (s : System) : System → Prop
  | waits (place : s.place = .asleep) (quiet : s.notified = false) : LoggerStep s s
  | wakes (place : s.place = .asleep) (notified : s.notified = true) : LoggerStep s { s with notified := false, place := .draining }
  | leaves (place : s.place = .draining) (empty : used s.log = 0) : LoggerStep s { s with place := .checking }
  | takes {chunk : UInt32} (place : s.place = .draining) (piece : Piece s.log s.log.ring_tail chunk) :
      LoggerStep s { s with place := .sending s.log.ring_tail chunk }
  | sends {tail chunk : UInt32} {bytes : List UInt8} (place : s.place = .sending tail chunk)
      (bytes_ : peek (tail &&& LOG_RING_MASK).toNat chunk.toUInt16.toNat s.log.log_ring = some bytes) :
      LoggerStep s { s with emitted := s.emitted ++ bytes, place := .sent tail chunk }
  | releases {tail chunk : UInt32} (place : s.place = .sent tail chunk) :
      LoggerStep s { s with log := { s.log with ring_tail := tail + chunk }, place := .draining }
  | counts (place : s.place = .checking) (dropped : s.log.log_dropped ≠ 0) :
      LoggerStep s { s with place := .clearing s.log.log_dropped }
  | sleeps (place : s.place = .checking) (dropped : s.log.log_dropped = 0) : LoggerStep s { s with place := .asleep }
  | clears {d : UInt32} (place : s.place = .clearing d) :
      LoggerStep s { s with log := { s.log with log_dropped := 0 }, place := .reporting d }
  | reports {d : UInt32} (place : s.place = .reporting d) : LoggerStep s { s with reports := s.reports ++ [d], place := .asleep }

theorem logger_step {s' : System} (stepped : step s .logger = some s') : LoggerStep s s' := by
  cases place : s.place with
  | asleep =>
    cases notified : s.notified with
    | false =>
      simp only [step, log_task_fn, place, notified, Bool.false_eq_true, if_false, Option.some.injEq] at stepped
      rw [← stepped]
      exact .waits place notified
    | true =>
      simp only [step, log_task_fn, place, notified, if_true, Option.some.injEq] at stepped
      rw [← stepped]
      exact .wakes place notified
  | draining =>
    by_cases empty : s.log.ring_head - s.log.ring_tail = 0
    · simp only [step, log_task_fn, place, if_pos empty, Option.some.injEq] at stepped
      rw [← stepped]
      exact .leaves place (congrArg UInt32.toNat empty)
    · simp only [step, log_task_fn, place, if_neg empty, Option.some.injEq] at stepped
      rw [← stepped]
      exact .takes place (piece_taken s.log)
  | sending tail chunk =>
    simp only [step, log_task_fn, place] at stepped
    obtain ⟨bytes, read, sent⟩ := Option.bind_eq_some_iff.mp stepped
    cases sent
    exact .sends place read
  | sent tail chunk =>
    simp only [step, log_task_fn, place, Option.some.injEq] at stepped
    rw [← stepped]
    exact .releases place
  | checking =>
    by_cases dropped : s.log.log_dropped = 0
    · simp only [step, log_task_fn, place, if_neg (not_not.mpr dropped), Option.some.injEq] at stepped
      rw [← stepped]
      exact .sleeps place dropped
    · simp only [step, log_task_fn, place, if_pos dropped, Option.some.injEq] at stepped
      rw [← stepped]
      exact .counts place dropped
  | clearing d =>
    simp only [step, log_task_fn, place, Option.some.injEq] at stepped
    rw [← stepped]
    exact .clears place
  | reporting d =>
    simp only [step, log_task_fn, place, Option.some.injEq] at stepped
    rw [← stepped]
    exact .reports place

/-- The logger only reads inside the ring. -/
theorem logger_runs (inv : Inv s) : ∃ s', step s .logger = some s' := by
  have piece := inv.piece
  cases place : s.place with
  | sending tail chunk =>
    rw [place] at piece
    have bytes := peek_piece piece
    refine ⟨{ s with emitted := s.emitted ++ (stored s.log).take chunk.toNat, place := .sent tail chunk }, ?_⟩
    simp only [step, log_task_fn, place, bytes, Option.bind_eq_bind, Option.bind_some]
  | draining =>
    simp only [step, log_task_fn, place]
    split_ifs <;> exact ⟨_, rfl⟩
  | asleep => exact ⟨_, by simp only [step, log_task_fn, place]; rfl⟩
  | sent _ _ => exact ⟨_, by simp only [step, log_task_fn, place]; rfl⟩
  | checking => exact ⟨_, by simp only [step, log_task_fn, place]; rfl⟩
  | clearing _ => exact ⟨_, by simp only [step, log_task_fn, place]; rfl⟩
  | reporting _ => exact ⟨_, by simp only [step, log_task_fn, place]; rfl⟩

/-- What the logger does to the queue: nothing, or it sends a piece, or it releases what was sent. -/
theorem logger_queue (inv : Inv s) {s' : System} (logger : LoggerStep s s') :
    InHand s'.log s'.place ∧
      (queue s' = queue s ∨ (∃ n ≤ (queue s).stored.length, (queue s).held = 0 ∧ queue s' = (queue s).send n) ∨
        queue s' = (queue s).release) := by
  have piece := inv.piece
  cases logger with
  | waits place _ => exact ⟨piece, .inl rfl⟩
  | wakes place _ => exact ⟨trivial, .inl (by simp only [queue, place, held])⟩
  | leaves place _ => exact ⟨trivial, .inl (by simp only [queue, place, held])⟩
  | takes place taken => exact ⟨taken, .inl (by simp only [queue, place, held])⟩
  | @sends tail chunk bytes place read =>
    rw [place] at piece
    have front : (stored s.log).take chunk.toNat = bytes := Option.some.inj ((peek_piece piece).symm.trans read)
    have inside : chunk.toNat ≤ (queue s).stored.length := by
      rw [queue, stored, length_items]
      exact piece.inside
    refine ⟨piece, .inr (.inl ⟨chunk.toNat, inside, ?_, ?_⟩)⟩
    · simp only [queue, place, held]
    · rw [← front]
      rfl
  | @releases tail chunk place =>
    rw [place] at piece
    have rest := stored_released piece
    refine ⟨trivial, .inr (.inr ?_)⟩
    simp only [queue, Queue.release, place, held, rest]
  | counts place _ => exact ⟨trivial, .inl (by simp only [queue, place, held])⟩
  | sleeps place _ => exact ⟨trivial, .inl (by simp only [queue, place, held])⟩
  | clears place =>
    refine ⟨trivial, .inl ?_⟩
    simp only [queue, place, held]
    rfl
  | reports place => exact ⟨trivial, .inl (by simp only [queue, place, held])⟩

/-- The logger only reads the ring and decides about no line. -/
theorem logger_frame {s' : System} (logger : LoggerStep s s') :
    s'.log.log_ring = s.log.log_ring ∧ s'.accepted = s.accepted ∧ s'.rejected = s.rejected := by
  cases logger <;> exact ⟨rfl, rfl, rfl⟩

/-- Every step is one of the queue, inside the ring. -/
theorem step_kept (inv : Inv s) (e : Event) : ∃ s', step s e = some s' ∧ Inv s' := by
  cases e with
  | push buf =>
    obtain ⟨s', stepped, queued, piece⟩ := push_queue inv buf
    refine ⟨s', stepped, ?_, piece⟩
    rw [queued]
    exact lossless_push inv.lossless buf
  | logger =>
    obtain ⟨s', stepped⟩ := logger_runs inv
    obtain ⟨piece, queued⟩ := logger_queue inv (logger_step stepped)
    refine ⟨s', stepped, ?_, piece⟩
    rcases queued with same | ⟨n, inside, released, sent⟩ | released
    · rw [same]
      exact inv.lossless
    · rw [sent]
      exact lossless_send inv.lossless released inside
    · rw [released]
      exact lossless_release inv.lossless

theorem inv_start (log_ring : Vector UInt8 4096) (head : UInt32) : Inv (start log_ring head) := by
  have none_ : used (start log_ring head).log = 0 := by
    have same : head - head = 0 := UInt32.sub_self head
    rw [used, start, same]
    rfl
  have empty : queue (start log_ring head) = {} := by
    simp only [queue, stored, none_]
    rfl
  refine ⟨?_, trivial⟩
  rw [empty]
  exact lossless_empty

/-- No step writes over a byte that the ring holds. -/
theorem step_keeps (inv : Inv s) {e : Event} {s' : System} (stepped : step s e = some s') :
    ∀ i < used s.log,
      read s'.log.log_ring ((s.log.ring_tail.toNat + i) % 4096) = read s.log.log_ring ((s.log.ring_tail.toNat + i) % 4096) := by
  have room := used_le inv
  cases e with
  | push buf =>
    by_cases fits : buf.length ≤ 4096 - used s.log
    · obtain ⟨l, put, _, _, _, _, kept⟩ := log_push_fits room fits
      simp only [step, put, Option.bind_eq_bind, Option.bind_some, Option.some.injEq] at stepped
      rw [← stepped]
      exact kept
    · have full := log_push_full room (Nat.lt_of_not_le fits)
      simp only [step, full, Option.bind_eq_bind, Option.bind_some, Option.some.injEq] at stepped
      rw [← stepped]
      exact fun _ _ => rfl
  | logger =>
    rw [(logger_frame (logger_step stepped)).1]
    exact fun _ _ => rfl

/-- What becomes of a line. -/
theorem push_iff (inv : Inv s) {s' : System} (stepped : step s (.push buf) = some s') :
    if buf.length ≤ 4096 - used s.log then
      s'.accepted = s.accepted ++ [buf] ∧ s'.rejected = s.rejected ∧ s'.log.log_dropped = s.log.log_dropped
    else s'.accepted = s.accepted ∧ s'.rejected = s.rejected ++ [buf] ∧
      s'.log = { s.log with log_dropped := s.log.log_dropped + 1 } := by
  have room := used_le inv
  split_ifs with fits
  · obtain ⟨l, put, _, dropped, _⟩ := log_push_fits room fits
    have taken : buf.length ≤ (space s.log).toNat := by rw [space_toNat room]; exact fits
    simp only [step, put, Option.bind_eq_bind, Option.bind_some, if_pos taken, Option.some.injEq] at stepped
    rw [← stepped]
    exact ⟨rfl, rfl, dropped⟩
  · have full := log_push_full room (Nat.lt_of_not_le fits)
    have refused : ¬ buf.length ≤ (space s.log).toNat := by rw [space_toNat room]; exact fits
    simp only [step, full, Option.bind_eq_bind, Option.bind_some, if_neg refused, Option.some.injEq] at stepped
    rw [← stepped]
    exact ⟨rfl, rfl, rfl⟩

end

/-- The lines of a run, in their order. -/
def pushed : List Event → List (List UInt8)
  | [] => []
  | .push buf :: rest => buf :: pushed rest
  | .logger :: rest => pushed rest

/-- What holds after a run: the queue lost nothing, and every line was taken or refused in its turn. -/
structure Ran (events : List Event) (s : System) : Prop extends Inv s where
  accepted : s.accepted.Sublist (pushed events)
  rejected : s.rejected.Sublist (pushed events)
  count : s.accepted.length + s.rejected.length = (pushed events).length

theorem pushed_concat (events : List Event) (e : Event) : pushed (events ++ [e]) = pushed events ++ pushed [e] := by
  induction events with
  | nil => rfl
  | cons first events ih =>
    cases first with
    | push buf => exact congrArg (buf :: ·) ih
    | logger => exact ih

theorem ran (log_ring : Vector UInt8 4096) (head : UInt32) (events : List Event) :
    ∃ s, events.foldl run_step (some (start log_ring head)) = some s ∧ Ran events s := by
  induction events using List.reverseRecOn with
  | nil => exact ⟨_, rfl, inv_start log_ring head, .slnil, .slnil, rfl⟩
  | append_singleton events e ih =>
    obtain ⟨s, run, before⟩ := ih
    obtain ⟨s', stepped, inv⟩ := step_kept before.toInv e
    have ran_ : (events ++ [e]).foldl run_step (some (start log_ring head)) = some s' := by
      rw [List.foldl_concat, run]
      exact stepped
    have count := before.count
    have lines : s'.accepted.Sublist (pushed events ++ pushed [e]) ∧ s'.rejected.Sublist (pushed events ++ pushed [e]) ∧
        s'.accepted.length + s'.rejected.length = (pushed events ++ pushed [e]).length := by
      cases e with
      | push buf =>
        have one : pushed [.push buf] = [buf] := rfl
        have decided := push_iff before.toInv stepped
        rw [one]
        split_ifs at decided with fits
        · obtain ⟨accepted, rejected, _⟩ := decided
          rw [accepted, rejected]
          refine ⟨before.accepted.append (List.Sublist.refl [buf]),
            before.rejected.trans (List.sublist_append_left _ _), ?_⟩
          rw [List.length_append, List.length_append, List.length_singleton]
          omega
        · obtain ⟨accepted, rejected, _⟩ := decided
          rw [accepted, rejected]
          refine ⟨before.accepted.trans (List.sublist_append_left _ _),
            before.rejected.append (List.Sublist.refl [buf]), ?_⟩
          rw [List.length_append, List.length_append, List.length_singleton]
          omega
      | logger =>
        have none_ : pushed [.logger] = [] := rfl
        obtain ⟨_, accepted, rejected⟩ := logger_frame (logger_step stepped)
        rw [accepted, rejected, none_, List.append_nil]
        exact ⟨before.accepted, before.rejected, count⟩
    rw [← pushed_concat] at lines
    exact ⟨s', ran_, inv, lines.1, lines.2.1, lines.2.2⟩

/-- For every sequence of lines and steps of the logger, from an empty ring wherever the counters
    stand: no access is outside of the ring, the counters are at most 4096 apart, and the bytes
    that were sent and those still to be sent are the lines that were taken, in their order. After
    any of them a line is refused, counted and nothing else if it does not fit, and taken if it
    does, and no step writes over a byte that the ring holds. -/
theorem log_ring_lossless (log_ring : Vector UInt8 4096) (head : UInt32) (events : List Event) :
    ∃ s, events.foldl run_step (some (start log_ring head)) = some s ∧
      (s.log.ring_head - s.log.ring_tail).toNat ≤ 4096 ∧
      s.emitted ++ unsent s = s.accepted.flatten ∧
      (s.accepted.Sublist (pushed events) ∧ s.rejected.Sublist (pushed events) ∧
        s.accepted.length + s.rejected.length = (pushed events).length) ∧
      (∀ buf, ∃ s', step s (.push buf) = some s' ∧
        if buf.length ≤ 4096 - used s.log then
          s'.accepted = s.accepted ++ [buf] ∧ s'.rejected = s.rejected ∧ s'.log.log_dropped = s.log.log_dropped
        else s'.accepted = s.accepted ∧ s'.rejected = s.rejected ++ [buf] ∧
          s'.log = { s.log with log_dropped := s.log.log_dropped + 1 }) ∧
      ∀ e, ∃ s', step s e = some s' ∧ ∀ i < used s.log,
        read s'.log.log_ring ((s.log.ring_tail.toNat + i) % 4096) =
          read s.log.log_ring ((s.log.ring_tail.toNat + i) % 4096) := by
  obtain ⟨s, run, after⟩ := ran log_ring head events
  refine ⟨s, run, used_le after.toInv, after.lossless.lines, ⟨after.accepted, after.rejected, after.count⟩, ?_, ?_⟩
  · intro buf
    obtain ⟨s', stepped, _⟩ := step_kept after.toInv (.push buf)
    exact ⟨s', stepped, push_iff after.toInv stepped⟩
  · intro e
    obtain ⟨s', stepped, _⟩ := step_kept after.toInv e
    exact ⟨s', stepped, step_keeps after.toInv stepped⟩

/-- The places behind the loop over the pieces. -/
def drained : Place → Bool
  | .draining => false
  | .sending _ _ => false
  | .sent _ _ => false
  | _ => true

/-- A logger that has left its loop and was not notified since has left nothing in the ring. -/
def Emptied (s : System) : Prop := s.notified = false → drained s.place = true → used s.log = 0

theorem step_emptied {s s' : System} {e : Event} (stepped : step s e = some s') (emptied : Emptied s) : Emptied s' := by
  cases e with
  | push buf =>
    obtain ⟨l, put, rest⟩ := Option.bind_eq_some_iff.mp stepped
    cases rest
    intro quiet behind
    -- only an empty line does not notify the logger, and nothing of it is stored
    obtain ⟨before, nothing⟩ : s.notified = false ∧ buf = [] := by simpa using quiet
    subst nothing
    cases put
    exact emptied before behind
  | logger =>
    cases logger_step stepped with
    | waits _ _ => exact emptied
    | wakes _ _ =>
      intro _ behind
      cases behind
    | leaves _ empty => exact fun _ _ => empty
    | takes _ _ =>
      intro _ behind
      cases behind
    | sends _ _ =>
      intro _ behind
      cases behind
    | releases _ =>
      intro _ behind
      cases behind
    | counts place _ => exact fun quiet _ => emptied quiet (by rw [place]; rfl)
    | sleeps place _ => exact fun quiet _ => emptied quiet (by rw [place]; rfl)
    | clears place => exact fun quiet _ => emptied quiet (by rw [place]; rfl)
    | reports place => exact fun quiet _ => emptied quiet (by rw [place]; rfl)

theorem ran_emptied (log_ring : Vector UInt8 4096) (head : UInt32) (events : List Event) :
    ∀ s, events.foldl run_step (some (start log_ring head)) = some s → Emptied s := by
  induction events using List.reverseRecOn with
  | nil =>
    intro s run _ _
    cases run
    show (head - head).toNat = 0
    rw [UInt32.sub_self]
    rfl
  | append_singleton events e ih =>
    intro s run
    rw [List.foldl_concat] at run
    obtain ⟨before, ran_, stepped⟩ := Option.bind_eq_some_iff.mp run
    exact step_emptied stepped (ih before ran_)

/-- No notification is lost: whenever the logger sleeps and is not notified, every line that was
    taken has been sent. -/
theorem asleep_sent (log_ring : Vector UInt8 4096) (head : UInt32) (events : List Event) {s : System}
    (run : events.foldl run_step (some (start log_ring head)) = some s) (asleep : s.place = .asleep)
    (quiet : s.notified = false) : s.emitted = s.accepted.flatten := by
  obtain ⟨s', run', after⟩ := ran log_ring head events
  rw [run] at run'
  cases run'
  have lines := after.lossless.lines
  have empty : stored s.log = [] := by
    have none_ := ran_emptied log_ring head events s run quiet (by rw [asleep]; rfl)
    rw [stored, none_]
    rfl
  have unsent_ : (stored s.log).drop (held s.place) = [] := by rw [empty, List.drop_nil]
  have sent : s.emitted ++ (stored s.log).drop (held s.place) = s.accepted.flatten := lines
  rw [unsent_, List.append_nil] at sent
  exact sent

end IoEdgeHub.LogQueue
