import IoEdgeHub.SecureHash
import IoEdgeHub.Ws

/-!
SHA-1 of the handshake (`web/ws.c`) against the standard. A message may be given in any
pieces: the context holds the hash value behind its whole blocks and the bytes behind them.
The padding goes through the same function as the message, one byte at a time until eight
bytes of a block are left for the length.
-/
namespace IoEdgeHub.Sha1Digest
open IoEdgeHub.Bytes IoEdgeHub.CStrings IoEdgeHub.Ws IoEdgeHub.BitStrings IoEdgeHub.BlockStream

/-- The five words as the context keeps them. -/
def kept (H : SecureHash.Words) : List UInt32 :=
  [UInt32.ofBitVec H.a, UInt32.ofBitVec H.b, UInt32.ofBitVec H.c, UInt32.ofBitVec H.d, UInt32.ofBitVec H.e]

/-- The five words as the rounds take them. -/
def vars (v : SecureHash.Words) : Sha1Vars :=
  ⟨UInt32.ofBitVec v.a, UInt32.ofBitVec v.b, UInt32.ofBitVec v.c, UInt32.ofBitVec v.d, UInt32.ofBitVec v.e⟩

/-- A word of the schedule. -/
def w (p : List UInt8) (t : Nat) : UInt32 := UInt32.ofBitVec (SecureHash.W (of_bytes p) t)

theorem block_word_eq {p : List UInt8} {t : Nat} (inside : 4 * t + 4 ≤ p.length) :
    SecureHash.block_word (of_bytes p) t = BitVec.ofNat 32 (io_get_be32 (p.drop (4 * t))) := by
  have cut : ((of_bytes p).drop (32 * t)).take 32 = of_bytes ((p.drop (4 * t)).take 4) := by
    have drop : (of_bytes p).drop (32 * t) = of_bytes (p.drop (4 * t)) := by
      rw [← of_bytes_drop, ← Nat.mul_assoc]
    rw [drop]
    exact of_bytes_take 4 _
  have length : 4 ≤ (p.drop (4 * t)).length := by rw [List.length_drop]; omega
  rcases four : p.drop (4 * t) with _ | ⟨a, _ | ⟨b, _ | ⟨c, _ | ⟨d, rest⟩⟩⟩⟩
  · simp [four] at length
  · simp [four] at length
  · simp [four] at length
  · simp [four] at length
  rw [SecureHash.block_word, cut, four]
  have number : value (of_bytes [a, b, c, d]) = io_get_be32 (a :: b :: c :: d :: rest) := by
    have first : value (of_bytes [a]) = 0 * 2^8 + a.toNat := value_of_bytes [] a
    have second : value (of_bytes [a, b]) = _ := value_of_bytes [a] b
    have third : value (of_bytes [a, b, c]) = _ := value_of_bytes [a, b] c
    have fourth : value (of_bytes [a, b, c, d]) = _ := value_of_bytes [a, b, c] d
    have be32 : io_get_be32 (a :: b :: c :: d :: rest) = a.toNat * 2^24 + b.toNat * 2^16 + c.toNat * 2^8 + d.toNat := rfl
    rw [fourth, third, second, first, be32]
    omega
  exact congrArg (BitVec.ofNat 32) number

theorem first_words {p : List UInt8} (whole : p.length = 64) :
    ((List.range 16).map fun i => UInt32.ofNat (io_get_be32 (p.drop (4 * i)))) = (List.range 16).map (w p) := by
  refine List.map_congr_left ?_
  intro t member
  have early : t < 16 := List.mem_range.mp member
  have word : SecureHash.W (of_bytes p) t = BitVec.ofNat 32 (io_get_be32 (p.drop (4 * t))) := by
    rw [SecureHash.W_early early, block_word_eq (by omega)]
  rw [w, word]
  rfl

theorem getD_words (p : List UInt8) {n t : Nat} (inside : t < n) : ((List.range n).map (w p)).getD t 0 = w p t := by
  rw [List.getD_eq_getElem _ _ (by rw [List.length_map, List.length_range]; exact inside), List.getElem_map,
    List.getElem_range]

/-- The words that are computed are those of the schedule. -/
theorem sha1_schedule_eq (p : List UInt8) (count : Nat) {n : Nat} (enough : 16 ≤ n) :
    sha1_schedule count ((List.range n).map (w p)) = (List.range (n + count)).map (w p) := by
  induction count generalizing n with
  | zero => rfl
  | succ count ih =>
    have next : SHA_ROL (w p (n - 3) ^^^ w p (n - 8) ^^^ w p (n - 14) ^^^ w p (n - 16)) 1 = w p n := by
      rw [w, w, w, w, w, SecureHash.W_late enough]
      rfl
    have longer : (List.range n).map (w p) ++ [w p n] = (List.range (n + 1)).map (w p) := by
      rw [List.range_succ, List.map_append]
      rfl
    have length : ((List.range n).map (w p)).length = n := by rw [List.length_map, List.length_range]
    simp only [sha1_schedule, length]
    rw [getD_words p (by omega), getD_words p (by omega), getD_words p (by omega), getD_words p (by omega), next, longer,
      ih (Nat.le_succ_of_le enough), Nat.succ_add_eq_add_succ]

theorem sha1_round_eq (p : List UInt8) (v : SecureHash.Words) (t : Nat) :
    sha1_round (vars v) t (w p t) = vars (SecureHash.round (of_bytes p) v t) := by
  simp only [sha1_round, SecureHash.round, SecureHash.f, SecureHash.K]
  by_cases choice : t < 20
  · simp only [if_pos choice, ← SecureHash.Ch_or]
    rfl
  by_cases parity : t < 40
  · simp only [if_neg choice, if_pos parity]
    rfl
  by_cases majority : t < 60
  · simp only [if_neg choice, if_neg parity, if_pos majority, ← SecureHash.Maj_or]
    rfl
  · simp only [if_neg choice, if_neg parity, if_neg majority]
    rfl

theorem zipIdx_words (p : List UInt8) (n : Nat) :
    ((List.range n).map (w p)).zipIdx = (List.range n).map fun t => (w p t, t) := by
  induction n with
  | zero => rfl
  | succ n ih =>
    rw [List.range_succ, List.map_append, List.zipIdx_append, ih, List.map_append]
    simp

theorem rounds_eq (p : List UInt8) (H : SecureHash.Words) (ts : List Nat) :
    ts.foldl (fun v t => sha1_round v t (w p t)) (vars H) = vars (ts.foldl (SecureHash.round (of_bytes p)) H) := by
  induction ts generalizing H with
  | nil => rfl
  | cons t ts ih => rw [List.foldl_cons, sha1_round_eq, ih, List.foldl_cons]

/-- A block is taken as in the standard. -/
theorem sha1_block_eq (H : SecureHash.Words) {p : List UInt8} (whole : p.length = 64) :
    sha1_block (kept H) p = kept (SecureHash.compress H (of_bytes p)) := by
  have words : sha1_schedule 64 ((List.range 16).map fun i => UInt32.ofNat (io_get_be32 (p.drop (4 * i)))) =
      (List.range 80).map (w p) := by
    rw [first_words whole]
    exact sha1_schedule_eq p 64 (Nat.le_refl 16)
  have rounds : ((List.range 80).map (w p)).zipIdx.foldl (fun v wi => sha1_round v wi.2 wi.1) (vars H) =
      vars ((List.range 80).foldl (SecureHash.round (of_bytes p)) H) := by
    rw [zipIdx_words, List.foldl_map]
    exact rounds_eq p H _
  have start : (⟨(kept H).getD 0 0, (kept H).getD 1 0, (kept H).getD 2 0, (kept H).getD 3 0, (kept H).getD 4 0⟩ : Sha1Vars) =
      vars H := rfl
  simp only [sha1_block, words]
  rw [start, rounds]
  rfl

/-- The context that has taken a message. -/
def context (m : List UInt8) : Sha1 :=
  let s := feed 64 sha1_block (kept SecureHash.initial, []) m
  { h := s.1, total := UInt64.ofNat m.length, buf := s.2 }

theorem length_buf (m : List UInt8) : (context m).buf.length = m.length % 64 := by
  have taken := @feed_chain _ _ 64 sha1_block (kept SecureHash.initial) (by decide) m
  have cut := Nat.div_add_mod m.length 64
  have buf : (context m).buf = m.drop (64 * (m.length / 64)) := by
    rw [context, taken]
  rw [buf, List.length_drop]
  omega

/-- The loop of `sha1_update` takes all bytes, with any number of rounds that is enough. -/
theorem sha1_fill_feed {fuel : Nat} {c : Sha1} {p : List UInt8} (enough : p.length ≤ fuel) (short : c.buf.length < 64) :
    sha1_fill fuel c p =
      { c with h := (feed 64 sha1_block (c.h, c.buf) p).1, buf := (feed 64 sha1_block (c.h, c.buf) p).2 } := by
  induction fuel generalizing c p with
  | zero =>
    obtain rfl := List.length_eq_zero_iff.mp (Nat.le_zero.mp enough)
    rfl
  | succ fuel ih =>
    by_cases none_ : p = []
    · subst none_
      rw [sha1_fill, if_pos rfl]
      rfl
    have some_ := List.length_pos_iff.mpr none_
    have count : (p.take (min (64 - c.buf.length) p.length)).length = min (64 - c.buf.length) p.length := by
      rw [List.length_take]
      omega
    have taken : p.take (min (64 - c.buf.length) p.length) ≠ [] := by
      rw [← List.length_pos_iff, count]
      omega
    have left : (p.drop (min (64 - c.buf.length) p.length)).length ≤ fuel := by
      rw [List.length_drop]
      omega
    have split : feed 64 sha1_block (c.h, c.buf) p = feed 64 sha1_block
        (feed 64 sha1_block (c.h, c.buf) (p.take (min (64 - c.buf.length) p.length)))
        (p.drop (min (64 - c.buf.length) p.length)) := by
      rw [← feed_append, List.take_append_drop]
    rw [sha1_fill, if_neg none_, split]
    by_cases full : (c.buf ++ p.take (min (64 - c.buf.length) p.length)).length = 64
    · have block : feed 64 sha1_block (c.h, c.buf) (p.take (min (64 - c.buf.length) p.length)) = _ :=
        feed_full taken (by rw [← List.length_append]; exact full)
      simp only [if_pos full]
      rw [ih left (by exact Nat.succ_pos 63), block]
    · have length := full
      rw [List.length_append, count] at length
      have room : feed 64 sha1_block (c.h, c.buf) (p.take (min (64 - c.buf.length) p.length)) = _ :=
        feed_room (by rw [count]; show c.buf.length + _ < 64; omega)
      simp only [if_neg full]
      rw [ih left (by show (c.buf ++ _).length < 64; rw [List.length_append, count]; omega), room]

theorem sha1_update_context (m p : List UInt8) : sha1_update (context m) p = context (m ++ p) := by
  have short : (context m).buf.length < 64 := by
    rw [length_buf]
    exact Nat.mod_lt _ (by decide)
  have total : UInt64.ofNat m.length + UInt64.ofNat p.length = UInt64.ofNat (m ++ p).length := by
    rw [List.length_append, UInt64.ofNat_add]
  have taken := @sha1_fill_feed p.length { context m with total := (context m).total + UInt64.ofNat p.length } p
    (Nat.le_refl _) short
  rw [sha1_update, taken]
  simp only [context, feed_append, total]

/-- The pieces that a message comes in leave no trace. -/
theorem sha1_updates (m : List UInt8) (pieces : List (List UInt8)) :
    pieces.foldl sha1_update (context m) = context (m ++ pieces.flatten) := by
  induction pieces generalizing m with
  | nil => rw [List.flatten_nil, List.append_nil]; rfl
  | cons p pieces ih => rw [List.foldl_cons, sha1_update_context, ih, List.flatten_cons, List.append_assoc]

theorem context_nil : ({} : Sha1) = context [] := rfl

/-- How many zeros the loop puts in. -/
def zero_bytes (length : Nat) : Nat := (120 - length % 64) % 64

/-- The loop stops when eight bytes of the block are left, with any number of rounds that is enough. -/
theorem sha1_pad_context {fuel : Nat} {m : List UInt8} (enough : zero_bytes m.length ≤ fuel) :
    sha1_pad fuel (context m) = context (m ++ List.replicate (zero_bytes m.length) 0) := by
  induction fuel generalizing m with
  | zero =>
    rw [Nat.le_zero.mp enough, List.replicate_zero, List.append_nil]
    rfl
  | succ fuel ih =>
    rw [sha1_pad, length_buf]
    by_cases done : m.length % 64 = 56
    · have none_ : zero_bytes m.length = 0 := by rw [zero_bytes, done]
      rw [if_pos done, none_, List.replicate_zero, List.append_nil]
    · have fewer : zero_bytes m.length = zero_bytes (m ++ [0]).length + 1 := by
        rw [List.length_append, List.length_singleton]
        unfold zero_bytes
        omega
      rw [if_neg done, sha1_update_context, ih (by omega), fewer, List.replicate_succ, List.append_assoc]
      rfl

/-- What the digest is taken of: the message, a byte with the first bit of the padding, the zeros
    and the length. -/
def padded (m : List UInt8) : List UInt8 :=
  m ++ [0x80] ++ List.replicate (zero_bytes (m ++ [0x80]).length) 0 ++
    (List.range 8).map fun i => UInt8.ofNat (8 * m.length / 2^(56 - 8 * i))

theorem length_bytes (v : Nat) : of_bytes ((List.range 8).map fun i => UInt8.ofNat (v / 2^(56 - 8 * i))) = bits 64 v :=
  of_bytes_digit 56 v <| of_bytes_digit 48 v <| of_bytes_digit 40 v <| of_bytes_digit 32 v <| of_bytes_digit 24 v <|
    of_bytes_digit 16 v <| of_bytes_digit 8 v <| of_bytes_digit 0 v rfl

/-- In bits it is the padding of the standard. -/
theorem of_bytes_padded (m : List UInt8) : of_bytes (padded m) = SecureHash.pad (of_bytes m) := by
  have zeros : SecureHash.zeros (of_bytes m).length = 7 + 8 * zero_bytes (m ++ [0x80]).length := by
    rw [length_of_bytes, List.length_append, List.length_singleton]
    unfold SecureHash.zeros zero_bytes
    omega
  have first : of_bytes [0x80] = [true] ++ List.replicate 7 false := rfl
  rw [SecureHash.pad, zeros, padded, of_bytes_append, of_bytes_append, of_bytes_append, of_bytes_zeros, length_bytes, first,
    List.replicate_add, length_of_bytes]
  simp only [List.append_assoc]

theorem length_padded (m : List UInt8) : (SecureHash.pad (of_bytes m)).length = 512 * ((padded m).length / 64) := by
  have whole := SecureHash.length_pad (of_bytes m)
  rw [← of_bytes_padded, length_of_bytes] at whole ⊢
  omega

/-- The words of the context behind the padding are the hash value of the standard. -/
theorem context_hash (m : List UInt8) :
    (context (padded m)).h = kept (SecureHash.hash (SecureHash.pad (of_bytes m)) ((SecureHash.pad (of_bytes m)).length / 512)) := by
  have blocks : (SecureHash.pad (of_bytes m)).length / 512 = (padded m).length / 64 := by
    rw [length_padded, Nat.mul_div_cancel_left _ (by decide)]
  have taken := @feed_chain _ _ 64 sha1_block (kept SecureHash.initial) (by decide) (padded m)
  have words : (context (padded m)).h = chain 64 sha1_block (kept SecureHash.initial) (padded m) ((padded m).length / 64) := by
    rw [context, taken]
  rw [words, blocks, SecureHash.hash, ← of_bytes_padded]
  refine @chain_related _ _ 64 sha1_block _ _ 512 SecureHash.compress (fun h H => h = kept H) _ _ _ _ _ rfl ?_
  rintro i below _ H rfl
  have inside : (((padded m).drop (64 * i)).take 64).length = 64 := by
    rw [List.length_take, List.length_drop]
    omega
  have cut : ((of_bytes (padded m)).drop (512 * i)).take 512 = of_bytes (((padded m).drop (64 * i)).take 64) := by
    have drop : (of_bytes (padded m)).drop (512 * i) = of_bytes ((padded m).drop (64 * i)) := by
      rw [← of_bytes_drop, ← Nat.mul_assoc]
    rw [drop]
    exact of_bytes_take 64 _
  rw [cut]
  exact sha1_block_eq H inside

/-- Four bytes for each word. -/
theorem of_bytes_kept (H : SecureHash.Words) :
    of_bytes ((kept H).flatMap fun h =>
      [UInt8.ofNat (h.toNat / 2^24), UInt8.ofNat (h.toNat / 2^16), UInt8.ofNat (h.toNat / 2^8), UInt8.ofNat h.toNat]) =
      [H.a, H.b, H.c, H.d, H.e].flatMap fun x => bits 32 x.toNat := by
  have word (v : Nat) : of_bytes [UInt8.ofNat (v / 2^24), UInt8.ofNat (v / 2^16), UInt8.ofNat (v / 2^8), UInt8.ofNat v] =
      bits 32 v := by
    have last : of_bytes [UInt8.ofNat v] = bits 8 v := by
      rw [of_bytes_cons, bits_byte]
      exact List.append_nil _
    exact of_bytes_digit 24 v <| of_bytes_digit 16 v <| of_bytes_digit 8 v last
  simp only [kept, List.flatMap_cons, List.flatMap_nil, of_bytes_append, word]
  rfl

theorem sha1_final_context {m : List UInt8} (short : m.length < 2^61) :
    of_bytes (sha1_final (context m)) = SecureHash.sha1 (of_bytes m) := by
  have length : ((context m).total <<< 3).toNat = 8 * m.length := by
    have total : (context m).total.toNat = m.length := UInt64.toNat_ofNat_of_lt (Nat.lt_trans short (by decide))
    rw [UInt64.toNat_shiftLeft, total]
    show m.length <<< 3 % 2^64 = 8 * m.length
    rw [Nat.shiftLeft_eq, Nat.mul_comm, Nat.mod_eq_of_lt (by omega)]
  have few : zero_bytes (m ++ [0x80]).length ≤ 64 := by
    unfold zero_bytes
    omega
  have finished : sha1_update (sha1_pad 64 (sha1_update (context m) [0x80]))
      ((List.range 8).map fun i => UInt8.ofNat (8 * m.length / 2^(56 - 8 * i))) = context (padded m) := by
    rw [sha1_update_context, sha1_pad_context few, sha1_update_context]
    rfl
  simp only [sha1_final, length, finished]
  rw [context_hash, of_bytes_kept]
  rfl

/-- For every message of less than 2^61 bytes and every way it is cut into updates, empty ones among
    them, the digest is that of the standard. The loop that fills the block stops after one round
    for each byte at most, from every state that is reached, and the loop of the padding after 63. -/
theorem sha1_streams (pieces : List (List UInt8)) (short : pieces.flatten.length < 2^61) :
    of_bytes (sha1_final (pieces.foldl sha1_update {})) = SecureHash.sha1 (of_bytes pieces.flatten) ∧
      (∀ p total fuel, p.length ≤ fuel →
        sha1_fill fuel { pieces.foldl sha1_update {} with total } p =
          sha1_fill p.length { pieces.foldl sha1_update {} with total } p) ∧
      ∀ fuel ≥ 63, (sha1_pad fuel (sha1_update (pieces.foldl sha1_update {}) [0x80])).buf.length = 56 ∧
        sha1_pad fuel (sha1_update (pieces.foldl sha1_update {}) [0x80]) =
          sha1_pad 64 (sha1_update (pieces.foldl sha1_update {}) [0x80]) := by
  rw [context_nil, sha1_updates, List.nil_append]
  have few : zero_bytes (pieces.flatten ++ [0x80]).length ≤ 63 := by
    unfold zero_bytes
    omega
  refine ⟨sha1_final_context short, ?_, ?_⟩
  · intro p total fuel enough
    have room : { context pieces.flatten with total }.buf.length < 64 := by
      show (context pieces.flatten).buf.length < 64
      rw [length_buf]
      exact Nat.mod_lt _ (by decide)
    rw [sha1_fill_feed enough room, sha1_fill_feed (Nat.le_refl _) room]
  · intro fuel enough
    rw [sha1_update_context, sha1_pad_context (Nat.le_trans few enough), sha1_pad_context (Nat.le_trans few (by decide))]
    refine ⟨?_, rfl⟩
    rw [length_buf, List.length_append, List.length_replicate]
    unfold zero_bytes
    omega

/-- Three bytes in three pieces, one of them empty. -/
theorem sha1_streams_abc :
    sha1_final ([ascii "a", [], ascii "bc"].foldl sha1_update {}) =
        [0xA9, 0x99, 0x3E, 0x36, 0x47, 0x06, 0x81, 0x6A, 0xBA, 0x3E, 0x25, 0x71, 0x78, 0x50, 0xC2, 0x6C, 0x9C, 0xD0, 0xD8, 0x9D] ∧
      of_bytes (sha1_final ([ascii "a", [], ascii "bc"].foldl sha1_update {})) =
        SecureHash.sha1 (of_bytes [ascii "a", [], ascii "bc"].flatten) :=
  ⟨by decide +kernel, (sha1_streams [ascii "a", [], ascii "bc"] (by decide)).1⟩

/-- The accept key of a handshake is the digest of the key and the fixed text behind it. -/
theorem accept_digest {key : List UInt8} (sized : key.length = 24) :
    of_bytes (sha1_final (sha1_update (sha1_update {} key) ws_guid)) = SecureHash.sha1 (of_bytes (key ++ ws_guid)) := by
  have guid : ws_guid.length = 36 := rfl
  rw [context_nil, sha1_update_context, sha1_update_context, List.nil_append]
  refine sha1_final_context ?_
  rw [List.length_append, sized, guid]
  decide

end IoEdgeHub.Sha1Digest
