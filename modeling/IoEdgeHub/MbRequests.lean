import IoEdgeHub.MbServer

/-!
What a Modbus request means. `reference` says for every PDU and every state of the
registers how the request ends, without the loops and the buffers of the decoder:
in silence, with an exception, with the data of a read, or carried out. The module
proves that the decoder does what it says.
-/
namespace IoEdgeHub.MbRequests
open IoEdgeHub.Bytes IoEdgeHub.Regmap IoEdgeHub.MbServer

/-- How a request ends. -/
inductive Outcome
  | silent
  | exception (code : UInt8)
  | data (bytes : List UInt8)
  | performed
  deriving DecidableEq, Repr

section
variable (d : List UInt8)

def address : Nat := io_get_be16 d

def quantity : Nat := io_get_be16 (d.drop 2)

def byteCount : Nat := byteAt d 4

end

def limit (fc : UInt8) : Nat := if fc = 1 ∨ fc = 2 ∨ fc = 15 then 2000 else 125

/-- How many coils, inputs or registers there are to read. -/
def available (fc : UInt8) : Nat :=
  if fc = 1 then DO_NUM else if fc = 2 then DI_NUM
  else if fc = 3 then MODBUS_HOLDING_REGISTER_NUMBERS else MODBUS_INPUT_REGISTER_NUMBERS

/-- The data of a read of `[a, a + q)`. -/
def readData (fc : UInt8) (a q : Nat) (s : Io) : List UInt8 :=
  if fc = 1 then BitPack.pack q fun i => (get_holding_reg HOLDING_DO_IDX s).toNat.testBit (a + i)
  else if fc = 2 then BitPack.pack q fun i => (get_input_reg INPUT_DI_IDX s).toNat.testBit (a + i)
  else if fc = 3 then (List.range q).flatMap fun i => io_put_be16 (io_read_holding (a + i) s).toNat
  else (List.range q).flatMap fun i => io_put_be16 (get_input_reg (a + i) s).toNat

/-- The data part of the request is not of a length that the function code has. -/
def BadLength (fc : UInt8) (d : List UInt8) : Prop :=
  fc ∈ [1, 2, 3, 4, 5, 6, 8] ∧ d.length ≠ 4 ∨ fc ∈ [15, 16] ∧ d.length < 6

/-- There is no such function, or no such diagnostic function. -/
def BadFunction (fc : UInt8) (d : List UInt8) : Prop :=
  fc ∉ [1, 2, 3, 4, 5, 6, 8, 15, 16] ∨ fc = 8 ∧ address d ∉ [0x00, 0x0A, 0x0B, 0x0C, 0x0D, 0x0E, 0x0F]

def BadQuantity (fc : UInt8) (d : List UInt8) : Prop :=
  fc ∈ [1, 2, 3, 4, 15, 16] ∧ (quantity d = 0 ∨ limit fc < quantity d)

def BadAddress (fc : UInt8) (d : List UInt8) : Prop := fc ∈ [3, 4, 16] ∧ 5000 ≤ address d

/-- The byte count of a write is not that of its quantity, or not that of the PDU. -/
def BadByteCount (fc : UInt8) (d : List UInt8) : Prop :=
  fc = 15 ∧ (byteCount d ≠ (quantity d + 7) / 8 ∨ d.length ≠ byteCount d + 5) ∨
    fc = 16 ∧ (byteCount d / quantity d ≠ 2 ∨ d.length ≠ byteCount d + 5)

instance (fc : UInt8) (d : List UInt8) : Decidable (BadLength fc d) := inferInstanceAs (Decidable (_ ∨ _))
instance (fc : UInt8) (d : List UInt8) : Decidable (BadFunction fc d) := inferInstanceAs (Decidable (_ ∨ _))
instance (fc : UInt8) (d : List UInt8) : Decidable (BadQuantity fc d) := inferInstanceAs (Decidable (_ ∧ _))
instance (fc : UInt8) (d : List UInt8) : Decidable (BadAddress fc d) := inferInstanceAs (Decidable (_ ∧ _))
instance (fc : UInt8) (d : List UInt8) : Decidable (BadByteCount fc d) := inferInstanceAs (Decidable (_ ∨ _))

/-- The reference: the checks in their order, and the data of a read whose whole range is there. -/
def reference (fc : UInt8) (d : List UInt8) (s : Io) : Outcome :=
  if BadLength fc d then .silent
  else if BadFunction fc d then .exception 0x01
  else if BadQuantity fc d then .exception 0x03
  else if BadAddress fc d then .exception 0x01
  else if BadByteCount fc d then .exception 0x03
  else if fc ∈ [1, 2, 3, 4] then
    if address d + quantity d ≤ available fc then .data (readData fc (address d) (quantity d) s) else .exception 0x02
  else .performed

/-- A reply of a legal size that starts as one. -/
structure Reply (fc : UInt8) (reply : List UInt8) : Prop where
  size : reply.length ≤ 253
  head : reply.head? = some fc ∨ reply.head? = some (fc ||| 0x80)

/-- An answer is what an outcome says, and has changed no register unless the request was carried out. -/
def Conforms (fc : UInt8) (s : Io) : Outcome → Answer → Prop
  | .silent, a => a.1 = none ∧ a.2.io = s
  | .exception code, a => a.1 = some [fc ||| 0x80, code] ∧ a.2.io = s
  | .data bytes, a => a.1 = some (fc :: UInt8.ofNat bytes.length :: bytes) ∧ Reply fc (fc :: UInt8.ofNat bytes.length :: bytes) ∧ a.2.io = s
  | .performed, a => ∃ reply, a.1 = some reply ∧ Reply fc reply

section
variable {fc : UInt8} {d : List UInt8} {s : Srv}

theorem conforms_exception (fc code : UInt8) (s : Srv) : Conforms fc s.io (.exception code) (exc_rsp fc code s) :=
  ⟨rfl, rfl⟩

/-- A request that is not carried out has changed no register. -/
theorem conforms_io {outcome : Outcome} {a : Answer} (conforms : Conforms fc s.io outcome a)
    (refused : outcome ≠ .performed) : a.2.io = s.io := by
  cases outcome with
  | silent => exact conforms.2
  | exception code => exact conforms.2
  | data bytes => exact conforms.2.2
  | performed => exact absurd rfl refused

theorem reply_exception (fc code : UInt8) : Reply fc [fc ||| 0x80, code] := ⟨by simp, .inr rfl⟩

theorem reply_echo (fc : UInt8) (first second : Nat) : Reply fc (fc :: (io_put_be16 first ++ io_put_be16 second)) :=
  ⟨by simp [io_put_be16], .inl rfl⟩

/-- Whatever the outcome, an answer is a reply of its function code. -/
theorem conforms_reply {outcome : Outcome} {a : Answer} {reply : List UInt8} (conforms : Conforms fc s.io outcome a)
    (answered : a.1 = some reply) : Reply fc reply := by
  cases outcome with
  | silent =>
    rw [conforms.1] at answered
    cases answered
  | exception code =>
    obtain rfl := Option.some.inj (conforms.1.symm.trans answered)
    exact reply_exception fc code
  | data bytes =>
    obtain rfl := Option.some.inj (conforms.1.symm.trans answered)
    exact conforms.2.1
  | performed =>
    obtain ⟨reply', answered', shape⟩ := conforms
    obtain rfl := Option.some.inj (answered'.symm.trans answered)
    exact shape

theorem words_of_four (four : d.length = 4) : be16 d 0 = some (address d) ∧ be16 d 2 = some (quantity d) := by
  refine ⟨?_, be16_inside (by omega)⟩
  rw [be16_inside (by omega), List.drop_zero]
  rfl

theorem words_of_six (six : 6 ≤ d.length) :
    be16 d 0 = some (address d) ∧ be16 d 2 = some (quantity d) ∧ u8 d 4 = some (d.getD 4 0) := by
  refine ⟨?_, be16_inside (by omega), u8_inside (by omega)⟩
  rw [be16_inside (by omega), List.drop_zero]
  rfl

/-- FC01 and FC02, over what they read. -/
theorem bits_read_conforms {size : Nat} {rd : Io → Nat → Option Bool} {f : Io → Nat → Bool}
    (reads : ∀ s a, rd s a = if a ≥ size then none else some (f s a)) (small : size < 2^16) :
    ∃ a, bits_read fc 2000 rd d s = some a ∧
      Conforms fc s.io
        (if d.length ≠ 4 then .silent
          else if quantity d = 0 ∨ 2000 < quantity d then .exception 0x03
          else if address d + quantity d ≤ size then
            .data (BitPack.pack (quantity d) fun i => f s.io (address d + i))
          else .exception 0x02) a := by
  by_cases four : d.length ≠ 4
  · simp only [bits_read, if_pos four]
    exact ⟨_, rfl, rfl, rfl⟩
  rw [not_not] at four
  obtain ⟨addr, qty⟩ := words_of_four four
  simp only [bits_read, four, addr, qty, ne_eq, not_true_eq_false, if_false, Option.bind_eq_bind, Option.bind_some,
    gt_iff_lt]
  by_cases bad : quantity d = 0 ∨ 2000 < quantity d
  · simp only [if_pos bad]
    exact ⟨_, rfl, conforms_exception fc 0x03 s⟩
  have bytes : (quantity d - 1) / 8 + 1 = (quantity d + 7) / 8 := by omega
  simp only [if_neg bad, bytes]
  by_cases inside : address d + quantity d ≤ size
  · have ran := bits_loop_inside (reads s.io) small (quantity d) (address d)
      (show address d + 0 + quantity d ≤ size by omega)
    rw [BitPack.filled_zero, Nat.zero_add, Nat.zero_mod, BitPack.mask_zero, Nat.add_zero] at ran
    rw [ran, if_pos inside]
    refine ⟨_, rfl, ?_, ⟨?_, .inl rfl⟩, rfl⟩
    · rw [BitPack.pack_length]
      rfl
    · simp only [List.length_cons, BitPack.pack_length]
      omega
  · rw [bits_loop_outside (reads s.io) small (by omega) (by omega), if_neg inside]
    exact ⟨_, rfl, conforms_exception fc 0x02 s⟩

theorem words_length (f : Nat → UInt16) (q : Nat) :
    ((List.range q).flatMap fun i => io_put_be16 (f i).toNat).length = q * 2 := by
  simp [List.length_flatMap, io_put_be16]

/-- FC03 and FC04, over what they read. -/
theorem regs_read_conforms {size : Nat} {rd : Io → Nat → Option UInt16} {f : Io → Nat → UInt16}
    (reads : ∀ s a, rd s a = if a ≥ size then none else some (f s a)) (small : size < 2^16) :
    ∃ a, regs_read fc 125 rd d s = some a ∧
      Conforms fc s.io
        (if d.length ≠ 4 then .silent
          else if quantity d = 0 ∨ 125 < quantity d then .exception 0x03
          else if 5000 ≤ address d then .exception 0x01
          else if address d + quantity d ≤ size then
            .data ((List.range (quantity d)).flatMap fun i => io_put_be16 (f s.io (address d + i)).toNat)
          else .exception 0x02) a := by
  by_cases four : d.length ≠ 4
  · simp only [regs_read, if_pos four]
    exact ⟨_, rfl, rfl, rfl⟩
  rw [not_not] at four
  obtain ⟨addr, qty⟩ := words_of_four four
  simp only [regs_read, four, addr, qty, ne_eq, not_true_eq_false, if_false, Option.bind_eq_bind, Option.bind_some,
    gt_iff_lt, MB_FP_EXTENSIONS_ADDR, ge_iff_le]
  by_cases bad : quantity d = 0 ∨ 125 < quantity d
  · simp only [if_pos bad]
    exact ⟨_, rfl, conforms_exception fc 0x03 s⟩
  simp only [if_neg bad]
  by_cases extension : 5000 ≤ address d
  · simp only [if_pos extension]
    exact ⟨_, rfl, conforms_exception fc 0x01 s⟩
  simp only [if_neg extension]
  by_cases inside : address d + quantity d ≤ size
  · rw [regs_loop_inside (reads s.io) small inside, if_pos inside]
    have length := words_length (fun i => f s.io (address d + i)) (quantity d)
    refine ⟨_, rfl, ?_, ⟨?_, .inl rfl⟩, rfl⟩
    · rw [length]
      rfl
    · rw [List.length_cons, List.length_cons, length]
      omega
  · rw [regs_loop_outside (reads s.io) small (by omega) (by omega), if_neg inside]
    exact ⟨_, rfl, conforms_exception fc 0x02 s⟩

section
variable {inv : Io → Prop}

/-- A write of a coil is carried out or refused, and keeps what every such write keeps. -/
theorem fc05_coil_write_conforms (write : ∀ addr state s s', inv s → coil_wr_cb addr state s = some s' → inv s') :
    ∃ a, fc05_coil_write d s = some a ∧ Conforms 5 s.io (if d.length ≠ 4 then .silent else .performed) a ∧
      (inv s.io → inv a.2.io) := by
  by_cases four : d.length ≠ 4
  · simp only [fc05_coil_write, if_pos four]
    exact ⟨_, rfl, ⟨rfl, rfl⟩, id⟩
  rw [not_not] at four
  obtain ⟨addr, qty⟩ := words_of_four four
  simp only [fc05_coil_write, four, addr, qty, ne_eq, not_true_eq_false, if_false, Option.bind_eq_bind, Option.bind_some]
  split
  · exact ⟨_, rfl, ⟨_, rfl, reply_exception 5 0x02⟩, id⟩
  · exact ⟨_, rfl, ⟨_, rfl, reply_echo 5 _ _⟩, fun before => write _ _ _ _ before ‹_›⟩

theorem fc06_hreg_write_conforms (write : ∀ addr reg s s', inv s → holding_reg_wr_cb addr reg s = some s' → inv s') :
    ∃ a, fc06_hreg_write d s = some a ∧ Conforms 6 s.io (if d.length ≠ 4 then .silent else .performed) a ∧
      (inv s.io → inv a.2.io) := by
  by_cases four : d.length ≠ 4
  · simp only [fc06_hreg_write, if_pos four]
    exact ⟨_, rfl, ⟨rfl, rfl⟩, id⟩
  rw [not_not] at four
  obtain ⟨addr, qty⟩ := words_of_four four
  simp only [fc06_hreg_write, four, addr, qty, ne_eq, not_true_eq_false, if_false, Option.bind_eq_bind, Option.bind_some]
  split
  · exact ⟨_, rfl, ⟨_, rfl, reply_exception 6 0x02⟩, id⟩
  · exact ⟨_, rfl, ⟨_, rfl, reply_echo 6 _ _⟩, fun before => write _ _ _ _ before ‹_›⟩

theorem fc08_diagnostics_conforms :
    ∃ a, fc08_diagnostics d s = some a ∧
      Conforms 8 s.io
        (if d.length ≠ 4 then .silent
          else if address d ∉ [0x00, 0x0A, 0x0B, 0x0C, 0x0D, 0x0E, 0x0F] then .exception 0x01
          else .performed) a ∧
      a.2.io = s.io := by
  by_cases four : d.length ≠ 4
  · simp only [fc08_diagnostics, if_pos four]
    exact ⟨_, rfl, ⟨rfl, rfl⟩, rfl⟩
  rw [not_not] at four
  obtain ⟨addr, qty⟩ := words_of_four four
  simp only [fc08_diagnostics, four, addr, qty, ne_eq, not_true_eq_false, if_false, Option.bind_eq_bind, Option.bind_some]
  by_cases known : address d ∈ [0x00, 0x0A, 0x0B, 0x0C, 0x0D, 0x0E, 0x0F]
  · rw [if_neg (not_not.mpr known)]
    simp only [List.mem_cons, List.not_mem_nil, or_false] at known
    rcases known with at_ | at_ | at_ | at_ | at_ | at_ | at_ <;> rw [at_] <;>
      exact ⟨_, rfl, ⟨_, rfl, reply_echo 8 _ _⟩, rfl⟩
  · rw [if_pos known]
    simp only [List.mem_cons, List.not_mem_nil, or_false, not_or] at known
    obtain ⟨not0, notA, notB, notC, notD, notE, notF⟩ := known
    simp only [MB_FC08_SUBF_QUERY, MB_FC08_SUBF_CLR_CTR, MB_FC08_SUBF_BUS_MSG_CTR, MB_FC08_SUBF_BUS_CRC_CTR,
      MB_FC08_SUBF_BUS_EXCEPT_CTR, MB_FC08_SUBF_SERVER_MSG_CTR, MB_FC08_SUBF_SERVER_NO_RESP_CTR, not0, notA, notB, notC,
      notD, notE, notF, if_false]
    exact ⟨_, rfl, conforms_exception 8 0x01 s, rfl⟩

theorem fc15_coils_write_conforms (write : ∀ addr state s s', inv s → coil_wr_cb addr state s = some s' → inv s') :
    ∃ a, fc15_coils_write d s = some a ∧
      Conforms 15 s.io
        (if d.length < 6 then .silent
          else if quantity d = 0 ∨ 2000 < quantity d then .exception 0x03
          else if byteCount d ≠ (quantity d + 7) / 8 ∨ d.length ≠ byteCount d + 5 then .exception 0x03
          else .performed) a ∧
      (inv s.io → inv a.2.io) := by
  by_cases short : d.length < 6
  · simp only [fc15_coils_write, if_pos short]
    exact ⟨_, rfl, ⟨rfl, rfl⟩, id⟩
  obtain ⟨addr, qty, count⟩ := words_of_six (Nat.not_lt.mp short)
  have count_ : (d.getD 4 0).toNat = byteCount d := rfl
  simp only [fc15_coils_write, if_neg short, addr, qty, count, count_, Option.bind_eq_bind, Option.bind_some, gt_iff_lt]
  by_cases bad : quantity d = 0 ∨ 2000 < quantity d
  · simp only [if_pos bad]
    exact ⟨_, rfl, conforms_exception 15 0x03 s, id⟩
  simp only [if_neg bad]
  by_cases differs : byteCount d ≠ (quantity d + 7) / 8 ∨ d.length ≠ byteCount d + 5
  · rw [if_pos differs, if_pos (by omega)]
    exact ⟨_, rfl, conforms_exception 15 0x03 s, id⟩
  rw [if_neg differs, if_neg (by omega)]
  obtain ⟨ok, io, ran, after⟩ := @coils_loop_keeps (fun s' => inv s.io → inv s')
    (fun _ _ _ _ after written before => write _ _ _ _ (after before) written) d (address d) (quantity d) 0 5 0 s.io rfl
    (by omega) (by omega) id
  rw [ran]
  cases ok with
  | true => exact ⟨_, rfl, ⟨_, rfl, reply_echo 15 _ _⟩, after⟩
  | false => exact ⟨_, rfl, ⟨_, rfl, reply_exception 15 0x02⟩, after⟩

theorem fc16_hregs_write_conforms (write : ∀ addr reg s s', inv s → holding_reg_wr_cb addr reg s = some s' → inv s') :
    ∃ a, fc16_hregs_write d s = some a ∧
      Conforms 16 s.io
        (if d.length < 6 then .silent
          else if quantity d = 0 ∨ 125 < quantity d then .exception 0x03
          else if 5000 ≤ address d then .exception 0x01
          else if byteCount d / quantity d ≠ 2 ∨ d.length ≠ byteCount d + 5 then .exception 0x03
          else .performed) a ∧
      (inv s.io → inv a.2.io) := by
  by_cases short : d.length < 6
  · simp only [fc16_hregs_write, if_pos short]
    exact ⟨_, rfl, ⟨rfl, rfl⟩, id⟩
  obtain ⟨addr, qty, count⟩ := words_of_six (Nat.not_lt.mp short)
  have count_ : (d.getD 4 0).toNat = byteCount d := rfl
  simp only [fc16_hregs_write, if_neg short, addr, qty, count, count_, Option.bind_eq_bind, Option.bind_some, gt_iff_lt,
    MB_FP_EXTENSIONS_ADDR, ge_iff_le]
  by_cases bad : quantity d = 0 ∨ 125 < quantity d
  · simp only [if_pos bad]
    exact ⟨_, rfl, conforms_exception 16 0x03 s, id⟩
  simp only [if_neg bad]
  by_cases extension : 5000 ≤ address d
  · simp only [if_pos extension]
    exact ⟨_, rfl, conforms_exception 16 0x01 s, id⟩
  simp only [if_neg extension]
  by_cases length : d.length - 5 ≠ byteCount d
  · rw [if_pos length, if_pos (.inr (by omega))]
    exact ⟨_, rfl, conforms_exception 16 0x03 s, id⟩
  rw [if_neg length]
  by_cases ratio : byteCount d / quantity d ≠ 2
  · rw [if_pos ratio, if_pos (.inl ratio)]
    exact ⟨_, rfl, conforms_exception 16 0x03 s, id⟩
  rw [if_neg ratio, if_neg (by omega)]
  -- a quotient of two means that the values are all there
  have room : 2 * quantity d ≤ byteCount d := by
    have product := Nat.div_mul_le_self (byteCount d) (quantity d)
    rwa [not_not.mp ratio] at product
  obtain ⟨ok, io, ran, after⟩ := @hregs_loop_keeps (fun s' => inv s.io → inv s')
    (fun _ _ _ _ after written before => write _ _ _ _ (after before) written) d (address d) (quantity d) 0 5 s.io
    (by omega) id
  rw [ran]
  cases ok with
  | true => exact ⟨_, rfl, ⟨_, rfl, reply_echo 16 _ _⟩, after⟩
  | false => exact ⟨_, rfl, ⟨_, rfl, reply_exception 16 0x02⟩, after⟩

end

end

section
variable (d : List UInt8) (s : Io)

theorem reference_bits {fc : UInt8} (kind : fc = 1 ∨ fc = 2) :
    reference fc d s =
      if d.length ≠ 4 then .silent
      else if quantity d = 0 ∨ 2000 < quantity d then .exception 0x03
      else if address d + quantity d ≤ available fc then .data (readData fc (address d) (quantity d) s)
      else .exception 0x02 := by
  rcases kind with rfl | rfl <;>
    simp [reference, BadLength, BadFunction, BadQuantity, BadAddress, BadByteCount, limit]

theorem reference_regs {fc : UInt8} (kind : fc = 3 ∨ fc = 4) :
    reference fc d s =
      if d.length ≠ 4 then .silent
      else if quantity d = 0 ∨ 125 < quantity d then .exception 0x03
      else if 5000 ≤ address d then .exception 0x01
      else if address d + quantity d ≤ available fc then .data (readData fc (address d) (quantity d) s)
      else .exception 0x02 := by
  rcases kind with rfl | rfl <;>
    simp [reference, BadLength, BadFunction, BadQuantity, BadAddress, BadByteCount, limit]

theorem reference_write {fc : UInt8} (kind : fc = 5 ∨ fc = 6) :
    reference fc d s = if d.length ≠ 4 then .silent else .performed := by
  rcases kind with rfl | rfl <;> simp [reference, BadLength, BadFunction, BadQuantity, BadAddress, BadByteCount]

theorem reference_diagnostics :
    reference 8 d s =
      if d.length ≠ 4 then .silent
      else if address d ∉ [0x00, 0x0A, 0x0B, 0x0C, 0x0D, 0x0E, 0x0F] then .exception 0x01
      else .performed := by
  simp [reference, BadLength, BadFunction, BadQuantity, BadAddress, BadByteCount]

theorem reference_coils_write :
    reference 15 d s =
      if d.length < 6 then .silent
      else if quantity d = 0 ∨ 2000 < quantity d then .exception 0x03
      else if byteCount d ≠ (quantity d + 7) / 8 ∨ d.length ≠ byteCount d + 5 then .exception 0x03
      else .performed := by
  simp [reference, BadLength, BadFunction, BadQuantity, BadAddress, BadByteCount, limit]

theorem reference_hregs_write :
    reference 16 d s =
      if d.length < 6 then .silent
      else if quantity d = 0 ∨ 125 < quantity d then .exception 0x03
      else if 5000 ≤ address d then .exception 0x01
      else if byteCount d / quantity d ≠ 2 ∨ d.length ≠ byteCount d + 5 then .exception 0x03
      else .performed := by
  simp [reference, BadLength, BadFunction, BadQuantity, BadAddress, BadByteCount, limit]

theorem reference_unknown {fc : UInt8} (unknown : fc ∉ [1, 2, 3, 4, 5, 6, 8, 15, 16]) :
    reference fc d s = .exception 0x01 := by
  have length : ¬ BadLength fc d := by
    simp only [BadLength, List.mem_cons, List.not_mem_nil, or_false] at unknown ⊢
    tauto
  rw [reference, if_neg length, if_pos (.inl unknown)]

theorem reference_read {fc : UInt8} (kind : fc = 1 ∨ fc = 2 ∨ fc = 3 ∨ fc = 4) : reference fc d s ≠ .performed := by
  have read : fc ∈ [1, 2, 3, 4] := by simpa using kind
  unfold reference
  rw [if_pos read]
  split_ifs <;> nofun

end

section
variable {inv : Io → Prop}

/-- Every function code does what the reference says, and keeps what every write of a coil or a register keeps. -/
theorem dispatch_conforms (coil : ∀ addr state s s', inv s → coil_wr_cb addr state s = some s' → inv s')
    (register : ∀ addr reg s s', inv s → holding_reg_wr_cb addr reg s = some s' → inv s') (fc : UInt8) (d : List UInt8)
    (s : Srv) :
    ∃ a, dispatch fc d s = some a ∧ Conforms fc s.io (reference fc d s.io) a ∧ (inv s.io → inv a.2.io) := by
  have read {fc : UInt8} {r : Option Answer} (kind : fc = 1 ∨ fc = 2 ∨ fc = 3 ∨ fc = 4)
      (ran : ∃ a, r = some a ∧ Conforms fc s.io (reference fc d s.io) a) :
      ∃ a, r = some a ∧ Conforms fc s.io (reference fc d s.io) a ∧ (inv s.io → inv a.2.io) := by
    obtain ⟨a, rfl, conforms⟩ := ran
    refine ⟨a, rfl, conforms, ?_⟩
    intro before
    rw [conforms_io conforms (reference_read d s.io kind)]
    exact before
  refine dispatch_cases (P := fun fc r => ∃ a, r = some a ∧ Conforms fc s.io (reference fc d s.io) a ∧ (inv s.io → inv a.2.io))
    ?coil_read ?di_read ?hreg_read ?inreg_read ?coil_write ?hreg_write ?diagnostics ?coils_write ?hregs_write ?unknown fc
  case coil_read =>
    refine read (.inl rfl) ?_
    rw [reference_bits d s.io (.inl rfl)]
    exact @bits_read_conforms 1 d s DO_NUM coil_rd_cb (fun s a => (get_holding_reg HOLDING_DO_IDX s).toNat.testBit a)
      (fun _ _ => rfl) (by decide)
  case di_read =>
    refine read (.inr (.inl rfl)) ?_
    rw [reference_bits d s.io (.inr rfl)]
    exact @bits_read_conforms 2 d s DI_NUM discrete_input_rd_cb
      (fun s a => (get_input_reg INPUT_DI_IDX s).toNat.testBit a) (fun _ _ => rfl) (by decide)
  case hreg_read =>
    refine read (.inr (.inr (.inl rfl))) ?_
    rw [reference_regs d s.io (.inl rfl)]
    exact @regs_read_conforms 3 d s MODBUS_HOLDING_REGISTER_NUMBERS holding_reg_rd_cb (fun s a => io_read_holding a s)
      (fun _ _ => rfl) (by decide)
  case inreg_read =>
    refine read (.inr (.inr (.inr rfl))) ?_
    rw [reference_regs d s.io (.inr rfl)]
    exact @regs_read_conforms 4 d s MODBUS_INPUT_REGISTER_NUMBERS input_reg_rd_cb (fun s a => get_input_reg a s)
      (fun _ _ => rfl) (by decide)
  case coil_write =>
    rw [reference_write d s.io (.inl rfl)]
    exact fc05_coil_write_conforms coil
  case hreg_write =>
    rw [reference_write d s.io (.inr rfl)]
    exact fc06_hreg_write_conforms register
  case diagnostics =>
    rw [reference_diagnostics]
    obtain ⟨a, ran, conforms, same⟩ := @fc08_diagnostics_conforms d s
    exact ⟨a, ran, conforms, fun before => by rw [same]; exact before⟩
  case coils_write =>
    rw [reference_coils_write]
    exact fc15_coils_write_conforms coil
  case hregs_write =>
    rw [reference_hregs_write]
    exact fc16_hregs_write_conforms register
  case unknown =>
    intro fc unknown
    rw [reference_unknown d s.io unknown]
    exact ⟨_, rfl, conforms_exception fc 0x01 s, id⟩

end

/-- The answer of the decoder is that of the function code, once the request has been counted. -/
theorem mb_server_process_conforms {inv : Io → Prop} (coil : ∀ addr state s s', inv s → coil_wr_cb addr state s = some s' → inv s')
    (register : ∀ addr reg s s', inv s → holding_reg_wr_cb addr reg s = some s' → inv s') (fc : UInt8) (d : List UInt8)
    (s : Srv) :
    decode (fc :: d) s = some (mb_server_process (fc :: d) s) ∧
      Conforms fc s.io (reference fc d s.io) (mb_server_process (fc :: d) s) ∧
      (inv s.io → inv (mb_server_process (fc :: d) s).2.io) := by
  obtain ⟨a, ran, conforms, keeps⟩ := dispatch_conforms coil register fc d
    (mb_server_diag_count .SRV_MSG (mb_server_diag_count .BUS_MSG s))
  have answer : mb_server_process (fc :: d) s = a := by
    simp only [mb_server_process, decode, ran]
    rfl
  rw [answer]
  exact ⟨ran, conforms, keeps⟩

/-- What every write of a coil and of a register keeps, every request keeps. -/
theorem mb_server_process_keeps {inv : Io → Prop} (coil : ∀ addr state s s', inv s → coil_wr_cb addr state s = some s' → inv s')
    (register : ∀ addr reg s s', inv s → holding_reg_wr_cb addr reg s = some s' → inv s') {s : Srv} (pdu : List UInt8)
    (before : inv s.io) : inv (mb_server_process pdu s).2.io := by
  cases pdu with
  | nil => exact before
  | cons fc d => exact (mb_server_process_conforms coil register fc d s).2.2 before

/-- A reply is never longer than a PDU may be. -/
theorem mb_server_process_length {pdu reply : List UInt8} {s : Srv} (answered : (mb_server_process pdu s).1 = some reply) :
    reply.length ≤ 253 := by
  cases pdu with
  | nil => cases answered
  | cons fc d =>
    have conforms := (@mb_server_process_conforms (fun _ => True) (fun _ _ _ _ _ _ => trivial)
      (fun _ _ _ _ _ _ => trivial) fc d s).2.1
    exact (conforms_reply conforms answered).size

/-- For every PDU and every state, the decoder reads nothing but the PDU, does what
    the reference says, and answers with at most 253 bytes that start with the
    function code or the function code with its top bit set. -/
theorem request_semantics (fc : UInt8) (d : List UInt8) (s : Srv) :
    decode (fc :: d) s = some (mb_server_process (fc :: d) s) ∧
      Conforms fc s.io (reference fc d s.io) (mb_server_process (fc :: d) s) ∧
      ∀ reply, (mb_server_process (fc :: d) s).1 = some reply → Reply fc reply := by
  obtain ⟨total, conforms, _⟩ := @mb_server_process_conforms (fun _ => True) (fun _ _ _ _ _ _ => trivial)
    (fun _ _ _ _ _ _ => trivial) fc d s
  exact ⟨total, conforms, fun reply answered => conforms_reply conforms answered⟩

end IoEdgeHub.MbRequests
