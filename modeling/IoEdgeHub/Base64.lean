import IoEdgeHub.BitStrings
import IoEdgeHub.Ws
import IoEdgeHub.WsUpgrade

/-!
Base64 (`web/ws.c`). The encoder cuts three bytes at a time into four digits, with two
shorter ends; the decoder shifts the digits into a word that it never clears and takes a
byte off whenever there are eight bits. Both only regroup one string of bits: the bytes
written, followed by the bits of the word that are still to be used, are always the
digits read.
-/
namespace IoEdgeHub.Base64
open IoEdgeHub.BitStrings IoEdgeHub.CStrings IoEdgeHub.FwUpg IoEdgeHub.Ws IoEdgeHub.WsUpgrade

/-- The character of a digit. -/
def digit (v : Nat) : UInt8 := b64_tab.getD v 0

theorem b64_val_digit {v : Nat} (small : v < 64) : b64_val (digit v) = some v := by
  have all : ∀ v < 64, b64_val (digit v) = some v := by decide +kernel
  exact all v small

/-- The digits of an encoding, without the padding. -/
def digits : List UInt8 → List Nat
  | a :: b :: c :: src =>
    let v := a.toNat * 2^16 + b.toNat * 2^8 + c.toNat
    v / 2^18 % 64 :: v / 2^12 % 64 :: v / 2^6 % 64 :: v / 2^0 % 64 :: digits src
  | [a, b] =>
    let v := a.toNat * 2^16 + b.toNat * 2^8
    [v / 2^18 % 64, v / 2^12 % 64, v / 2^6 % 64]
  | [a] =>
    let v := a.toNat * 2^16
    [v / 2^18 % 64, v / 2^12 % 64]
  | [] => []

theorem b64_encode_digits (x : List UInt8) : ∃ padding, b64_encode x = (digits x).map digit ++ List.replicate padding 61 := by
  induction x using digits.induct with
  | case1 a b c src ih =>
    obtain ⟨padding, rest⟩ := ih
    refine ⟨padding, ?_⟩
    rw [b64_encode, rest, digits]
    rfl
  | case2 a b => exact ⟨1, rfl⟩
  | case3 a => exact ⟨2, rfl⟩
  | case4 => exact ⟨0, rfl⟩

theorem digits_small (x : List UInt8) : ∀ v ∈ digits x, v < 64 := by
  have small (v : Nat) : v % 64 < 64 := Nat.mod_lt v (by decide)
  induction x using digits.induct with
  | case1 a b c src ih =>
    rw [digits]
    simp only [List.forall_mem_cons]
    exact ⟨small _, small _, small _, small _, ih⟩
  | case2 a b =>
    rw [digits]
    simp only [List.forall_mem_cons]
    exact ⟨small _, small _, small _, List.forall_mem_nil _⟩
  | case3 a =>
    rw [digits]
    simp only [List.forall_mem_cons]
    exact ⟨small _, small _, List.forall_mem_nil _⟩
  | case4 => exact List.forall_mem_nil _

/-- A digit that is cut out of a number, and the rest of the number. -/
theorem concat_digit (k v : Nat) {vs : List Nat} (rest : concat 6 vs = bits k v) :
    concat 6 (v / 2^k % 64 :: vs) = bits (6 + k) v := by
  have six : bits 6 (v / 2^k % 64) = bits 6 (v / 2^k) := bits_mod (Nat.le_refl 6) _
  rw [concat_cons, six, rest, bits_add]

theorem of_bytes_two (a b : UInt8) : of_bytes [a, b] = bits 16 (a.toNat * 2^8 + b.toNat) := by
  rw [← bits_append 8 a.toNat b.toNat_lt, of_bytes_cons, of_bytes_cons]
  exact congrArg (bits 8 a.toNat ++ ·) (List.append_nil _)

/-- The digits write the bits of the bytes, and fewer than eight zeros behind them. -/
theorem digits_bits (x : List UInt8) : ∃ zeros < 8, concat 6 (digits x) = of_bytes x ++ List.replicate zeros false := by
  induction x using digits.induct with
  | case1 a b c src ih =>
    obtain ⟨zeros, few, rest⟩ := ih
    refine ⟨zeros, few, ?_⟩
    have four (v : Nat) : concat 6 [v / 2^18 % 64, v / 2^12 % 64, v / 2^6 % 64, v / 2^0 % 64] = bits 24 v :=
      concat_digit 18 v (concat_digit 12 v (concat_digit 6 v (concat_digit 0 v rfl)))
    have three : of_bytes [a, b, c] = bits 24 (a.toNat * 2^16 + b.toNat * 2^8 + c.toNat) := by
      have number : a.toNat * 2^16 + b.toNat * 2^8 + c.toNat = (a.toNat * 2^8 + b.toNat) * 2^8 + c.toNat := by omega
      have cut : of_bytes [a, b, c] = of_bytes [a, b] ++ of_bytes [c] := of_bytes_append [a, b] [c]
      rw [number, cut, of_bytes_two, ← bits_append 16 _ c.toNat_lt]
      exact congrArg (_ ++ ·) (List.append_nil _)
    have front : concat 6 (digits (a :: b :: c :: src)) = of_bytes [a, b, c] ++ concat 6 (digits src) := by
      rw [three, ← four, ← concat_append]
      rfl
    have whole : of_bytes (a :: b :: c :: src) = of_bytes [a, b, c] ++ of_bytes src := of_bytes_append [a, b, c] src
    rw [front, rest, whole, List.append_assoc]
  | case2 a b =>
    refine ⟨2, by decide, ?_⟩
    have three (v : Nat) : concat 6 [v / 2^12 % 64, v / 2^6 % 64, v / 2^0 % 64] = bits 18 v :=
      concat_digit 12 v (concat_digit 6 v (concat_digit 0 v rfl))
    have padded : digits [a, b] = [((a.toNat * 2^8 + b.toNat) * 2^2 + 0) / 2^12 % 64,
        ((a.toNat * 2^8 + b.toNat) * 2^2 + 0) / 2^6 % 64, ((a.toNat * 2^8 + b.toNat) * 2^2 + 0) / 2^0 % 64] := by
      simp only [digits, List.cons.injEq, and_true]
      omega
    rw [padded, three, of_bytes_two, ← bits_append 16 (a.toNat * 2^8 + b.toNat) (by decide : 0 < 2^2), bits_zero]
  | case3 a =>
    refine ⟨4, by decide, ?_⟩
    have two (v : Nat) : concat 6 [v / 2^6 % 64, v / 2^0 % 64] = bits 12 v := concat_digit 6 v (concat_digit 0 v rfl)
    have padded : digits [a] = [(a.toNat * 2^4 + 0) / 2^6 % 64, (a.toNat * 2^4 + 0) / 2^0 % 64] := by
      simp only [digits, List.cons.injEq, and_true]
      omega
    have one : of_bytes [a] = bits 8 a.toNat := List.append_nil _
    rw [padded, two, one, ← bits_append 8 a.toNat (by decide : 0 < 2^4), bits_zero]
  | case4 => exact ⟨0, by decide, rfl⟩

/-- The bytes written and the bits of the word that are left. -/
def held (acc nbits : Nat) (dst : List UInt8) : List Bool := of_bytes dst ++ bits nbits acc

theorem b64_loop_digit {dst_max acc nbits v : Nat} {dst rest : List UInt8} (small : v < 64) (short : nbits < 8)
    (room : 8 * dst.length + nbits + 6 < 8 * (dst_max + 1)) :
    ∃ acc' nbits' dst', b64_loop dst_max (digit v :: rest) acc nbits dst = b64_loop dst_max rest acc' nbits' dst' ∧
      nbits' < 8 ∧ held acc' nbits' dst' = held acc nbits dst ++ bits 6 v := by
  have shifted : bits (nbits + 6) ((acc * 2^6 + v) % 2^32) = bits nbits acc ++ bits 6 v := by
    rw [bits_mod (by omega), bits_append nbits acc small]
  have step : b64_loop dst_max (digit v :: rest) acc nbits dst =
      if nbits + 6 ≥ 8 then
        if dst.length ≥ dst_max then none
        else b64_loop dst_max rest ((acc * 2^6 + v) % 2^32) (nbits + 6 - 8)
          (dst ++ [UInt8.ofNat ((acc * 2^6 + v) % 2^32 / 2^(nbits + 6 - 8))])
      else b64_loop dst_max rest ((acc * 2^6 + v) % 2^32) (nbits + 6) dst := by
    rw [b64_loop, b64_val_digit small]
  rw [step]
  by_cases full : nbits + 6 ≥ 8
  · have inside : ¬ dst.length ≥ dst_max := by omega
    rw [if_pos full, if_neg inside]
    refine ⟨_, _, _, rfl, by omega, ?_⟩
    have cut := bits_add 8 (nbits + 6 - 8) ((acc * 2^6 + v) % 2^32)
    rw [show 8 + (nbits + 6 - 8) = nbits + 6 by omega, shifted] at cut
    have byte : of_bytes [UInt8.ofNat ((acc * 2^6 + v) % 2^32 / 2^(nbits + 6 - 8))] =
        bits 8 ((acc * 2^6 + v) % 2^32 / 2^(nbits + 6 - 8)) := by
      rw [of_bytes_cons, bits_byte]
      exact List.append_nil _
    rw [held, held, of_bytes_append, byte, List.append_assoc, List.append_assoc, cut]
  · rw [if_neg full]
    refine ⟨_, _, _, rfl, by omega, ?_⟩
    rw [held, held, shifted, List.append_assoc]

theorem b64_loop_digits {dst_max acc nbits : Nat} {vs : List Nat} {dst rest : List UInt8} (small : ∀ v ∈ vs, v < 64)
    (short : nbits < 8) (room : 8 * dst.length + nbits + 6 * vs.length < 8 * (dst_max + 1)) :
    ∃ acc' nbits' dst', b64_loop dst_max (vs.map digit ++ rest) acc nbits dst = b64_loop dst_max rest acc' nbits' dst' ∧
      nbits' < 8 ∧ held acc' nbits' dst' = held acc nbits dst ++ concat 6 vs := by
  induction vs generalizing acc nbits dst with
  | nil => exact ⟨acc, nbits, dst, rfl, short, (List.append_nil _).symm⟩
  | cons v vs ih =>
    rw [List.length_cons] at room
    obtain ⟨acc₁, nbits₁, dst₁, first, short₁, held₁⟩ := @b64_loop_digit dst_max acc nbits v dst (vs.map digit ++ rest)
      (small v List.mem_cons_self) short (by omega)
    have length : 8 * dst₁.length + nbits₁ = 8 * dst.length + nbits + 6 := by
      have lengths := congrArg List.length held₁
      simp only [held, List.length_append, length_of_bytes, length_bits] at lengths
      exact lengths
    obtain ⟨acc₂, nbits₂, dst₂, later, short₂, held₂⟩ := @ih acc₁ nbits₁ dst₁
      (fun v member => small v (List.mem_cons_of_mem _ member)) short₁ (by omega)
    refine ⟨acc₂, nbits₂, dst₂, first.trans later, short₂, ?_⟩
    rw [held₂, held₁, concat_cons, List.append_assoc]

theorem b64_loop_padding (dst_max acc nbits padding : Nat) (dst : List UInt8) :
    b64_loop dst_max (List.replicate padding 61) acc nbits dst = some dst := by
  induction padding with
  | zero => rfl
  | succ padding ih => exact ih

/-- A text with spaces and line ends put in anywhere. -/
inductive Spaced (text : List UInt8) : List UInt8 → Prop
  | plain : Spaced text text
  | blank {before after : List UInt8} {c : UInt8} : Spaced text (before ++ after) → c = 32 ∨ c = 13 ∨ c = 10 →
      Spaced text (before ++ c :: after)

theorem b64_loop_blank {c : UInt8} (blank : c = 32 ∨ c = 13 ∨ c = 10) (dst_max acc nbits : Nat)
    (before after dst : List UInt8) :
    b64_loop dst_max (before ++ c :: after) acc nbits dst = b64_loop dst_max (before ++ after) acc nbits dst := by
  induction before generalizing acc nbits dst with
  | nil => rcases blank with rfl | rfl | rfl <;> rfl
  | cons d before ih =>
    simp only [List.cons_append, b64_loop, ih]

theorem b64_decode_spaced {text spaced : List UInt8} (insertions : Spaced text spaced) (dst_max : Nat) :
    b64_decode spaced dst_max = b64_decode text dst_max := by
  induction insertions with
  | plain => rfl
  | blank _ blank ih => exact (b64_loop_blank blank ..).trans ih

theorem b64_decode_encode (x : List UInt8) {dst_max : Nat} (room : x.length ≤ dst_max) :
    b64_decode (b64_encode x) dst_max = some x := by
  obtain ⟨padding, encoded⟩ := b64_encode_digits x
  obtain ⟨zeros, few, written⟩ := digits_bits x
  have length : 6 * (digits x).length = 8 * x.length + zeros := by
    have lengths := congrArg List.length written
    rw [length_concat, List.length_append, length_of_bytes, List.length_replicate] at lengths
    exact lengths
  obtain ⟨acc, nbits, dst, run, short, kept⟩ := @b64_loop_digits dst_max 0 0 (digits x) [] (List.replicate padding 61)
    (digits_small x) (by decide) (by rw [List.length_nil]; omega)
  have regrouped : of_bytes dst ++ bits nbits acc = of_bytes x ++ List.replicate zeros false := kept.trans written
  have lengths := congrArg List.length regrouped
  simp only [List.length_append, length_of_bytes, length_bits, List.length_replicate] at lengths
  have count : dst.length = x.length := by omega
  have bytes := (List.append_inj regrouped (by rw [length_of_bytes, length_of_bytes, count])).1
  rw [b64_decode, encoded, run, b64_loop_padding, of_bytes_inj count bytes]

/-- Encoding and decoding gives back the bytes, whatever blanks the text was broken with. -/
theorem b64_round_trip (x : List UInt8) {dst_max : Nat} (room : x.length ≤ dst_max) {text : List UInt8}
    (spaced : Spaced (b64_encode x) text) : b64_decode text dst_max = some x := by
  rw [b64_decode_spaced spaced]
  exact b64_decode_encode x room

/-- Four bytes in two lines. -/
theorem b64_round_trip_lines : b64_decode (ascii "AQID" ++ 13 :: 10 :: ascii "BA==") 4 = some [1, 2, 3, 4] := by
  have encoded : b64_encode [1, 2, 3, 4] = ascii "AQID" ++ ascii "BA==" := by decide
  have unbroken : Spaced (b64_encode [1, 2, 3, 4]) (ascii "AQID" ++ ascii "BA==") := by
    rw [encoded]
    exact .plain
  exact b64_round_trip [1, 2, 3, 4] (by decide) (.blank (.blank unbroken (.inr (.inr rfl))) (.inr (.inl rfl)))

/-- The hash of a key is taken as it was encoded. -/
theorem fw_start_op_keyhash {kh : List UInt8} (sized : kh.length = FW_KEYHASH_LEN) {fw_size : Int} (positive : 0 < fw_size) :
    fw_start_op fw_size (some (b64_encode kh)) = .ok (.START fw_size.toNat (some kh)) := by
  have decoded : b64_decode (b64_encode kh) FW_KEYHASH_LEN = some kh := b64_decode_encode kh (Nat.le_of_eq sized)
  unfold fw_start_op
  rw [if_neg (Int.not_le.mpr positive)]
  simp only [decoded, if_pos sized]

end IoEdgeHub.Base64
