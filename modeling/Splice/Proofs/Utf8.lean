import Splice.Codec.Utf8

set_option autoImplicit false

namespace Splice.Codec

section Reading

variable {codec : Text} {front : UInt8 → List UInt8 → Front} {bytes : Char → List UInt8}

/-- The bytes of every character are found at the front of any bytes that start with them. -/
def Reads (front : UInt8 → List UInt8 → Front) (bytes : Char → List UInt8) : Prop :=
  ∀ c rest, ∃ b bs, bytes c = b :: bs ∧ front b (bs ++ rest) = .char c (bs.length + 1)

theorem decodeFrom_skip (position : Nat) (skipped rest : List UInt8) :
    decodeFrom codec front skipped.length position (skipped ++ rest) =
      decodeFrom codec front 0 (position + skipped.length) rest := by
  induction skipped generalizing position with
  | nil => rfl
  | cons b bs ih =>
    simp only [List.cons_append, List.length_cons, decodeFrom, ih]
    rw [Nat.add_right_comm, Nat.add_assoc]

theorem decodeFrom_flatMap {t : Text} (position : Nat)
    (h : ∀ c ∈ t, ∀ rest, ∃ b bs, bytes c = b :: bs ∧
      front b (bs ++ rest) = .char c (bs.length + 1)) :
    decodeFrom codec front 0 position (t.flatMap bytes) = .ok t := by
  induction t generalizing position with
  | nil => rfl
  | cons c t ih =>
    rw [List.forall_mem_cons] at h
    obtain ⟨b, bs, hc, hf⟩ := h.1 (t.flatMap bytes)
    rw [List.flatMap_cons, hc, List.cons_append, decodeFrom, hf]
    simp only [Nat.add_sub_cancel, decodeFrom_skip, ih _ h.2]

end Reading

namespace Utf8

theorem toNat_toUInt8 {n : Nat} (h : n < 256) : n.toUInt8.toNat = n := by
  rw [Nat.toUInt8, UInt8.toNat_ofNat']
  exact Nat.mod_eq_of_lt h

theorem continueFrom_cons {value size low high left n : Nat} {rest : List UInt8}
    (hn : n < 256) (hl : low ≤ n) (hh : n ≤ high) :
    continueFrom value size low high (left + 1) (n.toUInt8 :: rest) =
      continueFrom (value * 64 + (n - 0x80)) (size + 1) 0x80 0xBF left rest := by
  rw [continueFrom, toNat_toUInt8 hn, if_pos ⟨hl, hh⟩]

theorem continueFrom_zero {size low high n : Nat} {c : Char} {rest : List UInt8}
    (h : n = c.toNat) : continueFrom n size low high 0 rest = .char c size := by
  rw [continueFrom, h, Char.ofNat_toNat]

theorem toNat_bound (c : Char) :
    c.toNat < 0xD800 ∨ 0xDFFF < c.toNat ∧ c.toNat < 0x110000 := c.valid

theorem reads : Reads front bytes := by
  intro c rest
  have hv := toNat_bound c
  rw [bytes]
  by_cases h1 : c.toNat < 0x80
  · refine ⟨_, [], if_pos h1, ?_⟩
    rw [front, toNat_toUInt8 (by omega), if_pos h1, Char.ofNat_toNat]
    rfl
  rw [if_neg h1]
  by_cases h2 : c.toNat < 0x800
  · refine ⟨_, [_], if_pos h2, ?_⟩
    rw [front, toNat_toUInt8 (by omega), if_neg (by omega), if_neg (by omega), if_pos (by omega),
      List.singleton_append, continueFrom_cons (by omega) (by omega) (by omega),
      continueFrom_zero (c := c) (by omega)]
    rfl
  rw [if_neg h2]
  by_cases h3 : c.toNat < 0x10000
  · refine ⟨_, [_, _], if_pos h3, ?_⟩
    rw [front, toNat_toUInt8 (by omega), if_neg (by omega), if_neg (by omega), if_neg (by omega),
      if_pos (by omega), List.cons_append, List.singleton_append,
      continueFrom_cons (by omega) (by split <;> omega) (by split <;> omega),
      continueFrom_cons (by omega) (by omega) (by omega), continueFrom_zero (c := c) (by omega)]
    rfl
  · refine ⟨_, [_, _, _], if_neg h3, ?_⟩
    rw [front, toNat_toUInt8 (by omega), if_neg (by omega), if_neg (by omega), if_neg (by omega),
      if_neg (by omega), if_pos (by omega), List.cons_append, List.cons_append,
      List.singleton_append,
      continueFrom_cons (by omega) (by split <;> omega) (by split <;> omega),
      continueFrom_cons (by omega) (by omega) (by omega),
      continueFrom_cons (by omega) (by omega) (by omega), continueFrom_zero (c := c) (by omega)]
    rfl

theorem decode_encode (t : Text) : decode (encode t) = .ok t :=
  decodeFrom_flatMap 0 fun c _ => reads c

end Utf8
end Splice.Codec
