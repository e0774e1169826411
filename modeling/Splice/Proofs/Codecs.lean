import Mathlib.Data.List.Basic
import Splice.Locator
import Splice.Proofs.Utf8

set_option autoImplicit false

namespace Splice

namespace Codec

theorem forall_of_decodeFrom {P : Char → Prop} {codec t : Text}
    {front : UInt8 → List UInt8 → Front} {skip position : Nat} {bytes : List UInt8}
    (hf : ∀ b bs c size, front b bs = .char c size → P c)
    (h : decodeFrom codec front skip position bytes = .ok t) : ∀ c ∈ t, P c := by
  induction bytes generalizing skip position t with
  | nil =>
    cases h
    simp
  | cons b bs ih =>
    cases skip with
    | succ skip => exact ih h
    | zero =>
      rw [decodeFrom] at h
      split at h
      · cases h
      · rename_i c size hc
        split at h
        · rename_i u hu
          cases h
          exact List.forall_mem_cons.2 ⟨hf b bs c size hc, ih hu⟩
        · cases h

namespace Utf16

theorem word_bytes (o : Order) {n : Nat} (h : n < 0x10000) :
    ∃ a b, o.bytes n = [a, b] ∧ o.word a b = n := by
  have hlow : n % 256 < 256 := Nat.mod_lt n (by decide)
  have hhigh : n / 256 < 256 := by omega
  cases o with
  | little =>
    refine ⟨_, _, rfl, ?_⟩
    rw [Order.word, Utf8.toNat_toUInt8 hlow, Utf8.toNat_toUInt8 hhigh]
    omega
  | big =>
    refine ⟨_, _, rfl, ?_⟩
    rw [Order.word, Utf8.toNat_toUInt8 hlow, Utf8.toNat_toUInt8 hhigh]
    omega

theorem reads (o : Order) : Reads (front o) (bytes o) := by
  intro c rest
  have hv := Utf8.toNat_bound c
  rw [bytes]
  by_cases h : c.toNat < 0x10000
  · obtain ⟨a, b, hbytes, hword⟩ := word_bytes o h
    refine ⟨a, [b], (if_pos h).trans hbytes, ?_⟩
    simp only [List.singleton_append, front, hword]
    rw [if_pos (by omega), Char.ofNat_toNat]
    rfl
  · -- The two halves of a character beyond the first 65536 are in the two ranges of surrogates.
    obtain ⟨a, b, hhigh, hword⟩ :=
      word_bytes o (n := 0xD800 + (c.toNat - 0x10000) / 1024) (by omega)
    obtain ⟨a', b', hlow, hword'⟩ :=
      word_bytes o (n := 0xDC00 + (c.toNat - 0x10000) % 1024) (by omega)
    have hnumber : 0x10000 + (0xD800 + (c.toNat - 0x10000) / 1024 - 0xD800) * 1024 +
        (0xDC00 + (c.toNat - 0x10000) % 1024 - 0xDC00) = c.toNat := by omega
    refine ⟨a, [b, a', b'], (if_neg h).trans (by rw [hhigh, hlow]; rfl), ?_⟩
    simp only [List.cons_append, List.nil_append, front, hword, hword']
    rw [if_neg (by omega), if_neg (by omega), if_pos (by omega), hnumber, Char.ofNat_toNat]
    rfl

theorem decode_encode (o : Order) (position : Nat) (t : Text) :
    decode o position (encode o t) = .ok t :=
  decodeFrom_flatMap position fun c _ => reads o c

end Utf16
end Codec

namespace Encoding

variable {e : Encoding} {n : Nat} {t : Text} {bytes : List UInt8}

theorem encodeBelow_eq_some_iff :
    encodeBelow n t = some bytes ↔
      (∀ c ∈ t, c.toNat < n) ∧ t.flatMap (fun c => [c.toNat.toUInt8]) = bytes := by
  induction t generalizing bytes with
  | nil => simp [encodeBelow]
  | cons c t ih =>
    rw [encodeBelow, List.forall_mem_cons]
    by_cases hc : c.toNat < n
    · rw [if_pos hc, Option.map_eq_some_iff]
      constructor
      · rintro ⟨rest, hrest, rfl⟩
        obtain ⟨ht, rfl⟩ := ih.1 hrest
        exact ⟨⟨hc, ht⟩, rfl⟩
      · rintro ⟨⟨-, ht⟩, rfl⟩
        exact ⟨_, ih.2 ⟨ht, rfl⟩, rfl⟩
    · simp [hc]

theorem ofNat_toUInt8 {c : Char} (h : c.toNat < 256) :
    Char.ofNat c.toNat.toUInt8.toNat = c := by
  rw [Codec.Utf8.toNat_toUInt8 h, Char.ofNat_toNat]

theorem decode_encode (h : e.encode t = some bytes) : e.decode bytes = .ok t := by
  cases e with
  | utf8 =>
    cases h
    exact Codec.Utf8.decode_encode t
  | utf8Marked =>
    cases h
    exact Codec.Utf8.decode_encode t
  | latin1 =>
    obtain ⟨ht, rfl⟩ := encodeBelow_eq_some_iff.1 h
    have hread : ∀ c ∈ t, [c.toNat.toUInt8].map (fun b => Char.ofNat b.toNat) = [c] :=
      fun c hc => congrArg (fun c => [c]) (ofNat_toUInt8 (ht c hc))
    rw [decode, List.map_flatMap, List.flatMap_congr hread, List.flatMap_singleton']
  | ascii =>
    obtain ⟨ht, rfl⟩ := encodeBelow_eq_some_iff.1 h
    refine Codec.decodeFrom_flatMap 0 fun c hc rest => ⟨_, [], rfl, ?_⟩
    have hbyte : c.toNat.toUInt8 < 0x80 := by
      rw [UInt8.lt_iff_toNat_lt, Codec.Utf8.toNat_toUInt8 (by have := ht c hc; omega)]
      exact ht c hc
    rw [if_pos hbyte, ofNat_toUInt8 (by have := ht c hc; omega)]
    rfl
  | utf16 =>
    cases h
    exact Codec.Utf16.decode_encode .little 2 t
  | utf16Little =>
    cases h
    exact Codec.Utf16.decode_encode .little 0 t
  | utf16Big =>
    cases h
    exact Codec.Utf16.decode_encode .big 0 t

def limit : Encoding → Nat
  | .latin1 => 256
  | .ascii => 128
  | _ => 0x110000

theorem toNat_ofNat (h : n < 256) : (Char.ofNat n).toNat = n := by
  have hv : n.isValidChar := .inl (by omega)
  rw [Char.ofNat, dif_pos hv]
  rfl

theorem lt_limit_of_decode (h : e.decode bytes = .ok t) : ∀ c ∈ t, c.toNat < e.limit := by
  have hall : ∀ c : Char, c.toNat < 0x110000 := by
    intro c
    have := Codec.Utf8.toNat_bound c
    omega
  cases e with
  | latin1 =>
    cases h
    intro c hc
    obtain ⟨b, -, rfl⟩ := List.mem_map.1 hc
    rw [toNat_ofNat b.toNat_lt]
    exact b.toNat_lt
  | ascii =>
    refine Codec.forall_of_decodeFrom (fun b bs c size hc => ?_) h
    split at hc
    · rename_i hb
      cases hc
      rw [toNat_ofNat b.toNat_lt]
      exact UInt8.lt_iff_toNat_lt.1 hb
    · cases hc
  | _ => exact fun c _ => hall c

theorem exists_encode (h : ∀ c ∈ t, c.toNat < e.limit) : ∃ bytes, e.encode t = some bytes := by
  cases e with
  | latin1 => exact ⟨_, encodeBelow_eq_some_iff.2 ⟨h, rfl⟩⟩
  | ascii => exact ⟨_, encodeBelow_eq_some_iff.2 ⟨h, rfl⟩⟩
  | _ => exact ⟨_, rfl⟩

end Encoding

/-- A file has a text in the encoding of a name if its bytes are read as the text. No bytes are read
as the empty text. -/
theorem Locator.decode_eq_text_iff {name t : Text} {e : Encoding} {bytes : List UInt8}
    (he : Encoding.ofName? name = some e) :
    decode (.text name) bytes = .ok (.text t) ↔ '\x00' ∉ name ∧ e.decode bytes = .ok t := by
  have hempty : e.decode [] = .ok [] := by cases e <;> rfl
  rw [decode]
  by_cases hz : '\x00' ∈ name
  · simp [hz]
  by_cases hn : bytes = []
  · simp [hz, hn, hempty]
  simp only [if_neg hz, if_neg hn, he]
  cases e.decode bytes <;> simp [hz]

end Splice
