import Mathlib.Data.Nat.Bitwise
import Mathlib.Data.List.Basic

/-!
# Base32 without padding

`responseFor` reads the payload of a query from the labels before the domain, as
`base32Encoding.Decode(bytes.ToUpper(bytes.Join(prefix, nil)))` with `base32Encoding` Go's
standard alphabet without padding. This file models the two library calls as Go's `bytes` and
`encoding/base32` packages compute them, and the RFC 4648 encoding a client puts in its names.

* `decode`: Go's decoder on unpadded input. Carriage returns and line feeds are skipped, the
  input is read in quanta of 8 characters, and a last quantum of `k` characters yields
  `quantumBytes k` bytes; one of 1, 3 or 6 characters yields none, without an error.
* `decode_encode`: decoding the encoding of any byte string gives it back.
* `toUpper_of_caseOf`: upper-casing undoes any choice of case for the encoding's letters, so
  `decode (toUpper cs)` reads back the bytes whatever the case (`decode_toUpper_of_caseOf`).
-/

namespace Dnstt.Base32

/-! ## Bytes as numbers -/

theorem toNat_shiftLeft (a b : UInt8) : (a <<< b).toNat = a.toNat * 2 ^ (b.toNat % 8) % 256 := by
  show (a.toBitVec <<< (b.mod 8).toBitVec).toNat = _
  rw [BitVec.shiftLeft_eq', BitVec.toNat_shiftLeft, Nat.shiftLeft_eq]
  rfl

theorem toNat_shiftRight (a b : UInt8) : (a >>> b).toNat = a.toNat / 2 ^ (b.toNat % 8) := by
  show (a.toBitVec >>> (b.mod 8).toBitVec).toNat = _
  rw [BitVec.ushiftRight_eq', BitVec.toNat_ushiftRight, Nat.shiftRight_eq_div_pow]
  rfl

theorem toNat_lor (a b : UInt8) : (a ||| b).toNat = a.toNat ||| b.toNat :=
  BitVec.toNat_or _ _

/-- Or of numbers whose bits do not overlap is their sum. -/
theorem lor_eq_add {x y : Nat} (k : Nat) (hx : x % 2 ^ k = 0) (hy : y < 2 ^ k) : x ||| y = x + y := by
  obtain ⟨q, rfl⟩ : ∃ q, x = 2 ^ k * q :=
    ⟨x / 2 ^ k, (Nat.mul_div_cancel' (Nat.dvd_of_mod_eq_zero hx)).symm⟩
  exact (Nat.mul_add_lt_is_or hy q).symm

theorem lor_lor_eq_add {x y z : Nat} (j k : Nat) (hx : x % 2 ^ j = 0) (hy : y < 2 ^ j)
    (hxy : (x + y) % 2 ^ k = 0) (hz : z < 2 ^ k) : x ||| y ||| z = x + y + z := by
  rw [lor_eq_add j hx hy, lor_eq_add k hxy hz]

theorem toNat_toUInt8 {n : Nat} (h : n < 256) : n.toUInt8.toNat = n :=
  UInt8.toNat_ofNat_of_lt h

/-! ## Upper case -/

/-- ASCII upper case of one byte. -/
def upperAscii (c : UInt8) : UInt8 := if 0x61 ≤ c ∧ c ≤ 0x7A then c - 0x20 else c

/-- Go's `bytes.ToUpper`, as far as the base32 decoder can tell. ASCII letters are upper-cased
and the UTF-8 letters ı (C4 B1) and ſ (C5 BF) become I and S, their Unicode upper case. Go
maps every other byte of 0x80 or above to bytes of 0x80 or above again (U+FFFD for invalid
UTF-8), none of which the decoder accepts; here such bytes stay as they are. -/
def toUpper : List UInt8 → List UInt8
  | [] => []
  | [c] => [upperAscii c]
  | c :: d :: rest =>
    if c = 0xC4 ∧ d = 0xB1 then 0x49 :: toUpper rest
    else if c = 0xC5 ∧ d = 0xBF then 0x53 :: toUpper rest
    else upperAscii c :: toUpper (d :: rest)
termination_by structural cs => cs

/-- Go's `Decode` skips carriage returns and line feeds. -/
def stripNewlines (src : List UInt8) : List UInt8 := src.filter fun c => c != 0x0D && c != 0x0A

/-! ## Go's decoder -/

/-- The decoding table of `base32.StdEncoding`: A–Z are 0–25, 2–7 are 26–31, every other byte is
invalid (0xFF). -/
def decodeMap (c : UInt8) : UInt8 :=
  if 0x41 ≤ c ∧ c ≤ 0x5A then c - 0x41
  else if 0x32 ≤ c ∧ c ≤ 0x37 then c - 0x32 + 26
  else 0xFF

/-- The five bytes Go packs from eight 5-bit values. -/
def pack (v : Nat → UInt8) : List UInt8 :=
  [v 0 <<< 3 ||| v 1 >>> 2,
   v 1 <<< 6 ||| v 2 <<< 1 ||| v 3 >>> 4,
   v 3 <<< 4 ||| v 4 >>> 1,
   v 4 <<< 7 ||| v 5 <<< 2 ||| v 6 >>> 3,
   v 6 <<< 5 ||| v 7]

/-- How many bytes the switch of Go's decoder writes for a quantum of `k` characters. -/
def quantumBytes : Nat → Nat
  | 8 => 5
  | 7 => 4
  | 5 => 3
  | 4 => 2
  | 2 => 1
  | _ => 0

/-- One quantum of at most 8 characters: `none` on a character outside the alphabet, else the
first `quantumBytes` bytes packed from the values (missing values count as zero). -/
def decodeQuantum (cs : List UInt8) : Option (List UInt8) :=
  let d := cs.map decodeMap
  if d.all (· != 0xFF) then some ((pack fun i => d.getD i 0).take (quantumBytes d.length))
  else none

/-- The quanta of the input, 8 characters at a time. -/
def decodeQuanta : List UInt8 → Option (List UInt8)
  | c0 :: c1 :: c2 :: c3 :: c4 :: c5 :: c6 :: c7 :: rest => do
    let q ← decodeQuantum [c0, c1, c2, c3, c4, c5, c6, c7]
    let r ← decodeQuanta rest
    pure (q ++ r)
  | cs => decodeQuantum cs

/-- `base32Encoding.Decode` (`StdEncoding.WithPadding(NoPadding)`): the bytes written, or
`none` for a `CorruptInputError`. -/
def decode (src : List UInt8) : Option (List UInt8) := decodeQuanta (stripNewlines src)

/-! ## The encoding of RFC 4648 -/

/-- The eight 5-bit values of a group of up to five bytes, missing bytes counting as zero
(RFC 4648, section 6). -/
def groupValues (b : List UInt8) : List Nat :=
  let x i := (b.getD i 0).toNat
  [x 0 / 8, x 0 % 8 * 4 + x 1 / 64, x 1 / 2 % 32, x 1 % 2 * 16 + x 2 / 16,
    x 2 % 16 * 2 + x 3 / 128, x 3 / 4 % 32, x 3 % 4 * 8 + x 4 / 32, x 4 % 32]

/-- The base32 alphabet: 0–25 are A–Z, 26–31 are 2–7. -/
def alphabet (v : Nat) : UInt8 := if v < 26 then (0x41 + v).toUInt8 else (0x32 + (v - 26)).toUInt8

/-- A group of `k ≤ 5` bytes is written as `(8 k + 4) / 5` characters, without padding. -/
def encodeGroup (b : List UInt8) : List UInt8 :=
  ((groupValues b).take ((8 * b.length + 4) / 5)).map alphabet

/-- Unpadded base32 of RFC 4648, five bytes at a time. -/
def encode : List UInt8 → List UInt8
  | b0 :: b1 :: b2 :: b3 :: b4 :: rest => encodeGroup [b0, b1, b2, b3, b4] ++ encode rest
  | bs => encodeGroup bs

/-! ## Decoding the encoding -/

theorem toNat_lt (x : UInt8) : x.toNat < 256 := x.toNat_lt_size

/-- What the five packed bytes are, as numbers, for values below 32. -/
theorem pack_values {vs : List Nat} (h : ∀ v ∈ vs, v < 32) :
    (pack fun i => (vs.getD i 0).toUInt8).map UInt8.toNat =
      [vs.getD 0 0 * 8 % 256 + vs.getD 1 0 / 4,
        vs.getD 1 0 * 64 % 256 + vs.getD 2 0 * 2 + vs.getD 3 0 / 16,
        vs.getD 3 0 * 16 % 256 + vs.getD 4 0 / 2,
        vs.getD 4 0 * 128 % 256 + vs.getD 5 0 * 4 + vs.getD 6 0 / 8,
        vs.getD 6 0 * 32 % 256 + vs.getD 7 0] := by
  have hv : ∀ i, vs.getD i 0 < 32 := fun i => by
    by_cases hi : i < vs.length
    · rw [List.getD_eq_getElem _ _ hi]; exact h _ (List.getElem_mem hi)
    · rw [List.getD_eq_default _ _ (by omega)]; omega
  have ht : ∀ i, (vs.getD i 0).toUInt8.toNat = vs.getD i 0 := fun i =>
    toNat_toUInt8 (by have := hv i; omega)
  have := hv 1; have := hv 2; have := hv 3; have := hv 4; have := hv 5; have := hv 6; have := hv 7
  simp only [pack, List.map_cons, List.map_nil, toNat_lor, toNat_shiftLeft, toNat_shiftRight,
    UInt8.reduceToNat, Nat.reduceMod, Nat.reducePow, ht]
  refine List.cons_eq_cons.mpr ⟨?_, List.cons_eq_cons.mpr ⟨?_, List.cons_eq_cons.mpr ⟨?_,
    List.cons_eq_cons.mpr ⟨?_, List.cons_eq_cons.mpr ⟨?_, rfl⟩⟩⟩⟩⟩
  · rw [lor_eq_add 3] <;> omega
  · rw [lor_lor_eq_add 6 1] <;> omega
  · rw [lor_eq_add 4] <;> omega
  · rw [lor_lor_eq_add 7 2] <;> omega
  · rw [lor_eq_add 5] <;> omega

theorem decodeMap_alphabet : ∀ v < 32, decodeMap (alphabet v) = v.toUInt8 := by decide

theorem toUInt8_ne_ff : ∀ v < 32, (v.toUInt8 != 0xFF) = true := by decide

theorem groupValues_lt (b : List UInt8) : ∀ v ∈ groupValues b, v < 32 := by
  have h := fun i => (b.getD i 0).toNat_lt_size
  simp only [groupValues, List.mem_cons, List.mem_singleton, List.not_mem_nil, or_false]
  rintro v (rfl | rfl | rfl | rfl | rfl | rfl | rfl | rfl) <;> have := h 0 <;> have := h 1 <;>
    have := h 2 <;> have := h 3 <;> have := h 4 <;> simp only [UInt8.size] at * <;> omega

/-- A quantum of alphabet characters decodes to the packed bytes of their values. -/
theorem decodeQuantum_map_alphabet {vs : List Nat} (h : ∀ v ∈ vs, v < 32) :
    decodeQuantum (vs.map alphabet) =
      some ((pack fun i => (vs.getD i 0).toUInt8).take (quantumBytes vs.length)) := by
  have hmap : (vs.map alphabet).map decodeMap = vs.map Nat.toUInt8 := by
    simp only [List.map_map]
    exact List.map_congr_left fun v hv => decodeMap_alphabet v (h v hv)
  simp only [decodeQuantum, hmap, List.length_map]
  rw [if_pos (List.all_eq_true.2 fun u hu => by
    obtain ⟨v, hv, rfl⟩ := List.mem_map.1 hu; exact toUInt8_ne_ff v (h v hv))]
  congr
  funext i
  rw [show (0 : UInt8) = (0 : Nat).toUInt8 from rfl, List.getD_map]

/-- Packed back, the eight values of a group are its five bytes, missing bytes reading as zero. -/
theorem pack_groupValues (bs : List UInt8) :
    (pack fun i => ((groupValues bs).getD i 0).toUInt8).map UInt8.toNat =
      [0, 1, 2, 3, 4].map fun i => (bs.getD i 0).toNat := by
  have h := fun i => toNat_lt (bs.getD i 0)
  have := h 0; have := h 1; have := h 2; have := h 3; have := h 4
  rw [pack_values (groupValues_lt bs)]
  simp only [groupValues, List.getD_cons_zero, List.getD_cons_succ, List.map_cons, List.map_nil,
    List.cons.injEq]
  refine ⟨?_, ?_, ?_, ?_, ?_, trivial⟩ <;> omega

/-- The bytes a quantum of `n` characters yields read only its first `n` values. -/
theorem pack_take (vs : List Nat) (n : Nat) :
    (pack fun i => ((vs.take n).getD i 0).toUInt8).take (quantumBytes n) =
      (pack fun i => (vs.getD i 0).toUInt8).take (quantumBytes n) := by
  rcases n with _ | _ | _ | _ | _ | _ | _ | _ | _ | n <;>
    simp only [pack, quantumBytes, List.take_succ_cons, List.take_zero, List.getD_eq_getElem?_getD,
      List.getElem?_take, Nat.zero_add, Nat.reduceAdd, Nat.reduceLT, ite_true]

theorem decodeQuantum_encodeGroup (bs : List UInt8) (h : bs.length ≤ 5) :
    decodeQuantum (encodeGroup bs) = some bs := by
  rw [encodeGroup, decodeQuantum_map_alphabet fun v hv => groupValues_lt bs v (List.mem_of_mem_take hv)]
  congr 1
  apply List.map_injective_iff.2 (fun _ _ => UInt8.toNat.inj)
  rw [List.length_take_of_le (by simp only [groupValues, List.length_cons]; omega), pack_take,
    List.map_take, pack_groupValues]
  rcases bs with _ | ⟨x0, _ | ⟨x1, _ | ⟨x2, _ | ⟨x3, _ | ⟨x4, _ | ⟨x5, rest⟩⟩⟩⟩⟩⟩ <;>
    simp [quantumBytes] at h ⊢

theorem decodeQuanta_append_eight {cs : List UInt8} (h : cs.length = 8) (rest : List UInt8) :
    decodeQuanta (cs ++ rest) = (do
      let q ← decodeQuantum cs
      let r ← decodeQuanta rest
      pure (q ++ r)) := by
  match cs, h with
  | [_, _, _, _, _, _, _, _], _ => rfl

theorem encodeGroup_length_lt (bs : List UInt8) (h : bs.length < 5) : (encodeGroup bs).length < 8 := by
  simp only [encodeGroup, List.length_map, List.length_take, groupValues, List.length_cons,
    List.length_nil]
  omega

/-- Fewer than eight characters are one last quantum. -/
theorem decodeQuanta_of_length_lt {cs : List UInt8} (h : cs.length < 8) :
    decodeQuanta cs = decodeQuantum cs := by
  match cs, h with
  | [], _ | [_], _ | [_, _], _ | [_, _, _], _ | [_, _, _, _], _ | [_, _, _, _, _], _
  | [_, _, _, _, _, _], _ | [_, _, _, _, _, _, _], _ => rfl

theorem decodeQuanta_encode (d : List UInt8) : decodeQuanta (encode d) = some d := by
  induction d using encode.induct with
  | case1 b0 b1 b2 b3 b4 rest ih =>
    rw [encode, decodeQuanta_append_eight (by simp [encodeGroup, groupValues]),
      decodeQuantum_encodeGroup _ (by simp), ih]
    rfl
  | case2 bs h =>
    have hlt : bs.length < 5 := by
      match bs, h with
      | [], _ | [_], _ | [_, _], _ | [_, _, _], _ | [_, _, _, _], _ => simp
      | _ :: _ :: _ :: _ :: _ :: _, h => exact absurd rfl (h _ _ _ _ _ _)
    rw [encode.eq_2 bs h, decodeQuanta_of_length_lt (encodeGroup_length_lt bs hlt),
      decodeQuantum_encodeGroup bs (by omega)]

theorem alphabet_not_newline : ∀ v < 32, alphabet v ≠ 0x0D ∧ alphabet v ≠ 0x0A := by decide

theorem mem_encode {d : List UInt8} {c : UInt8} (h : c ∈ encode d) : ∃ v < 32, c = alphabet v := by
  induction d using encode.induct with
  | case1 b0 b1 b2 b3 b4 rest ih =>
    rw [encode, List.mem_append] at h
    rcases h with h | h
    · obtain ⟨v, hv, rfl⟩ := List.mem_map.1 h
      exact ⟨v, groupValues_lt _ v (List.mem_of_mem_take hv), rfl⟩
    · exact ih h
  | case2 bs hbs =>
    rw [encode.eq_2 bs hbs] at h
    obtain ⟨v, hv, rfl⟩ := List.mem_map.1 h
    exact ⟨v, groupValues_lt _ v (List.mem_of_mem_take hv), rfl⟩

/-- Decoding the encoding of any byte string gives it back. -/
theorem decode_encode (d : List UInt8) : decode (encode d) = some d := by
  rw [decode, stripNewlines, List.filter_eq_self.2, decodeQuanta_encode]
  intro c hc
  obtain ⟨v, hv, rfl⟩ := mem_encode hc
  have := alphabet_not_newline v hv
  simp [this.1, this.2]

/-! ## Case -/

/-- `c` is the character `e` in upper or lower case. -/
def CaseOf (c e : UInt8) : Prop := c = e ∨ (0x41 ≤ e ∧ e ≤ 0x5A ∧ c = e + 0x20)

instance : DecidableRel CaseOf := fun c e => inferInstanceAs (Decidable (c = e ∨ _))

theorem upperAscii_caseOf_alphabet : ∀ v < 32, upperAscii (alphabet v) = alphabet v ∧
    alphabet v < 0x80 ∧ (0x41 ≤ alphabet v ∧ alphabet v ≤ 0x5A →
      upperAscii (alphabet v + 0x20) = alphabet v ∧ alphabet v + 0x20 < 0x80) := by
  decide

theorem upperAscii_of_caseOf {c : UInt8} {v : Nat} (hv : v < 32) (h : CaseOf c (alphabet v)) :
    upperAscii c = alphabet v ∧ c < 0x80 := by
  have := upperAscii_caseOf_alphabet v hv
  rcases h with rfl | ⟨h1, h2, rfl⟩
  · exact ⟨this.1, this.2.1⟩
  · exact this.2.2 ⟨h1, h2⟩

/-- On ASCII input `toUpper` is `upperAscii` on every byte. -/
theorem toUpper_eq_map {cs : List UInt8} (h : ∀ c ∈ cs, c < 0x80) : toUpper cs = cs.map upperAscii := by
  induction cs using toUpper.induct with
  | case1 => rfl
  | case2 c => rfl
  | case3 c d rest hc ih =>
    have := h c (List.mem_cons_self _ _); rw [hc.1] at this; exact absurd this (by decide)
  | case4 c d rest hc hc' ih =>
    have := h c (List.mem_cons_self _ _); rw [hc'.1] at this; exact absurd this (by decide)
  | case5 c d rest hc hc' ih =>
    rw [toUpper, if_neg hc, if_neg hc', ih fun x hx => h x (List.mem_cons_of_mem _ hx)]
    rfl

theorem map_upperAscii_of_caseOf {cs es : List UInt8} (h : List.Forall₂ CaseOf cs es)
    (hes : ∀ e ∈ es, ∃ v < 32, e = alphabet v) : cs.map upperAscii = es ∧ ∀ c ∈ cs, c < 0x80 := by
  induction h with
  | nil => simp
  | cons hce _ ih =>
    obtain ⟨v, hv, rfl⟩ := hes _ (List.mem_cons_self _ _)
    obtain ⟨h1, h2⟩ := upperAscii_of_caseOf hv hce
    obtain ⟨ih1, ih2⟩ := ih fun e he => hes e (List.mem_cons_of_mem _ he)
    exact ⟨by simp [h1, ih1], by simpa [h2] using ih2⟩

/-- Upper-casing any choice of case for the letters of an encoding gives the encoding back. -/
theorem toUpper_of_caseOf {cs d : List UInt8} (h : List.Forall₂ CaseOf cs (encode d)) :
    toUpper cs = encode d := by
  obtain ⟨h1, h2⟩ := map_upperAscii_of_caseOf h fun e he => mem_encode he
  rw [toUpper_eq_map h2, h1]

/-- The decoding `responseFor` does, upper-casing first, reads back the bytes of any choice of
case for the letters of their encoding. -/
theorem decode_toUpper_of_caseOf {cs d : List UInt8} (h : List.Forall₂ CaseOf cs (encode d)) :
    decode (toUpper cs) = some d := by
  rw [toUpper_of_caseOf h, decode_encode]

/-- `aA`, the encoding `AA` of a zero byte with its first letter in lower case. -/
theorem decode_toUpper_mixed_case :
    List.Forall₂ CaseOf [0x61, 0x41] (encode [0]) ∧ decode (toUpper [0x61, 0x41]) = some [0] :=
  ⟨by decide, decode_toUpper_of_caseOf (by decide)⟩

end Dnstt.Base32
