import WitnessReplication.Text.Utf8

/-!
# Reading back text

Well-formed octets are read as what they were written from: the lenient reading of a written text is
that text (`Utf8.decode_encode`).
-/

namespace WitnessReplication.Text.Utf8

variable {n code : Nat} {low high octet : UInt8} {octets : List UInt8}

/-! ### Octets -/

/-- An octet that continues a character carries six bits. -/
def continuing (n : Nat) : UInt8 := UInt8.ofNat (n % 64 + 128)

theorem toNat_continuing (n : Nat) : (continuing n).toNat = n % 64 + 128 := by
  rw [continuing, UInt8.toNat_ofNat']
  omega

/-- An octet that continues a character is in a range that its bits are in. -/
theorem continuing_mem (hlow : low.toNat ≤ n % 64 + 128) (hhigh : n % 64 + 128 ≤ high.toNat) :
    low ≤ continuing n ∧ continuing n ≤ high := by
  rw [UInt8.le_iff_toNat_le, UInt8.le_iff_toNat_le, toNat_continuing]
  exact ⟨hlow, hhigh⟩

/-- The last octet of a character under way finishes it. -/
theorem decodeFrom_last (hlow : low.toNat ≤ n % 64 + 128) (hhigh : n % 64 + 128 ≤ high.toNat) :
    decodeFrom (some ⟨code, 1, low, high⟩) (continuing n :: octets) =
      Char.ofNat (code * 64 + n % 64) :: decodeFrom none octets := by
  have hbits : (n % 64 + 128) % 64 = n % 64 := by omega
  simp [decodeFrom, step, continuing_mem hlow hhigh, toNat_continuing, hbits]

/-- An octet before the last one adds its bits to the character under way. -/
theorem decodeFrom_more {owed : Nat} (hlow : low.toNat ≤ n % 64 + 128)
    (hhigh : n % 64 + 128 ≤ high.toNat) :
    decodeFrom (some ⟨code, owed + 2, low, high⟩) (continuing n :: octets) =
      decodeFrom (some ⟨code * 64 + n % 64, owed + 1, 0x80, 0xBF⟩) octets := by
  have hbits : (n % 64 + 128) % 64 = n % 64 := by omega
  simp [decodeFrom, step, continuing_mem hlow hhigh, toNat_continuing, hbits]

/-- A first octet that finishes no character begins one. -/
theorem decodeFrom_start {pending : Pending} (h : start octet = ([], some pending)) :
    decodeFrom none (octet :: octets) = decodeFrom (some pending) octets := by
  simp [decodeFrom, step, h]

/-! ### Characters -/

/-- An octet from which a character begins, with the range of the next octet. -/
def Begins (octet : UInt8) (code owed next : Nat) : Prop :=
  ∃ low high : UInt8, start octet = ([], some ⟨code, owed, low, high⟩) ∧
    low.toNat ≤ next ∧ next ≤ high.toNat

theorem begins_two (hlow : 0x80 ≤ n) (hhigh : n ≤ 0x7FF) :
    Begins (UInt8.ofNat (n / 64 % 32 + 192)) (n / 64) 1 (n % 64 + 128) := by
  have hlead : (UInt8.ofNat (n / 64 % 32 + 192)).toNat = n / 64 + 192 := by
    rw [UInt8.toNat_ofNat']
    omega
  generalize UInt8.ofNat (n / 64 % 32 + 192) = lead at hlead
  have hcode : lead.toNat % 32 = n / 64 := by omega
  refine ⟨0x80, 0xBF, ?_, by simp, by simp; omega⟩
  unfold start
  simp only [UInt8.lt_iff_toNat_lt, UInt8.reduceToNat, hcode]
  rw [if_neg (by omega), if_neg (by omega), if_pos (by omega)]

/-- The octets that follow differ after the first octets `E0` and `ED`: overlong forms and
surrogates are left out. -/
theorem begins_three (hlow : 0x800 ≤ n) (hhigh : n ≤ 0xFFFF) (hvalid : n < 0xD800 ∨ 0xDFFF < n) :
    Begins (UInt8.ofNat (n / 4096 % 16 + 224)) (n / 4096) 2 (n / 64 % 64 + 128) := by
  have hlead : (UInt8.ofNat (n / 4096 % 16 + 224)).toNat = n / 4096 + 224 := by
    rw [UInt8.toNat_ofNat']
    omega
  generalize UInt8.ofNat (n / 4096 % 16 + 224) = lead at hlead
  have hcode : lead.toNat % 16 = n / 4096 := by omega
  unfold Begins start
  simp only [UInt8.lt_iff_toNat_lt, ← UInt8.toNat_inj, UInt8.reduceToNat, hcode]
  rw [if_neg (by omega), if_neg (by omega), if_neg (by omega)]
  by_cases hfirst : n / 4096 = 0
  · rw [if_pos (by omega), hfirst]
    exact ⟨0xA0, 0xBF, rfl, by simp; omega, by simp; omega⟩
  · rw [if_neg (by omega)]
    by_cases hsurrogate : n / 4096 = 13
    · rw [if_pos (by omega), hsurrogate]
      exact ⟨0x80, 0x9F, rfl, by simp, by simp; omega⟩
    · rw [if_neg (by omega), if_pos (by omega)]
      exact ⟨0x80, 0xBF, rfl, by simp, by simp; omega⟩

/-- The octets that follow differ after the first octets `F0` and `F4`: overlong forms and what is
no code point are left out. -/
theorem begins_four (hlow : 0x10000 ≤ n) (hhigh : n ≤ 0x10FFFF) :
    Begins (UInt8.ofNat (n / 262144 % 8 + 240)) (n / 262144) 3 (n / 4096 % 64 + 128) := by
  have hlead : (UInt8.ofNat (n / 262144 % 8 + 240)).toNat = n / 262144 + 240 := by
    rw [UInt8.toNat_ofNat']
    omega
  generalize UInt8.ofNat (n / 262144 % 8 + 240) = lead at hlead
  have hcode : lead.toNat % 8 = n / 262144 := by omega
  unfold Begins start
  simp only [UInt8.lt_iff_toNat_lt, ← UInt8.toNat_inj, UInt8.reduceToNat, hcode]
  rw [if_neg (by omega), if_neg (by omega), if_neg (by omega), if_neg (by omega),
    if_neg (by omega), if_neg (by omega)]
  by_cases hfirst : n / 262144 = 0
  · rw [if_pos (by omega), hfirst]
    exact ⟨0x90, 0xBF, rfl, by simp; omega, by simp; omega⟩
  · rw [if_neg (by omega)]
    by_cases hlast : n / 262144 = 4
    · rw [if_neg (by omega), if_pos (by omega), hlast]
      exact ⟨0x80, 0x8F, rfl, by simp, by simp; omega⟩
    · rw [if_pos (by omega)]
      exact ⟨0x80, 0xBF, rfl, by simp, by simp; omega⟩

/-- A written character is read as that character. -/
theorem decodeFrom_utf8EncodeChar (c : Char) (octets : List UInt8) :
    decodeFrom none (String.utf8EncodeChar c ++ octets) = c :: decodeFrom none octets := by
  have hchar : Char.ofNat c.val.toNat = c := Char.ofNat_toNat c
  have hvalid : c.val.toNat < 0xD800 ∨ 0xDFFF < c.val.toNat ∧ c.val.toNat < 0x110000 := c.valid
  unfold String.utf8EncodeChar
  generalize c.val.toNat = n at hchar hvalid
  dsimp only
  split
  · rename_i hone
    have hlead : (UInt8.ofNat n).toNat = n := by
      rw [UInt8.toNat_ofNat']
      omega
    have hascii : UInt8.ofNat n < 0x80 := by
      rw [UInt8.lt_iff_toNat_lt, hlead]
      exact Nat.lt_succ_of_le hone
    have hstart : start (UInt8.ofNat n) = ([c], none) := by
      rw [start, if_pos hascii, hlead, hchar]
    simp [decodeFrom, step, hstart]
  · split
    · rename_i hone htwo
      obtain ⟨low, high, hstart, hlow, hhigh⟩ := begins_two (by omega) htwo
      change decodeFrom none (_ :: continuing n :: octets) = _
      rw [decodeFrom_start hstart, decodeFrom_last hlow hhigh, Nat.div_add_mod', hchar]
    · split
      · rename_i hone htwo hthree
        obtain ⟨low, high, hstart, hlow, hhigh⟩ :=
          begins_three (by omega) hthree (hvalid.imp_right And.left)
        change decodeFrom none (_ :: continuing (n / 64) :: continuing n :: octets) = _
        rw [decodeFrom_start hstart, decodeFrom_more hlow hhigh,
          decodeFrom_last (by simp) (by simp; omega)]
        have hcode : (n / 4096 * 64 + n / 64 % 64) * 64 + n % 64 = n := by omega
        rw [hcode, hchar]
      · rename_i hone htwo hthree
        obtain ⟨low, high, hstart, hlow, hhigh⟩ := begins_four (n := n) (by omega) (by omega)
        change decodeFrom none
          (_ :: continuing (n / 4096) :: continuing (n / 64) :: continuing n :: octets) = _
        rw [decodeFrom_start hstart, decodeFrom_more hlow hhigh,
          decodeFrom_more (by simp) (by simp; omega), decodeFrom_last (by simp) (by simp; omega)]
        have hcode : ((n / 262144 * 64 + n / 4096 % 64) * 64 + n / 64 % 64) * 64 + n % 64 = n := by
          omega
        rw [hcode, hchar]

/-- A written text is read as that text. -/
theorem decode_encode (text : String) : decode (encode text) = text := by
  have hchars : ∀ cs : List Char,
      decodeFrom none (cs.flatMap String.utf8EncodeChar) = cs := by
    intro cs
    induction cs with
    | nil => rfl
    | cons c cs ih => rw [List.flatMap_cons, decodeFrom_utf8EncodeChar, ih]
  rw [decode, encode, hchars, String.ofList_toList]

end WitnessReplication.Text.Utf8
