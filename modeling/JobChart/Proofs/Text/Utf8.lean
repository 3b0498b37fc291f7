import JobChart.Text.Utf8

/-!
# Every text is read back from its UTF-8

Decoding is strict, so that it accepts every text has to be shown for each
length of a character: its first byte is one that starts a character, the
others go it on, and the second one is neither of a longer form than needed
nor of a surrogate. The bits then come to the character again
(`decodeFrom_char`), and decoding goes on behind it.
-/

namespace JobChart.Text

/-! ## Bytes -/

theorem toNat_byte {n : Nat} (h : n < 256) : (UInt8.ofNat n).toNat = n :=
  UInt8.toNat_ofNat_of_lt h

theorem isContinuation_byte {n : Nat} (h : n < 64) : isContinuation (UInt8.ofNat (n + 128)) := by
  simp only [isContinuation, Bool.and_eq_true, decide_eq_true_eq, UInt8.le_iff_toNat_le,
    UInt8.lt_iff_toNat_lt, toNat_byte (show n + 128 < 256 by omega)]
  simp
  omega

theorem fitsSecond_byte {lead n : Nat} (hlead : lead < 256) (h : n < 64)
    (hE0 : lead = 0xE0 → 32 ≤ n) (hED : lead = 0xED → n < 32)
    (hF0 : lead = 0xF0 → 16 ≤ n) (hF4 : lead = 0xF4 → n < 16) :
    fitsSecond (UInt8.ofNat lead) (UInt8.ofNat (n + 128)) := by
  simp only [fitsSecond, isContinuation_byte h, Bool.and_eq_true, Bool.or_eq_true,
    decide_eq_true_eq, bne_iff_ne, UInt8.le_iff_toNat_le, UInt8.lt_iff_toNat_lt,
    toNat_byte (show n + 128 < 256 by omega), ne_eq, ← UInt8.toNat_inj, toNat_byte hlead]
  simp
  omega

/-! ## One character -/

section

variable {bs : List UInt8} {count bits n pos : Nat}

/-- One byte that goes on a character gives its six bits. -/
theorem continueChar_byte {lead : UInt8} {seen : Nat} (h : n < 64)
    (hfits : seen = 1 → fitsSecond lead (UInt8.ofNat (n + 128))) :
    continueChar lead (count + 1) seen bits (UInt8.ofNat (n + 128) :: bs)
      = continueChar lead count (seen + 1) (bits * 64 + n) bs := by
  have hgoes : (if seen = 1 then fitsSecond lead (UInt8.ofNat (n + 128))
      else isContinuation (UInt8.ofNat (n + 128))) = true := by
    split
    · next hseen => exact hfits hseen
    · exact isContinuation_byte h
  rw [continueChar, if_pos hgoes, toNat_byte (by omega), Nat.add_sub_cancel]

/-- The bytes of a character already read are passed over. -/
theorem decodeFrom_skip (done : List UInt8) (pos : Nat) (bs : List UInt8) :
    decodeFrom pos done.length (done ++ bs) = decodeFrom (pos + done.length) 0 bs := by
  induction done generalizing pos with
  | nil => rfl
  | cons b done ih =>
      rw [List.length_cons, List.cons_append, decodeFrom, ih]
      congr 1
      omega

/-- A first byte with the bytes that go it on. -/
theorem decodeFrom_lead {lead : UInt8} {more : List UInt8} {code : Nat} (pos : Nat)
    (hlead : leadByte? lead = some (more.length, bits))
    (hmore : continueChar lead more.length 1 bits (more ++ bs) = .ok code) :
    decodeFrom pos 0 (lead :: more ++ bs)
      = (decodeFrom (pos + (more.length + 1)) 0 bs).map (Char.ofNat code :: ·) := by
  rw [List.cons_append, decodeFrom, hlead]
  simp only [hmore]
  rw [decodeFrom_skip]
  congr 2
  omega

theorem leadByte?_byte (h : n < 256) :
    leadByte? (UInt8.ofNat n) =
      if n < 0x80 then some (0, n)
      else if n < 0xC2 then none
      else if n < 0xE0 then some (1, n - 0xC0)
      else if n < 0xF0 then some (2, n - 0xE0)
      else if n < 0xF5 then some (3, n - 0xF0)
      else none := by
  simp only [leadByte?, toNat_byte h]

/-! The four lengths. The lead byte leaves the upper bits, and the bytes behind
it put the others to them, six at a time. -/

theorem decodeFrom_one (h : n < 0x80) (pos : Nat) (bs : List UInt8) :
    decodeFrom pos 0 ([UInt8.ofNat n] ++ bs)
      = (decodeFrom (pos + 1) 0 bs).map (Char.ofNat n :: ·) := by
  have hlead : leadByte? (UInt8.ofNat n) = some (0, n) := by
    rw [leadByte?_byte (by omega), if_pos h]
  exact decodeFrom_lead pos hlead rfl

theorem decodeFrom_two (h : 0x80 ≤ n) (hle : n < 0x800) (pos : Nat) (bs : List UInt8) :
    decodeFrom pos 0 ([UInt8.ofNat (n / 64 % 32 + 192), UInt8.ofNat (n % 64 + 128)] ++ bs)
      = (decodeFrom (pos + 2) 0 bs).map (Char.ofNat n :: ·) := by
  have hbits : n / 64 % 32 + 192 - 0xC0 = n / 64 := by omega
  have hlead : leadByte? (UInt8.ofNat (n / 64 % 32 + 192)) = some (1, n / 64) := by
    rw [leadByte?_byte (by omega), if_neg (by omega), if_neg (by omega), if_pos (by omega), hbits]
  have hsecond : fitsSecond (UInt8.ofNat (n / 64 % 32 + 192)) (UInt8.ofNat (n % 64 + 128)) :=
    fitsSecond_byte (by omega) (by omega) (by omega) (by omega) (by omega) (by omega)
  have hmore : continueChar (UInt8.ofNat (n / 64 % 32 + 192)) 1 1 (n / 64)
      (UInt8.ofNat (n % 64 + 128) :: bs) = .ok n := by
    rw [continueChar_byte (by omega) fun _ => hsecond, continueChar]
    exact congrArg Except.ok (by omega)
  exact decodeFrom_lead pos hlead hmore

theorem decodeFrom_three (h : 0x800 ≤ n) (hle : n < 0x10000) (hvalid : n < 0xD800 ∨ 0xDFFF < n)
    (pos : Nat) (bs : List UInt8) :
    decodeFrom pos 0 ([UInt8.ofNat (n / 4096 % 16 + 224), UInt8.ofNat (n / 64 % 64 + 128),
        UInt8.ofNat (n % 64 + 128)] ++ bs)
      = (decodeFrom (pos + 3) 0 bs).map (Char.ofNat n :: ·) := by
  have hbits : n / 4096 % 16 + 224 - 0xE0 = n / 4096 := by omega
  have hlead : leadByte? (UInt8.ofNat (n / 4096 % 16 + 224)) = some (2, n / 4096) := by
    rw [leadByte?_byte (by omega), if_neg (by omega), if_neg (by omega), if_neg (by omega),
      if_pos (by omega), hbits]
  -- behind E0 the lower bound counts, behind ED that there are no surrogates
  have hsecond : fitsSecond (UInt8.ofNat (n / 4096 % 16 + 224)) (UInt8.ofNat (n / 64 % 64 + 128)) :=
    fitsSecond_byte (by omega) (by omega) (by omega) (by omega) (by omega) (by omega)
  have hmore : continueChar (UInt8.ofNat (n / 4096 % 16 + 224)) 2 1 (n / 4096)
      (UInt8.ofNat (n / 64 % 64 + 128) :: UInt8.ofNat (n % 64 + 128) :: bs) = .ok n := by
    rw [continueChar_byte (by omega) fun _ => hsecond, continueChar_byte (by omega) (by omega),
      continueChar]
    exact congrArg Except.ok (by omega)
  exact decodeFrom_lead pos hlead hmore

theorem decodeFrom_four (h : 0x10000 ≤ n) (hle : n < 0x110000) (pos : Nat) (bs : List UInt8) :
    decodeFrom pos 0 ([UInt8.ofNat (n / 262144 % 8 + 240), UInt8.ofNat (n / 4096 % 64 + 128),
        UInt8.ofNat (n / 64 % 64 + 128), UInt8.ofNat (n % 64 + 128)] ++ bs)
      = (decodeFrom (pos + 4) 0 bs).map (Char.ofNat n :: ·) := by
  have hbits : n / 262144 % 8 + 240 - 0xF0 = n / 262144 := by omega
  have hlead : leadByte? (UInt8.ofNat (n / 262144 % 8 + 240)) = some (3, n / 262144) := by
    rw [leadByte?_byte (by omega), if_neg (by omega), if_neg (by omega), if_neg (by omega),
      if_neg (by omega), if_pos (by omega), hbits]
  -- behind F0 the lower bound counts, behind F4 the upper one
  have hsecond :
      fitsSecond (UInt8.ofNat (n / 262144 % 8 + 240)) (UInt8.ofNat (n / 4096 % 64 + 128)) :=
    fitsSecond_byte (by omega) (by omega) (by omega) (by omega) (by omega) (by omega)
  have hmore : continueChar (UInt8.ofNat (n / 262144 % 8 + 240)) 3 1 (n / 262144)
      (UInt8.ofNat (n / 4096 % 64 + 128) :: UInt8.ofNat (n / 64 % 64 + 128)
        :: UInt8.ofNat (n % 64 + 128) :: bs) = .ok n := by
    rw [continueChar_byte (by omega) fun _ => hsecond, continueChar_byte (by omega) (by omega),
      continueChar_byte (by omega) (by omega), continueChar]
    exact congrArg Except.ok (by omega)
  exact decodeFrom_lead pos hlead hmore

/-- A character is read from its bytes. -/
theorem decodeFrom_char (c : Char) (pos : Nat) (bs : List UInt8) :
    ∃ after, decodeFrom pos 0 (String.utf8EncodeChar c ++ bs)
      = (decodeFrom after 0 bs).map (c :: ·) := by
  have hvalid : c.val.toNat < 0xD800 ∨ 0xDFFF < c.val.toNat ∧ c.val.toNat < 0x110000 := c.valid
  have hcode : Char.ofNat c.val.toNat = c := Char.ofNat_toNat c
  rw [String.utf8EncodeChar]
  generalize c.val.toNat = v at hvalid hcode ⊢
  subst hcode
  by_cases h1 : v ≤ 0x7F
  · exact ⟨_, by rw [if_pos h1]; exact decodeFrom_one (by omega) pos bs⟩
  by_cases h2 : v ≤ 0x7FF
  · exact ⟨_, by rw [if_neg h1, if_pos h2]; exact decodeFrom_two (by omega) (by omega) pos bs⟩
  by_cases h3 : v ≤ 0xFFFF
  · exact ⟨_, by
      rw [if_neg h1, if_neg h2, if_pos h3]
      exact decodeFrom_three (by omega) (by omega) (by omega) pos bs⟩
  · exact ⟨_, by
      rw [if_neg h1, if_neg h2, if_neg h3]
      exact decodeFrom_four (by omega) (by omega) pos bs⟩

end

/-! ## Texts -/

theorem decodeFrom_chars (cs : List Char) (pos : Nat) :
    decodeFrom pos 0 (cs.flatMap String.utf8EncodeChar) = .ok cs := by
  induction cs generalizing pos with
  | nil => rfl
  | cons c cs ih =>
      obtain ⟨after, hafter⟩ := decodeFrom_char c pos (cs.flatMap String.utf8EncodeChar)
      rw [List.flatMap_cons, hafter, ih]
      rfl

theorem toList_loop (bytes : ByteArray) (i : Nat) (read : List UInt8) :
    ByteArray.toList.loop bytes i read = read.reverse ++ bytes.data.toList.drop i := by
  fun_induction ByteArray.toList.loop bytes i read with
  | case1 i read h ih =>
      have hi : i < bytes.data.toList.length := by simpa using h
      have hbyte : bytes.get! i = bytes.data.toList[i] := by
        rw [Array.getElem_toList]
        exact getElem!_pos bytes.data i hi
      rw [ih, hbyte, List.reverse_cons, List.append_assoc, List.drop_eq_getElem_cons hi]
      rfl
  | case2 i read h =>
      rw [List.drop_eq_nil_of_le (by simpa using Nat.le_of_not_lt h), List.append_nil]

/-- The bytes of a text are those of its characters. -/
theorem toList_toUTF8 (s : String) :
    s.toUTF8.toList = s.toList.flatMap String.utf8EncodeChar := by
  have hbytes : s.toUTF8 = (s.toList.flatMap String.utf8EncodeChar).toByteArray :=
    s.utf8Encode_toList.symm
  rw [hbytes, ByteArray.toList, toList_loop, List.toList_data_toByteArray]
  rfl

/-- **Every text is read back from its UTF-8.** -/
theorem decodeUtf8_toUTF8 (s : String) : decodeUtf8 s.toUTF8.toList = .ok s := by
  rw [decodeUtf8, toList_toUTF8, decodeFrom_chars]
  exact congrArg Except.ok String.ofList_toList

end JobChart.Text
