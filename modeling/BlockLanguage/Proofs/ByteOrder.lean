namespace BlockLanguage

/-!
# The order of bytes

Texts are in order character by character, compared by code point.  The bytes of their
UTF-8 encodings, compared one by one, are then in order too.

* `bytesOf` — the bytes of a text;
* `utf8EncodeChar_append_lt` — a smaller character has the smaller encoding, whatever stands
  behind the two;
* `bytesOf_lt` — a smaller text has the smaller bytes.
-/

/-- The bytes that encode a text. -/
def bytesOf (s : String) : List UInt8 := s.toUTF8.data.toList

/-- They encode its characters, one after the other. -/
theorem bytesOf_eq (s : String) : bytesOf s = s.toList.flatMap String.utf8EncodeChar := by
  have hchars : s.toByteArray = (s.toList.flatMap String.utf8EncodeChar).toByteArray := by
    conv => lhs; rw [← String.ofList_toList (s := s)]
    rfl
  rw [bytesOf, String.toUTF8_eq_toByteArray, hchars, List.toList_data_toByteArray]

/-! ### Bytes of one character -/

/-- A smaller byte decides. -/
theorem byte_cons_lt {a b : Nat} {as bs : List UInt8} (hlt : a < b) (hb : b < 256) :
    UInt8.ofNat a :: as < UInt8.ofNat b :: bs := by
  rw [List.cons_lt_cons_iff, UInt8.lt_iff_toNat_lt, UInt8.toNat_ofNat', UInt8.toNat_ofNat']
  omega

/-- Where the first bytes are the same, those behind them decide. -/
theorem byte_cons_lt_of_eq {a b : Nat} {as bs : List UInt8} (hle : a ≤ b) (hb : b < 256)
    (h : a = b → as < bs) : UInt8.ofNat a :: as < UInt8.ofNat b :: bs := by
  rcases Nat.lt_or_eq_of_le hle with hlt | heq
  · exact byte_cons_lt hlt hb
  · rw [heq, List.cons_lt_cons_iff]
    exact .inr ⟨rfl, h heq⟩

/-- A smaller character has the smaller encoding, whatever stands behind the two. -/
theorem utf8EncodeChar_append_lt {c d : Char} (h : c < d) (xs ys : List UInt8) :
    String.utf8EncodeChar c ++ xs < String.utf8EncodeChar d ++ ys := by
  have hlt : c.val.toNat < d.val.toNat := h
  have hmax : d.val.toNat < 0x110000 := by
    have hvalid := d.valid
    simp only [UInt32.isValidChar, Nat.isValidChar] at hvalid
    omega
  simp only [String.utf8EncodeChar]
  generalize c.val.toNat = m at *
  generalize d.val.toNat = n at *
  -- The cases are the lengths of the first encoding, and inside each those of the second one.
  -- A longer encoding begins with a greater byte; at one length the digits decide.
  split
  · split
    · exact byte_cons_lt (by omega) (by omega)
    · split
      · exact byte_cons_lt (by omega) (by omega)
      · split
        · exact byte_cons_lt (by omega) (by omega)
        · exact byte_cons_lt (by omega) (by omega)
  · split
    · split
      · omega
      · split
        · exact byte_cons_lt_of_eq (by omega) (by omega) fun h₁ =>
            byte_cons_lt (by omega) (by omega)
        · split
          · exact byte_cons_lt (by omega) (by omega)
          · exact byte_cons_lt (by omega) (by omega)
    · split
      · split
        · omega
        · split
          · omega
          · split
            · exact byte_cons_lt_of_eq (by omega) (by omega) fun h₁ =>
                byte_cons_lt_of_eq (by omega) (by omega) fun h₂ =>
                byte_cons_lt (by omega) (by omega)
            · exact byte_cons_lt (by omega) (by omega)
      · split
        · omega
        · split
          · omega
          · split
            · omega
            · exact byte_cons_lt_of_eq (by omega) (by omega) fun h₁ =>
                byte_cons_lt_of_eq (by omega) (by omega) fun h₂ =>
                byte_cons_lt_of_eq (by omega) (by omega) fun h₃ =>
                byte_cons_lt (by omega) (by omega)

/-! ### Bytes of a text -/

/-- A smaller list of characters has the smaller encodings. -/
theorem flatMap_utf8EncodeChar_lt {cs ds : List Char} (h : cs < ds) :
    cs.flatMap String.utf8EncodeChar < ds.flatMap String.utf8EncodeChar := by
  induction cs generalizing ds with
  | nil =>
    cases ds with
    | nil => exact absurd h (List.lt_irrefl [])
    | cons d ds =>
      obtain ⟨b, bs, hd⟩ := List.exists_cons_of_ne_nil (@String.utf8EncodeChar_ne_nil d)
      rw [List.flatMap_cons, hd]
      exact List.nil_lt_cons b _
  | cons c cs ih =>
    cases ds with
    | nil => exact absurd h (List.not_lt_nil _)
    | cons d ds =>
      rw [List.flatMap_cons, List.flatMap_cons]
      rcases List.cons_lt_cons_iff.1 h with hlt | ⟨rfl, hlt⟩
      · exact utf8EncodeChar_append_lt hlt _ _
      · exact List.append_left_lt (ih hlt)

/-- **The order of bytes.**  A smaller text has the smaller bytes. -/
theorem bytesOf_lt {s t : String} (h : s < t) : bytesOf s < bytesOf t := by
  rw [bytesOf_eq, bytesOf_eq]
  exact flatMap_utf8EncodeChar_lt h

end BlockLanguage
