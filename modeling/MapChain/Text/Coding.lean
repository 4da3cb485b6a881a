/-!
Texts as UTF-8 bytes, and percent coding of bytes. A mark that two hexadecimal digits do not follow
stands for itself. Main statements: the bytes of a text read back as that text, and a coded byte
reads back.
-/

set_option autoImplicit false

namespace MapChain.Utf8

def encode (text : List Char) : List UInt8 := text.flatMap String.utf8EncodeChar

/-- Refuses bytes that are the UTF-8 form of no text. -/
def decode (bytes : List UInt8) : Option (List Char) :=
  (String.fromUTF8? bytes.toByteArray).map String.toList

@[simp]
theorem encode_nil : encode [] = [] := rfl

@[simp]
theorem encode_cons (char : Char) (text : List Char) :
    encode (char :: text) = String.utf8EncodeChar char ++ encode text := rfl

theorem encode_append (left right : List Char) :
    encode (left ++ right) = encode left ++ encode right := by
  simp [encode]

theorem decode_encode (text : List Char) : decode (encode text) = some text := by
  have bytes : (encode text).toByteArray = (String.ofList text).toByteArray := rfl
  rw [decode, bytes, String.fromUTF8?, dif_pos (String.ofList text).isValidUTF8]
  exact congrArg some String.toList_ofList

def leadByte (char : Char) : UInt8 := (String.utf8EncodeChar char).headD 0

end MapChain.Utf8

namespace MapChain.Percent

def hexDigit (digit : Nat) : Char :=
  if digit < 10 then Char.ofNat (48 + digit) else Char.ofNat (55 + digit)

def hexValue? (byte : UInt8) : Option UInt8 :=
  if 48 ≤ byte ∧ byte ≤ 57 then some (byte - 48)
  else if 65 ≤ byte ∧ byte ≤ 70 then some (byte - 55)
  else if 97 ≤ byte ∧ byte ≤ 102 then some (byte - 87)
  else none

def encodeByte (byte : UInt8) : List Char :=
  ['%', hexDigit (byte.toNat / 16), hexDigit (byte.toNat % 16)]

def encodeChar (char : Char) : List Char := (String.utf8EncodeChar char).flatMap encodeByte

def decodeBytes : List UInt8 → List UInt8
  | [] => []
  | 37 :: high :: low :: rest =>
      match hexValue? high, hexValue? low with
      | some high, some low => (16 * high + low) :: decodeBytes rest
      | _, _ => 37 :: decodeBytes (high :: low :: rest)
  | byte :: rest => byte :: decodeBytes rest

theorem decode_bytes_encode_byte (byte : UInt8) (rest : List UInt8) :
    decodeBytes (Utf8.encode (encodeByte byte) ++ rest) = byte :: decodeBytes rest := by
  have read : ∀ number : Fin 256,
      Utf8.encode (encodeByte (UInt8.ofNat number)) =
          [37, (Utf8.encode [hexDigit (number / 16)]).headD 0,
            (Utf8.encode [hexDigit (number % 16)]).headD 0] ∧
        hexValue? ((Utf8.encode [hexDigit (number / 16)]).headD 0) =
          some (UInt8.ofNat (number / 16)) ∧
        hexValue? ((Utf8.encode [hexDigit (number % 16)]).headD 0) =
          some (UInt8.ofNat (number % 16)) ∧
        16 * UInt8.ofNat (number / 16) + UInt8.ofNat (number % 16) = UInt8.ofNat number := by
    decide +kernel
  obtain ⟨form, high, low, sum⟩ := read ⟨byte.toNat, byte.toNat_lt⟩
  simp only [UInt8.ofNat_toNat] at form high low sum
  rw [form]
  simp only [List.cons_append, List.nil_append, decodeBytes, high, low, sum]

end MapChain.Percent
