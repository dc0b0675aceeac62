/-!
# UTF-8

Text as bytes. `decode?` accepts exactly what `encode` writes; `decodeLossy` reads any bytes,
with one replacement character for each longest piece that no valid text can continue.
-/

namespace Keyring.Text.Utf8

/-- The bytes of a text. -/
def encode (s : List Char) : List UInt8 := s.flatMap String.utf8EncodeChar

/-- The text of valid bytes. -/
def decode? (b : List UInt8) : Option (List Char) :=
  (String.fromUTF8? b.toByteArray).map String.toList

/-- The bytes of a string. -/
def ofString (s : String) : List UInt8 := encode s.toList

/-- The string of valid bytes. -/
def toString? (b : List UInt8) : Option String := (decode? b).map String.ofList

private theorem toByteArray_inj {a b : List UInt8} (h : a.toByteArray = b.toByteArray) : a = b := by
  have := congrArg (fun x => x.data.toList) h
  simpa [List.data_toByteArray] using this

/-- Reading accepts exactly what writing produces. -/
theorem decode?_eq_some_iff {b : List UInt8} {s : List Char} :
    decode? b = some s ↔ b = encode s := by
  unfold decode? String.fromUTF8?
  constructor
  · intro h
    split at h
    · rename_i hv
      simp only [Option.map_some, Option.some.injEq] at h
      have hs : (String.ofList s).toByteArray = b.toByteArray := by
        rw [← h, String.ofList_toList]
        rfl
      rw [String.toByteArray_ofList] at hs
      exact (toByteArray_inj hs).symm
    · simp at h
  · intro h
    have hv : b.toByteArray.IsValidUTF8 := .intro s (by rw [h]; rfl)
    rw [dif_pos hv]
    simp only [Option.map_some, Option.some.injEq]
    have : String.fromUTF8 b.toByteArray hv = String.ofList s := by
      apply String.toByteArray_inj.1
      rw [String.toByteArray_ofList]
      show b.toByteArray = _
      rw [h]; rfl
    rw [this, String.toList_ofList]

@[simp] theorem decode?_encode (s : List Char) : decode? (encode s) = some s :=
  decode?_eq_some_iff.2 rfl

@[simp] theorem encode_append (s t : List Char) : encode (s ++ t) = encode s ++ encode t :=
  List.flatMap_append

@[simp] theorem toString?_ofString (s : String) : toString? (ofString s) = some s := by
  simp [toString?, ofString]

/-- The character written in place of bytes that are no text. -/
def replacement : Char := '\ufffd'

/-- Whether a byte continues a character. -/
def isContinuation (b : UInt8) : Bool := 0x80 ≤ b && b ≤ 0xbf

/-- The second bytes that may follow a first byte of a character of three bytes. -/
def isSecondOfThree (a b : UInt8) : Bool :=
  if a == 0xe0 then 0xa0 ≤ b && b ≤ 0xbf
  else if a == 0xed then 0x80 ≤ b && b ≤ 0x9f
  else isContinuation b

/-- The second bytes that may follow a first byte of a character of four bytes. -/
def isSecondOfFour (a b : UInt8) : Bool :=
  if a == 0xf0 then 0x90 ≤ b && b ≤ 0xbf
  else if a == 0xf4 then 0x80 ≤ b && b ≤ 0x8f
  else isContinuation b

/-- The six payload bits of a continuation byte. -/
def payload (b : UInt8) : Nat := b.toNat % 64

/-- Read any bytes as text. Bytes that start no character, and characters that break off, become
one replacement character each. -/
def decodeLossy : List UInt8 → List Char
  | [] => []
  | a :: rest =>
    if a < 0x80 then Char.ofNat a.toNat :: decodeLossy rest
    else if 0xc2 ≤ a && a ≤ 0xdf then
      match rest with
      | b :: rest =>
        if isContinuation b then
          Char.ofNat (a.toNat % 32 * 64 + payload b) :: decodeLossy rest
        else replacement :: decodeLossy (b :: rest)
      | [] => [replacement]
    else if 0xe0 ≤ a && a ≤ 0xef then
      match rest with
      | b :: rest =>
        if isSecondOfThree a b then
          match rest with
          | c :: rest =>
            if isContinuation c then
              Char.ofNat ((a.toNat % 16 * 64 + payload b) * 64 + payload c) :: decodeLossy rest
            else replacement :: decodeLossy (c :: rest)
          | [] => [replacement]
        else replacement :: decodeLossy (b :: rest)
      | [] => [replacement]
    else if 0xf0 ≤ a && a ≤ 0xf4 then
      match rest with
      | b :: rest =>
        if isSecondOfFour a b then
          match rest with
          | c :: rest =>
            if isContinuation c then
              match rest with
              | d :: rest =>
                if isContinuation d then
                  Char.ofNat (((a.toNat % 8 * 64 + payload b) * 64 + payload c) * 64 + payload d) ::
                    decodeLossy rest
                else replacement :: decodeLossy (d :: rest)
              | [] => [replacement]
            else replacement :: decodeLossy (c :: rest)
          | [] => [replacement]
        else replacement :: decodeLossy (b :: rest)
      | [] => [replacement]
    else replacement :: decodeLossy rest

end Keyring.Text.Utf8
