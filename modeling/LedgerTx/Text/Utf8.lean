import LedgerTx.Bytes

/-!
# UTF-8 text

The bytes of a text and the text of well-formed bytes.  Reading accepts
exactly what writing produces.
-/

namespace LedgerTx.Utf8

def encode (text : String) : Bytes :=
  text.toByteArray.data.toList

def decode? (bytes : Bytes) : Option String :=
  String.fromUTF8? ⟨bytes.toArray⟩

def size (text : String) : Nat :=
  text.utf8ByteSize

theorem length_encode (text : String) : (encode text).length = size text := by
  simp only [encode, size, Array.length_toList]
  rfl

theorem size_ofList_cons (c : Char) (rest : List Char) :
    size (String.ofList (c :: rest)) = c.utf8Size + size (String.ofList rest) := by
  have hcons : String.ofList (c :: rest) = String.singleton c ++ String.ofList rest := by
    rw [String.singleton_eq_ofList, ← String.ofList_append, List.singleton_append]
  rw [size, hcons, String.utf8ByteSize_append, String.utf8ByteSize_singleton, size]

/-- Characters of one byte each are as many as the bytes of their text. -/
theorem size_ofList_of_narrow {chars : List Char} (h : ∀ c ∈ chars, c.utf8Size = 1) :
    size (String.ofList chars) = chars.length := by
  induction chars with
  | nil => rfl
  | cons c rest ih =>
      rw [size_ofList_cons, h c List.mem_cons_self,
        ih fun later hlater => h later (List.mem_cons_of_mem c hlater), List.length_cons,
        Nat.add_comm]

theorem decode?_encode (text : String) : decode? (encode text) = some text := by
  have h : (⟨(encode text).toArray⟩ : ByteArray) = text.toByteArray := by
    simp [encode]
  unfold decode? String.fromUTF8?
  rw [h]
  rw [dif_pos text.isValidUTF8]
  rfl

theorem encode_of_decode? {bytes : Bytes} {text : String} (h : decode? bytes = some text) :
    encode text = bytes := by
  unfold decode? String.fromUTF8? at h
  split at h
  · cases h
    rfl
  · cases h

end LedgerTx.Utf8
