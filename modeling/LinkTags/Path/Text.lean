import LinkTags.Path.Basic
import LinkTags.Text.Utf8

/-!
# Paths and text

Text names the path of its UTF-8 bytes. A path is text again only if its bytes
are UTF-8; to be shown it always is, with replacements if need be.
-/

namespace LinkTags.Path

/-- The path that a text spells. -/
def ofString (text : String) : Path :=
  ⟨text.toByteArray.data.toList⟩

/-- The text that a path spells, if its bytes are UTF-8. -/
def toString? (path : Path) : Option String :=
  String.fromUTF8? ⟨path.bytes.toArray⟩

/-- The text that stands for a path in messages and output. -/
def display (path : Path) : String :=
  path.toString?.getD (Utf8.decodeLossy path.bytes)

theorem toString?_ofString (text : String) : (ofString text).toString? = some text := by
  have h : (⟨text.toByteArray.data.toList.toArray⟩ : ByteArray) = text.toByteArray := by
    simp
  simp only [toString?, ofString, String.fromUTF8?, h, text.isValidUTF8, ↓reduceDIte]
  rfl

theorem ofString_of_toString? {path : Path} {text : String} (h : path.toString? = some text) :
    ofString text = path := by
  simp only [toString?, String.fromUTF8?] at h
  split at h
  · cases h
    rfl
  · contradiction

/-- Bytes that follow a text are text themselves if they make text with it. -/
theorem toString?_append_eq_none_iff (front : String) (back : List UInt8) :
    toString? ⟨(ofString front).bytes ++ back⟩ = none ↔ toString? ⟨back⟩ = none := by
  have hvalid (bytes : List UInt8) :
      toString? ⟨bytes⟩ = none ↔ ¬ByteArray.IsValidUTF8 ⟨bytes.toArray⟩ := by
    simp [toString?, String.fromUTF8?]
  have hstrip (chars : List Char) (bytes : ByteArray) :
      (chars.utf8Encode ++ bytes).IsValidUTF8 ↔ bytes.IsValidUTF8 := by
    induction chars with
    | nil => simp
    | cons c rest ih =>
        rw [List.utf8Encode_cons, ByteArray.append_assoc,
          ByteArray.isValidUTF8_utf8Encode_singleton_append_iff]
        exact ih
  have hfront : (⟨((ofString front).bytes ++ back).toArray⟩ : ByteArray) =
      front.toList.utf8Encode ++ ⟨back.toArray⟩ := by
    rw [String.utf8Encode_toList]
    apply ByteArray.ext
    simp [ofString]
  rw [hvalid, hvalid, hfront, hstrip]

/-- Two texts that spell the same path are the same text. -/
theorem ofString_inj {a b : String} (h : ofString a = ofString b) : a = b := by
  have := congrArg toString? h
  simpa [toString?_ofString] using this

end LinkTags.Path
