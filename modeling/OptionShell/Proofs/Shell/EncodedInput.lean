import Mathlib.Data.List.TakeWhile
import OptionShell.Proofs.Options.ListingText
import OptionShell.Proofs.Shell.Sessions

/-!
# Lines of encoded text

A line feed is one byte of UTF-8, and that byte stands for nothing else. So cutting encoded text into lines and then
decoding them gives the lines of the text, and only the carriage returns at their ends can differ.
-/
namespace OptionShell

namespace Text

/-! ## Line feeds in UTF-8 -/

theorem utf8EncodeChar_lineFeed : String.utf8EncodeChar '\n' = [10] := rfl

theorem notMem_utf8EncodeChar {c : Char} (h : c ≠ '\n') : 10 ∉ String.utf8EncodeChar c := by
  have hCode : c.val.toNat ≠ 10 := fun hSame => h (Char.ext (UInt32.toNat_inj.mp hSame))
  have hByte : ∀ n, (10 : UInt8) = UInt8.ofNat n → n % 256 = 10 := fun n hn => by
    have hValue := congrArg UInt8.toNat hn
    rw [UInt8.toNat_ofNat'] at hValue
    exact hValue.symm
  rw [String.utf8EncodeChar]
  -- The bytes of longer encodings are at least 128, and the only byte of a shorter one is the code itself.
  intro hMem
  split_ifs at hMem <;> simp only [List.mem_cons, List.not_mem_nil, or_false] at hMem
  · have := hByte _ hMem
    omega
  · obtain hMem | hMem := hMem <;> have := hByte _ hMem <;> omega
  · obtain hMem | hMem | hMem := hMem <;> have := hByte _ hMem <;> omega
  · obtain hMem | hMem | hMem | hMem := hMem <;> have := hByte _ hMem <;> omega

/-- Elements that no cut follows go to the next piece. -/
theorem cutAfter_append {α : Type} {p : α → Bool} {front : List α} (hFront : ∀ c ∈ front, p c = false)
    (hNonempty : front ≠ []) (rest : List α) : cutAfter p (front ++ rest) =
      match cutAfter p rest with
      | [] => [front]
      | piece :: pieces => (front ++ piece) :: pieces := by
  induction front with
  | nil => exact absurd rfl hNonempty
  | cons c front ih =>
    obtain ⟨hc, hFront⟩ := List.forall_mem_cons.mp hFront
    rw [List.cons_append, cutAfter, if_neg (by rw [hc]; decide)]
    cases front with
    | nil => rfl
    | cons d front =>
      rw [ih hFront (List.cons_ne_nil d front)]
      cases cutAfter p rest <;> rfl

/-- Encoded text is cut where the text is. -/
theorem cutAfter_encoded (text : List Char) : cutAfter (· = 10) (text.flatMap String.utf8EncodeChar) =
    (cutAfter (· = '\n') text).map fun piece => piece.flatMap String.utf8EncodeChar := by
  induction text with
  | nil => rfl
  | cons c text ih =>
    rw [List.flatMap_cons, cutAfter]
    by_cases hFeed : c = '\n'
    · rw [hFeed, utf8EncodeChar_lineFeed, List.singleton_append, cutAfter, if_pos (by decide), if_pos (by decide), ih]
      rfl
    · have hBytes : ∀ byte ∈ String.utf8EncodeChar c, decide (byte = 10) = false := fun byte hByte =>
        decide_eq_false fun hSame => notMem_utf8EncodeChar hFeed (hSame ▸ hByte)
      rw [cutAfter_append hBytes String.utf8EncodeChar_ne_nil, ih, if_neg (by simpa using hFeed)]
      cases cutAfter (· = '\n') text with
      | nil => simp
      | cons piece pieces => simp

/-! ## Ends of lines -/

theorem dropLineEnd_append {line tail : List Char} (hTail : ∀ c ∈ tail, c = '\n' ∨ c = '\r') :
    dropLineEnd (line ++ tail) = dropLineEnd line := by
  rw [dropLineEnd, dropLineEnd, List.reverse_append, List.dropWhile_append_of_pos]
  intro c hc
  simpa using hTail c (List.mem_reverse.mp hc)

theorem exists_terminator (line : List Char) :
    ∃ tail, line = dropTerminator line ++ tail ∧ ∀ c ∈ tail, c = '\n' ∨ c = '\r' := by
  have hLine : line = line.reverse.reverse := line.reverse_reverse.symm
  rw [dropTerminator]
  split
  · rename_i body hReverse
    refine ⟨['\r', '\n'], ?_, by simp⟩
    rw [hLine, hReverse]
    simp
  · rename_i body hNot hReverse
    refine ⟨['\n'], ?_, by simp⟩
    rw [hLine, hReverse]
    simp
  · exact ⟨[], (List.append_nil line).symm, List.forall_mem_nil _⟩

/-- All carriage returns at the end of a line go, or one before a line feed and then the others. -/
theorem dropLineEnd_dropTerminator (line : List Char) : dropLineEnd (dropTerminator line) = dropLineEnd line := by
  obtain ⟨tail, hLine, hTail⟩ := exists_terminator line
  rw [← dropLineEnd_append hTail, ← hLine]

theorem exists_dropLineEnd (line : List Char) :
    ∃ tail, line = dropLineEnd line ++ tail ∧ ∀ c ∈ tail, c = '\n' ∨ c = '\r' := by
  refine ⟨(line.reverse.takeWhile fun c => c = '\n' || c = '\r').reverse, ?_, fun c hc => ?_⟩
  · rw [dropLineEnd, ← List.reverse_append, List.takeWhile_append_dropWhile, List.reverse_reverse]
  · simpa using List.mem_takeWhile_imp (List.mem_reverse.mp hc)

theorem trim_append_blanks {line tail : List Char} (hTail : ∀ c ∈ tail, isBlank c = true) :
    trim (line ++ tail) = trim line := by
  have hEnd : ∀ text : List Char, trimEnd (text ++ tail) = trimEnd text := fun text => by
    rw [trimEnd, trimEnd, List.reverse_append, List.dropWhile_append_of_pos]
    exact fun c hc => hTail c (List.mem_reverse.mp hc)
  rw [trim, trim, trimStart, trimStart, List.dropWhile_append]
  split
  · rename_i hBlank
    rw [List.isEmpty_iff.mp hBlank, List.dropWhile_eq_nil_iff.mpr hTail]
  · exact hEnd _

/-- The end of a line is trimmed with the blanks. -/
theorem trim_dropLineEnd (line : List Char) : trim (dropLineEnd line) = trim line := by
  obtain ⟨tail, hLine, hTail⟩ := exists_dropLineEnd line
  have hBlank : ∀ c ∈ tail, isBlank c = true := fun c hc => by
    obtain rfl | rfl := hTail c hc <;> decide
  have hTrim : trim (dropLineEnd line ++ tail) = trim (dropLineEnd line) := trim_append_blanks hBlank
  rw [← hLine] at hTrim
  exact hTrim.symm

theorem trim_dropTerminator (line : List Char) : trim (dropTerminator line) = trim line := by
  rw [← trim_dropLineEnd, dropLineEnd_dropTerminator, trim_dropLineEnd]

/-- A piece ends where the test accepts, and nowhere before. -/
theorem exists_front_of_mem_cutAfter {α : Type} {p : α → Bool} {text piece : List α} (h : piece ∈ cutAfter p text) :
    ∃ front, (∀ c ∈ front, p c = false) ∧ (piece = front ∨ ∃ c, p c = true ∧ piece = front ++ [c]) := by
  induction text generalizing piece with
  | nil => cases h
  | cons c rest ih =>
    rw [cutAfter] at h
    split at h
    · rename_i hc
      obtain rfl | hRest := List.mem_cons.mp h
      · exact ⟨[], List.forall_mem_nil _, .inr ⟨c, hc, rfl⟩⟩
      · exact ih hRest
    · rename_i hc
      have hFirst : p c = false := Bool.eq_false_iff.mpr hc
      split at h
      · obtain rfl := List.mem_singleton.mp h
        exact ⟨[c], by simpa using hFirst, .inl rfl⟩
      · rename_i first pieces hPieces
        rw [hPieces] at ih
        obtain rfl | hRest := List.mem_cons.mp h
        · obtain ⟨front, hFront, hEnd⟩ := ih List.mem_cons_self
          refine ⟨c :: front, List.forall_mem_cons.mpr ⟨hFirst, hFront⟩, hEnd.imp ?_ ?_⟩
          · rintro rfl
            rfl
          · rintro ⟨last, hLast, rfl⟩
            exact ⟨last, hLast, rfl⟩
        · exact ih (List.mem_cons_of_mem _ hRest)

/-- Lines of text without carriage returns have nothing to drop. -/
theorem dropLineEnd_of_mem_lines {text line : List Char} (hText : '\r' ∉ text) (hLine : line ∈ lines text) :
    dropLineEnd line = line := by
  obtain ⟨piece, hPiece, rfl⟩ := List.mem_map.mp hLine
  have hReturn : '\r' ∉ piece := fun hMem => hText (by
    rw [← flatten_cutAfter (· = '\n') text]
    exact List.mem_flatten_of_mem hPiece hMem)
  obtain ⟨front, hFront, hEnd⟩ := exists_front_of_mem_cutAfter hPiece
  have hFeed : '\n' ∉ front := fun hMem => by simpa using hFront _ hMem
  have hDropped : dropTerminator piece = front := by
    obtain rfl | ⟨c, hc, rfl⟩ := hEnd
    · exact dropTerminator_of_notMem hFeed
    · obtain rfl := of_decide_eq_true hc
      exact dropTerminator_concat fun hMem => hReturn (List.mem_append_left _ hMem)
  have hOut : ∀ c ∈ front.reverse, ¬(c = '\n' || c = '\r') = true := fun c hc hEndChar => by
    have hMem := List.mem_reverse.mp hc
    obtain rfl | rfl : c = '\n' ∨ c = '\r' := by simpa using hEndChar
    · exact hFeed hMem
    · obtain rfl | ⟨c, -, rfl⟩ := hEnd
      · exact hReturn hMem
      · exact hReturn (List.mem_append_left _ hMem)
  rw [hDropped, dropLineEnd, List.dropWhile_eq_self_iff.mpr, List.reverse_reverse]
  exact fun hNonempty => hOut _ (List.getElem_mem hNonempty)

end Text

namespace Terminal

theorem decodeLine_encoded (piece : List Char) : decodeLine (piece.flatMap String.utf8EncodeChar) =
    .ok (String.ofList (Text.dropLineEnd piece)) := by
  have hBytes : (⟨(piece.flatMap String.utf8EncodeChar).toArray⟩ : ByteArray) = (String.ofList piece).toByteArray := by
    rw [String.toByteArray_ofList, List.utf8Encode]
    exact ByteArray.ext (List.data_toByteArray).symm
  have hText : String.fromUTF8? (String.ofList piece).toByteArray = some (String.ofList piece) := by
    rw [String.fromUTF8?, dif_pos (String.ofList piece).isValidUTF8]
    rfl
  rw [decodeLine, hBytes, hText]
  dsimp only
  rw [String.toList_ofList]

/-- The bytes of a text are read as its lines, without the carriage returns at their ends. -/
theorem decoded_lines (text : String) : (Text.cutAfter (· = 10) text.toUTF8.data.toList).map decodeLine =
    ((Text.lines text.toList).map fun line => String.ofList (Text.dropLineEnd line)).map .ok := by
  have hBytes : text.toUTF8.data.toList = text.toList.flatMap String.utf8EncodeChar := by
    rw [String.toUTF8_eq_toByteArray, ← String.utf8Encode_toList, List.utf8Encode]
    exact List.toList_data_toByteArray
  rw [hBytes, Text.cutAfter_encoded, Text.lines, List.map_map, List.map_map, List.map_map]
  refine List.map_congr_left fun piece _ => ?_
  simp only [Function.comp_apply, decodeLine_encoded, Text.dropLineEnd_dropTerminator]

end Terminal

end OptionShell
