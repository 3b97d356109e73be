import Harkness.Git.Hunk.Patch
import Harkness.ToMathlib.CQuote

/-! # Paths in a patch are read back

Every path of a patch's header is quoted, and no quoted path goes beyond its line. Git reads a quoted
path as C does, and gets the very bytes that were written. A side without a path has no quotes, and none
of its bytes needs them.
-/

namespace Harkness.Git

open CQuote

/-- Whether Git writes a path with this byte between quotes. -/
def needsQuotes (byte : UInt8) : Bool := byte < 0x20 || byte == 0x22 || byte == 0x5c || 0x7e < byte

private theorem asciiBytes_ofList (text : List Char) :
    asciiBytes (String.ofList text) = text.flatMap String.utf8EncodeChar := by
  simp only [asciiBytes, String.toUTF8, String.toByteArray_ofList, List.utf8Encode, List.data_toByteArray]

private theorem encodeChar_digitChar :
    ∀ digit : Fin 8, String.utf8EncodeChar (Nat.digitChar digit) = [0x30 + UInt8.ofNat digit] := by
  decide

private theorem padded_digits {value : ℕ} (small : value < 512) :
    (Nat.toDigits 8 value).leftpad 3 '0' =
      [Nat.digitChar (value / 64), Nat.digitChar (value / 8 % 8), Nat.digitChar (value % 8)] := by
  rcases Nat.lt_or_ge value 8 with one | more
  · rw [Nat.toDigits_of_lt_base one, Nat.div_eq_of_lt (by omega : value < 64), Nat.div_eq_of_lt one,
      Nat.mod_eq_of_lt one]
    rfl
  · rw [Nat.toDigits_of_base_le (by decide) more]
    rcases Nat.lt_or_ge (value / 8) 8 with two | three
    · rw [Nat.toDigits_of_lt_base two, Nat.div_eq_of_lt (by omega : value < 64), Nat.mod_eq_of_lt two]
      rfl
    · rw [Nat.toDigits_of_base_le (by decide) three,
        Nat.toDigits_of_lt_base (by omega : value / 8 / 8 < 8), Nat.div_div_eq_div_mul]
      rfl

private theorem octalText_eq (byte : UInt8) :
    asciiBytes "\\" ++ asciiBytes (String.ofList ((Nat.toDigits 8 byte.toNat).leftpad 3 '0')) =
      0x5c :: octalText byte := by
  have size := byte.toNat_lt
  have digit {value : ℕ} (small : value < 8) :
      String.utf8EncodeChar (Nat.digitChar value) = [0x30 + UInt8.ofNat value] :=
    encodeChar_digitChar ⟨value, small⟩
  have mark : asciiBytes "\\" = [0x5c] := by decide
  have first : UInt8.ofNat (byte.toNat / 64) = byte / 64 := by
    simp only [← UInt8.toNat_inj, UInt8.toNat_ofNat', UInt8.toNat_div, UInt8.reduceToNat]
    omega
  have second : UInt8.ofNat (byte.toNat / 8 % 8) = byte / 8 % 8 := by
    simp only [← UInt8.toNat_inj, UInt8.toNat_ofNat', UInt8.toNat_div, UInt8.toNat_mod, UInt8.reduceToNat]
    omega
  have last : UInt8.ofNat (byte.toNat % 8) = byte % 8 := by
    simp only [← UInt8.toNat_inj, UInt8.toNat_ofNat', UInt8.toNat_mod, UInt8.reduceToNat]
    omega
  rw [mark, padded_digits (by omega), asciiBytes_ofList, List.flatMap_cons, List.flatMap_cons,
    List.flatMap_cons, digit (by omega), digit (by omega), digit (by omega), first, second, last]
  rfl

/-- A byte is written as a letter behind a backslash, as itself, or by its digits. -/
theorem quotedByte_cases (byte : UInt8) :
    (∃ letter, named letter = some byte ∧ (0x20 ≤ letter ∧ letter ≤ 0x7e) ∧
      quotedByte byte = [0x5c, letter]) ∨
      ((byte ≠ 0x22 ∧ byte ≠ 0x5c) ∧ (0x20 ≤ byte ∧ byte ≤ 0x7e) ∧ quotedByte byte = [byte]) ∨
        quotedByte byte = 0x5c :: octalText byte := by
  unfold quotedByte
  split_ifs with backslash mark newline return_ tab plain
  · exact .inl ⟨0x5c, by rw [backslash]; decide, by decide, by decide⟩
  · exact .inl ⟨0x22, by rw [mark]; decide, by decide, by decide⟩
  · exact .inl ⟨0x6e, by rw [newline]; decide, by decide, by decide⟩
  · exact .inl ⟨0x72, by rw [return_]; decide, by decide, by decide⟩
  · exact .inl ⟨0x74, by rw [tab]; decide, by decide, by decide⟩
  · exact .inr (.inl ⟨⟨mark, backslash⟩, plain, rfl⟩)
  · exact .inr (.inr (octalText_eq byte))

theorem quotedByte_spells (byte : UInt8) : Spells (quotedByte byte) byte := by
  rcases quotedByte_cases byte with ⟨letter, meant, -, written⟩ | ⟨⟨mark, backslash⟩, -, written⟩ | written
  · rw [written]
    exact spells_named meant
  · rw [written]
    exact spells_self mark backslash
  · rw [written]
    exact spells_octal byte

private theorem printable_octalText (byte : UInt8) :
    ∀ digit ∈ octalText byte, 0x20 ≤ digit ∧ digit ≤ 0x7e := by
  intro digit member
  have size := byte.toNat_lt
  have value : digit.toNat = 0x30 + byte.toNat / 64 ∨ digit.toNat = 0x30 + byte.toNat / 8 % 8 ∨
      digit.toNat = 0x30 + byte.toNat % 8 := by
    simp only [octalText, List.mem_cons, List.not_mem_nil, or_false] at member
    rcases member with rfl | rfl | rfl <;> simp <;> omega
  rw [UInt8.le_iff_toNat_le, UInt8.le_iff_toNat_le]
  simp only [UInt8.reduceToNat]
  omega

/-- What is written for a byte is printable, so that a path keeps to its line. -/
theorem printable_quotedByte (byte : UInt8) : ∀ written ∈ quotedByte byte, 0x20 ≤ written ∧
    written ≤ 0x7e := by
  rcases quotedByte_cases byte with ⟨letter, -, plain, written⟩ | ⟨-, plain, written⟩ | written
  · rw [written]
    exact List.forall_mem_cons.mpr ⟨by decide, List.forall_mem_singleton.mpr plain⟩
  · rw [written]
    exact List.forall_mem_singleton.mpr plain
  · rw [written]
    exact List.forall_mem_cons.mpr ⟨by decide, printable_octalText byte⟩

theorem quotedPath_append (lead : String) (path rest : Bytes) : quotedPath lead path ++ rest =
    0x22 :: ((asciiBytes lead ++ path).flatMap quotedByte ++ 0x22 :: rest) := by
  have mark : asciiBytes "\"" = [0x22] := by decide
  rw [quotedPath, mark]
  simp only [List.cons_append, List.nil_append, List.append_assoc]

theorem printable_quotedPath (lead : String) (path : Bytes) :
    ∀ written ∈ quotedPath lead path, 0x20 ≤ written ∧ written ≤ 0x7e := by
  have whole := quotedPath_append lead path []
  rw [List.append_nil] at whole
  intro written member
  rw [whole, List.mem_cons, List.mem_append, List.mem_flatMap, List.mem_singleton] at member
  rcases member with rfl | ⟨byte, -, inside⟩ | rfl
  · decide
  · exact printable_quotedByte byte written inside
  · decide

/-- A quoted path is read with what is put in front of it, whatever is behind the quotes. -/
theorem unquote_quotedPath (lead : String) (path rest : Bytes) :
    unquote (quotedPath lead path ++ rest) = some (asciiBytes lead ++ path, rest) := by
  rw [quotedPath_append, unquote, if_pos rfl]
  exact readFrom_spelled quotedByte_spells (asciiBytes lead ++ path) rest

/-- Quoted paths that begin alike are told apart by their bytes. -/
theorem quotedPath_injective {lead : String} {path other rest behind : Bytes}
    (same : quotedPath lead path ++ rest = quotedPath lead other ++ behind) :
      path = other ∧ rest = behind := by
  have read := congrArg unquote same
  rw [unquote_quotedPath, unquote_quotedPath, Option.some.injEq, Prod.mk.injEq] at read
  exact ⟨List.append_cancel_left read.1, read.2⟩

/-- The first line of a file's header names both paths in turn. -/
theorem unquote_renderFile (file : FileDiff) (rendered : List RenderedHunk) (direction : Direction) :
    ∃ names more rest, renderFile file rendered direction = asciiBytes "diff --git " ++ names ∧
      unquote names = some (asciiBytes "a/" ++ displayPath
        ((file.directed direction).retained rendered).oldPath
        ((file.directed direction).retained rendered).newPath, asciiBytes " " ++ more) ∧
      unquote more = some (asciiBytes "b/" ++ displayPath
        ((file.directed direction).retained rendered).newPath
        ((file.directed direction).retained rendered).oldPath, rest) := by
  unfold renderFile
  simp only [List.append_assoc]
  exact ⟨_, _, _, rfl, unquote_quotedPath "a/" _ _, unquote_quotedPath "b/" _ _⟩

/-- Whatever bytes a path has, it is read back from its quotes and told apart from every other path,
and it is written in printable bytes; what is written without quotes needs none. -/
theorem paths_read_back (lead : String) (path : Bytes) :
    (∀ rest, unquote (quotedPath lead path ++ rest) = some (asciiBytes lead ++ path, rest)) ∧
      (∀ written ∈ quotedPath lead path, 0x20 ≤ written ∧ written ≤ 0x7e) ∧
      (∀ other rest behind, quotedPath lead path ++ rest = quotedPath lead other ++ behind →
        path = other ∧ rest = behind) ∧
      ∀ side : Option Bytes, (sidePath lead side).head? ≠ some 0x22 →
        ∀ byte ∈ sidePath lead side, needsQuotes byte = false := by
  refine ⟨unquote_quotedPath lead path, printable_quotedPath lead path,
    fun other rest behind => quotedPath_injective, ?_⟩
  intro side unquoted
  cases side with
  | none => exact (by decide +kernel : ∀ byte ∈ asciiBytes "/dev/null", needsQuotes byte = false)
  | some shown =>
    have quoted : (sidePath lead (some shown)).head? = some 0x22 := by
      rw [sidePath, ← List.append_nil (quotedPath lead shown), quotedPath_append, List.head?_cons]
    exact absurd quoted unquoted

/-- A path with a quote, a newline, a byte above ASCII and a digit behind it. -/
example : quotedPath "a/" [0x22, 0x0a, 0xff, 0x37] = asciiBytes "\"a/\\\"\\n\\3777\"" := by decide

end Harkness.Git
