import PushRelabel.Text.Line

/-! # The lines of a file and the fields of a line

Fields and lines are said here on characters. A file is split at the bytes of its line ends. That
gives the lines of the text that the file encodes, since in UTF-8 no byte of a character outside of
ASCII is below 128.
-/

namespace PushRelabel.Text

section Pieces

variable {α : Type} {p : α → Bool} {x : α} {xs ys : List α}

theorem pieces_of_forall (h : ∀ x ∈ xs, p x = false) : pieces p xs = [xs] := by
  induction xs with
  | nil => rfl
  | cons x xs ih =>
      obtain ⟨hx, hxs⟩ := List.forall_mem_cons.mp h
      simp [pieces_cons, hx, ih hxs]

theorem pieces_append_cons (h : ∀ x ∈ xs, p x = false) (hx : p x = true) :
    pieces p (xs ++ x :: ys) = xs :: pieces p ys := by
  induction xs with
  | nil => simp [pieces_cons, hx]
  | cons y xs ih =>
      obtain ⟨hy, hxs⟩ := List.forall_mem_cons.mp h
      simp [pieces_cons, hy, ih hxs]

theorem forall_or_exists_append (p : α → Bool) (xs : List α) :
    (∀ x ∈ xs, p x = false) ∨
      ∃ ys x zs, xs = ys ++ x :: zs ∧ (∀ y ∈ ys, p y = false) ∧ p x = true := by
  cases hfind : xs.find? p with
  | none => exact Or.inl fun x hx => Bool.not_eq_true _ ▸ List.find?_eq_none.mp hfind x hx
  | some x =>
      obtain ⟨hx, ys, zs, hxs, hys⟩ := List.find?_eq_some_iff_append.mp hfind
      exact Or.inr ⟨ys, x, zs, hxs, fun y hy => by simpa using hys y hy, hx⟩

/-- Induction from one element that satisfies `p` to the next. -/
theorem first_induction (p : α → Bool) {motive : List α → Prop}
    (none : ∀ xs, (∀ x ∈ xs, p x = false) → motive xs)
    (first : ∀ xs x ys, (∀ y ∈ xs, p y = false) → p x = true → motive ys →
      motive (xs ++ x :: ys)) (xs : List α) : motive xs := by
  rcases forall_or_exists_append p xs with h | ⟨xs, x, ys, rfl, hxs, hx⟩
  · exact none xs h
  · exact first xs x ys hxs hx (first_induction p none first ys)
termination_by xs.length
decreasing_by grind

end Pieces

/-! ## Fields -/

/-- The words of a line, in their order. Each is as long as the blanks around it allow. -/
inductive FieldsOf : List Char → List (List Char) → Prop
  | nil : FieldsOf [] []
  | blank {c : Char} {cs : List Char} {words : List (List Char)} (hc : isBlank c = true)
      (h : FieldsOf cs words) : FieldsOf (c :: cs) words
  | last {word : List Char} (hne : word ≠ []) (hword : ∀ c ∈ word, isBlank c = false) :
      FieldsOf word [word]
  | field {word : List Char} {c : Char} {cs : List Char} {words : List (List Char)}
      (hne : word ≠ []) (hword : ∀ c ∈ word, isBlank c = false) (hc : isBlank c = true)
      (h : FieldsOf cs words) : FieldsOf (word ++ c :: cs) (word :: words)

variable {c : Char} {cs rest : List Char} {words lines : List (List Char)}

theorem fields_cons_of_isBlank (hc : isBlank c = true) : fields (c :: cs) = fields cs := by
  simp [fields, pieces_cons, hc]

theorem fields_cons_of_not_isBlank (cs : List Char) (hc : isBlank c = false) :
    ∃ word words, fields (c :: cs) = (c :: word) :: words := by
  simp [fields, pieces_cons, hc]

theorem FieldsOf.fields_eq (h : FieldsOf cs words) : fields cs = words := by
  induction h with
  | nil => rfl
  | blank hc _ ih => rw [fields_cons_of_isBlank hc, ih]
  | last hne hword => simp [fields, pieces_of_forall hword, hne]
  | field hne hword hc _ ih =>
      rw [← ih]
      simp [fields, pieces_append_cons hword hc, hne]

theorem exists_fieldsOf (cs : List Char) : ∃ words, FieldsOf cs words := by
  induction cs using first_induction isBlank with
  | none word hword =>
      by_cases hne : word = []
      · exact ⟨[], hne ▸ .nil⟩
      · exact ⟨[word], .last hne hword⟩
  | first word c rest hword hc ih =>
      obtain ⟨words, h⟩ := ih
      by_cases hne : word = []
      · exact ⟨words, hne ▸ .blank hc h⟩
      · exact ⟨word :: words, .field hne hword hc h⟩

theorem fieldsOf_iff : FieldsOf cs words ↔ fields cs = words := by
  refine ⟨FieldsOf.fields_eq, fun heq => ?_⟩
  obtain ⟨words', h⟩ := exists_fieldsOf cs
  rwa [← heq, h.fields_eq]

/-! ## The start of a line -/

theorem fields_dropWhile (cs : List Char) : fields (cs.dropWhile isBlank) = fields cs := by
  induction cs with
  | nil => rfl
  | cons c cs ih =>
      cases hc : isBlank c with
      | true => rw [List.dropWhile_cons_of_pos hc, ih, fields_cons_of_isBlank hc]
      | false => rw [List.dropWhile_cons_of_neg (by simp [hc])]

theorem trim_of_dropWhile_eq_nil (h : cs.dropWhile isBlank = []) : trim cs = [] := by
  simp [trim, h]

theorem isBlank_of_dropWhile_eq_cons (h : cs.dropWhile isBlank = c :: rest) :
    isBlank c = false := by
  have hnot := List.head_dropWhile_not isBlank (l := cs) (by simp [h])
  simpa [h] using hnot

/-- What trimming leaves starts with the first character that is no blank. -/
theorem head?_trim (h : cs.dropWhile isBlank = c :: rest) : (trim cs).head? = some c := by
  rw [trim, h, List.reverse_cons, List.dropWhile_append]
  split <;> simp [isBlank_of_dropWhile_eq_cons h]

/-! ## Lines -/

/-- The lines of a text. Each ends at a line feed or at the end of the text, and does not include
the line feed, nor a carriage return right before it. -/
inductive LinesOf : List Char → List (List Char) → Prop
  | nil : LinesOf [] []
  | last {line : List Char} (hne : line ≠ []) (hline : '\n' ∉ line) : LinesOf line [line]
  | feed {line rest : List Char} {lines : List (List Char)} (hline : '\n' ∉ line)
      (hreturn : line.getLast? ≠ some '\r') (h : LinesOf rest lines) :
      LinesOf (line ++ '\n' :: rest) (line :: lines)
  | returnFeed {line rest : List Char} {lines : List (List Char)} (hline : '\n' ∉ line)
      (h : LinesOf rest lines) : LinesOf (line ++ '\r' :: '\n' :: rest) (line :: lines)

/-- Every text has lines. -/
theorem exists_linesOf (cs : List Char) : ∃ lines, LinesOf cs lines := by
  induction cs using first_induction (· == '\n') with
  | none line hline =>
      by_cases hne : line = []
      · exact ⟨[], hne ▸ .nil⟩
      · exact ⟨[line], .last hne fun hmem => by simpa using hline _ hmem⟩
  | first line c rest hline hc ih =>
      obtain ⟨lines, h⟩ := ih
      obtain rfl : c = '\n' := beq_iff_eq.mp hc
      have hfeed : '\n' ∉ line := fun hmem => by simpa using hline _ hmem
      by_cases hreturn : line.getLast? = some '\r'
      · obtain ⟨line, rfl⟩ := List.getLast?_eq_some_iff.mp hreturn
        rw [List.append_assoc]
        exact ⟨line :: lines, .returnFeed (fun hmem => hfeed (List.mem_append_left _ hmem)) h⟩
      · exact ⟨line :: lines, .feed hfeed hreturn h⟩

/-! ## Bytes -/

/-- The bytes of characters in UTF-8. -/
def utf8 (cs : List Char) : List UInt8 := cs.flatMap String.utf8EncodeChar

theorem utf8_cons (c : Char) (cs : List Char) :
    utf8 (c :: cs) = String.utf8EncodeChar c ++ utf8 cs :=
  List.flatMap_cons

theorem utf8_append (cs rest : List Char) : utf8 (cs ++ rest) = utf8 cs ++ utf8 rest :=
  List.flatMap_append

theorem utf8_singleton (c : Char) : utf8 [c] = String.utf8EncodeChar c :=
  List.flatMap_singleton String.utf8EncodeChar c

theorem utf8_ne_nil (h : cs ≠ []) : utf8 cs ≠ [] := by
  obtain ⟨c, cs, rfl⟩ := List.exists_cons_of_ne_nil h
  rw [utf8_cons]
  exact List.append_ne_nil_of_left_ne_nil String.utf8EncodeChar_ne_nil _

theorem toList_toByteArray (bytes : List UInt8) : bytes.toByteArray.toList = bytes := by
  have hloop : ∀ (array : ByteArray) (i : Nat) (acc : List UInt8),
      ByteArray.toList.loop array i acc = acc.reverse ++ array.data.toList.drop i := by
    intro array i acc
    fun_induction ByteArray.toList.loop array i acc with
    | case1 i acc hi ih =>
        have hlt : i < array.data.toList.length := hi
        rw [ih, List.drop_eq_getElem_cons hlt]
        simp [ByteArray.get!, hi]
    | case2 i acc hi =>
        rw [List.drop_eq_nil_of_le (Nat.le_of_not_lt hi), List.append_nil]
  rw [ByteArray.toList, hloop, List.toList_data_toByteArray]
  rfl

theorem encode_eq (text : String) : encode text = utf8 text.toList := by
  have hbytes : text.toUTF8 = (utf8 text.toList).toByteArray := (String.utf8Encode_toList).symm
  rw [encode, hbytes, toList_toByteArray]

theorem decode_utf8 (cs : List Char) : decode (utf8 cs) = some cs := by
  have hbytes : (utf8 cs).toByteArray = cs.utf8Encode := rfl
  rw [decode, hbytes, String.fromUTF8?, dif_pos ByteArray.isValidUTF8_utf8Encode]
  exact congrArg some String.toList_ofList

theorem utf8EncodeChar_of_ascii {c : Char} (h : c.toNat < 128) :
    String.utf8EncodeChar c = [UInt8.ofNat c.toNat] :=
  if_pos (Nat.le_of_lt_succ h)

theorem le_of_mem_utf8EncodeChar {c : Char} (hc : 128 ≤ c.toNat) {b : UInt8} :
    b ∈ String.utf8EncodeChar c → 128 ≤ b.toNat := by
  fun_cases String.utf8EncodeChar c
  case case1 hascii => exact absurd hc (Nat.not_le.mpr (Nat.lt_succ_of_le hascii))
  -- Each byte of a longer encoding is a remainder to which 128 or more is added.
  all_goals grind [UInt8.toNat_ofNat']

/-- The byte of a character of ASCII stands for nothing else. -/
theorem mem_utf8EncodeChar_iff {c a : Char} (ha : a.toNat < 128) :
    UInt8.ofNat a.toNat ∈ String.utf8EncodeChar c ↔ c = a := by
  have hbyte : (UInt8.ofNat a.toNat).toNat = a.toNat := by
    rw [UInt8.toNat_ofNat', Nat.mod_eq_of_lt (by omega)]
  constructor
  · intro hmem
    by_cases hc : c.toNat < 128
    · rw [utf8EncodeChar_of_ascii hc, List.mem_singleton] at hmem
      have hnat := congrArg UInt8.toNat hmem
      rw [hbyte, UInt8.toNat_ofNat', Nat.mod_eq_of_lt (by omega)] at hnat
      exact Char.toNat_inj.mp hnat.symm
    · have := le_of_mem_utf8EncodeChar (Nat.le_of_not_lt hc) hmem
      omega
  · rintro rfl
    rw [utf8EncodeChar_of_ascii ha]
    exact List.mem_singleton_self _

theorem lineFeed_mem_utf8_iff : lineFeed ∈ utf8 cs ↔ '\n' ∈ cs := by
  rw [utf8, List.mem_flatMap]
  constructor
  · rintro ⟨c, hc, hmem⟩
    exact (mem_utf8EncodeChar_iff (a := '\n') (by decide)).mp hmem ▸ hc
  · exact fun hmem => ⟨'\n', hmem, (mem_utf8EncodeChar_iff (by decide)).mpr rfl⟩

theorem getLast?_of_getLast?_utf8 (h : (utf8 cs).getLast? = some carriageReturn) :
    cs.getLast? = some '\r' := by
  rcases List.eq_nil_or_concat cs with rfl | ⟨init, c, rfl⟩
  · cases h
  · rw [List.concat_eq_append] at h ⊢
    rw [utf8_append, utf8_singleton, List.getLast?_append, Option.or_eq_some_iff] at h
    rcases h with h | ⟨hnone, -⟩
    · have hmem := List.mem_of_getLast? h
      obtain rfl := (mem_utf8EncodeChar_iff (a := '\r') (by decide)).mp hmem
      exact List.getLast?_concat
    · exact absurd (List.getLast?_eq_none_iff.mp hnone) String.utf8EncodeChar_ne_nil

theorem dropCarriageReturn_utf8 (h : cs.getLast? ≠ some '\r') :
    dropCarriageReturn (utf8 cs) = utf8 cs :=
  if_neg fun hlast => h (getLast?_of_getLast?_utf8 hlast)

theorem dropCarriageReturn_append (bytes : List UInt8) :
    dropCarriageReturn (bytes ++ [carriageReturn]) = bytes := by
  simp [dropCarriageReturn]

theorem lines_of_not_mem {bytes : List UInt8} (hne : bytes ≠ []) (h : lineFeed ∉ bytes) :
    Text.lines bytes = [bytes] := by
  have hpieces : pieces (· == lineFeed) bytes = [bytes] :=
    pieces_of_forall fun b hb => beq_false_of_ne fun heq => h (heq ▸ hb)
  simp [Text.lines, hpieces, hne]

theorem lines_append_lineFeed {bytes rest : List UInt8} (h : lineFeed ∉ bytes) :
    Text.lines (bytes ++ lineFeed :: rest) = dropCarriageReturn bytes :: Text.lines rest := by
  have hpieces : pieces (· == lineFeed) (bytes ++ lineFeed :: rest) =
      bytes :: pieces (· == lineFeed) rest :=
    pieces_append_cons (fun b hb => beq_false_of_ne fun heq => h (heq ▸ hb)) (beq_self_eq_true _)
  have hne := pieces_ne_nil (· == lineFeed) rest
  simp only [Text.lines, hpieces, List.dropLast_cons_of_ne_nil hne, List.map_cons,
    List.getLast?_cons, List.getLast?_eq_some_getLast hne, Option.getD_some]
  split <;> rfl

/-- The lines of a file are those of its text. -/
theorem lines_utf8 (h : LinesOf cs lines) : Text.lines (utf8 cs) = lines.map utf8 := by
  have hfeed : String.utf8EncodeChar '\n' = [lineFeed] := utf8EncodeChar_of_ascii (by decide)
  induction h with
  | nil => rfl
  | last hne hline => exact lines_of_not_mem (utf8_ne_nil hne) (mt lineFeed_mem_utf8_iff.mp hline)
  | feed hline hreturn _ ih =>
      rw [utf8_append, utf8_cons, hfeed, List.singleton_append,
        lines_append_lineFeed (mt lineFeed_mem_utf8_iff.mp hline), dropCarriageReturn_utf8 hreturn,
        ih, List.map_cons]
  | @returnFeed line rest lines hline _ ih =>
      -- The bytes are split at the line feed, which leaves the carriage return to the line.
      have hline' : '\n' ∉ line ++ ['\r'] := by simpa using hline
      have hbytes : utf8 (line ++ ['\r']) = utf8 line ++ [carriageReturn] := by
        rw [utf8_append, utf8_singleton, utf8EncodeChar_of_ascii (by decide)]
        rfl
      calc Text.lines (utf8 (line ++ '\r' :: '\n' :: rest))
        _ = Text.lines (utf8 (line ++ ['\r']) ++ lineFeed :: utf8 rest) := by
          rw [List.append_cons line, utf8_append, utf8_cons, hfeed, List.singleton_append]
        _ = _ := by
          rw [lines_append_lineFeed (mt lineFeed_mem_utf8_iff.mp hline'), hbytes,
            dropCarriageReturn_append, ih, List.map_cons]

end PushRelabel.Text
