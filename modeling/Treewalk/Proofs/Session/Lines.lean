import Treewalk.CommandLine

/-!
Lines of input. The byte of a newline is part of no other character, so the bytes of a text are cut
where its lines end, and each line can be read back from its bytes.
-/

namespace Treewalk

/-- Lines as they are read: each with the newline that ends it, the last perhaps without. -/
inductive Lines : List String → Prop
  | nil : Lines []
  | last {text : String} : text ≠ "" → '\n' ∉ text.toList → Lines [text]
  | cons {text : String} {rest : List String} : '\n' ∉ text.toList → Lines rest →
      Lines ((text ++ "\n") :: rest)

/-! The bytes of a text -/

theorem utf8EncodeChar_newline_not_mem {char : Char} (h : char ≠ '\n') :
    10 ∉ String.utf8EncodeChar char := by
  have hval : char.val.toNat ≠ 10 := by
    intro heq
    apply h
    apply Char.ext
    exact UInt32.toNat_inj.mp heq
  have hbyte {n : Nat} (hlow : n % 256 ≠ 10) : (10 : UInt8) ≠ UInt8.ofNat n := by
    intro heq
    apply hlow
    have hnat := congrArg UInt8.toNat heq
    simpa using hnat.symm
  -- All bytes of a longer encoding have the highest bit set.
  fun_cases String.utf8EncodeChar char with
  | case1 =>
      simp only [List.mem_singleton]
      exact hbyte (by omega)
  | case2 =>
      simp only [List.mem_cons, List.not_mem_nil, or_false, not_or]
      exact ⟨hbyte (by omega), hbyte (by omega)⟩
  | case3 =>
      simp only [List.mem_cons, List.not_mem_nil, or_false, not_or]
      exact ⟨hbyte (by omega), hbyte (by omega), hbyte (by omega)⟩
  | case4 =>
      simp only [List.mem_cons, List.not_mem_nil, or_false, not_or]
      exact ⟨hbyte (by omega), hbyte (by omega), hbyte (by omega), hbyte (by omega)⟩

theorem toList_loop_eq (bytes : ByteArray) (place : Nat) (before : List UInt8) :
    ByteArray.toList.loop bytes place before =
      before.reverse ++ bytes.data.toList.drop place := by
  fun_induction ByteArray.toList.loop bytes place before with
  | case1 place before hlt ih =>
      have hplace : place < bytes.data.toList.length := hlt
      have hget : bytes.get! place = bytes.data.toList[place] :=
        getElem!_pos bytes.data place hlt
      rw [ih, List.drop_eq_getElem_cons hplace, hget]
      simp
  | case2 place before hge =>
      have hplace : bytes.data.toList.length ≤ place := Nat.le_of_not_lt hge
      rw [List.drop_eq_nil_of_le hplace]
      simp

theorem toList_eq (bytes : ByteArray) : bytes.toList = bytes.data.toList :=
  toList_loop_eq bytes 0 []

def textBytes (text : String) : List UInt8 :=
  text.toUTF8.data.toList

theorem textBytes_append (text other : String) :
    textBytes (text ++ other) = textBytes text ++ textBytes other := by
  simp [textBytes, String.toUTF8_eq_toByteArray]

theorem textBytes_newline_not_mem {text : String} (h : '\n' ∉ text.toList) :
    10 ∉ textBytes text := by
  have hbytes : textBytes text = text.toList.flatMap String.utf8EncodeChar := by
    rw [textBytes, String.toUTF8_eq_toByteArray, ← String.utf8Encode_toList, List.utf8Encode,
      List.toList_data_toByteArray]
  rw [hbytes, List.mem_flatMap]
  rintro ⟨char, hchar, hbyte⟩
  exact utf8EncodeChar_newline_not_mem (fun heq => h (heq ▸ hchar)) hbyte

theorem fromUTF8?_toUTF8 (text : String) : String.fromUTF8? text.toUTF8 = some text := by
  have hvalid : text.toUTF8.IsValidUTF8 := text.isValidUTF8
  rw [String.fromUTF8?, dif_pos hvalid]
  rfl

namespace CommandLine

/-! The cuts -/

theorem linesOnto_append {bytes : List UInt8} (h : 10 ∉ bytes) (line : List UInt8)
    (lines : List ByteArray) (rest : List UInt8) :
    linesOnto line lines (bytes ++ rest) = linesOnto (bytes.reverse ++ line) lines rest := by
  induction bytes generalizing line with
  | nil => rfl
  | cons byte bytes ih =>
      have hbyte : ¬(byte == 10) = true := fun heq =>
        h (List.mem_cons.mpr (.inl (beq_iff_eq.mp heq).symm))
      have hbytes : 10 ∉ bytes := fun hmem => h (List.mem_cons_of_mem byte hmem)
      rw [List.cons_append, linesOnto, if_neg hbyte, ih hbytes]
      simp

theorem linesOnto_lines (line : List UInt8) (lines : List ByteArray) (bytes : List UInt8) :
    linesOnto line lines bytes = lines.reverse ++ linesOnto line [] bytes := by
  induction bytes generalizing line lines with
  | nil =>
      rw [linesOnto, linesOnto]
      split <;> simp
  | cons byte bytes ih =>
      rw [linesOnto, linesOnto]
      split
      · rw [ih, ih _ [_]]
        simp
      · rw [ih]

theorem linesOnto_newline {bytes : List UInt8} (h : 10 ∉ bytes) (rest : List UInt8) :
    linesOnto [] [] (bytes ++ 10 :: rest) =
      ⟨(bytes ++ [10]).toArray⟩ :: linesOnto [] [] rest := by
  rw [linesOnto_append h, linesOnto, if_pos (beq_self_eq_true _), linesOnto_lines]
  simp

theorem linesOnto_last {bytes : List UInt8} (h : 10 ∉ bytes) (hne : bytes ≠ []) :
    linesOnto [] [] bytes = [⟨bytes.toArray⟩] := by
  have hlast := linesOnto_append h [] [] []
  rw [List.append_nil] at hlast
  rw [hlast, linesOnto, if_neg (by simpa using hne)]
  simp

/-- The bytes of lines are cut into the bytes of each line. -/
theorem lines_join {sources : List String} (h : Lines sources) :
    lines (String.join sources).toUTF8 = sources.map String.toUTF8 := by
  rw [lines, toList_eq]
  change linesOnto [] [] (textBytes _) = _
  induction h with
  | nil => rfl
  | @last text hne htext =>
      have hbytes : textBytes text ≠ [] := by
        intro hnil
        apply hne
        rw [← String.toByteArray_inj]
        exact ByteArray.ext (Array.toList_inj.mp hnil)
      rw [show String.join [text] = text by simp]
      exact linesOnto_last (textBytes_newline_not_mem htext) hbytes
  | @cons text rest htext _ ih =>
      rw [String.join_cons, textBytes_append, textBytes_append, List.append_assoc,
        show textBytes "\n" = [10] from rfl, List.singleton_append,
        linesOnto_newline (textBytes_newline_not_mem htext), ih, List.map_cons]
      congr 1

end CommandLine

end Treewalk
