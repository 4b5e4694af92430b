import ChangeQuery.Corpus.Basic
import ChangeQuery.Proofs.Text.Lines
import ChangeQuery.Proofs.Text.Utf8
import Mathlib.Data.List.Basic

/-!
## Corpora in files

The file of a corpus holds an encoded change on each line.  Reading it gives as many changes as were
written, at the same numbers.  A change comes back as it was if the line code gives it back and if it
does not end in a carriage return, which reading takes for a part of the line end; every other change
comes back altered.

* `changes_ofText_toText`: what is read from the file of a corpus.
* `readsBack_iff`: the corpora that their files give back.
-/

namespace ChangeQuery

/-! ### The line code -/

namespace LineCode

theorem encodeChars_append (cs ds : List Char) :
    encodeChars (cs ++ ds) = encodeChars cs ++ encodeChars ds := by
  induction cs with
  | nil => rfl
  | cons c cs ih =>
    rw [List.cons_append, encodeChars, encodeChars, ih]
    split_ifs <;> rfl

/-- A line ends in a carriage return exactly if the change does. -/
theorem getLast?_encodeChars_eq_return_iff (cs : List Char) :
    (encodeChars cs).getLast? = some '\r' ↔ cs.getLast? = some '\r' := by
  rcases List.eq_nil_or_concat' cs with rfl | ⟨ds, c, rfl⟩
  · rfl
  · rw [encodeChars_append, encodeChars]
    split_ifs with hc
    · simp [hc, encodeChars]
    · simp [encodeChars]

/-- Encoding and decoding never makes a text longer.  In front of a text that is read, a dollar sign
may have to wait for its partner, so both beginnings are followed at once. -/
theorem length_decodeChars_encodeChars (cs : List Char) :
    (decodeChars (encodeChars cs)).length ≤ cs.length ∧
      (decodeChars ('$' :: encodeChars cs)).length ≤ cs.length + 1 := by
  induction cs with
  | nil => exact ⟨Nat.le_refl 0, Nat.le_refl 1⟩
  | cons c cs ih =>
    obtain ⟨hread, hwaiting⟩ := ih
    by_cases hline : c = '\n'
    · subst hline
      rw [encodeChars, if_pos rfl]
      simp only [decodeChars, List.length_cons]
      omega
    rw [encodeChars, if_neg hline]
    by_cases hdollar : c = '$'
    · subst hdollar
      simp only [decodeChars, List.length_cons]
      omega
    · have hother : ∀ ds, decodeChars (c :: ds) = c :: decodeChars ds :=
        fun ds => decodeChars_cons fun hc => absurd hc hdollar
      have hafter : ∀ ds, decodeChars ('$' :: c :: ds) = '$' :: decodeChars (c :: ds) :=
        fun ds => decodeChars_cons fun _ hhead => hdollar (Option.some.inj hhead)
      simp only [hafter, hother, List.length_cons]
      omega

/-- Reading a line of a file gives the change back exactly if the line code does and the change does
not end in a carriage return. -/
theorem decode_dropReturn_encode_iff (change : String) :
    String.ofList (decodeChars (Text.dropReturn (encodeChars change.toList))) = change ↔
      decode (encode change) = change ∧ change.toList.getLast? ≠ some '\r' := by
  by_cases hreturn : change.toList.getLast? = some '\r'
  · refine iff_of_false (fun hback => ?_) (fun h => h.2 hreturn)
    -- What is read is too short to be the change.
    obtain ⟨cs, hcs⟩ := List.getLast?_eq_some_iff.mp hreturn
    have hshort := (length_decodeChars_encodeChars cs).1
    have hlength := congrArg (fun text => text.toList.length) hback
    have hline : encodeChars (cs ++ ['\r']) = encodeChars cs ++ ['\r'] := encodeChars_append cs _
    simp only [hcs, hline, Text.dropReturn_append_return, String.toList_ofList,
      List.length_append, List.length_singleton] at hlength
    omega
  · have hline : (encodeChars change.toList).getLast? ≠ some '\r' :=
      fun h => hreturn ((getLast?_encodeChars_eq_return_iff _).mp h)
    rw [Text.dropReturn_of_ne hline, decode, encode, String.toList_ofList]
    exact (and_iff_left hreturn).symm

end LineCode

/-! ### The file -/

namespace Corpus

theorem toList_toText (c : Corpus) :
    c.toText.toList =
      (c.changes.map fun change => LineCode.encodeChars change.toList).flatMap (· ++ ['\n']) := by
  rw [toText, String.toList_join, List.flatMap_map, List.flatMap_map]
  refine List.flatMap_congr fun change _ => ?_
  rw [String.toList_append, LineCode.encode, String.toList_ofList]
  rfl

/-- **What is read from the file of a corpus**: a change for every change, at the same number. -/
theorem changes_ofText_toText (c : Corpus) :
    (ofText c.toText.toList).changes = c.changes.map fun change =>
      String.ofList (LineCode.decodeChars (Text.dropReturn (LineCode.encodeChars change.toList))) := by
  have hlines : ∀ line ∈ c.changes.map fun change => LineCode.encodeChars change.toList,
      '\n' ∉ line := by
    intro line hline
    obtain ⟨change, -, rfl⟩ := List.mem_map.mp hline
    exact LineCode.newline_notMem_encodeChars _
  rw [ofText, linesOf, toList_toText, Text.lines_flatMap hlines, ofLines, ofChanges]
  simp only [List.map_map]
  refine List.map_congr_left fun change _ => ?_
  rw [Function.comp, Function.comp, Function.comp, LineCode.decode, String.toList_ofList]

/-- **The corpora that their files give back**, with the same changes in the same order: those whose
changes are given back by the line code and do not end in a carriage return. -/
theorem readsBack_iff (c : Corpus) :
    (ofText (Text.Utf8.decode (Text.Utf8.encode c.toText.toList))).changes = c.changes ↔
      ∀ change ∈ c.changes, LineCode.decode (LineCode.encode change) = change ∧
        change.toList.getLast? ≠ some '\r' := by
  rw [Text.Utf8.decode_encode, changes_ofText_toText]
  simp only [← LineCode.decode_dropReturn_encode_iff]
  rw [← List.map_inj_left, List.map_id']

/-- A carriage return at the end of a change is lost, although the line code keeps it. -/
theorem not_readsBack_of_return :
    ¬ ∀ c : Corpus, (∀ change ∈ c.changes, LineCode.decode (LineCode.encode change) = change) →
      (ofText (Text.Utf8.decode (Text.Utf8.encode c.toText.toList))).changes = c.changes := by
  intro h
  have hread := h ⟨["a\r"], []⟩ (by decide)
  revert hread
  decide

end Corpus

end ChangeQuery
