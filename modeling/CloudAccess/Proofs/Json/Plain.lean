import CloudAccess.Proofs.Json.Values
import CloudAccess.Storage
import Mathlib

/-!
# JSON text is plain

A written value has printable ASCII characters and line feeds only (`plain_written`).  Such a text
has one byte for each character, and the bytes are read as the text whatever ends its lines.  So a
proper value is what the bytes of its text hold:

    v.Proper  →  jsonOfBytes (Utf8.encode (writeIndented v)) = .ok v          (jsonOfBytes_encode)
-/

namespace CloudAccess

/-! ## Plain texts -/

namespace Text

/-- Printable ASCII characters and line feeds. -/
def IsPlain (c : Char) : Prop := c = '\n' ∨ 32 ≤ c.toNat ∧ c.toNat ≤ 126

instance (c : Char) : Decidable (IsPlain c) :=
  inferInstanceAs (Decidable (c = '\n' ∨ 32 ≤ c.toNat ∧ c.toNat ≤ 126))

def Plain (cs : List Char) : Prop := ∀ c ∈ cs, IsPlain c

instance (cs : List Char) : Decidable (Plain cs) := List.decidableBAll IsPlain cs

theorem IsPlain.lt {c : Char} (h : IsPlain c) : c.toNat < 127 := by
  rcases h with rfl | h
  · decide
  · omega

namespace Plain

variable {cs ds : List Char}

theorem nil : Plain [] := nofun

theorem cons {c : Char} (hc : IsPlain c) (hcs : Plain cs) : Plain (c :: cs) :=
  List.forall_mem_cons.2 ⟨hc, hcs⟩

theorem append (hcs : Plain cs) (hds : Plain ds) : Plain (cs ++ ds) :=
  List.forall_mem_append.2 ⟨hcs, hds⟩

theorem replicate {c : Char} (hc : IsPlain c) (n : Nat) : Plain (List.replicate n c) :=
  fun _ hd => List.eq_of_mem_replicate hd ▸ hc

end Plain

theorem toList_loop (b : ByteArray) (i : Nat) (r : List UInt8) :
    ByteArray.toList.loop b i r = r.reverse ++ b.data.toList.drop i := by
  have hlength : b.data.toList.length = b.size := rfl
  induction i, r using ByteArray.toList.loop.induct b with
  | case1 i r hi ih =>
    have hget : b.get! i = b.data.toList[i] := by
      rw [ByteArray.get!, getElem!_pos b.data i hi, Array.getElem_toList]
    have hdrop : b.data.toList.drop i = b.data.toList[i] :: b.data.toList.drop (i + 1) :=
      List.drop_eq_getElem_cons hi
    rw [ByteArray.toList.loop, if_pos hi, ih, hget, hdrop, List.reverse_cons, List.append_assoc]
    rfl
  | case2 i r hi =>
    rw [ByteArray.toList.loop, if_neg hi, List.drop_eq_nil_of_le (by omega), List.append_nil]

theorem toList_toByteArray (l : List UInt8) : l.toByteArray.toList = l := by
  rw [ByteArray.toList, toList_loop]
  exact List.toList_data_toByteArray

namespace Utf8

/-- A plain text has one byte for each character. -/
theorem encode_plain {cs : List Char} (hcs : Plain cs) :
    encode (String.ofList cs) = cs.map fun c => UInt8.ofNat c.toNat := by
  have hchars : cs.flatMap String.utf8EncodeChar = cs.map fun c => UInt8.ofNat c.toNat := by
    rw [List.map_eq_flatMap]
    refine List.flatMap_congr fun c hc => ?_
    exact if_pos ((hcs c hc).lt.le.trans (by decide))
  rw [encode, String.toUTF8_eq_toByteArray, String.toByteArray_ofList, List.utf8Encode, hchars,
    toList_toByteArray]

theorem decodeFrom_plain {cs : List Char} (hcs : Plain cs) (position : Nat) :
    decodeFrom position 0 (cs.map fun c => UInt8.ofNat c.toNat) = .ok cs := by
  induction cs generalizing position with
  | nil => rfl
  | cons c cs ih =>
    obtain ⟨hc, hcs⟩ := List.forall_mem_cons.1 hcs
    have hbyte : (UInt8.ofNat c.toNat).toNat = c.toNat := by
      have := hc.lt
      rw [UInt8.toNat_ofNat']
      omega
    have hfirst (rest : List UInt8) : first (UInt8.ofNat c.toNat) rest = .char c 0 := by
      have hlt : UInt8.ofNat c.toNat < 0x80 := by
        rw [UInt8.lt_iff_toNat_lt, hbyte]
        exact hc.lt.trans (by decide)
      unfold first
      rw [if_pos hlt, hbyte, Char.ofNat_toNat]
    rw [List.map_cons, decodeFrom, hfirst]
    dsimp only
    rw [ih hcs]
    rfl

theorem unifyNewlines_plain {cs : List Char} (hcs : Plain cs) : unifyNewlines cs = cs := by
  induction cs with
  | nil => rfl
  | cons c cs ih =>
    obtain ⟨hc, hcs⟩ := List.forall_mem_cons.1 hcs
    have hne : c ≠ '\r' := by
      rintro rfl
      revert hc
      decide
    rw [unifyNewlines, ih hcs]
    all_goals
      intros
      exact hne (by assumption)

end Utf8
end Text

namespace Json

open Text (IsPlain Plain)

/-! ## Parts of a value -/

theorem isPlain_digit {c : Char} (hc : isDigit c = true) : IsPlain c := by
  simp only [isDigit, Bool.and_eq_true, decide_eq_true_iff] at hc
  have hlow : '0'.toNat ≤ c.toNat := hc.1
  have hhigh : c.toNat ≤ '9'.toNat := hc.2
  simp only [Char.reduceToNat] at hlow hhigh
  exact .inr ⟨by omega, by omega⟩

theorem plain_digital {cs : List Char} (hcs : Digital cs) : Plain cs :=
  fun c hc => isPlain_digit (hcs c hc)

theorem Numeral.Sound.plain {k : Numeral} (hk : k.Sound) : Plain k.text := by
  refine .append (.append (plain_digital hk.whole) ?_) ?_
  · unfold Numeral.fractionText
    split
    · exact .nil
    · exact .cons (by decide) (plain_digital hk.fraction)
  · unfold Numeral.exponentText
    cases k.exponent with
    | none => exact .nil
    | some e =>
      refine .append (.cons (by decide) (.cons ?_ .nil))
        (plain_digital ((digital_zeros _).append (digital_natDigits _)))
      split <;> decide

theorem plain_digitChar : ∀ n < 16, IsPlain (Nat.digitChar n) := by decide

theorem plain_escapedUnit {n : Nat} (hn : n < 0x10000) : Plain (escapedUnit n) := by
  rw [escapedUnit, Text.hexDigits_four hn]
  refine .cons (by decide) (.cons (by decide) ?_)
  exact .cons (plain_digitChar _ (by omega)) (.cons (plain_digitChar _ (by omega))
    (.cons (plain_digitChar _ (by omega)) (.cons (plain_digitChar _ (by omega)) .nil)))

theorem plain_writtenChar (c : Char) : Plain (writtenChar c) := by
  have hvalid : c.toNat < 0xD800 ∨ 0xDFFF < c.toNat ∧ c.toNat < 0x110000 := c.valid
  unfold writtenChar
  split_ifs
  · decide
  · decide
  · decide
  · decide
  · decide
  · decide
  · decide
  · next hc => exact .cons (.inr hc) .nil
  · exact plain_escapedUnit (by omega)
  · exact .append (plain_escapedUnit (by omega)) (plain_escapedUnit (by omega))

theorem plain_writtenString (s : String) : Plain (writtenString s) := by
  refine .append (.cons (by decide) (fun c hc => ?_)) (.cons (by decide) .nil)
  obtain ⟨d, -, hd⟩ := List.mem_flatMap.1 hc
  exact plain_writtenChar d c hd

theorem plain_signText (negative : Bool) : Plain (signText negative) := by
  cases negative with
  | true => exact .cons (by decide) .nil
  | false => exact .nil

/-! ## Values -/

variable {layout : Layout} (hlayout : layout.Each Plain)

include hlayout

theorem plain_writtenItems {vs : List Json} {level : Nat}
    (hread : ∀ v ∈ vs, ∀ level, Plain (written layout level v)) :
    Plain (writtenItems layout level vs) := by
  induction vs with
  | nil => exact .nil
  | cons v vs ih =>
    obtain ⟨hv, hvs⟩ := List.forall_mem_cons.1 hread
    exact .append (.append (.cons (by decide) (hlayout.afterComma level)) (hv _)) (ih hvs)

theorem plain_writtenMembers {ms : Members} {level : Nat}
    (hread : ∀ m ∈ ms, ∀ level, Plain (written layout level m.2)) :
    Plain (writtenMembers layout level ms) := by
  induction ms with
  | nil => exact .nil
  | cons m ms ih =>
    obtain ⟨hm, hms⟩ := List.forall_mem_cons.1 hread
    rw [writtenMembers]
    exact .append (.append (.append (.append (.cons (by decide) (hlayout.afterComma level))
      (plain_writtenString _)) (by decide)) (hm _)) (ih hms)

theorem plain_written {v : Json} (hv : v.Proper) : ∀ level, Plain (written layout level v) := by
  induction hv with
  | null => exact fun _ => show Plain "null".toList by decide
  | bool b =>
    intro _
    show Plain (if b then "true" else "false").toList
    cases b <;> decide
  | int n _ =>
    intro level
    rw [written_int]
    exact .append (plain_signText _) (plain_digital (digital_natDigits _))
  | float x _ =>
    intro level
    rw [written]
    cases hview : x.view with
    | nan =>
      rw [DecimalStyle.render, hview]
      decide
    | infinite negative =>
      rw [DecimalStyle.render, hview]
      cases negative <;> decide
    | finite negative m e =>
      obtain ⟨k, hk, htext, -⟩ := exists_numeral hview
      rw [htext]
      exact .append (plain_signText negative) hk.plain
  | str s => exact fun _ => plain_writtenString s
  | arr items _ ih =>
    intro level
    cases items with
    | nil => exact show Plain ['[', ']'] by decide
    | cons v vs =>
      obtain ⟨hv, hvs⟩ := List.forall_mem_cons.1 ih
      rw [written]
      refine .append (.append (.append (.append (.cons (by decide) (hlayout.afterOpen level))
        (hv _)) (plain_writtenItems hlayout hvs)) (hlayout.beforeClose level)) (by decide)
  | obj ms _ _ ih =>
    intro level
    cases ms with
    | nil => exact show Plain ['{', '}'] by decide
    | cons m ms =>
      obtain ⟨hm, hms⟩ := List.forall_mem_cons.1 ih
      rw [written]
      exact .append (.append (.append (.append (.append (.append
        (.cons (by decide) (hlayout.afterOpen level)) (plain_writtenString _)) (by decide)) (hm _))
        (plain_writtenMembers hlayout hms)) (hlayout.beforeClose level)) (by decide)

omit hlayout in
theorem plain_indented : Layout.indented.Each Plain :=
  Layout.each_indented fun n => .cons (by decide) (.replicate (by decide) n)

end Json

/-- The bytes of the text of a value hold the value. -/
theorem jsonOfBytes_encode {v : Json} (hv : v.Proper) :
    jsonOfBytes (Text.Utf8.encode (Json.writeIndented v)) = .ok v := by
  have hplain := Json.plain_written Json.plain_indented hv 0
  have hdecoded : Text.Utf8.decode (Text.Utf8.encode (Json.writeIndented v)) =
      .ok (Json.written .indented 0 v) := by
    rw [Json.writeIndented, Text.Utf8.encode_plain hplain]
    exact Text.Utf8.decodeFrom_plain hplain 0
  have hread : Json.read (String.ofList (Json.written .indented 0 v)) = .ok v :=
    Json.read_writeIndented hv
  rw [jsonOfBytes, hdecoded, Except.mapError, ok_bind, Text.Utf8.unifyNewlines_plain hplain, hread]

end CloudAccess
