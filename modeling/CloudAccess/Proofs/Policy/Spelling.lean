import CloudAccess.Policy.Document
import Mathlib

/-!
# Spellings of a policy

A policy may be given as JSON text, or as such a text of which some characters are percent-encoded:
the first one, every `%`, and any others.  Whatever is encoded, in digits of either case, the
document is that of the text:

    Spells text e → decode e = text                                          (Percent.decode_spells)

A text is looked at as JSON first.  One that starts with `%` never is JSON (`Json.read_percent`),
and one that is JSON is not decoded, so that a `%` in it stands for itself.

* `Utf8.lossyFrom_encodeChar`: the bytes of a character are read as that character.
* `Percent.runBytes_code`: the code of some bytes gives those bytes.
* `Percent.Whole`: what was gathered of a run of ASCII characters is the code of whole characters,
  so that the run may end or go on behind it.
-/

namespace CloudAccess

namespace Text

/-! ## Bytes of characters -/

namespace Utf8

variable {lead a b c : UInt8} {rest : List UInt8}

theorem isContinuation_iff : isContinuation a = true ↔ 128 ≤ a.toNat ∧ a.toNat < 192 := by
  unfold isContinuation
  rw [Bool.and_eq_true, decide_eq_true_eq, decide_eq_true_eq, UInt8.le_iff_toNat_le,
    UInt8.lt_iff_toNat_lt]
  rfl

/-- A continuation byte may follow a lead byte unless the range is smaller after that one. -/
theorem maySecond_of (ha : isContinuation a = true) (he0 : lead.toNat = 224 → 160 ≤ a.toNat)
    (hed : lead.toNat = 237 → a.toNat < 160) (hf0 : lead.toNat = 240 → 144 ≤ a.toNat)
    (hf4 : lead.toNat = 244 → a.toNat < 144) : maySecond lead a = true := by
  unfold maySecond
  simp only [ha, Bool.true_and, Bool.and_eq_true, Bool.not_eq_true', Bool.and_eq_false_iff,
    decide_eq_false_iff_not, ← UInt8.toNat_inj, UInt8.lt_iff_toNat_lt, UInt8.le_iff_toNat_le,
    UInt8.reduceToNat]
  omega

theorem first_one (h : lead.toNat < 128) : first lead rest = .char (Char.ofNat lead.toNat) 0 := by
  unfold first
  rw [if_pos (UInt8.lt_iff_toNat_lt.2 h)]

theorem first_two (h : 194 ≤ lead.toNat) (h' : lead.toNat < 224) (ha : isContinuation a = true) :
    first lead (a :: rest) = .char (Char.ofNat ((lead.toNat - 192) * 64 + payload a)) 1 := by
  unfold first
  simp only [UInt8.lt_iff_toNat_lt, UInt8.reduceToNat]
  rw [if_neg (by omega), if_neg (by omega), if_pos h', if_pos ha]

theorem first_three (h : 224 ≤ lead.toNat) (h' : lead.toNat < 240) (ha : maySecond lead a = true)
    (hb : isContinuation b = true) : first lead (a :: b :: rest) =
      .char (Char.ofNat (((lead.toNat - 224) * 64 + payload a) * 64 + payload b)) 2 := by
  unfold first
  simp only [UInt8.lt_iff_toNat_lt, UInt8.reduceToNat, ha, Bool.not_true, Bool.false_eq_true,
    if_false]
  rw [if_neg (by omega), if_neg (by omega), if_neg (by omega), if_pos h', if_pos hb]

theorem first_four (h : 240 ≤ lead.toNat) (h' : lead.toNat < 245) (ha : maySecond lead a = true)
    (hb : isContinuation b = true) (hc : isContinuation c = true) :
    first lead (a :: b :: c :: rest) = .char (Char.ofNat
      ((((lead.toNat - 240) * 64 + payload a) * 64 + payload b) * 64 + payload c)) 3 := by
  unfold first
  simp only [UInt8.lt_iff_toNat_lt, UInt8.reduceToNat, ha, hb, Bool.not_true, Bool.false_eq_true,
    if_false]
  rw [if_neg (by omega), if_neg (by omega), if_neg (by omega), if_neg (by omega), if_pos h',
    if_pos hc]

theorem toNat_ofNat {n : Nat} (hn : n < 256) : (UInt8.ofNat n).toNat = n :=
  UInt8.toNat_ofNat_of_lt' hn

theorem isContinuation_tail (n : Nat) : isContinuation (UInt8.ofNat (n % 64 + 128)) = true := by
  rw [isContinuation_iff, toNat_ofNat (by omega)]
  omega

theorem payload_tail (n : Nat) : payload (UInt8.ofNat (n % 64 + 128)) = n % 64 := by
  unfold payload
  rw [toNat_ofNat (by omega)]
  omega

/-- The bytes of a character are read as that character, whatever follows. -/
theorem lossyFrom_encodeChar (ch : Char) (rest : List UInt8) :
    lossyFrom 0 (String.utf8EncodeChar ch ++ rest) = ch :: lossyFrom 0 rest := by
  have hvalid : ch.toNat < 0xD800 ∨ 0xDFFF < ch.toNat ∧ ch.toNat < 0x110000 := ch.valid
  have hchar {n : Nat} (hn : n = ch.toNat) : Char.ofNat n = ch := hn ▸ Char.ofNat_toNat ch
  unfold String.utf8EncodeChar
  dsimp only
  rw [show ch.val.toNat = ch.toNat from rfl]
  split_ifs with hone htwo hthree
  · rw [List.singleton_append, lossyFrom, first_one (by rw [toNat_ofNat] <;> omega),
      toNat_ofNat (by omega), hchar rfl]
  · have hlead : (UInt8.ofNat (ch.toNat / 64 % 32 + 192)).toNat = ch.toNat / 64 + 192 := by
      rw [toNat_ofNat] <;> omega
    rw [List.cons_append, List.singleton_append, lossyFrom, first_two (by omega) (by omega)
      (isContinuation_tail _), payload_tail, hlead, hchar (by omega)]
    rfl
  · have hlead : (UInt8.ofNat (ch.toNat / 4096 % 16 + 224)).toNat = ch.toNat / 4096 + 224 := by
      rw [toNat_ofNat] <;> omega
    have hsecond : (UInt8.ofNat (ch.toNat / 64 % 64 + 128)).toNat = ch.toNat / 64 % 64 + 128 :=
      toNat_ofNat (by omega)
    rw [List.cons_append, List.cons_append, List.singleton_append, lossyFrom,
      first_three (by omega) (by omega) (maySecond_of (isContinuation_tail _) (by omega)
        (by omega) (by omega) (by omega)) (isContinuation_tail _), payload_tail, payload_tail,
      hlead, hchar (by omega)]
    rfl
  · have hlead : (UInt8.ofNat (ch.toNat / 262144 % 8 + 240)).toNat = ch.toNat / 262144 + 240 := by
      rw [toNat_ofNat] <;> omega
    have hsecond : (UInt8.ofNat (ch.toNat / 4096 % 64 + 128)).toNat =
        ch.toNat / 4096 % 64 + 128 := toNat_ofNat (by omega)
    rw [List.cons_append, List.cons_append, List.cons_append, List.singleton_append, lossyFrom,
      first_four (by omega) (by omega) (maySecond_of (isContinuation_tail _) (by omega)
        (by omega) (by omega) (by omega)) (isContinuation_tail _) (isContinuation_tail _),
      payload_tail, payload_tail, payload_tail, hlead, hchar (by omega)]
    rfl

end Utf8

namespace Percent

/-! ## Codes and spellings -/

/-- A hexadecimal digit in either case. -/
def isDigit (n : Nat) (a : Char) : Bool := a = Nat.digitChar n || a = (Nat.digitChar n).toUpper

/-- The code of some bytes: a percent sign and two digits for each. -/
def isCode : List UInt8 → List Char → Bool
  | [], [] => true
  | x :: bytes, p :: a :: b :: code =>
    p = '%' && isDigit (x.toNat / 16) a && isDigit (x.toNat % 16) b && isCode bytes code
  | _, _ => false

/-- A character is written as it is, unless it is a percent sign, or as the code of its bytes. -/
def writtenAs (c : Char) (written : List Char) : Bool :=
  (c ≠ '%' && written = [c]) || isCode (String.utf8EncodeChar c) written

/-- A text with some of its characters, among them every percent sign, replaced by their codes. -/
def Spells (text e : List Char) : Prop :=
  ∃ written, List.Forall₂ (fun c w => writtenAs c w = true) text written ∧ written.flatten = e

theorem value_isDigit {n : Nat} (hn : n < 16) {a : Char} (h : isDigit n a = true) :
    hexValue? a = some n ∧ isAscii a = true := by
  have hall : ∀ n < 16, (hexValue? (Nat.digitChar n) = some n ∧
      isAscii (Nat.digitChar n) = true) ∧ hexValue? (Nat.digitChar n).toUpper = some n ∧
        isAscii (Nat.digitChar n).toUpper = true := by
    decide
  unfold isDigit at h
  rw [Bool.or_eq_true, decide_eq_true_eq, decide_eq_true_eq] at h
  rcases h with rfl | rfl
  · exact (hall n hn).1
  · exact (hall n hn).2

/-- The code of a byte and of those after it. -/
theorem isCode_cons {x : UInt8} {bytes : List UInt8} {code : List Char}
    (h : isCode (x :: bytes) code = true) : ∃ a b rest, code = '%' :: a :: b :: rest ∧
      byte? a b = some x ∧ isAscii a = true ∧ isAscii b = true ∧ isCode bytes rest = true := by
  have hx : x.toNat < 256 := x.toNat_lt
  unfold isCode at h
  split at h
  · next hnil => cases hnil
  · next a b rest hbytes =>
    obtain ⟨rfl, rfl⟩ := List.cons.inj hbytes
    rw [Bool.and_eq_true, Bool.and_eq_true, Bool.and_eq_true, decide_eq_true_eq] at h
    obtain ⟨⟨⟨rfl, ha⟩, hb⟩, hrest⟩ := h
    obtain ⟨hvalue, hascii⟩ := value_isDigit (by omega) ha
    obtain ⟨hvalue', hascii'⟩ := value_isDigit (by omega) hb
    refine ⟨a, b, rest, rfl, ?_, hascii, hascii', hrest⟩
    unfold byte?
    rw [hvalue, hvalue']
    dsimp only
    rw [Nat.div_add_mod, UInt8.ofNat_toNat]
  · cases h

theorem isCode_ascii {bytes : List UInt8} {code : List Char} (h : isCode bytes code = true) :
    ∀ c ∈ code, isAscii c = true := by
  induction bytes generalizing code with
  | nil =>
    cases code with
    | nil => exact nofun
    | cons => cases h
  | cons x bytes ih =>
    obtain ⟨a, b, rest, rfl, -, ha, hb, hrest⟩ := isCode_cons h
    simp only [List.forall_mem_cons]
    exact ⟨rfl, ha, hb, ih hrest⟩

/-- The code of some bytes gives those bytes. -/
theorem runBytes_code {bytes : List UInt8} {code : List Char} (h : isCode bytes code = true)
    (after : List Char) : runBytes (code ++ after) = bytes ++ runBytes after := by
  induction bytes generalizing code with
  | nil =>
    cases code with
    | nil => rfl
    | cons => cases h
  | cons x bytes ih =>
    obtain ⟨a, b, rest, rfl, hbyte, -, -, hrest⟩ := isCode_cons h
    rw [List.cons_append, List.cons_append, List.cons_append, runBytes, hbyte]
    dsimp only
    rw [ih hrest, List.cons_append]

theorem runBytes_plain {c : Char} (hc : c ≠ '%') (rest : List Char) :
    runBytes (c :: rest) = UInt8.ofNat c.toNat :: runBytes rest := by
  rw [runBytes]
  exact fun _ _ _ hpercent _ => hc hpercent

/-! ## Runs -/

/-- What was gathered of a run of ASCII characters, last first, stands for whole characters,
whatever follows. -/
def Whole (run done : List Char) : Prop :=
  ∀ rest, Utf8.decodeLossy (runBytes (run.reverse ++ rest)) =
    done ++ Utf8.decodeLossy (runBytes rest)

theorem whole_nil : Whole [] [] := fun _ => rfl

theorem Whole.decode {run done : List Char} (h : Whole run done) :
    Utf8.decodeLossy (runBytes run.reverse) = done := by
  have hend := h []
  rwa [List.append_nil, show Utf8.decodeLossy (runBytes []) = [] from rfl, List.append_nil] at hend

/-- A run may go on with the code of a character. -/
theorem Whole.coded {run done : List Char} (h : Whole run done) {c : Char} {code : List Char}
    (hcode : isCode (String.utf8EncodeChar c) code = true) :
    Whole (code.reverse ++ run) (done ++ [c]) := by
  intro rest
  rw [List.reverse_append, List.reverse_reverse, List.append_assoc, h, runBytes_code hcode,
    Utf8.decodeLossy, Utf8.lossyFrom_encodeChar, List.append_assoc]
  rfl

/-- A run may go on with an ASCII character. -/
theorem Whole.plain {run done : List Char} (h : Whole run done) {c : Char} (hc : c ≠ '%')
    (hascii : isAscii c = true) : Whole (c :: run) (done ++ [c]) := by
  have hbytes : String.utf8EncodeChar c = [UInt8.ofNat c.toNat] :=
    if_pos (Nat.le_of_lt_succ (of_decide_eq_true hascii))
  intro rest
  rw [List.reverse_cons, List.append_assoc, h, List.singleton_append, runBytes_plain hc,
    ← List.singleton_append, ← hbytes, Utf8.decodeLossy, Utf8.lossyFrom_encodeChar,
    List.append_assoc]
  rfl

theorem decodeFrom_ascii {cs : List Char} (hcs : ∀ c ∈ cs, isAscii c = true)
    (run rest : List Char) : decodeFrom run (cs ++ rest) = decodeFrom (cs.reverse ++ run) rest := by
  induction cs generalizing run with
  | nil => rfl
  | cons c cs ih =>
    rw [List.cons_append, decodeFrom, if_pos (hcs c List.mem_cons_self),
      ih fun d hd => hcs d (List.mem_cons_of_mem c hd), List.reverse_cons, List.append_assoc]
    rfl

/-- The induction is on the characters; what it says of those before them is that they stand in a
run that could end here. -/
theorem decodeFrom_written {text : List Char} {written : List (List Char)}
    (h : List.Forall₂ (fun c w => writtenAs c w = true) text written) {run done : List Char}
    (hrun : Whole run done) : decodeFrom run written.flatten = done ++ text := by
  induction h generalizing run done with
  | nil => rw [List.flatten_nil, decodeFrom, hrun.decode, List.append_nil]
  | @cons c w text written hw _ ih =>
    unfold writtenAs at hw
    rw [Bool.or_eq_true, Bool.and_eq_true, decide_eq_true_eq, decide_eq_true_eq] at hw
    rw [List.flatten_cons]
    rcases hw with ⟨hc, rfl⟩ | hcode
    · rw [List.singleton_append, decodeFrom]
      split
      · next hascii =>
        rw [ih (hrun.plain hc hascii), List.append_assoc]
        rfl
      · rw [hrun.decode, ih whole_nil]
        rfl
    · rw [decodeFrom_ascii (isCode_ascii hcode), ih (hrun.coded hcode), List.append_assoc]
      rfl

/-- A spelling of a text stands for it. -/
theorem decode_spells {text e : String} (h : Spells text.toList e.toList) : decode e = text := by
  obtain ⟨written, hwritten, hflatten⟩ := h
  unfold decode
  rw [← hflatten, decodeFrom_written hwritten whole_nil, List.nil_append, String.ofList_toList]

end Percent
end Text

/-! ## Documents -/

namespace Json

/-- What starts with a percent sign is not JSON. -/
theorem read_percent {e : String} (h : e.toList.head? = some '%') :
    ∃ flaw position, read e = .error (.malformed flaw position) := by
  obtain ⟨rest, hrest⟩ := List.head?_eq_some_iff.1 h
  have hdocument : document ('%' :: rest) = .error (.flaw .value (rest.length + 1)) := rfl
  unfold read
  dsimp only
  rw [hrest, hdocument]
  exact ⟨_, _, rfl⟩

end Json

namespace Document

open Text.Percent (Spells)

/-- **A policy is the same however it is escaped.**  A JSON text of an object gives the document
that its record gives, also if there are percent signs in it; and so does every spelling of it that
starts with an encoded character. -/
theorem ofJson_spells {text : String} {ms : Json.Members} {d : Document}
    (hread : Json.read text = .ok (.obj ms)) (hd : ofJson (.obj ms) = .ok d) :
    ofJson (.str text) = .ok d ∧
      ∀ e : String, Spells text.toList e.toList → e.toList.head? = some '%' →
        ofJson (.str e) = .ok d := by
  constructor
  · show ofText text = .ok d
    unfold ofText
    rw [hread]
    exact hd
  · intro e he hhead
    obtain ⟨flaw, position, hmalformed⟩ := Json.read_percent hhead
    show ofText e = .ok d
    unfold ofText
    rw [hmalformed]
    dsimp only
    rw [Text.Percent.decode_spells he, hread]
    exact hd

/-- A name with a percent sign and an accent.  The brace, the colon, the percent sign and the two
bytes of the accented letter are encoded, the latter in digits of both cases. -/
theorem ofJson_spells_accent :
    let text := "\x7b\"Id\":\"5%\u00e9\"\x7d"
    let e := "%7B\"Id\"%3a\"5%25%c3%A9\"\x7d"
    let d : Document := ⟨[], defaultVersion, "5%\u00e9"⟩
    Json.read text = .ok (.obj [("Id", "5%\u00e9")]) ∧
      ofJson (.obj [("Id", "5%\u00e9")]) = .ok d ∧ Spells text.toList e.toList ∧
      e.toList.head? = some '%' ∧ ofJson (.str text) = .ok d ∧ ofJson (.str e) = .ok d := by
  intro text e d
  have hread : Json.read text = .ok (.obj [("Id", "5%\u00e9")]) := by cbv
  have hd : ofJson (.obj [("Id", "5%\u00e9")]) = .ok d := by cbv
  have he : Spells text.toList e.toList :=
    ⟨["%7B", "\"", "I", "d", "\"", "%3a", "\"", "5", "%25", "%c3%A9", "\"", "\x7d"].map
      String.toList, by decide, by decide⟩
  have hhead : e.toList.head? = some '%' := by decide
  obtain ⟨htext, hspelled⟩ := ofJson_spells hread hd
  exact ⟨hread, hd, he, hhead, htext, hspelled e he hhead⟩

end Document
end CloudAccess
