import CloudAccess.Proofs.Json.Proper
import CloudAccess.Proofs.Json.Strings
import Mathlib

/-!
# What is written is read

Proper values survive being written and read:

    v.Proper  →  read (writeIndented v) = .ok v                              (read_writeIndented)

The text of a value is read up to its end whatever follows it that is not part of a numeral
(`ReadsBack`), the text of a list and of an object by that of its parts.
-/

namespace CloudAccess.Json

/-! ## Definitions -/

/-- Nothing but blanks. -/
def Blank (cs : List Char) : Prop := ∀ c ∈ cs, isBlankChar c = true

/-- All that a layout sets parts apart by has a property. -/
structure Layout.Each (P : List Char → Prop) (layout : Layout) : Prop where
  afterOpen : ∀ level, P (layout.afterOpen level)
  afterComma : ∀ level, P (layout.afterComma level)
  beforeClose : ∀ level, P (layout.beforeClose level)

theorem Layout.each_indented {P : List Char → Prop} (h : ∀ n, P ('\n' :: List.replicate n ' ')) :
    Layout.indented.Each P := ⟨fun _ => h _, fun _ => h _, fun _ => h _⟩

/-- The text of the value is read as the value, up to its end. -/
def ReadsBack (layout : Layout) (v : Json) : Prop :=
  ∀ level fuel rest, EndsNumeral rest → 2 * (written layout level v).length ≤ fuel + 1 →
    value (fuel + 1) (written layout level v ++ rest) = .ok (v, rest)

/-! ## Steps -/

section

variable (fuel : Nat) (rest : List Char)

theorem value_quote : value (fuel + 1) ('"' :: rest) = (do
    let (s, out) ← stringFrom ('"' :: rest) rest
    .ok (.str (String.ofList s), out)) := rfl

theorem value_bracket : value (fuel + 1) ('[' :: rest) =
    (match skip rest with
    | ']' :: out => .ok (.arr [], out)
    | rest => do
      let (vs, out) ← items fuel rest
      .ok (.arr vs, out)) := rfl

theorem value_brace : value (fuel + 1) ('{' :: rest) =
    (match skip rest with
    | '}' :: out => .ok (.obj [], out)
    | rest => do
      let (ms, out) ← members fuel rest
      .ok (.obj (ms.foldl (fun seen (n, v) => setMember n v seen) []), out)) := rfl

end

attribute [local simp] written writtenItems writtenMembers

/-! ## Blanks -/

/-- Starts with something that is not a blank. -/
def NoBlank (cs : List Char) : Prop := ∀ c ∈ cs.head?, isBlankChar c = false

theorem skip_blanks {blanks rest : List Char} (hblanks : Blank blanks) (hrest : NoBlank rest) :
    skip (blanks ++ rest) = rest := by
  unfold skip
  rw [List.dropWhile_append_of_pos hblanks]
  cases rest with
  | nil => rfl
  | cons c rest => simp [hrest c rfl]

theorem endsNumeral_nil : EndsNumeral [] := ⟨nofun, nofun, nofun⟩

theorem endsNumeral_cons {c : Char} {rest : List Char} (hdigit : isDigit c = false)
    (hpoint : c ≠ '.') (hexponent : c ≠ 'e' ∧ c ≠ 'E') : EndsNumeral (c :: rest) := by
  refine ⟨?_, ?_, ?_⟩
  · rintro _ ⟨⟩
    exact hdigit
  · simpa using hpoint
  · rintro _ ⟨⟩
    exact hexponent

/-- A blank ends a numeral. -/
theorem endsNumeral_blanks {blanks rest : List Char} (hblanks : Blank blanks)
    (hrest : EndsNumeral rest) : EndsNumeral (blanks ++ rest) := by
  cases blanks with
  | nil => exact hrest
  | cons c blanks =>
    have hc := hblanks c List.mem_cons_self
    simp only [isBlankChar, Bool.or_eq_true, decide_eq_true_iff] at hc
    rcases hc with ((rfl | rfl) | rfl) | rfl <;>
      exact endsNumeral_cons (by decide) (by decide) (by decide)

/-! ## Numbers -/

variable {layout : Layout} {fuel : Nat} {ds rest : List Char}

/-- Starts with a digit. -/
def StartsDigit (ds : List Char) : Prop := ∃ c tail, ds = c :: tail ∧ isDigit c = true

theorem StartsDigit.of_digital (hne : ds ≠ []) (hds : Digital ds) : StartsDigit ds := by
  obtain ⟨c, tail, rfl⟩ := List.exists_cons_of_ne_nil hne
  exact ⟨c, tail, rfl, hds c List.mem_cons_self⟩

theorem StartsDigit.append (h : StartsDigit ds) : StartsDigit (ds ++ rest) := by
  obtain ⟨c, tail, rfl, hc⟩ := h
  exact ⟨c, tail ++ rest, rfl, hc⟩

theorem Numeral.Sound.startsDigit {k : Numeral} (hk : k.Sound) : StartsDigit k.text :=
  (StartsDigit.of_digital hk.whole_ne_nil hk.whole).append.append

/-- A sign that is written before digits. -/
def signText (negative : Bool) : List Char := if negative then ['-'] else []

theorem value_signed {negative : Bool} (h : StartsDigit ds) :
    value (fuel + 1) (signText negative ++ ds) =
      unsigned negative (signText negative ++ ds) ds := by
  obtain ⟨c, tail, rfl, hc⟩ := h
  have hne {d : Char} (hd : isDigit d = false) : c ≠ d := by
    rintro rfl
    rw [hc] at hd
    cases hd
  cases negative with
  | true =>
    show value (fuel + 1) ('-' :: c :: tail) = _
    rw [value]
    · rfl
    · exact fun _ h => hne rfl (List.cons.inj h).1
  | false =>
    show value (fuel + 1) (c :: tail) = _
    rw [value]
    · rfl
    all_goals exact fun _ h => hne rfl (List.cons.inj h).1

theorem startsDigit_natDigits (n : Nat) : StartsDigit (natDigits n) :=
  .of_digital (natDigits_ne_nil n) (digital_natDigits n)

theorem written_int {level : Nat} {n : Int} :
    written layout level (.int n) = signText (n < 0) ++ natDigits n.natAbs := by
  rw [written, intText, String.toList_ofList, signText]
  simp only [decide_eq_true_eq]

theorem readsBack_int {n : Int} (hn : (natDigits n.natAbs).length ≤ integerDigits) :
    ReadsBack layout (.int n) := by
  intro level fuel rest hrest _
  have hvalue : (if decide (n < 0) = true then -(n.natAbs : Int) else n.natAbs) = n := by
    simp only [decide_eq_true_eq]
    split <;> omega
  rw [written_int, List.append_assoc, value_signed (startsDigit_natDigits _).append,
    unsigned_natDigits hn hrest, hvalue]

theorem readsBack_float {x : Double} (hx : x.isNaN = true → x = .quietNaN) :
    ReadsBack layout (.float x) := by
  intro level fuel rest hrest _
  rw [written]
  cases hview : x.view with
  | nan =>
    rw [hx (by rw [Double.isNaN, hview]; rfl)]
    rfl
  | infinite negative =>
    rw [Double.view_of_infinite hview]
    cases negative <;> rfl
  | finite negative m e =>
    obtain ⟨k, hk, htext, hreading⟩ := exists_numeral hview
    rw [htext]
    show value (fuel + 1) (signText negative ++ k.text ++ rest) = _
    rw [List.append_assoc, value_signed hk.startsDigit.append, unsigned_text hk hrest, hreading]

/-! ## Where a value starts -/

/-- Starts with neither a blank nor a closing bracket nor a byte order mark. -/
def StartsValue (cs : List Char) : Prop :=
  ∃ c tail, cs = c :: tail ∧ isBlankChar c = false ∧ c ≠ ']' ∧ c ≠ '\ufeff'

theorem StartsDigit.startsValue {negative : Bool} (h : StartsDigit ds) :
    StartsValue (signText negative ++ ds) := by
  cases negative with
  | true => exact ⟨_, _, rfl, by decide, by decide, by decide⟩
  | false =>
    obtain ⟨c, tail, rfl, hc⟩ := h
    refine ⟨c, tail, rfl, ?_, ?_, ?_⟩
    · rw [Bool.eq_false_iff]
      intro hblank
      simp only [isBlankChar, Bool.or_eq_true, decide_eq_true_iff] at hblank
      rcases hblank with ((rfl | rfl) | rfl) | rfl <;> cases hc
    all_goals
      rintro rfl
      cases hc

theorem startsValue_written (layout : Layout) (level : Nat) (v : Json) :
    StartsValue (written layout level v) := by
  cases v with
  | null => exact ⟨_, _, rfl, by decide, by decide, by decide⟩
  | bool b => cases b <;> exact ⟨_, _, rfl, by decide, by decide, by decide⟩
  | int n =>
    rw [written_int]
    exact (startsDigit_natDigits _).startsValue
  | float x =>
    rw [written]
    cases hview : x.view with
    | nan =>
      rw [DecimalStyle.render, hview]
      exact ⟨_, _, rfl, by decide, by decide, by decide⟩
    | infinite negative =>
      rw [DecimalStyle.render, hview]
      cases negative <;> exact ⟨_, _, rfl, by decide, by decide, by decide⟩
    | finite negative m e =>
      obtain ⟨k, hk, htext, -⟩ := exists_numeral hview
      rw [htext]
      exact hk.startsDigit.startsValue
  | str s => exact ⟨_, _, rfl, by decide, by decide, by decide⟩
  | arr items => cases items <;> exact ⟨_, _, rfl, by decide, by decide, by decide⟩
  | obj ms => rcases ms with _ | ⟨⟨n, v⟩, ms⟩ <;> exact ⟨_, _, rfl, by decide, by decide, by decide⟩

theorem StartsValue.noBlank {cs : List Char} (h : StartsValue cs) : NoBlank (cs ++ rest) := by
  obtain ⟨c, tail, rfl, hc, -, -⟩ := h
  rintro _ ⟨⟩
  exact hc

/-! ## Lists -/

/-- What follows an item of a list: the other items and the closing bracket. -/
def itemsText (layout : Layout) (level : Nat) (vs : List Json) : List Char :=
  writtenItems layout level vs ++ layout.beforeClose level ++ [']']

theorem endsNumeral_itemsText (hlayout : layout.Each Blank) (level : Nat) (vs : List Json) :
    EndsNumeral (itemsText layout level vs ++ rest) := by
  cases vs with
  | nil =>
    rw [itemsText, writtenItems, List.nil_append, List.append_assoc]
    exact endsNumeral_blanks (hlayout.beforeClose level)
      (endsNumeral_cons (by decide) (by decide) (by decide))
  | cons v vs => exact endsNumeral_cons (by decide) (by decide) (by decide)

/-- An item is read, and what stands behind it is looked at. -/
theorem items_step (hlayout : layout.Each Blank) {level : Nat} {v : Json} {vs : List Json}
    (hv : ReadsBack layout v)
    (hfuel : 2 * (written layout (level + 1) v ++ itemsText layout level vs).length ≤ fuel + 1) :
    items (fuel + 1) (written layout (level + 1) v ++ itemsText layout level vs ++ rest) =
      match skip (itemsText layout level vs ++ rest) with
      | ']' :: out => .ok ([v], out)
      | ',' :: rest => do
        let (vs, out) ← items fuel (skip rest)
        .ok (v :: vs, out)
      | rest => .error (.flaw .comma rest.length) := by
  have hlength : 1 ≤ (itemsText layout level vs).length := by
    rw [itemsText, List.length_append, List.length_singleton]
    omega
  rw [List.length_append] at hfuel
  obtain ⟨fuel, rfl⟩ : ∃ k, fuel = k + 1 := Nat.exists_eq_succ_of_ne_zero (by omega)
  rw [List.append_assoc]
  show value (fuel + 1) (written layout (level + 1) v ++ (itemsText layout level vs ++ rest)) >>= _
    = _
  rw [hv (level + 1) fuel _ (endsNumeral_itemsText hlayout level vs) (by omega)]
  rfl

/-- Items that are read back one by one are read back as a list. -/
theorem items_written (hlayout : layout.Each Blank) (level : Nat) (vs : List Json) :
    ∀ v fuel, (∀ w ∈ v :: vs, ReadsBack layout w) →
      2 * (written layout (level + 1) v ++ itemsText layout level vs).length ≤ fuel + 1 →
      items (fuel + 1) (written layout (level + 1) v ++ itemsText layout level vs ++ rest) =
        .ok (v :: vs, rest) := by
  induction vs with
  | nil =>
    intro v fuel hread hfuel
    rw [items_step hlayout (hread v List.mem_cons_self) hfuel]
    have hskip : skip (itemsText layout level [] ++ rest) = ']' :: rest := by
      rw [itemsText, writtenItems, List.nil_append, List.append_assoc]
      exact skip_blanks (hlayout.beforeClose level) (by rintro _ ⟨⟩; rfl)
    rw [hskip]
    rfl
  | cons w vs ih =>
    intro v fuel hread hfuel
    obtain ⟨hv, hread⟩ := List.forall_mem_cons.1 hread
    rw [items_step hlayout hv hfuel]
    have htext : itemsText layout level (w :: vs) =
        ',' :: (layout.afterComma level ++ (written layout (level + 1) w ++
          itemsText layout level vs)) := by
      simp [itemsText]
    have hskip : skip (layout.afterComma level ++
        (written layout (level + 1) w ++ itemsText layout level vs ++ rest)) =
          written layout (level + 1) w ++ itemsText layout level vs ++ rest := by
      apply skip_blanks (hlayout.afterComma level)
      rw [List.append_assoc]
      exact (startsValue_written layout (level + 1) w).noBlank
    rw [htext, List.length_append, List.length_cons, List.length_append] at hfuel
    obtain ⟨fuel, rfl⟩ : ∃ k, fuel = k + 1 := Nat.exists_eq_succ_of_ne_zero (by omega)
    rw [htext, List.cons_append, List.append_assoc]
    show (do
      let (vs, out) ← items (fuel + 1) (skip _)
      .ok (v :: vs, out)) = _
    rw [hskip, ih w fuel hread (by omega), ok_bind]

theorem readsBack_arr (hlayout : layout.Each Blank) {vs : List Json}
    (hread : ∀ v ∈ vs, ReadsBack layout v) : ReadsBack layout (.arr vs) := by
  intro level fuel rest hrest hfuel
  cases vs with
  | nil => rfl
  | cons v vs =>
    have htext : written layout level (.arr (v :: vs)) = '[' :: (layout.afterOpen level ++
        (written layout (level + 1) v ++ itemsText layout level vs)) := by
      simp [itemsText]
    have hskip : skip (layout.afterOpen level ++
        (written layout (level + 1) v ++ itemsText layout level vs ++ rest)) =
          written layout (level + 1) v ++ itemsText layout level vs ++ rest := by
      apply skip_blanks (hlayout.afterOpen level)
      rw [List.append_assoc]
      exact (startsValue_written layout (level + 1) v).noBlank
    rw [htext, List.length_cons, List.length_append] at hfuel
    obtain ⟨fuel, rfl⟩ : ∃ k, fuel = k + 1 := Nat.exists_eq_succ_of_ne_zero (by omega)
    have hlength : 2 * (written layout (level + 1) v ++ itemsText layout level vs).length ≤
        fuel + 1 := by omega
    rw [htext, List.cons_append, List.append_assoc, value_bracket, hskip]
    split
    · next out hout =>
      obtain ⟨c, tail, hc, -, hne, -⟩ := startsValue_written layout (level + 1) v
      rw [hc] at hout
      exact absurd (List.cons.inj hout).1 hne
    · rw [items_written hlayout level vs v fuel hread hlength, ok_bind]

/-! ## Objects -/

/-- What follows a member of an object: the other members and the closing brace. -/
def membersText (layout : Layout) (level : Nat) (ms : Members) : List Char :=
  writtenMembers layout level ms ++ layout.beforeClose level ++ ['}']

/-- A member and what follows it. -/
def memberText (layout : Layout) (level : Nat) (n : String) (v : Json) (ms : Members) : List Char :=
  writtenString n ++ [':', ' '] ++ (written layout (level + 1) v ++ membersText layout level ms)

theorem endsNumeral_membersText (hlayout : layout.Each Blank) (level : Nat) (ms : Members) :
    EndsNumeral (membersText layout level ms ++ rest) := by
  cases ms with
  | nil =>
    rw [membersText, writtenMembers, List.nil_append, List.append_assoc]
    exact endsNumeral_blanks (hlayout.beforeClose level)
      (endsNumeral_cons (by decide) (by decide) (by decide))
  | cons m ms => exact endsNumeral_cons (by decide) (by decide) (by decide)

/-- A member is read, and what stands behind it is looked at. -/
theorem members_step (hlayout : layout.Each Blank) {level : Nat} {n : String} {v : Json}
    {ms : Members} (hv : ReadsBack layout v)
    (hfuel : 2 * (memberText layout level n v ms).length ≤ fuel + 1) :
    members (fuel + 1) (memberText layout level n v ms ++ rest) =
      match skip (membersText layout level ms ++ rest) with
      | '}' :: out => .ok ([(n, v)], out)
      | ',' :: rest => do
        let (ms, out) ← members fuel (skip rest)
        .ok ((n, v) :: ms, out)
      | rest => .error (.flaw .comma rest.length) := by
  have htext : memberText layout level n v ms ++ rest =
      '"' :: (n.toList.flatMap writtenChar ++ '"' :: ':' :: ' ' ::
        (written layout (level + 1) v ++ (membersText layout level ms ++ rest))) := by
    simp [memberText, writtenString]
  have hskip : skip (' ' :: (written layout (level + 1) v ++
      (membersText layout level ms ++ rest))) =
        written layout (level + 1) v ++ (membersText layout level ms ++ rest) :=
    skip_blanks (List.forall_mem_singleton.2 rfl) (startsValue_written layout (level + 1) v).noBlank
  rw [memberText, List.length_append, List.length_append, List.length_append] at hfuel
  have hlength : ([':', ' '] : List Char).length = 2 := rfl
  obtain ⟨fuel, rfl⟩ : ∃ k, fuel = k + 1 := Nat.exists_eq_succ_of_ne_zero (by omega)
  rw [htext]
  show stringFrom _ (n.toList.flatMap writtenChar ++ '"' :: _) >>= _ = _
  rw [stringFrom_written, ok_bind]
  show value (fuel + 1) (skip (' ' :: (written layout (level + 1) v ++
    (membersText layout level ms ++ rest)))) >>= _ = _
  rw [hskip, hv (level + 1) fuel _ (endsNumeral_membersText hlayout level ms) (by omega),
    String.ofList_toList]
  rfl

/-- The text of a member starts with a quote. -/
theorem memberText_eq (layout : Layout) (level : Nat) (n : String) (v : Json) (ms : Members) :
    ∃ tail, memberText layout level n v ms = '"' :: tail := ⟨_, rfl⟩

theorem skip_memberText {blanks : List Char} (hblanks : Blank blanks) (level : Nat) (n : String)
    (v : Json) (ms : Members) :
    skip (blanks ++ (memberText layout level n v ms ++ rest)) =
      memberText layout level n v ms ++ rest :=
  skip_blanks hblanks (by rintro _ ⟨⟩; rfl)

/-- Members whose values are read back one by one are read back together. -/
theorem members_written (hlayout : layout.Each Blank) (level : Nat) (ms : Members) :
    ∀ n v fuel, (∀ m ∈ (n, v) :: ms, ReadsBack layout m.2) →
      2 * (memberText layout level n v ms).length ≤ fuel + 1 →
      members (fuel + 1) (memberText layout level n v ms ++ rest) = .ok ((n, v) :: ms, rest) := by
  induction ms with
  | nil =>
    intro n v fuel hread hfuel
    rw [members_step hlayout (hread (n, v) List.mem_cons_self) hfuel]
    have hskip : skip (membersText layout level [] ++ rest) = '}' :: rest := by
      rw [membersText, writtenMembers, List.nil_append, List.append_assoc]
      exact skip_blanks (hlayout.beforeClose level) (by rintro _ ⟨⟩; rfl)
    rw [hskip]
    rfl
  | cons m ms ih =>
    intro n v fuel hread hfuel
    obtain ⟨n', w⟩ := m
    obtain ⟨hv, hread⟩ := List.forall_mem_cons.1 hread
    rw [members_step hlayout hv hfuel]
    have htext : membersText layout level ((n', w) :: ms) =
        ',' :: (layout.afterComma level ++ memberText layout level n' w ms) := by
      simp [membersText, memberText]
    rw [memberText, htext] at hfuel
    simp only [List.length_append, List.length_cons] at hfuel
    obtain ⟨fuel, rfl⟩ : ∃ k, fuel = k + 1 := Nat.exists_eq_succ_of_ne_zero (by omega)
    rw [htext, List.cons_append, List.append_assoc]
    show (do
      let (ms, out) ← members (fuel + 1) (skip _)
      .ok ((n, v) :: ms, out)) = _
    rw [skip_memberText (hlayout.afterComma level), ih n' w fuel hread (by omega), ok_bind]

theorem setMember_of_new {n : String} {v : Json} {ms : Members} (h : n ∉ ms.map (·.1)) :
    setMember n v ms = ms ++ [(n, v)] := by
  induction ms with
  | nil => rfl
  | cons m ms ih =>
    rw [List.map_cons, List.mem_cons, not_or] at h
    rw [setMember, if_neg (Ne.symm h.1), ih h.2, List.cons_append]

/-- Members with different names are kept as they come. -/
theorem foldl_setMember {ms : Members} (h : (ms.map (·.1)).Nodup) :
    ms.foldl (fun seen (n, v) => setMember n v seen) [] = ms := by
  induction ms using List.reverseRecOn with
  | nil => rfl
  | append_singleton ms m ih =>
    rw [List.map_append, List.nodup_append] at h
    obtain ⟨hms, -, hnew⟩ := h
    rw [List.foldl_append, ih hms]
    exact setMember_of_new fun hm => hnew _ hm _ List.mem_cons_self rfl

theorem readsBack_obj (hlayout : layout.Each Blank) {ms : Members}
    (hdistinct : (ms.map (·.1)).Nodup) (hread : ∀ m ∈ ms, ReadsBack layout m.2) :
    ReadsBack layout (.obj ms) := by
  intro level fuel rest hrest hfuel
  cases ms with
  | nil => rfl
  | cons m ms =>
    obtain ⟨n, v⟩ := m
    have htext : written layout level (.obj ((n, v) :: ms)) =
        '{' :: (layout.afterOpen level ++ memberText layout level n v ms) := by
      simp [memberText, membersText]
    rw [htext, List.length_cons, List.length_append] at hfuel
    obtain ⟨fuel, rfl⟩ : ∃ k, fuel = k + 1 := Nat.exists_eq_succ_of_ne_zero (by omega)
    have hlength : 2 * (memberText layout level n v ms).length ≤ fuel + 1 := by omega
    rw [htext, List.cons_append, List.append_assoc, value_brace,
      skip_memberText (hlayout.afterOpen level)]
    split
    · next out hout =>
      obtain ⟨tail, htail⟩ := memberText_eq layout level n v ms
      rw [htail] at hout
      cases hout
    · rw [members_written hlayout level ms n v fuel hread hlength, ok_bind]
      dsimp only
      rw [foldl_setMember hdistinct]

/-! ## Whole texts -/

theorem readsBack_str (s : String) : ReadsBack layout (.str s) := by
  intro level fuel rest _ _
  have htext : written layout level (.str s) ++ rest =
      '"' :: (s.toList.flatMap writtenChar ++ '"' :: rest) := by
    simp [writtenString]
  rw [htext, value_quote, stringFrom_written, ok_bind]
  dsimp only
  rw [String.ofList_toList]

theorem Proper.readsBack (hlayout : layout.Each Blank) {v : Json} (hv : v.Proper) :
    ReadsBack layout v := by
  induction hv with
  | null => exact fun _ _ _ _ _ => rfl
  | bool b => cases b <;> exact fun _ _ _ _ _ => rfl
  | int n short => exact readsBack_int short
  | float x one => exact readsBack_float one
  | str s => exact readsBack_str s
  | arr items _ ih => exact readsBack_arr hlayout ih
  | obj ms distinct _ ih => exact readsBack_obj hlayout distinct ih

theorem blank_indented : Layout.indented.Each Blank := by
  refine Layout.each_indented fun n c hc => ?_
  rcases List.mem_cons.1 hc with rfl | hc
  · rfl
  · rw [List.eq_of_mem_replicate hc]
    rfl

/-- What is written is read. -/
theorem read_writeIndented {v : Json} (hv : v.Proper) : read (writeIndented v) = .ok v := by
  have hread : value (2 * (written .indented 0 v).length + 2) (written .indented 0 v) =
      .ok (v, []) := by
    have h := hv.readsBack blank_indented 0 (2 * (written .indented 0 v).length + 1) []
      endsNumeral_nil (by omega)
    rwa [List.append_nil] at h
  have hskip : skip (written .indented 0 v) = written .indented 0 v := by
    have h : skip ([] ++ (written .indented 0 v ++ [])) = written .indented 0 v ++ [] :=
      skip_blanks nofun (startsValue_written .indented 0 v).noBlank
    rwa [List.nil_append, List.append_nil] at h
  have hdocument : document (written .indented 0 v) = .ok v := by
    unfold document
    split
    · next tail htail =>
      obtain ⟨c, tail', hc, -, -, hne⟩ := startsValue_written .indented 0 v
      rw [hc] at htail
      exact absurd (List.cons.inj htail).1 hne
    · rw [hskip, hread]
      rfl
  rw [read, writeIndented, String.toList_ofList, hdocument]

end CloudAccess.Json
