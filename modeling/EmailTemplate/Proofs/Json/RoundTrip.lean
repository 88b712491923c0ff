import EmailTemplate.Json.Decode
import EmailTemplate.Json.Printer
import Mathlib.Tactic.SplitIfs

/-! Printed values are read back, be they on one line or indented. Values with numbers are left
out. -/

namespace EmailTemplate.Json

open Text

/-! ### Strings -/

theorem hexDigit?_hexDigit {n : Nat} (h : n < 16) : hexDigit? (hexDigit n) = some n := by
  have hall : ∀ n < 16, hexDigit? (hexDigit n) = some n := by decide
  exact hall n h

theorem utf8Size_hexDigit {n : Nat} (h : n < 16) : (hexDigit n).utf8Size = 1 := by
  have hall : ∀ n < 16, (hexDigit n).utf8Size = 1 := by decide
  exact hall n h

theorem scanString_unit (c : Char) (done rest : List Char) (h : c.toNat < 32) :
    scanString .plain false done
        ('\\' :: 'u' :: '0' :: '0' :: hexDigit (c.toNat / 16) :: hexDigit (c.toNat % 16) :: rest) =
      scanString .plain false (c :: done) rest := by
  have hhigh : c.toNat / 16 < 16 := by omega
  have hlow : c.toNat % 16 < 16 := by omega
  have hunit : 16 * (c.toNat / 16) + c.toNat % 16 = c.toNat := by omega
  have hzero : hexDigit? '0' = some 0 := by decide
  have hbytes : hasBytes 4
      ('0' :: '0' :: hexDigit (c.toNat / 16) :: hexDigit (c.toNat % 16) :: rest) = true := by
    have hsize : '0'.utf8Size = 1 := by decide
    simp [hasBytes, hsize, utf8Size_hexDigit hhigh, utf8Size_hexDigit hlow]
  have hmove : unitMove c.toNat none = .go .plain (some c) false := by
    rw [unitMove, if_neg (by omega), if_neg (by omega), Char.ofNat_toNat]
  simp [scanString, move, plainMove, escapeMove, hbytes, hzero, hexDigit?_hexDigit hhigh,
    hexDigit?_hexDigit hlow, hunit, hmove]

theorem scanString_escapeChar (c : Char) (done rest : List Char) :
    scanString .plain false done (escapeChar c ++ rest) =
      scanString .plain false (c :: done) rest := by
  unfold escapeChar
  split_ifs with hquote hslash hline hreturn htab hback hfeed hcontrol
  · subst hquote
    simp [scanString, move, plainMove, escapeMove]
  · subst hslash
    simp [scanString, move, plainMove, escapeMove]
  · subst hline
    simp [scanString, move, plainMove, escapeMove]
  · subst hreturn
    simp [scanString, move, plainMove, escapeMove]
  · subst htab
    simp [scanString, move, plainMove, escapeMove]
  · obtain rfl : c = Char.ofNat 8 := by rw [← hback, Char.ofNat_toNat]
    simp [scanString, move, plainMove, escapeMove]
  · obtain rfl : c = Char.ofNat 12 := by rw [← hfeed, Char.ofNat_toNat]
    simp [scanString, move, plainMove, escapeMove]
  · exact scanString_unit c done rest hcontrol
  · simp [scanString, move, plainMove, hquote, hslash, hcontrol]

theorem scanString_escaped (text done rest : List Char) :
    scanString .plain false done (text.flatMap escapeChar ++ '"' :: rest) =
      ⟨some (done.reverse ++ text), .ok rest⟩ := by
  induction text generalizing done with
  | nil => simp [scanString, move, plainMove]
  | cons c text ih =>
    rw [List.flatMap_cons, List.append_assoc, scanString_escapeChar, ih]
    simp

theorem readString_quote (s : String) (rest : List Char) :
    readString (s.toList.flatMap escapeChar ++ '"' :: rest) = (.string s, some rest) := by
  simp [readString, scanString_escaped]

theorem quote_append (s : String) (rest : List Char) :
    quote s ++ rest = '"' :: (s.toList.flatMap escapeChar ++ '"' :: rest) := by
  simp [quote]

/-! ### Layouts -/

/-- How a value is laid out: the gap before an item or a member and before the closing bracket, by
the depth, and the gap after a colon. -/
structure Layout where
  line : Nat → List Char
  space : List Char
  line_gap : ∀ depth, ∀ c ∈ line depth, isGap c
  space_gap : ∀ c ∈ space, isGap c

def Layout.compact : Layout where
  line _ := []
  space := []
  line_gap := by simp
  space_gap := by simp

@[simp]
theorem Layout.line_compact (depth : Nat) : Layout.compact.line depth = [] := rfl

@[simp]
theorem Layout.space_compact : Layout.compact.space = [] := rfl

def Layout.indented : Layout where
  line := newLine
  space := [' ']
  line_gap depth c hc := by
    rcases List.mem_cons.mp hc with rfl | hc
    · rfl
    · rw [List.eq_of_mem_replicate hc]
      rfl
  space_gap := List.forall_mem_singleton.mpr rfl

@[simp]
theorem Layout.line_indented (depth : Nat) : Layout.indented.line depth = newLine depth := rfl

@[simp]
theorem Layout.space_indented : Layout.indented.space = [' '] := rfl

section

variable (l : Layout)

mutual

def Value.text (depth : Nat) : Value → List Char
  | .null => ['n', 'u', 'l', 'l']
  | .bool true => ['t', 'r', 'u', 'e']
  | .bool false => ['f', 'a', 'l', 's', 'e']
  | .number n => n.text.toList
  | .string s => quote s
  | .array [] => ['[', ']']
  | .array (v :: rest) => '[' :: l.line (depth + 1) ++ v.text (depth + 1) ++ moreItems depth rest
  | .object [] => ['{', '}']
  | .object ((k, v) :: rest) =>
    '{' :: l.line (depth + 1) ++ quote k ++ ':' :: l.space ++ v.text (depth + 1) ++
      moreMembers depth rest

/-- What stands after an item, up to the closing bracket. -/
def moreItems (depth : Nat) : List Value → List Char
  | [] => l.line depth ++ [']']
  | v :: rest => ',' :: l.line (depth + 1) ++ v.text (depth + 1) ++ moreItems depth rest

def moreMembers (depth : Nat) : List (String × Value) → List Char
  | [] => l.line depth ++ ['}']
  | (k, v) :: rest =>
    ',' :: l.line (depth + 1) ++ quote k ++ ':' :: l.space ++ v.text (depth + 1) ++
      moreMembers depth rest

end

end

/-! ### Values -/

mutual

/-- No number is in the value. -/
def Value.Numberless : Value → Prop
  | .number _ => False
  | .array items => itemsNumberless items
  | .object members => membersNumberless members
  | _ => True

def itemsNumberless : List Value → Prop
  | [] => True
  | v :: rest => v.Numberless ∧ itemsNumberless rest

def membersNumberless : List (String × Value) → Prop
  | [] => True
  | (_, v) :: rest => v.Numberless ∧ membersNumberless rest

end

theorem skipGap_append {gap : List Char} (h : ∀ c ∈ gap, isGap c) (s : List Char) :
    skipGap (gap ++ s) = skipGap s :=
  List.dropWhile_append_of_pos h

theorem skipGap_cons {c : Char} (h : isGap c = false) (s : List Char) : skipGap (c :: s) = c :: s :=
  List.dropWhile_cons_of_neg (by simp [h])

section

variable (l : Layout)

/-- A printed value begins with a character that is no gap and closes nothing. -/
theorem exists_text_eq_cons (depth : Nat) {v : Value} (h : v.Numberless) :
    ∃ c rest, v.text l depth = c :: rest ∧ isGap c = false ∧ c ≠ ']' := by
  cases v with
  | null => exact ⟨_, _, rfl, by decide, by decide⟩
  | bool b => cases b <;> exact ⟨_, _, rfl, by decide, by decide⟩
  | number n => exact h.elim
  | string s => exact ⟨_, _, rfl, by decide, by decide⟩
  | array items => cases items <;> exact ⟨_, _, rfl, by decide, by decide⟩
  | object members => cases members <;> exact ⟨_, _, rfl, by decide, by decide⟩

/-! ### Steps of the reader -/

theorem readValue_gap {gap : List Char} (h : ∀ c ∈ gap, isGap c) (fuel : Nat) (s : List Char) :
    readValue fuel (gap ++ s) = readValue fuel s := by
  cases fuel with
  | zero => simp only [readValue]
  | succ fuel => rw [readValue, readValue, skipGap_append h]

/-- What stands before an item or a member: a comma, unless it is the first. -/
def comma (first : Bool) : List Char := if first then [] else [',']

theorem readItems_item {fuel depth : Nat} (first : Bool) {gap tail rest : List Char} {v : Value}
    {drafts : List Draft} (hv : v.Numberless) (hgap : ∀ c ∈ gap, isGap c)
    (hread : readValue fuel (v.text l depth ++ tail) = (Draft.ofValue v, some tail))
    (htail : readItems fuel false tail = (drafts, none, some rest)) :
    readItems (fuel + 1) first (comma first ++ (gap ++ (v.text l depth ++ tail))) =
      (Draft.ofValue v :: drafts, none, some rest) := by
  cases first with
  | true =>
    obtain ⟨c, t, htext, hc, hclose⟩ := exists_text_eq_cons l depth hv
    have hskip : skipGap (gap ++ (v.text l depth ++ tail)) = v.text l depth ++ tail := by
      rw [skipGap_append hgap, htext, List.cons_append, skipGap_cons hc]
    rw [comma, if_pos rfl, List.nil_append, readItems, hskip, htext, List.cons_append]
    simp only [if_true]
    rw [← List.cons_append, ← htext, hread]
    simp only [htail]
  | false =>
    have hskip : ∀ s, skipGap (',' :: s) = ',' :: s := skipGap_cons (by decide)
    rw [comma, if_neg (by decide), List.singleton_append, readItems, hskip]
    simp [readValue_gap hgap, hread, htail]

theorem readMembers_member {fuel depth : Nat} (first : Bool) {gap space tail rest : List Char}
    (key : String) {v : Value} {drafts : List (Option String × Draft)}
    (hgap : ∀ c ∈ gap, isGap c) (hspace : ∀ c ∈ space, isGap c)
    (hread : readValue fuel (v.text l depth ++ tail) = (Draft.ofValue v, some tail))
    (htail : readMembers fuel false tail = (drafts, none, some rest)) :
    readMembers (fuel + 1) first
        (comma first ++ (gap ++ (quote key ++ ':' :: (space ++ (v.text l depth ++ tail))))) =
      ((some key, Draft.ofValue v) :: drafts, none, some rest) := by
  have hquote : ∀ s, skipGap ('"' :: s) = '"' :: s := skipGap_cons (by decide)
  have hcolon : ∀ s, skipGap (':' :: s) = ':' :: s := skipGap_cons (by decide)
  have hcomma : ∀ s, skipGap (',' :: s) = ',' :: s := skipGap_cons (by decide)
  cases first with
  | true =>
    simp [comma, readMembers, skipGap_append hgap, quote_append, hquote, hcolon,
      scanString_escaped, readValue_gap hspace, hread, htail]
  | false =>
    simp [comma, readMembers, skipGap_append hgap, quote_append, hquote, hcolon, hcomma,
      scanString_escaped, readValue_gap hspace, hread, htail]

theorem readItems_close (fuel : Nat) (first : Bool) {gap : List Char} (rest : List Char)
    (hgap : ∀ c ∈ gap, isGap c) :
    readItems (fuel + 1) first (gap ++ ']' :: rest) = ([], none, some rest) := by
  have hskip : skipGap (']' :: rest) = ']' :: rest := skipGap_cons (by decide) rest
  simp [readItems, skipGap_append hgap, hskip]

theorem readMembers_close (fuel : Nat) (first : Bool) {gap : List Char} (rest : List Char)
    (hgap : ∀ c ∈ gap, isGap c) :
    readMembers (fuel + 1) first (gap ++ '}' :: rest) = ([], none, some rest) := by
  have hskip : skipGap ('}' :: rest) = '}' :: rest := skipGap_cons (by decide) rest
  simp [readMembers, skipGap_append hgap, hskip]

theorem readValue_array {fuel : Nat} {s rest : List Char} {drafts : List Draft}
    (h : readItems fuel true s = (drafts, none, some rest)) :
    readValue (fuel + 1) ('[' :: s) = (.array drafts none, some rest) := by
  have hskip : skipGap ('[' :: s) = '[' :: s := skipGap_cons (by decide) s
  simp [readValue, hskip, h]

theorem readValue_object {fuel : Nat} {s rest : List Char} {drafts : List (Option String × Draft)}
    (h : readMembers fuel true s = (drafts, none, some rest)) :
    readValue (fuel + 1) ('{' :: s) = (.object drafts none, some rest) := by
  have hskip : skipGap ('{' :: s) = '{' :: s := skipGap_cons (by decide) s
  simp [readValue, hskip, h]

/-! ### Whole values -/

theorem text_pos (depth : Nat) {v : Value} (h : v.Numberless) : 0 < (v.text l depth).length := by
  obtain ⟨c, t, htext, -, -⟩ := exists_text_eq_cons l depth h
  rw [htext]
  exact Nat.succ_pos _

theorem moreItems_pos (depth : Nat) (items : List Value) :
    0 < (moreItems l depth items).length := by
  cases items <;> simp [moreItems]

theorem moreMembers_pos (depth : Nat) (members : List (String × Value)) :
    0 < (moreMembers l depth members).length := by
  cases members <;> simp [moreMembers]

mutual

/-- A value is read from its text with as much fuel as the text has characters. -/
theorem readValue_text (depth : Nat) (rest : List Char) : ∀ (fuel : Nat) {v : Value},
    v.Numberless → (v.text l depth).length ≤ fuel →
      readValue fuel (v.text l depth ++ rest) = (Draft.ofValue v, some rest)
  | 0, _, h, hfuel => absurd hfuel (Nat.not_le.mpr (text_pos l depth h))
  | fuel + 1, .null, _, _ => by
    simp [Value.text, readValue, skipGap_cons, isGap, readWord, Draft.ofValue]
  | fuel + 1, .bool true, _, _ => by
    simp [Value.text, readValue, skipGap_cons, isGap, readWord, Draft.ofValue]
  | fuel + 1, .bool false, _, _ => by
    simp [Value.text, readValue, skipGap_cons, isGap, readWord, Draft.ofValue]
  | _ + 1, .number _, h, _ => h.elim
  | fuel + 1, .string s, _, _ => by
    simp [Value.text, quote_append, readValue, skipGap_cons, isGap, readString_quote,
      Draft.ofValue]
  | fuel + 1, .array [], _, hfuel => by
    have hpos : fuel ≠ 0 := by
      rintro rfl
      simp [Value.text] at hfuel
    obtain ⟨fuel, rfl⟩ := Nat.exists_eq_succ_of_ne_zero hpos
    have hgap : ∀ c ∈ ([] : List Char), isGap c := by simp
    exact readValue_array (readItems_close fuel true rest hgap)
  | fuel + 1, .array (v :: items), h, hfuel => by
    have hpos := text_pos l (depth + 1) h.1
    have hmore := moreItems_pos l depth items
    simp only [Value.text, List.length_cons, List.length_append] at hfuel
    have hne : fuel ≠ 0 := by omega
    obtain ⟨fuel, rfl⟩ := Nat.exists_eq_succ_of_ne_zero hne
    have hread := readValue_text (depth + 1) (moreItems l depth items ++ rest) fuel h.1 (by omega)
    have htail := readItems_more depth rest fuel h.2 (by omega)
    have hitems := readItems_item l true h.1 (l.line_gap (depth + 1)) hread htail
    rw [Value.text]
    simpa [comma, Draft.ofValue, ofItems] using readValue_array hitems
  | fuel + 1, .object [], _, hfuel => by
    have hpos : fuel ≠ 0 := by
      rintro rfl
      simp [Value.text] at hfuel
    obtain ⟨fuel, rfl⟩ := Nat.exists_eq_succ_of_ne_zero hpos
    have hgap : ∀ c ∈ ([] : List Char), isGap c := by simp
    exact readValue_object (readMembers_close fuel true rest hgap)
  | fuel + 1, .object ((k, v) :: members), h, hfuel => by
    have hpos := text_pos l (depth + 1) h.1
    have hmore := moreMembers_pos l depth members
    simp only [Value.text, List.length_cons, List.length_append] at hfuel
    have hne : fuel ≠ 0 := by omega
    obtain ⟨fuel, rfl⟩ := Nat.exists_eq_succ_of_ne_zero hne
    have hread := readValue_text (depth + 1) (moreMembers l depth members ++ rest) fuel h.1
      (by omega)
    have htail := readMembers_more depth rest fuel h.2 (by omega)
    have hmembers := readMembers_member l true k (l.line_gap (depth + 1))
      l.space_gap hread htail
    rw [Value.text]
    simpa [comma, Draft.ofValue, ofMembers] using readValue_object hmembers

theorem readItems_more (depth : Nat) (rest : List Char) : ∀ (fuel : Nat) {items : List Value},
    itemsNumberless items → (moreItems l depth items).length ≤ fuel →
      readItems fuel false (moreItems l depth items ++ rest) = (ofItems items, none, some rest)
  | 0, items, _, hfuel => absurd hfuel (Nat.not_le.mpr (moreItems_pos l depth items))
  | fuel + 1, [], _, _ => by
    simpa [moreItems, ofItems] using readItems_close fuel false rest (l.line_gap depth)
  | fuel + 1, v :: items, h, hfuel => by
    have hpos := text_pos l (depth + 1) h.1
    simp only [moreItems, List.length_cons, List.length_append] at hfuel
    have hread := readValue_text (depth + 1) (moreItems l depth items ++ rest) fuel h.1 (by omega)
    have htail := readItems_more depth rest fuel h.2 (by omega)
    have hitems := readItems_item l false h.1 (l.line_gap (depth + 1)) hread htail
    rw [moreItems, ofItems]
    simpa [comma] using hitems

theorem readMembers_more (depth : Nat) (rest : List Char) :
    ∀ (fuel : Nat) {members : List (String × Value)}, membersNumberless members →
      (moreMembers l depth members).length ≤ fuel →
      readMembers fuel false (moreMembers l depth members ++ rest) =
        (ofMembers members, none, some rest)
  | 0, members, _, hfuel => absurd hfuel (Nat.not_le.mpr (moreMembers_pos l depth members))
  | fuel + 1, [], _, _ => by
    simpa [moreMembers, ofMembers] using readMembers_close fuel false rest (l.line_gap depth)
  | fuel + 1, (k, v) :: members, h, hfuel => by
    have hpos := text_pos l (depth + 1) h.1
    simp only [moreMembers, List.length_cons, List.length_append] at hfuel
    have hread := readValue_text (depth + 1) (moreMembers l depth members ++ rest) fuel h.1
      (by omega)
    have htail := readMembers_more depth rest fuel h.2 (by omega)
    have hmembers := readMembers_member l false k (l.line_gap (depth + 1)) l.space_gap hread htail
    rw [moreMembers, ofMembers]
    simpa [comma] using hmembers

end

theorem parse_text {v : Value} (h : v.Numberless) :
    Draft.parse (String.ofList (v.text l 0)) = (Draft.ofValue v, none) := by
  have hread := readValue_text l 0 [] ((v.text l 0).length + 1) h (by omega)
  rw [List.append_nil] at hread
  simp [Draft.parse, hread, skipGap]

end

/-! ### The two layouts -/

theorem compactItems_cons (v : Value) (rest : List Value) : compactItems (v :: rest) =
    v.compact ++ if rest = [] then [] else ',' :: compactItems rest := by
  cases rest <;> simp [compactItems]

theorem compactMembers_cons (key : String) (v : Value) (rest : List (String × Value)) :
    compactMembers ((key, v) :: rest) =
      quote key ++ ':' :: v.compact ++ if rest = [] then [] else ',' :: compactMembers rest := by
  cases rest <;> simp [compactMembers]

theorem indentedItems_cons (depth : Nat) (v : Value) (rest : List Value) :
    indentedItems depth (v :: rest) =
      newLine depth ++ v.indented depth ++
        if rest = [] then [] else ',' :: indentedItems depth rest := by
  cases rest <;> simp [indentedItems]

theorem indentedMembers_cons (depth : Nat) (key : String) (v : Value)
    (rest : List (String × Value)) : indentedMembers depth ((key, v) :: rest) =
      newLine depth ++ quote key ++ ':' :: ' ' :: v.indented depth ++
        if rest = [] then [] else ',' :: indentedMembers depth rest := by
  cases rest <;> simp [indentedMembers]

mutual

theorem text_compact (depth : Nat) : ∀ v : Value, v.text .compact depth = v.compact
  | .null => rfl
  | .bool true => rfl
  | .bool false => rfl
  | .number _ => rfl
  | .string _ => rfl
  | .array [] => rfl
  | .array (v :: rest) => by
    simp [Value.compact, Value.text, compactItems_cons, text_compact (depth + 1) v,
      moreItems_compact depth rest]
  | .object [] => rfl
  | .object ((k, v) :: rest) => by
    simp [Value.compact, Value.text, compactMembers_cons, text_compact (depth + 1) v,
      moreMembers_compact depth rest]

theorem moreItems_compact (depth : Nat) : ∀ rest : List Value,
    moreItems .compact depth rest = (if rest = [] then [] else ',' :: compactItems rest) ++ [']']
  | [] => rfl
  | v :: rest => by
    simp [moreItems, compactItems_cons, text_compact (depth + 1) v, moreItems_compact depth rest]

theorem moreMembers_compact (depth : Nat) : ∀ rest : List (String × Value),
    moreMembers .compact depth rest =
      (if rest = [] then [] else ',' :: compactMembers rest) ++ ['}']
  | [] => rfl
  | (k, v) :: rest => by
    simp [moreMembers, compactMembers_cons, text_compact (depth + 1) v,
      moreMembers_compact depth rest]

end

mutual

theorem text_indented (depth : Nat) : ∀ v : Value, v.text .indented depth = v.indented depth
  | .null => rfl
  | .bool true => rfl
  | .bool false => rfl
  | .number _ => rfl
  | .string _ => rfl
  | .array [] => rfl
  | .array (v :: rest) => by
    simp [Value.indented, Value.text, indentedItems_cons, text_indented (depth + 1) v,
      moreItems_indented depth rest]
  | .object [] => rfl
  | .object ((k, v) :: rest) => by
    simp [Value.indented, Value.text, indentedMembers_cons, text_indented (depth + 1) v,
      moreMembers_indented depth rest]

theorem moreItems_indented (depth : Nat) : ∀ rest : List Value,
    moreItems .indented depth rest =
      (if rest = [] then [] else ',' :: indentedItems (depth + 1) rest) ++ newLine depth ++ [']']
  | [] => rfl
  | v :: rest => by
    simp [moreItems, indentedItems_cons, text_indented (depth + 1) v,
      moreItems_indented depth rest]

theorem moreMembers_indented (depth : Nat) : ∀ rest : List (String × Value),
    moreMembers .indented depth rest =
      (if rest = [] then [] else ',' :: indentedMembers (depth + 1) rest) ++ newLine depth ++ ['}']
  | [] => rfl
  | (k, v) :: rest => by
    simp [moreMembers, indentedMembers_cons, text_indented (depth + 1) v,
      moreMembers_indented depth rest]

end

theorem parse_toLine {v : Value} (h : v.Numberless) :
    Draft.parse v.toLine = (Draft.ofValue v, none) := by
  rw [Value.toLine, ← text_compact 0, parse_text .compact h]

theorem parse_pretty {v : Value} (h : v.Numberless) :
    Draft.parse v.pretty = (Draft.ofValue v, none) := by
  rw [Value.pretty, ← text_indented, parse_text .indented h]

end EmailTemplate.Json
