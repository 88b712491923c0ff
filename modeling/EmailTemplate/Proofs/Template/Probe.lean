import EmailTemplate.Proofs.Template.Meaning

/-! The tokens that a loop has values of its own for, and data in which it has one. -/

namespace EmailTemplate.Template

open Text

/-! ### Tokens of a turn -/

/-- A loop over the list may have a value of its own for the token of the word. -/
def OfTurn (list w : List Char) : Prop := w = indexWord ∨ list ++ ['.'] <+: w

instance (list w : List Char) : Decidable (OfTurn list w) :=
  inferInstanceAs (Decidable (w = indexWord ∨ list ++ ['.'] <+: w))

theorem IsName.not_blank {name : List Char} (h : IsName name) : ∀ c ∈ name, isBlank c = false :=
  fun c hc => isBlank_of_isNameChar (h.2 c hc)

theorem OfTurn.trim {list w : List Char} (hlist : IsName list) (h : OfTurn list w) :
    OfTurn list (trim w) := by
  rcases h with rfl | ⟨s, rfl⟩
  · have hindex : Text.trim indexWord = indexWord := by decide
    exact .inl hindex
  · have hpoint : isBlank '.' = false := by decide
    have htrim := trim_append_cons hlist.not_blank hpoint s
    rw [List.append_assoc, List.cons_append, List.nil_append, htrim]
    exact .inr ⟨trimRight s, by simp⟩

theorem Turn.value?_eq_none {turn : Turn} {w : List Char} (h : ¬ OfTurn turn.list w) :
    turn.value? w = none := by
  obtain ⟨hindex, hfield⟩ := not_or.mp h
  rw [Turn.value?, after?_eq_none_iff.mpr hfield]
  simp [hindex]

theorem boundValue?_trim (values : Bindings) (w : List Char) :
    boundValue? values (trim w) = boundValue? values w := by
  rw [boundValue?, boundValue?, trim_trim]

theorem valueOf_trim {data : Json.Value} {turn : Option Turn} {w : List Char}
    (h : ∀ u ∈ turn, u.value? (trim w) = u.value? w) :
    valueOf data turn (trim w) = valueOf data turn w := by
  have hturn : turn.bind (·.value? (trim w)) = turn.bind (·.value? w) := by
    cases turn with
    | none => rfl
    | some u => exact h u rfl
  rw [valueOf, valueOf, hturn, boundValue?_trim]

/-! ### One item with one field -/

/-- Data that show the sections of some names, with one list of one item with one field. -/
def probe (names : List (List Char)) (list key : List Char) : Json.Value :=
  .object [("blocks", .object (names.map fun name => (String.ofList name, .bool true))),
    (String.ofList list, .array [.object [(String.ofList key, .string "value")]])]

/-- The one turn of a loop over the list. -/
def probeTurn (list key : List Char) : Turn :=
  ⟨list, .object [(String.ofList key, .string "value")], 0⟩

section Probe

variable {names : List (List Char)} {list key : List Char}

theorem isVisible_probe {name : List Char} (h : name ∈ names) :
    isVisible (probe names list key) name = true := by
  have hlookup : Json.lookup? (String.ofList name)
      (names.map fun name => (String.ofList name, Json.Value.bool true)) = some (.bool true) := by
    induction names with
    | nil => simp at h
    | cons first names ih =>
      rw [List.map_cons, Json.lookup?]
      by_cases hfirst : String.ofList first = String.ofList name
      · rw [if_pos hfirst]
      · rw [if_neg hfirst]
        refine ih ((List.mem_cons.mp h).resolve_left ?_)
        rintro rfl
        exact hfirst rfl
  simp [isVisible, probe, Json.Value.get?, Json.lookup?, hlookup, Json.Value.asBool?]

theorem itemsOf_probe (hlist : list ≠ "blocks".toList) (name : List Char) :
    itemsOf (probe names list key) name = if name = list then [(probeTurn list key).item] else [] := by
  by_cases hname : name = list
  · subst hname
    have hblocks : "blocks" ≠ String.ofList name := fun he => hlist (by simp [he])
    simp [itemsOf, probe, probeTurn, Json.Value.get?, Json.lookup?, hblocks, Json.Value.asArray?]
  · have hother : String.ofList list ≠ String.ofList name := fun he =>
      hname (String.ofList_injective he).symm
    by_cases hblocks : "blocks" = String.ofList name
    · simp [itemsOf, probe, Json.Value.get?, Json.lookup?, ← hblocks, hname, Json.Value.asArray?]
    · simp [itemsOf, probe, Json.Value.get?, Json.lookup?, hblocks, hother, hname]

theorem mem_flattenMembers_true {p : String × String} {done : Bindings} (h : p ∈ flattenMembers
    "blocks" done (names.map fun name => (String.ofList name, .bool true))) :
    p ∈ done ∨ (p.1.toList.head? = some 'b' ∧ p.2 = "true") := by
  induction names generalizing done with
  | nil => exact .inl h
  | cons name names ih =>
    rw [List.map_cons, flattenMembers, flattenAt] at h
    rcases ih h with h | h
    · rcases Json.mem_insertMember h with rfl | h
      · exact .inr ⟨by simp [joinPath], rfl⟩
      · exact .inl h
    · exact .inr h

theorem mem_flatten_probe {p : String × String} (h : p ∈ flatten (probe names list key)) :
    p.1.toList.head? = some 'b' ∧ p.2 = "true" := by
  have hp : p ∈ flattenMembers "blocks" [] (names.map fun name => (String.ofList name, .bool true)) := by
    simpa [flatten, probe, flattenMembers, flattenAt, joinPath] using h
  exact (mem_flattenMembers_true hp).resolve_left List.not_mem_nil

theorem probe_braceFree (hnames : ∀ name ∈ names, BraceFree name) (hlist : BraceFree list)
    (hkey : BraceFree key) : (probe names list key).BraceFree := by
  have htexts : Json.textsOfMembers (names.map fun name =>
      (String.ofList name, Json.Value.bool true)) = names.map String.ofList := by
    induction names with
    | nil => rfl
    | cons name names ih =>
      rw [List.map_cons, Json.textsOfMembers, ih fun n hn => hnames n (List.mem_cons_of_mem _ hn)]
      rfl
  have hwords : BraceFree "blocks".toList ∧ BraceFree "value".toList := by decide
  intro s hs
  simp only [probe, Json.Value.texts, Json.textsOfMembers, Json.textsOfItems, htexts,
    List.append_nil, List.mem_cons, List.mem_append, List.mem_map, List.not_mem_nil, or_false] at hs
  rcases hs with rfl | ⟨name, hname, rfl⟩ | rfl | rfl | rfl
  · exact hwords.1
  · rw [String.toList_ofList]
    exact hnames name hname
  · rwa [String.toList_ofList]
  · rwa [String.toList_ofList]
  · exact hwords.2

/-- By its name a token has less text than in the turn. -/
theorem length_boundValue?_lt (names : List (List Char)) {w text : List Char}
    (h : (probeTurn list key).value? w = some text) :
    ((boundValue? (flatten (probe names list key)) w).getD []).length < text.length := by
  have hbound : ∀ put, boundValue? (flatten (probe names list key)) w = some put →
      (trim w).head? = some 'b' ∧ put = "true".toList := by
    intro put hput
    obtain ⟨value, hvalue, rfl⟩ := Option.map_eq_some_iff.mp hput
    obtain ⟨hhead, htext⟩ := mem_flatten_probe (Json.mem_of_lookup? hvalue)
    rw [String.toList_ofList] at hhead
    exact ⟨hhead, congrArg String.toList htext⟩
  rw [Turn.value?] at h
  split at h
  · next field hfield =>
    obtain ⟨k, -, hget⟩ := Option.bind_eq_some_iff.mp hfield
    have htext : field = .string "value" := by
      have hone := Json.mem_of_lookup? hget
      simp only [List.mem_singleton, Prod.mk.injEq] at hone
      exact hone.2
    obtain rfl := Option.some.inj h
    rw [htext]
    cases hb : boundValue? (flatten (probe names list key)) w with
    | none => decide
    | some put =>
      rw [(hbound put hb).2]
      decide
  · split at h
    · next hindex =>
      obtain rfl := Option.some.inj h
      have hnone : boundValue? (flatten (probe names list key)) w = none := by
        rw [Option.eq_none_iff_forall_ne_some]
        intro put hput
        have hhead := (hbound put hput).1
        rw [hindex] at hhead
        revert hhead
        decide
      have hfirst : (probeTurn list key).index = 0 := rfl
      rw [hnone, hfirst]
      decide
    · simp at h

/-- No padded token is the token of the field or of the index. -/
theorem value?_probeTurn_of_ne {w : List Char}
    (hkey : trim (list ++ '.' :: key) = list ++ '.' :: key) (hw : trim w ≠ w) :
    (probeTurn list key).value? w = none := by
  rw [Turn.value?]
  split
  · next field hfield =>
    obtain ⟨k, hafter, hget⟩ := Option.bind_eq_some_iff.mp hfield
    have hword := after?_eq_some_iff.mp hafter
    have hk : String.ofList k = String.ofList key := by
      have hone := Json.mem_of_lookup? hget
      simp only [List.mem_singleton, Prod.mk.injEq] at hone
      exact hone.1
    refine absurd ?_ hw
    rw [hword, String.ofList_injective hk]
    simpa [probeTurn] using hkey
  · rw [if_neg]
    rintro rfl
    revert hw
    decide

/-- In its turn a padded token leaves less text, and nowhere more. -/
theorem length_valueOf_probe (names : List (List Char))
    (hkey : trim (list ++ '.' :: key) = list ++ '.' :: key) (w : List Char) {turn : Option Turn}
    (hturn : ∀ u ∈ turn, u = probeTurn list key) :
    (valueOf (probe names list key) turn w).length ≤
        (valueOf (probe names list key) turn (trim w)).length ∧
      (turn.isSome → trim w ≠ w → (probeTurn list key).value? (trim w) ≠ none →
        (valueOf (probe names list key) turn w).length <
          (valueOf (probe names list key) turn (trim w)).length) := by
  by_cases hw : trim w = w
  · rw [hw]
    exact ⟨le_refl _, fun _ hne => absurd rfl hne⟩
  have hnone := value?_probeTurn_of_ne hkey hw
  cases turn with
  | none =>
    have hsame : valueOf (probe names list key) none (trim w) = valueOf (probe names list key) none w :=
      valueOf_trim fun u hu => by simp at hu
    exact ⟨hsame ▸ le_refl _, fun h => by simp at h⟩
  | some u =>
    obtain rfl := hturn u rfl
    have hpadded : valueOf (probe names list key) (some (probeTurn list key)) w =
        (boundValue? (flatten (probe names list key)) (trim w)).getD [] := by
      simp [valueOf, hnone, boundValue?_trim]
    cases hown : (probeTurn list key).value? (trim w) with
    | none =>
      have hboth : ∀ u ∈ some (probeTurn list key), u.value? (trim w) = u.value? w := by
        rintro u ⟨⟩
        rw [hown, hnone]
      have hsame : valueOf (probe names list key) (some (probeTurn list key)) (trim w) =
          valueOf (probe names list key) (some (probeTurn list key)) w := valueOf_trim hboth
      exact ⟨hsame ▸ le_refl _, fun _ _ h => absurd rfl h⟩
    | some text =>
      have hlt := length_boundValue?_lt names hown
      have hplain : valueOf (probe names list key) (some (probeTurn list key)) (trim w) = text := by
        simp [valueOf, hown]
      rw [hpadded, hplain]
      exact ⟨hlt.le, fun _ _ _ => hlt⟩

end Probe

/-- For a word that a loop may have a value for there is an item that has one. -/
theorem exists_key_of_turn {list w : List Char} (hlist : IsName list) (hw : BraceFree w)
    (htrim : Text.trim w = w) (h : OfTurn list w) : ∃ key, BraceFree key ∧
      Text.trim (list ++ '.' :: key) = list ++ '.' :: key ∧ (probeTurn list key).value? w ≠ none := by
  rcases h with rfl | ⟨key, hkey⟩
  · have hpoint : isBlank '.' = false := by decide
    refine ⟨[], BraceFree.nil, trim_append_cons hlist.not_blank hpoint [], ?_⟩
    rw [Turn.value?]
    split <;> simp
  · have hword : w = list ++ '.' :: key := by rw [← hkey, List.append_assoc]; rfl
    subst hword
    have hfield : (probeTurn list key).value? (list ++ '.' :: key) = some "value".toList := by
      have hafter : after? (list ++ ['.']) (list ++ '.' :: key) = some key := by
        rw [after?_eq_some_iff, List.append_assoc]
        rfl
      simp [Turn.value?, probeTurn, hafter, Json.Value.get?, Json.lookup?, Json.Value.stringify]
    refine ⟨key, (braceFree_cons.mp (braceFree_append.mp hw).2).2, htrim, ?_⟩
    simp [hfield]

end EmailTemplate.Template
