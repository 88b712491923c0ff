import EmailTemplate.Proofs.Template.Expansion
import EmailTemplate.Proofs.Template.Resolution

/-! The names that a template has in its tokens. In a row they are read off the pieces. -/

namespace EmailTemplate.Template

open Text

/-- The names in the openers of sections, wherever they begin. -/
def openedSections (t : List Char) : List (List Char) :=
  t.tails.filterMap fun s => (sectionAt? s).map fun p => p.1

/-- The names in the openers of loops, wherever they begin. -/
def openedLoops (t : List Char) : List (List Char) :=
  t.tails.filterMap fun s => (loopAt? s).map fun p => p.1

/-- The interiors of the tokens, blanks aside, those of sections and loops included. -/
def tokenNames (t : List Char) : List (List Char) :=
  t.tails.filterMap fun s => (valueToken? s).map fun p => trim p.1

theorem mem_openedSections {t name : List Char} :
    name ∈ openedSections t ↔ ∃ s rest, s <:+ t ∧ sectionAt? s = some (name, rest) := by
  simp [openedSections]

theorem mem_openedLoops {t name : List Char} :
    name ∈ openedLoops t ↔ ∃ s rest, s <:+ t ∧ loopAt? s = some (name, rest) := by
  simp [openedLoops]

theorem mem_tokenNames {t name : List Char} : name ∈ tokenNames t ↔
    ∃ s inner n, s <:+ t ∧ valueToken? s = some (inner, n) ∧ trim inner = name := by
  simp [tokenNames]

theorem mem_tokenNames_of_token {t w : List Char} (hw : BraceFree w) (h : token w <:+: t) :
    trim w ∈ tokenNames t := by
  obtain ⟨before, after, rfl⟩ := h
  have hat : valueToken? (token w ++ after) = some (w, (token w).length) :=
    tokenAt?_token_of_braceFree (by decide) (fun c hc => by simp [hc]) hw after
  refine mem_tokenNames.mpr ⟨_, w, _, ⟨before, ?_⟩, hat, rfl⟩
  rw [List.append_assoc]

/-! ### Names in a row -/

theorem valueToken?_eq_some {s inner : List Char} {n : Nat} (h : valueToken? s = some (inner, n)) :
    BraceFree inner ∧ ∃ rest, s = token inner ++ rest := by
  obtain ⟨rest, heq, hinner, -⟩ := tokenAt?_eq_some h
  refine ⟨fun c hc => ?_, rest, heq⟩
  simpa using hinner c hc

/-- In a row two opening braces stand only where a token begins. -/
theorem LooseRow.exists_token {row : List Piece} (h : LooseRow row) {s : List Char}
    (hs : s <:+ printRow row) (hp : openBraces <+: s) :
    ∃ inner rest, .value inner ∈ row ∧ s = token inner ++ rest := by
  induction row with
  | nil =>
    rw [printRow_nil, List.suffix_nil] at hs
    simp [hs, openBraces] at hp
  | cons p row ih =>
    obtain ⟨t, ht⟩ := hs
    rw [printRow_cons] at ht
    rcases List.append_eq_append_iff.mp ht with ⟨u, hprint, rfl⟩ | ⟨u, -, hrow⟩
    · by_cases hu : u = []
      · subst hu
        obtain ⟨inner, rest, hmem, heq⟩ :=
          ih (fun q hq => h q (List.mem_cons_of_mem p hq)) (List.suffix_refl _)
        exact ⟨inner, rest, List.mem_cons_of_mem p hmem, heq⟩
      · have hloose := h p List.mem_cons_self
        cases p with
        | text v => exact absurd hp (Loose.passes hloose _ t u hprint hu)
        | value inner =>
          have htail := passes_token_tail hloose [] (printRow row)
          have htoken : token inner = '{' :: ('{' :: (inner ++ closeBraces)) := by
            simp [token, openBraces]
          cases t with
          | nil =>
            have hwhole : u = token inner := hprint.symm
            exact ⟨inner, printRow row, List.mem_cons_self, by rw [hwhole]⟩
          | cons c t =>
            rw [Piece.print, htoken, List.cons_append, List.cons.injEq] at hprint
            exact absurd hp (htail t u hprint.2 hu)
    · obtain ⟨inner, rest, hmem, heq⟩ :=
        ih (fun q hq => h q (List.mem_cons_of_mem p hq)) ⟨u, hrow.symm⟩
      exact ⟨inner, rest, List.mem_cons_of_mem p hmem, heq⟩

theorem exists_suffix_of_mem {row : List Piece} {inner : List Char} (h : .value inner ∈ row) :
    ∃ rest, token inner ++ rest <:+ printRow row := by
  obtain ⟨before, after, rfl⟩ := List.append_of_mem h
  refine ⟨printRow after, printRow before, ?_⟩
  rw [printRow_append, printRow_cons, Piece.print]

theorem LooseRow.token_unique {row : List Piece} (h : LooseRow row) {s w rest : List Char}
    (hs : s <:+ printRow row) (hw : BraceFree w) (heq : s = token w ++ rest) :
    .value w ∈ row := by
  have hp : openBraces <+: s := ⟨w ++ closeBraces ++ rest, by simp [heq, token]⟩
  obtain ⟨inner, rest', hmem, heq'⟩ := h.exists_token hs hp
  have hinner : BraceFree inner := h _ hmem
  have hword : w = inner :=
    eq_of_prefix_token hw.close_not_mem hinner.close_not_mem ⟨rest, heq.symm.trans heq'⟩
  rwa [hword]

theorem LooseRow.of_mem_openedLoops {row : List Piece} (h : LooseRow row) {name : List Char}
    (hn : name ∈ openedLoops (printRow row)) : ∃ w, LoopWord w name ∧ .value w ∈ row := by
  obtain ⟨s, rest, hs, hat⟩ := mem_openedLoops.mp hn
  obtain ⟨w, hw, heq⟩ := loopAt?_eq_some hat
  exact ⟨w, hw, h.token_unique hs hw.braceFree heq⟩

theorem LooseRow.of_mem_tokenNames {row : List Piece} (h : LooseRow row) {name : List Char}
    (hn : name ∈ tokenNames (printRow row)) : ∃ w, trim w = name ∧ .value w ∈ row := by
  obtain ⟨s, w, n, hs, hat, hname⟩ := mem_tokenNames.mp hn
  obtain ⟨hw, rest, heq⟩ := valueToken?_eq_some hat
  exact ⟨w, hname, h.token_unique hs hw heq⟩

section Members

variable {row : List Piece} {w name : List Char} (h : .value w ∈ row)
include h

theorem mem_openedSections_printRow (hname : IsName name) (hw : w = openerWord name) :
    name ∈ openedSections (printRow row) := by
  obtain ⟨rest, hs⟩ := exists_suffix_of_mem h
  rw [hw, ← sectionOpener_eq] at hs
  exact mem_openedSections.mpr ⟨_, rest, hs, sectionAt?_opener hname rest⟩

theorem mem_openedLoops_printRow (hw : LoopWord w name) : name ∈ openedLoops (printRow row) := by
  obtain ⟨rest, hs⟩ := exists_suffix_of_mem h
  exact mem_openedLoops.mpr ⟨_, rest, hs, loopAt?_token hw rest⟩

theorem mem_tokenNames_printRow (hw : BraceFree w) : trim w ∈ tokenNames (printRow row) := by
  obtain ⟨rest, hs⟩ := exists_suffix_of_mem h
  exact mem_tokenNames_of_token hw ((List.prefix_append _ rest).isInfix.trans hs.isInfix)

end Members

/-! ### Names that want a value -/

theorem collect_printRow {row : List Piece} (h : LooseRow row) :
    collect (fun t => (valueToken? t).map fun (inner, length) => (trim inner, length)) (printRow row) =
      row.filterMap fun p => match p with
        | .text _ => none
        | .value w => some (trim w) := by
  have hother : ∀ s, ¬ openBraces <+: s →
      (valueToken? s).map (fun (inner, length) => (trim inner, length)) = none := by
    intro s hs
    rw [valueToken?, tokenAt?_eq_none hs, Option.map_none]
  induction row with
  | nil => rfl
  | cons p row ih =>
    have hp : p.Loose := h p List.mem_cons_self
    have hrest := ih fun q hq => h q (List.mem_cons_of_mem p hq)
    rw [printRow_cons]
    cases p with
    | text s =>
      rw [Piece.print, collect_idle (Passes.idle hother (Loose.passes hp _)), hrest]
      rfl
    | value w =>
      have hat : valueToken? (token w ++ printRow row) = some (w, (token w).length) :=
        tokenAt?_token_of_braceFree (by decide) (fun c hc => by simp [hc]) hp _
      rw [Piece.print, collect_match (token_ne_nil w) (by rw [hat]; rfl), hrest]
      rfl

theorem mem_placeholderNames {t name : List Char} : name ∈ placeholderNames t ↔
    name ≠ [] ∧ name.head? ≠ some '#' ∧ name.head? ≠ some '/' ∧
      name ∈ collect (fun t => (valueToken? t).map fun (inner, length) => (trim inner, length)) t := by
  have hdedup : ∀ (found done : List (List Char)), name ∈ found.foldl
      (fun done name => if done.contains name then done else done ++ [name]) done ↔
        name ∈ done ∨ name ∈ found := by
    intro found
    induction found with
    | nil => simp
    | cons first found ih =>
      intro done
      rw [List.foldl_cons, ih]
      by_cases hfirst : first ∈ done
      · have hcontains : done.contains first = true := by simpa using hfirst
        rw [if_pos hcontains]
        constructor
        · rintro (h | h)
          · exact .inl h
          · exact .inr (List.mem_cons_of_mem _ h)
        · rintro (h | h)
          · exact .inl h
          · rcases List.mem_cons.mp h with rfl | h
            · exact .inl hfirst
            · exact .inr h
      · have hcontains : ¬ done.contains first = true := by simpa using hfirst
        rw [if_neg hcontains]
        simp [or_assoc]
  rw [placeholderNames, hdedup]
  cases name with
  | nil => simp
  | cons c name =>
    simp
    tauto

/-- A placeholder has a token, whose word is its name up to blanks. -/
theorem exists_token_of_mem_placeholderNames {t name : List Char} (h : name ∈ placeholderNames t) :
    ∃ w, BraceFree w ∧ token w <:+: t ∧ trim w = name := by
  obtain ⟨-, -, -, hmem⟩ := mem_placeholderNames.mp h
  obtain ⟨s, _, hs, hat⟩ := exists_of_mem_collectFrom hmem
  obtain ⟨⟨w, n⟩, hread, hname⟩ := Option.map_eq_some_iff.mp hat
  obtain ⟨hw, rest, rfl⟩ := valueToken?_eq_some hread
  exact ⟨w, hw, (List.prefix_append _ rest).isInfix.trans hs.isInfix, (Prod.mk.inj hname).1⟩

theorem mem_placeholderNames_printRow {row : List Piece} (h : LooseRow row) {name : List Char} :
    name ∈ placeholderNames (printRow row) ↔ ∃ w, .value w ∈ row ∧ trim w = name ∧ Wanted w := by
  rw [mem_placeholderNames, collect_printRow h, List.mem_filterMap]
  constructor
  · rintro ⟨hne, hopen, hclose, p, hp, hname⟩
    cases p with
    | text s => simp at hname
    | value w =>
      obtain rfl := Option.some.inj hname
      exact ⟨w, hp, rfl, h _ hp, hne, hopen, hclose⟩
  · rintro ⟨w, hw, rfl, -, hne, hopen, hclose⟩
    exact ⟨hne, hopen, hclose, .value w, hw, rfl⟩

/-- A token begins in another one only where that begins. -/
theorem eq_nil_of_token_tail {u w before z after rest : List Char} (hu : BraceFree u) {c : Char}
    (htoken : token u = c :: (before ++ z)) (hrest : token w ++ after = z ++ rest) : z = [] := by
  by_contra hz
  have hopen : token u = '{' :: ('{' :: (u ++ closeBraces)) := by simp [token, openBraces]
  have htail : '{' :: (u ++ closeBraces) = before ++ z := (List.cons.inj (hopen.symm.trans htoken)).2
  refine passes_token_tail hu [] rest before z htail hz ?_
  rw [← hrest, List.append_nil, token_append]
  exact ⟨_, rfl⟩

/-- Every token is read, whatever braces stand around it. -/
theorem mem_placeholderNames_of_token {t w : List Char} (hw : Wanted w) (h : token w <:+: t) :
    trim w ∈ placeholderNames t := by
  obtain ⟨before, after, rfl⟩ := h
  refine mem_placeholderNames.mpr ⟨hw.2.1, hw.2.2.1, hw.2.2.2, ?_⟩
  rw [List.append_assoc]
  induction hn : before.length using Nat.strongRecOn generalizing before with
  | ind n ih =>
    cases before with
    | nil =>
      have hat : valueToken? (token w ++ after) = some (w, (token w).length) :=
        tokenAt?_token_of_braceFree (by decide) (fun c hc => by simp [hc]) hw.1 after
      rw [List.nil_append, collect_match (token_ne_nil w) (by rw [hat]; rfl)]
      exact List.mem_cons_self
    | cons c before =>
      cases hat : valueToken? (c :: before ++ (token w ++ after)) with
      | none =>
        have hidle : Idle (fun t => (valueToken? t).map fun (inner, length) => (trim inner, length))
            [c] (before ++ (token w ++ after)) :=
          Idle.cons (by simpa using hat) fun v x hvx hx =>
            absurd (List.append_eq_nil_iff.mp hvx.symm).2 hx
        have hrest := ih before.length (by simp [← hn]) before rfl
        rwa [← collect_idle hidle] at hrest
      | some found =>
        obtain ⟨u, length⟩ := found
        obtain ⟨hu, rest, heq⟩ := valueToken?_eq_some hat
        obtain ⟨z, hbefore⟩ : ∃ z, c :: before = token u ++ z := by
          rcases List.append_eq_append_iff.mp heq with ⟨z, htoken, hrest⟩ | ⟨z, hbefore, -⟩
          · have hz := eq_nil_of_token_tail hu htoken hrest
            exact ⟨[], by rw [htoken, hz, List.cons_append, List.append_nil, List.append_nil]⟩
          · exact ⟨z, hbefore⟩
        have hlong := congrArg List.length hbefore
        simp only [List.length_cons, List.length_append, length_token] at hlong hn
        have hread : valueToken? (token u ++ (z ++ (token w ++ after))) =
            some (u, (token u).length) :=
          tokenAt?_token_of_braceFree (by decide) (fun c hc => by simp [hc]) hu _
        rw [hbefore, List.append_assoc, collect_match (token_ne_nil u) (by rw [hread]; rfl)]
        exact List.mem_cons_of_mem _ (ih z.length (by omega) z rfl)

end EmailTemplate.Template
