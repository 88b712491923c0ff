import EmailTemplate.Proofs.Template.Names
import EmailTemplate.Template.Render

/-! What rendering depends on. Whatever the template, two data that answer alike what the passes ask
are rendered alike. Where tokens stand apart and lists bring no braces, the passes ask for nothing
but what the template names. -/

namespace EmailTemplate.Template

open Text

/-! ### What the passes ask -/

/-- Two data that answer alike whatever the passes over a template ask. -/
structure SameAnswers (t : List Char) (d e : Json.Value) : Prop where
  sections : ∀ name, AsksFor (isVisible d) name t → isVisible d name = isVisible e name
  loops : ∀ name ∈ openedLoops (resolveBlocks t d),
    d.get? (String.ofList name) = e.get? (String.ofList name)
  values : ∀ name ∈ tokenNames (expandLoops (resolveBlocks t d) d),
    Json.lookup? (String.ofList name) (flatten d) = Json.lookup? (String.ofList name) (flatten e)

theorem expandLoops_congr {t : List Char} {d e : Json.Value} (h : ∀ name ∈ openedLoops t,
    d.get? (String.ofList name) = e.get? (String.ofList name)) :
    expandLoops t d = expandLoops t e := by
  refine replaceMatches_congr fun s hs => ?_
  cases hat : loopAt? s with
  | none => simp only [loopStep, hat, Option.map_none]
  | some found =>
    obtain ⟨name, rest⟩ := found
    have hsame := h name (mem_openedLoops.mpr ⟨s, rest, hs, hat⟩)
    simp only [loopStep, hat, Option.map_some, hsame]

theorem substitute_congr {t : List Char} {values values' : Bindings} (h : ∀ name ∈ tokenNames t,
    Json.lookup? (String.ofList name) values = Json.lookup? (String.ofList name) values') :
    substitute values t = substitute values' t := by
  refine replaceMatches_congr fun s hs => ?_
  cases hat : valueToken? s with
  | none => rfl
  | some found =>
    obtain ⟨inner, n⟩ := found
    have hsame := h (trim inner) (mem_tokenNames.mpr ⟨s, inner, n, hs, hat, rfl⟩)
    simp only [Option.map_some, hsame]

theorem SameAnswers.renderHtml {t : List Char} {d e : Json.Value} (h : SameAnswers t d e) :
    renderHtml t d = renderHtml t e := by
  have hblocks : resolveBlocks t d = resolveBlocks t e := resolveSections_congr t h.sections
  have hloops : expandLoops (resolveBlocks t d) d = expandLoops (resolveBlocks t e) e := by
    rw [expandLoops_congr h.loops, hblocks]
  rw [Template.renderHtml, Template.renderHtml, substitute_congr h.values, hloops]

/-! ### Loops of rows -/

theorem splitFirst?_loopCloser {row : List Piece} (h : LooseRow row) :
    splitFirst? loopCloser (printRow row) = none ∨
      ∃ before after, row = before ++ .value ['/', 'e', 'a', 'c', 'h'] :: after ∧
        splitFirst? loopCloser (printRow row) = some (printRow before, printRow after) := by
  refine splitFirst?_printRow (by decide) (fun s hs t => ?_) fun inner hi => h _ hi
  have hloose : Loose s := h _ hs
  exact passes_of_openBraces (hloose.passes t) _

/-- Items without braces leave a row a row, with no token that was not there. -/
theorem expandItems_printRow {name : List Char} (hname : IsName name) {row : List Piece}
    (h : LooseRow row) {items : Option Json.Value}
    (hitems : ∀ v, items = some v → v.BraceFree) :
    ∃ row', LooseRow row' ∧ expandItems name (printRow row) items = printRow row' ∧
      ∀ w, .value w ∈ row' → .value w ∈ row := by
  have hfree : ∀ item ∈ (items.bind (·.asArray?)).getD [], item.BraceFree := by
    intro item hitem
    cases items with
    | none => simp at hitem
    | some v =>
      cases v with
      | array list => exact (hitems _ rfl).item hitem
      | _ => simp [Json.Value.asArray?] at hitem
  refine ⟨((items.bind (·.asArray?)).getD []).zipIdx.flatMap fun turn =>
    row.map (Piece.fill (Turn.value? ⟨name, turn.1, turn.2⟩)), ?_, ?_, ?_⟩
  · intro p hp
    obtain ⟨⟨item, index⟩, hitem, hp⟩ := List.mem_flatMap.mp hp
    exact h.fill (Turn.value?_braceFree (hfree item (List.fst_mem_of_mem_zipIdx hitem))) p hp
  · rw [expandItems, printRow_flatMap]
    refine List.flatMap_congr ?_
    rintro ⟨item, index⟩ hitem
    exact expandItem_printRow hname (hfree item (List.fst_mem_of_mem_zipIdx hitem)) index h
  · intro w hw
    obtain ⟨⟨item, index⟩, -, hw⟩ := List.mem_flatMap.mp hw
    obtain ⟨p, hp, hfill⟩ := List.mem_map.mp hw
    exact Piece.eq_of_fill_eq_value hfill ▸ hp

theorem loopStep_braceless (data : Json.Value) {s : List Char} (h : ¬ openBraces <+: s) :
    loopStep data s = none :=
  loopStep_eq_none data fun hp => h (List.IsPrefix.trans (List.prefix_append openBraces _) hp)

theorem Piece.Loose.idle {p : Piece} (h : p.Loose)
    (hno : ¬ ∃ w name, LoopWord w name ∧ p = .value w) (data : Json.Value) (s : List Char) :
    Idle (loopStep data) p.print s := by
  cases p with
  | text t => exact Passes.idle (fun s => loopStep_braceless data) (Template.Loose.passes h s)
  | value inner =>
    have hinner : BraceFree inner := h
    refine idle_token (fun s => loopStep_braceless data) hinner ?_
    cases hat : loopAt? (token inner ++ s) with
    | none => rw [loopStep, hat, Option.map_none]
    | some found =>
      obtain ⟨name, rest⟩ := found
      obtain ⟨w, hw, heq⟩ := loopAt?_eq_some hat
      have hword := eq_of_prefix_token hw.braceFree.close_not_mem hinner.close_not_mem
        ⟨rest, heq.symm⟩
      exact absurd ⟨w, name, hw, congrArg Piece.value hword.symm⟩ hno

/-- Expanding the loops of a row leaves a row, with no token that was not there. -/
structure Expanded (data : Json.Value) (row row' : List Piece) : Prop where
  loose : LooseRow row'
  leaves : expandLoops (printRow row) data = printRow row'
  keeps : ∀ w, .value w ∈ row' → .value w ∈ row

namespace Expanded

variable {data : Json.Value} {row row' : List Piece}

theorem cons (h : Expanded data row row') {p : Piece} (hp : p.Loose)
    (hfirst : expandLoops (printRow (p :: row)) data = p.print ++ expandLoops (printRow row) data) :
    Expanded data (p :: row) (p :: row') := by
  refine ⟨List.forall_mem_cons.mpr ⟨hp, h.loose⟩, ?_, fun w hw => ?_⟩
  · rw [hfirst, h.leaves, printRow_cons]
  · rcases List.mem_cons.mp hw with hw | hw
    · exact hw ▸ List.mem_cons_self
    · exact List.mem_cons_of_mem p (h.keeps w hw)

theorem closed {w name : List Char} {before after items : List Piece} {closer : Piece}
    (h : Expanded data after row') (hw : LoopWord w name)
    (hsome : splitFirst? loopCloser (printRow (before ++ closer :: after)) =
      some (printRow before, printRow after))
    (hloose : LooseRow items)
    (hitems : expandItems name (printRow before) (data.get? (String.ofList name)) = printRow items)
    (hkeeps : ∀ x, .value x ∈ items → .value x ∈ before) :
    Expanded data (.value w :: (before ++ closer :: after)) (items ++ row') := by
  refine ⟨List.forall_mem_append.mpr ⟨hloose, h.loose⟩, ?_, fun x hx => ?_⟩
  · rw [printRow_cons, Piece.print, expandLoops_token data hw hsome, hitems, h.leaves,
      printRow_append]
  · apply List.mem_cons_of_mem
    rcases List.mem_append.mp hx with hx | hx
    · exact List.mem_append_left _ (hkeeps x hx)
    · exact List.mem_append_right _ (List.mem_cons_of_mem _ (h.keeps x hx))

end Expanded

theorem LooseRow.exists_expanded (data : Json.Value) {row : List Piece} (h : LooseRow row)
    (hlists : ∀ w name, .value w ∈ row → LoopWord w name →
      ∀ v, data.get? (String.ofList name) = some v → v.BraceFree) :
    ∃ row', Expanded data row row' := by
  -- By the length of the row, as a loop goes on behind its closer.
  induction hn : row.length using Nat.strongRecOn generalizing row with
  | ind n ih =>
    cases row with
    | nil => exact ⟨[], h, rfl, fun w hw => hw⟩
    | cons p row =>
      rw [List.length_cons] at hn
      obtain ⟨hloose, hrow⟩ : p.Loose ∧ LooseRow row := List.forall_mem_cons.mp h
      have hrest : ∀ part : List Piece, part ⊆ row → ∀ w name, .value w ∈ part → LoopWord w name →
          ∀ v, data.get? (String.ofList name) = some v → v.BraceFree :=
        fun part hpart w name hw => hlists w name (List.mem_cons_of_mem p (hpart hw))
      by_cases hp : ∃ w name, LoopWord w name ∧ p = .value w
      · obtain ⟨w, name, hw, rfl⟩ := hp
        rcases splitFirst?_loopCloser hrow with hnone | ⟨before, after, rfl, hsome⟩
        · obtain ⟨row', hexpanded⟩ := ih row.length (by omega) hrow (hrest row fun _ h => h) rfl
          exact ⟨_, hexpanded.cons hloose (expandLoops_lone data hw hnone)⟩
        · have hlength : after.length < n := by
            rw [← hn, List.length_append, List.length_cons]
            omega
          obtain ⟨hbefore, hbehind⟩ := List.forall_mem_append.mp hrow
          have hafter : LooseRow after := (List.forall_mem_cons.mp hbehind).2
          obtain ⟨items, hitems, hput, hkeeps⟩ := expandItems_printRow hw.1 hbefore
            (hlists w name List.mem_cons_self hw)
          obtain ⟨row', hexpanded⟩ := ih _ hlength hafter (hrest after fun q hq =>
            List.mem_append_right _ (List.mem_cons_of_mem _ hq)) rfl
          exact ⟨_, hexpanded.closed hw hsome hitems hput hkeeps⟩
      · have hidle := hloose.idle hp data (printRow row)
        obtain ⟨row', hexpanded⟩ := ih row.length (by omega) hrow (hrest row fun _ h => h) rfl
        exact ⟨_, hexpanded.cons hloose (replaceMatches_idle hidle)⟩

/-! ### Tokens that stand apart -/

/-- Every two opening braces begin a token without braces inside, and no brace opens at the end. -/
def Sealed (t : List Char) : Prop :=
  (∀ s ∈ t.tails, openBraces <+: s → (valueToken? s).isSome = true) ∧ t.getLast? ≠ some '{'

instance (t : List Char) : Decidable (Sealed t) :=
  inferInstanceAs (Decidable
    ((∀ s ∈ t.tails, openBraces <+: s → (valueToken? s).isSome = true) ∧ t.getLast? ≠ some '{'))

theorem Sealed.of_suffix {s t : List Char} (h : Sealed t) (hs : s <:+ t) : Sealed s := by
  refine ⟨fun u hu => h.1 u ?_, fun hlast => h.2 ?_⟩
  · rw [List.mem_tails] at hu ⊢
    exact hu.trans hs
  · obtain ⟨u, rfl⟩ := hs
    rw [List.getLast?_append, hlast, Option.some_or]

theorem Sealed.exists_row {t : List Char} (h : Sealed t) :
    ∃ row, LooseRow row ∧ printRow row = t := by
  induction hn : t.length using Nat.strongRecOn generalizing t with
  | ind n ih =>
    by_cases hp : openBraces <+: t
    · obtain ⟨⟨inner, k⟩, hat⟩ := Option.isSome_iff_exists.mp (h.1 t (by simp) hp)
      obtain ⟨hinner, rest, rfl⟩ := valueToken?_eq_some hat
      have hlength : rest.length < n := by
        rw [← hn, List.length_append, length_token]
        omega
      obtain ⟨row, hrow, hprint⟩ := ih _ hlength (h.of_suffix (List.suffix_append _ _)) rfl
      refine ⟨.value inner :: row, List.forall_mem_cons.mpr ⟨hinner, hrow⟩, ?_⟩
      rw [printRow_cons, hprint, Piece.print]
    · have htext : ∀ u s, u ≠ [] → Loose u → u ++ s = t →
          ∃ row, LooseRow row ∧ printRow row = t := by
        rintro u s hu hloose rfl
        have hpos := List.length_pos_iff.mpr hu
        have hlength : s.length < n := by
          rw [← hn, List.length_append]
          omega
        obtain ⟨row, hrow, hprint⟩ := ih _ hlength (h.of_suffix (List.suffix_append _ _)) rfl
        refine ⟨.text u :: row, List.forall_mem_cons.mpr ⟨hloose, hrow⟩, ?_⟩
        rw [printRow_cons, hprint, Piece.print]
      by_cases hnil : t = []
      · exact ⟨[], by simp [LooseRow], hnil.symm⟩
      obtain ⟨c, s, ht⟩ := List.exists_cons_of_ne_nil hnil
      by_cases hc : c = '{'
      · -- A single brace is taken together with what follows it.
        have hs : s ≠ [] := by
          rintro rfl
          exact h.2 (by simp [ht, hc])
        obtain ⟨d, s, rfl⟩ := List.exists_cons_of_ne_nil hs
        have hd : d ≠ '{' := by
          rintro rfl
          exact hp ⟨s, by simp [ht, hc, openBraces]⟩
        refine htext ['{', d] s (by simp) ⟨fun hi => ?_, by simp [hd]⟩ (by simp [ht, hc])
        have heq := hi.eq_of_length (by simp [openBraces])
        simp [openBraces, Ne.symm hd] at heq
      · refine htext [c] s (by simp) ⟨fun hi => ?_, by simp [hc]⟩ ht.symm
        simpa [openBraces] using hi.length_le

/-! ### Data that agree where a template looks -/

/-- Two data that show the same of the sections that a template opens, have the same lists for its
loops, and the same texts for its placeholders. -/
structure SameNamed (t : List Char) (d e : Json.Value) : Prop where
  sections : ∀ name ∈ openedSections t, isVisible d name = isVisible e name
  loops : ∀ name ∈ openedLoops t, d.get? (String.ofList name) = e.get? (String.ofList name)
  values : ∀ name ∈ placeholderNames t,
    Json.lookup? (String.ofList name) (flatten d) = Json.lookup? (String.ofList name) (flatten e)

/-- Two data with the same texts for the tokens that are no placeholders, should they have any. -/
def SameMarks (t : List Char) (d e : Json.Value) : Prop :=
  ∀ name ∈ tokenNames t, name = [] ∨ name.head? = some '#' ∨ name.head? = some '/' →
    Json.lookup? (String.ofList name) (flatten d) = Json.lookup? (String.ofList name) (flatten e)

/-- The lists of the loops that a template opens have no braces. -/
def BraceFreeLists (t : List Char) (d : Json.Value) : Prop :=
  ∀ name ∈ openedLoops t, ∀ v, d.get? (String.ofList name) = some v → v.BraceFree

theorem SameNamed.sameAnswers {t : List Char} {d e : Json.Value} (h : SameNamed t d e)
    (ht : Sealed t) (hlists : BraceFreeLists t d) (hmarks : SameMarks t d e) :
    SameAnswers t d e := by
  obtain ⟨row, hrow, rfl⟩ := ht.exists_row
  obtain ⟨shown, hshown, hresolve, hasks⟩ := hrow.sectionless.exists_resolved (isVisible d)
  have hloose : LooseRow shown := fun p hp => hrow p (hshown.subset hp)
  obtain ⟨expanded, hexpanded, hexpand, hsub⟩ := hloose.exists_expanded d
    fun w name hw hword =>
      hlists name (mem_openedLoops_printRow (hshown.subset hw) hword)
  refine ⟨fun name hname => ?_, fun name hname => ?_, fun name hname => ?_⟩
  · obtain ⟨hword, hopener⟩ := hasks name hname
    exact h.sections name (mem_openedSections_printRow hopener hword rfl)
  · rw [resolveBlocks, hresolve] at hname
    obtain ⟨w, hword, hw⟩ := hloose.of_mem_openedLoops hname
    exact h.loops name (mem_openedLoops_printRow (hshown.subset hw) hword)
  · rw [resolveBlocks, hresolve, hexpand] at hname
    obtain ⟨w, rfl, hw⟩ := hexpanded.of_mem_tokenNames hname
    have hmem : .value w ∈ row := hshown.subset (hsub w hw)
    have hfree : BraceFree w := hrow _ hmem
    by_cases hmark : trim w = [] ∨ (trim w).head? = some '#' ∨ (trim w).head? = some '/'
    · exact hmarks _ (mem_tokenNames_printRow hmem hfree) hmark
    · simp only [not_or] at hmark
      exact h.values _ ((mem_placeholderNames_printRow hrow).mpr
        ⟨w, hmem, rfl, hfree, hmark.1, hmark.2.1, hmark.2.2⟩)

/-- Rendering depends on the data only where its passes look, and of a template whose tokens stand
apart they look only at what the template names. -/
theorem render_eq_of_same (t : String) (d e : Json.Value) :
    (SameAnswers t.toList d e → render t d = render t e) ∧
      (Sealed t.toList → BraceFreeLists t.toList d → SameMarks t.toList d e →
        SameNamed t.toList d e → render t d = render t e) := by
  have hrender : SameAnswers t.toList d e → render t d = render t e := by
    intro h
    rw [render, render, h.renderHtml]
  refine ⟨hrender, fun ht hlists hmarks h => ?_⟩
  exact hrender (h.sameAnswers ht hlists hmarks)

/-- A section, a loop, and a token that is no placeholder. -/
def letter : String :=
  nameToken "#block:b" ++ "<p class=a{b}>{{x}}</p>" ++ nameToken "/block:b" ++
    nameToken "#each l" ++ nameToken "l.k" ++ nameToken "/each" ++ nameToken "#y"

/-- Data that differ in members alone that the template does not name. -/
theorem render_eq_of_unnamed :
    render letter (.object [("blocks", .object [("b", .bool true)]),
        ("l", .array [.object [("k", .string "1")]]), ("x", .string "A"), ("z", .string "{{x}}")]) =
      render letter (.object [("blocks", .object [("b", .bool true), ("c", .bool true)]),
        ("l", .array [.object [("k", .string "1")]]), ("x", .string "A")]) := by
  have hloops : openedLoops letter.toList = [['l']] := by decide +kernel
  refine (render_eq_of_same _ _ _).2 (by decide +kernel) ?_ ?_ ⟨by decide +kernel, ?_, by decide +kernel⟩
  · intro name hname v hv
    rw [hloops, List.mem_singleton] at hname
    subst hname
    obtain rfl := Option.some.inj hv
    decide
  · intro name hname
    revert name
    decide +kernel
  · intro name hname
    rw [hloops, List.mem_singleton] at hname
    subst hname
    rfl

/-- A token that is no placeholder, a token that is closed by what a section leaves behind, and a
token in the item of a list. -/
theorem render_ne_of_sameNamed :
    (∃ t d e, t = nameToken "#x" ∧ SameNamed t.toList (.object d) (.object e) ∧
      (render t (.object d)).html ≠ (render t (.object e)).html) ∧
    (∃ t d e, t = nameToken ("a" ++ nameToken "#block:b" ++ nameToken "/block:b") ∧
      SameNamed t.toList (.object d) (.object e) ∧
      (render t (.object d)).html ≠ (render t (.object e)).html) ∧
    (∃ t d e, t = nameToken "#each l" ++ nameToken "l.x" ++ nameToken "/each" ∧
      SameNamed t.toList (.object d) (.object e) ∧
      (render t (.object d)).html ≠ (render t (.object e)).html) := by
  have hnone : openedLoops (nameToken "#x").toList = [] ∧
      openedLoops (nameToken ("a" ++ nameToken "#block:b" ++ nameToken "/block:b")).toList = [] := by
    decide +kernel
  have hone : openedLoops (nameToken "#each l" ++ nameToken "l.x" ++ nameToken "/each").toList =
      [['l']] := by decide +kernel
  refine ⟨⟨_, [("#x", .string "A")], [], rfl, ⟨by decide +kernel, ?_, by decide +kernel⟩,
      by decide +kernel⟩,
    ⟨_, [("a", .string "A"), ("blocks", .object [("b", .bool true)])],
      [("blocks", .object [("b", .bool true)])], rfl,
      ⟨by decide +kernel, ?_, by decide +kernel⟩, by decide +kernel⟩,
    ⟨_, [("l", .array [.object [("x", .string "{{y}}")]]), ("y", .string "A")],
      [("l", .array [.object [("x", .string "{{y}}")]])], rfl,
      ⟨by decide +kernel, ?_, by decide +kernel⟩, by decide +kernel⟩⟩
  · rw [hnone.1]
    exact fun name hname => absurd hname List.not_mem_nil
  · rw [hnone.2]
    exact fun name hname => absurd hname List.not_mem_nil
  · rw [hone]
    intro name hname
    obtain rfl := List.mem_singleton.mp hname
    rfl

end EmailTemplate.Template
