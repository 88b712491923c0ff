import EmailTemplate.Proofs.Template.Expansion
import EmailTemplate.Proofs.Template.Resolution
import EmailTemplate.Proofs.Text.Region

/-! Sections and loops as regions of a text. Resolving and expanding are one scan from left to right,
of every text whatsoever, and come to the same as editing the text in place. -/

namespace EmailTemplate.Template

open Text

/-! ### Sections -/

/-- A section gives way to its body or to nothing, which is looked at again. -/
def sections (visible : List Char → Bool) : Region where
  opener word name := IsName name ∧ word = sectionOpener name
  closer := sectionCloser
  put name body := ([], if visible name then body else [])
  opener_ne_nil := by
    rintro word name ⟨-, rfl⟩
    rw [sectionOpener_eq]
    exact token_ne_nil _
  put_shrinks name body := by
    split
    · exact Nat.le_refl _
    · exact Nat.zero_le _

theorem sections_read {visible : List Char → Bool} {s name rest : List Char}
    (h : sectionAt? s = some (name, rest)) :
    ∃ word, (sections visible).opener word name ∧ s = word ++ rest := by
  obtain ⟨hname, heq⟩ := sectionAt?_eq_some h
  exact ⟨_, ⟨hname, rfl⟩, heq⟩

theorem sections_solves (visible : List Char → Bool) :
    (sections visible).Solves (resolveSections visible) where
  clear {s} h := by
    have hidle : resolveSections visible (s ++ []) = s ++ resolveSections visible [] :=
      resolveSections_idle (Region.idle_of_not_opens sections_read h)
    simpa using hidle
  lone {s o} h hno := by
    obtain ⟨hname, hword⟩ := h.1.2
    rw [h.1.1, resolveSections_idle (h.idle sections_read), hword,
      resolveSections_lone hname (splitFirst?_eq_none_iff.mpr hno)]
  region {s o body tail} h hbody := by
    obtain ⟨hname, hword⟩ := h.1.2
    rw [h.1.1, resolveSections_idle (h.idle sections_read), hword,
      resolveSections_section hname hbody.splitFirst?]
    rfl

/-- Resolving the sections of a text is a scan for openers, each with the nearest closer of its name.
Editing in place, the cursor staying where a section was, ends for every text and leaves the same. -/
theorem resolveBlocks_scanned (t : List Char) (data : Json.Value) :
    (WellFounded fun e' e => (sections (isVisible data)).Turn e e') ∧
      ∀ r, ((sections (isVisible data)).EditedInPlace t r ↔ r = resolveBlocks t data) ∧
        ((sections (isVisible data)).Scanned t r ↔ r = resolveBlocks t data) := by
  have hsolves := sections_solves (isVisible data)
  exact ⟨Region.wellFounded_turn _, fun r => ⟨hsolves.editedInPlace_iff, hsolves.scanned_iff⟩⟩

/-- What is joined before a section that goes is no opener. -/
example : String.ofList (resolveBlocks
    (nameToken ("#block:a" ++ nameToken "#block:b" ++ nameToken "/block:b") ++ "x" ++
      nameToken "/block:a").toList .null) =
    nameToken "#block:a" ++ "x" ++ nameToken "/block:a" := by decide +kernel

/-! ### Loops -/

/-- A loop gives way to its body for each item, which is not looked at again. -/
def loops (data : Json.Value) : Region where
  opener word name := ∃ inner, LoopWord inner name ∧ word = token inner
  closer _ := loopCloser
  put name body := (expandItems name body (data.get? (String.ofList name)), [])
  opener_ne_nil := by
    rintro word name ⟨inner, -, rfl⟩
    exact token_ne_nil inner
  put_shrinks name body := Nat.zero_le _

theorem loops_read {data : Json.Value} {s name rest : List Char}
    (h : loopAt? s = some (name, rest)) :
    ∃ word, (loops data).opener word name ∧ s = word ++ rest := by
  obtain ⟨inner, hword, heq⟩ := loopAt?_eq_some h
  exact ⟨_, ⟨inner, hword, rfl⟩, heq⟩

theorem expandLoops_idle (data : Json.Value) {u s : List Char} (h : Idle loopAt? u s) :
    expandLoops (u ++ s) data = u ++ expandLoops s data := by
  refine replaceMatches_idle fun v w hvw hw => ?_
  rw [loopStep, h v w hvw hw, Option.map_none]

theorem loops_solves (data : Json.Value) : (loops data).Solves fun s => expandLoops s data where
  clear {s} h := by
    have hidle := expandLoops_idle data (Region.idle_of_not_opens loops_read h)
    simpa [expandLoops] using hidle
  lone {s o} h hno := by
    obtain ⟨inner, hinner, hword⟩ := h.1.2
    rw [h.1.1, expandLoops_idle data (h.idle loops_read), hword,
      expandLoops_lone data hinner (splitFirst?_eq_none_iff.mpr hno)]
  region {s o body tail} h hbody := by
    obtain ⟨inner, hinner, hword⟩ := h.1.2
    rw [h.1.1, expandLoops_idle data (h.idle loops_read), hword,
      expandLoops_token data hinner hbody.splitFirst?]
    rfl

/-- Expanding the loops of a text is a scan for openers, each with the nearest closer, that goes on
behind the loop and not in what was put for it. Editing in place, the cursor going behind what was
put, ends for every text and leaves the same. -/
theorem expandLoops_scanned (t : List Char) (data : Json.Value) :
    (WellFounded fun e' e => (loops data).Turn e e') ∧
      ∀ r, ((loops data).EditedInPlace t r ↔ r = expandLoops t data) ∧
        ((loops data).Scanned t r ↔ r = expandLoops t data) := by
  have hsolves := loops_solves data
  exact ⟨Region.wellFounded_turn _, fun r => ⟨hsolves.editedInPlace_iff, hsolves.scanned_iff⟩⟩

/-- An opener among the values opens no loop. -/
example : String.ofList (expandLoops
    (nameToken "#each l" ++ nameToken "l.k" ++ nameToken "/each" ++ nameToken "/each").toList
    (.object [("l", .array [.object [("k", .string (nameToken "#each l"))]])])) =
    nameToken "#each l" ++ nameToken "/each" := by decide +kernel

end EmailTemplate.Template
