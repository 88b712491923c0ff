import EmailTemplate.Proofs.Template.Row
import EmailTemplate.Proofs.Template.Section

/-! Sections in rows. Whole tokens open and close a section, so resolving a row leaves a part of it,
and which one it is depends on the names of its openers alone. -/

namespace EmailTemplate.Template

open Text

variable {visible : List Char → Bool}

/-! ### Names that are asked for -/

/-- Whether resolving a text asks if the section of a name is visible. -/
inductive AsksFor (visible : List Char → Bool) (name : List Char) : List Char → Prop
  | here {s rest : List Char} {split : List Char × List Char}
      (hs : sectionAt? s = some (name, rest))
      (hrest : splitFirst? (sectionCloser name) rest = some split) : AsksFor visible name s
  | inner {s other rest body tail : List Char} (hs : sectionAt? s = some (other, rest))
      (hrest : splitFirst? (sectionCloser other) rest = some (body, tail))
      (h : AsksFor visible name ((if visible other then body else []) ++ tail)) :
      AsksFor visible name s
  | lone {s other rest : List Char} (hs : sectionAt? s = some (other, rest))
      (hrest : splitFirst? (sectionCloser other) rest = none) (h : AsksFor visible name rest) :
      AsksFor visible name s
  | skip {c : Char} {s : List Char} (hs : sectionAt? (c :: s) = none)
      (h : AsksFor visible name s) : AsksFor visible name (c :: s)

/-- Resolving depends on the names alone that it asks for. -/
theorem resolveSections_congr {visible' : List Char → Bool} (s : List Char)
    (h : ∀ name, AsksFor visible name s → visible name = visible' name) :
    resolveSections visible s = resolveSections visible' s := by
  induction s using resolveSections.induct visible with
  | case1 => simp
  | case2 c s hnone ih =>
    have hrest := ih fun name hn => h name (.skip hnone hn)
    rw [resolveSections_skip hnone, resolveSections_skip hnone, hrest]
  | case3 c s name rest hsome hsplit ih =>
    obtain ⟨hname, heq⟩ := sectionAt?_eq_some hsome
    have hrest := ih fun name hn => h name (.lone hsome hsplit hn)
    rw [heq, resolveSections_lone hname hsplit, resolveSections_lone hname hsplit, hrest]
  | case4 c s name rest hsome body tail hsplit ih =>
    obtain ⟨hname, heq⟩ := sectionAt?_eq_some hsome
    have hsame := h name (.here hsome hsplit)
    rw [heq, resolveSections_section hname hsplit, resolveSections_section hname hsplit, ← hsame]
    exact ih fun name hn => h name (.inner hsome hsplit hn)

theorem AsksFor.of_opener {name other s : List Char} (hother : IsName other)
    (h : AsksFor visible name (sectionOpener other ++ s)) :
    (splitFirst? (sectionCloser other) s = none ∧ AsksFor visible name s) ∨
      ∃ body tail, splitFirst? (sectionCloser other) s = some (body, tail) ∧
        (name = other ∨ AsksFor visible name ((if visible other then body else []) ++ tail)) := by
  have hat := sectionAt?_opener hother s
  cases h with
  | here hs hrest =>
    rw [hat, Option.some.injEq, Prod.mk.injEq] at hs
    obtain ⟨rfl, rfl⟩ := hs
    exact .inr ⟨_, _, hrest, .inl rfl⟩
  | inner hs hrest h =>
    rw [hat, Option.some.injEq, Prod.mk.injEq] at hs
    obtain ⟨rfl, rfl⟩ := hs
    exact .inr ⟨_, _, hrest, .inr h⟩
  | lone hs hrest h =>
    rw [hat, Option.some.injEq, Prod.mk.injEq] at hs
    obtain ⟨rfl, rfl⟩ := hs
    exact .inl ⟨hrest, h⟩
  | skip hs h => simp [sectionOpener, sectionMark, openBraces] at hat hs; simp [hs] at hat

/-! ### Texts without sections -/

theorem sectionAt?_braceless {s : List Char} (h : ¬ openBraces <+: s) : sectionAt? s = none :=
  sectionAt?_eq_none fun hp => h (List.IsPrefix.trans (List.prefix_append openBraces _) hp)

theorem resolveSections_idle {u s : List Char} (h : Idle sectionAt? u s) :
    resolveSections visible (u ++ s) = u ++ resolveSections visible s := by
  induction u with
  | nil => rfl
  | cons c u ih =>
    obtain ⟨hat, hrest⟩ := h.of_cons
    rw [List.cons_append, resolveSections_skip hat, ih hrest, List.cons_append]

theorem AsksFor.of_idle {name u s : List Char} (hu : Idle sectionAt? u s)
    (h : AsksFor visible name (u ++ s)) : AsksFor visible name s := by
  induction u with
  | nil => exact h
  | cons c u ih =>
    obtain ⟨hat, hrest⟩ := hu.of_cons
    rw [List.cons_append] at h
    cases h with
    | here hs _ => simp [hat] at hs
    | inner hs _ _ => simp [hat] at hs
    | lone hs _ _ => simp [hat] at hs
    | skip _ h => exact ih hrest h

/-- No section opens or closes in the text, whatever follows it. -/
def Sectionless (s : List Char) : Prop :=
  ∀ t, Idle sectionAt? s t ∧ ∀ name, IsName name → Passes (sectionCloser name) s t

theorem Loose.sectionless {s : List Char} (h : Loose s) : Sectionless s := by
  refine fun t => ⟨Passes.idle (fun s => sectionAt?_braceless) (h.passes t), fun name _ => ?_⟩
  rw [sectionCloser_eq]
  exact passes_of_openBraces (h.passes t) _

def Piece.Sectionless : Piece → Prop
  | text s => Template.Sectionless s
  | value inner => BraceFree inner

def SectionlessRow (row : List Piece) : Prop := ∀ p ∈ row, p.Sectionless

theorem LooseRow.sectionless {row : List Piece} (h : LooseRow row) : SectionlessRow row := by
  intro p hp
  have hloose := h p hp
  cases p with
  | text s => exact Loose.sectionless hloose
  | value inner => exact hloose

/-! ### Tokens that open and close -/

/-- The first occurrence of a token splits a row if no text has the token. -/
theorem splitFirst?_printRow {word : List Char} (hword : BraceFree word) {row : List Piece}
    (htext : ∀ s, .text s ∈ row → ∀ t, Passes (token word) s t)
    (hvalue : ∀ inner, .value inner ∈ row → BraceFree inner) :
    splitFirst? (token word) (printRow row) = none ∨
      ∃ before after, row = before ++ .value word :: after ∧
        splitFirst? (token word) (printRow row) = some (printRow before, printRow after) := by
  induction row with
  | nil => exact .inl (by simp [printRow, splitFirst?, token, openBraces])
  | cons p row ih =>
    by_cases hp : p = .value word
    · subst hp
      exact .inr ⟨[], row, rfl, splitFirst?_append (token_ne_nil word) _⟩
    · have hpasses : Passes (token word) p.print (printRow row) := by
        cases p with
        | text s => exact htext s List.mem_cons_self _
        | value inner =>
          have hinner : BraceFree inner := hvalue inner List.mem_cons_self
          have hmark : token word = openBraces ++ (word ++ closeBraces) := by simp [token]
          rw [hmark]
          refine passes_token hinner fun hprefix => hp ?_
          rw [← hmark] at hprefix
          rw [eq_of_prefix_token hword.close_not_mem hinner.close_not_mem hprefix]
      have hsplit := splitFirst?_of_passes hpasses
      rw [printRow_cons, hsplit]
      have hrest := ih (fun s hs => htext s (List.mem_cons_of_mem p hs))
        fun inner hi => hvalue inner (List.mem_cons_of_mem p hi)
      rcases hrest with hnone | ⟨before, after, hrow, hsome⟩
      · exact .inl (by rw [hnone, Option.map_none])
      · refine .inr ⟨p :: before, after, by rw [hrow, List.cons_append], ?_⟩
        rw [hsome, Option.map_some, printRow_cons]

theorem splitFirst?_sectionCloser {name : List Char} (hname : IsName name) {row : List Piece}
    (h : SectionlessRow row) : splitFirst? (sectionCloser name) (printRow row) = none ∨
      ∃ before after, row = before ++ .value (closerWord name) :: after ∧
        splitFirst? (sectionCloser name) (printRow row) = some (printRow before, printRow after) := by
  rw [sectionCloser_eq]
  refine splitFirst?_printRow hname.closerWord_braceFree (fun s hs t => ?_) fun inner hi => h _ hi
  have hs : Sectionless s := h _ hs
  rw [← sectionCloser_eq]
  exact (hs t).2 name hname

/-- A piece that is no opener opens nothing. -/
theorem Piece.Sectionless.idle {p : Piece} (h : p.Sectionless)
    (hno : ¬ ∃ name, IsName name ∧ p = .value (openerWord name)) (s : List Char) :
    Idle sectionAt? p.print s := by
  cases p with
  | text t => exact (h s).1
  | value inner =>
    have hinner : BraceFree inner := h
    refine idle_token (fun s => sectionAt?_braceless) hinner ?_
    rw [Option.eq_none_iff_forall_ne_some]
    rintro ⟨name, rest⟩ hsome
    obtain ⟨hname, heq⟩ := sectionAt?_eq_some hsome
    rw [sectionOpener_eq] at heq
    have hword := eq_of_prefix_token hname.openerWord_braceFree.close_not_mem
      hinner.close_not_mem ⟨rest, heq.symm⟩
    exact hno ⟨name, hname, congrArg Piece.value hword.symm⟩

/-- Resolving a row leaves a part of it, and asks for the names of its openers alone. -/
structure Resolved (visible : List Char → Bool) (row row' : List Piece) : Prop where
  part : row'.Sublist row
  leaves : resolveSections visible (printRow row) = printRow row'
  asks : ∀ name, AsksFor visible name (printRow row) →
    IsName name ∧ .value (openerWord name) ∈ row

namespace Resolved

variable {row row' : List Piece}

theorem nil : Resolved visible [] [] := by
  refine ⟨.slnil, by simp, fun name hasks => ?_⟩
  have hnone : sectionAt? [] = none := sectionAt?_eq_none (by simp [sectionMark, openBraces])
  rw [printRow_nil] at hasks
  cases hasks with
  | here hs _ => simp [hnone] at hs
  | inner hs _ _ => simp [hnone] at hs
  | lone hs _ _ => simp [hnone] at hs

theorem cons (h : Resolved visible row row') {p : Piece}
    (hidle : Idle sectionAt? p.print (printRow row)) : Resolved visible (p :: row) (p :: row') := by
  refine ⟨h.part.cons_cons p, ?_, fun name hasks => ?_⟩
  · rw [printRow_cons, resolveSections_idle hidle, h.leaves, printRow_cons]
  · rw [printRow_cons] at hasks
    obtain ⟨hname, hmem⟩ := h.asks name (hasks.of_idle hidle)
    exact ⟨hname, List.mem_cons_of_mem p hmem⟩

theorem print_opener (name : List Char) (row : List Piece) :
    printRow (.value (openerWord name) :: row) = sectionOpener name ++ printRow row := by
  rw [printRow_cons, Piece.print, sectionOpener_eq]

theorem lone (h : Resolved visible row row') {name : List Char} (hname : IsName name)
    (hnone : splitFirst? (sectionCloser name) (printRow row) = none) :
    Resolved visible (.value (openerWord name) :: row) (.value (openerWord name) :: row') := by
  refine ⟨h.part.cons_cons _, ?_, fun other hasks => ?_⟩
  · rw [print_opener, resolveSections_lone hname hnone, h.leaves, print_opener]
  · rw [print_opener] at hasks
    rcases hasks.of_opener hname with ⟨-, hasks⟩ | ⟨body, tail, hsplit, -⟩
    · obtain ⟨hother, hmem⟩ := h.asks other hasks
      exact ⟨hother, List.mem_cons_of_mem _ hmem⟩
    · simp [hnone] at hsplit

/-- What a section and the row behind it are resolved to, its body being kept if it is visible. -/
def kept (visible : List Char → Bool) (name : List Char) (before after : List Piece) :
    List Piece :=
  (if visible name then before else []) ++ after

theorem kept_sublist (visible : List Char → Bool) (name : List Char) (before after : List Piece)
    (closer : Piece) : (kept visible name before after).Sublist (before ++ closer :: after) := by
  refine List.Sublist.append ?_ (List.sublist_cons_self _ after)
  by_cases h : visible name = true
  · simp [h]
  · simp [h]

theorem printRow_kept (visible : List Char → Bool) (name : List Char) (before after : List Piece) :
    printRow (kept visible name before after) =
      (if visible name then printRow before else []) ++ printRow after := by
  rw [kept, printRow_append]
  by_cases h : visible name = true
  · simp [h]
  · simp [h]

theorem closed {name : List Char} {before after : List Piece} {closer : Piece}
    (h : Resolved visible (kept visible name before after) row') (hname : IsName name)
    (hsome : splitFirst? (sectionCloser name) (printRow (before ++ closer :: after)) =
      some (printRow before, printRow after)) :
    Resolved visible (.value (openerWord name) :: (before ++ closer :: after)) row' := by
  have hkept := kept_sublist visible name before after closer
  refine ⟨(h.part.trans hkept).cons _, ?_, fun other hasks => ?_⟩
  · rw [print_opener, resolveSections_section hname hsome, ← printRow_kept, h.leaves]
  · rw [print_opener] at hasks
    rcases hasks.of_opener hname with ⟨hnone, -⟩ | ⟨body, tail, hsplit, hasks⟩
    · rw [hsome] at hnone
      cases hnone
    · rw [hsome, Option.some.injEq, Prod.mk.injEq] at hsplit
      obtain ⟨rfl, rfl⟩ := hsplit
      rcases hasks with rfl | hasks
      · exact ⟨hname, List.mem_cons_self⟩
      · rw [← printRow_kept] at hasks
        obtain ⟨hother, hmem⟩ := h.asks other hasks
        exact ⟨hother, List.mem_cons_of_mem _ (hkept.subset hmem)⟩

end Resolved

theorem SectionlessRow.exists_resolved {row : List Piece} (h : SectionlessRow row)
    (visible : List Char → Bool) : ∃ row', Resolved visible row row' := by
  induction hn : row.length using Nat.strongRecOn generalizing row with
  | ind n ih =>
    cases row with
    | nil => exact ⟨[], .nil⟩
    | cons p row =>
      rw [List.length_cons] at hn
      have hrow : SectionlessRow row := fun q hq => h q (List.mem_cons_of_mem p hq)
      by_cases hp : ∃ name, IsName name ∧ p = .value (openerWord name)
      · obtain ⟨name, hname, rfl⟩ := hp
        rcases splitFirst?_sectionCloser hname hrow with hnone | ⟨before, after, rfl, hsome⟩
        · obtain ⟨row', hresolved⟩ := ih row.length (by omega) hrow rfl
          exact ⟨_, hresolved.lone hname hnone⟩
        · have hkept := Resolved.kept_sublist visible name before after (.value (closerWord name))
          have hlength := hkept.length_le
          have hsectionless : SectionlessRow (Resolved.kept visible name before after) :=
            fun q hq => hrow q (hkept.subset hq)
          obtain ⟨row', hresolved⟩ := ih _ (by omega) hsectionless rfl
          exact ⟨row', hresolved.closed hname hsome⟩
      · have hidle := (h p List.mem_cons_self).idle hp (printRow row)
        obtain ⟨row', hresolved⟩ := ih row.length (by omega) hrow rfl
        exact ⟨_, hresolved.cons hidle⟩

end EmailTemplate.Template
