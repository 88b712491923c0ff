import EmailTemplate.Proofs.Template.Cleanup
import EmailTemplate.Proofs.Template.Meaning
import EmailTemplate.Proofs.Template.Resolution

/-! Values in a text without sections and loops. They stand in the output as they are exactly when the
cleanup finds no token in the filled text but the template's own that have no value. -/

namespace EmailTemplate.Template

open Text

/-! ### What the cleanup finds -/

/-- The interiors of the tokens that the cleanup removes. -/
def leftovers (s : List Char) : List (List Char) := collect leftover? s

theorem leftovers_token {inner : List Char} (h : '}' ∉ inner) (s : List Char) :
    leftovers (token inner ++ s) = inner :: leftovers s :=
  collect_match (token_ne_nil inner) (leftover?_token h s)

theorem leftovers_cons {c : Char} {s : List Char} (h : leftover? (c :: s) = none) :
    leftovers (c :: s) = leftovers s := by
  simp only [leftovers, collect, collectFrom, h]

/-- Where nothing is found nothing is taken away, and only there. -/
theorem strip_length_lt_or_eq (t : List Char) :
    (strip t = t ∧ leftovers t = []) ∨ ((strip t).length < t.length ∧ leftovers t ≠ []) := by
  induction t using strip_induction with
  | nil => exact .inl ⟨rfl, rfl⟩
  | token inner s hin ih =>
    have hlength : (strip s).length ≤ s.length := by
      rcases ih with ⟨hs, -⟩ | ⟨hs, -⟩
      · rw [hs]
      · exact hs.le
    rw [strip_token hin, leftovers_token hin, List.length_append, length_token]
    exact .inr ⟨by omega, by simp⟩
  | cons c s hc ih =>
    rw [strip_cons hc, leftovers_cons hc]
    rcases ih with ⟨hs, hnone⟩ | ⟨hs, hsome⟩
    · exact .inl ⟨by rw [hs], hnone⟩
    · exact .inr ⟨by simpa using hs, hsome⟩

/-- A token that begins before another one and reaches into it ends with it. -/
theorem eq_of_token_over_token {u f t z s rest : List Char} (hu : BraceFree u) (hf : '}' ∉ f)
    (hz : z ≠ []) (htoken : token f = t ++ z) (hrest : token u ++ s = z ++ rest) :
    openBraces ++ f = t ++ (openBraces ++ u) ∧ rest = s := by
  have hshape : (openBraces ++ f) ++ closeBraces = t ++ z := by simpa [token] using htoken
  obtain ⟨c, z, rfl⟩ := List.exists_cons_of_ne_nil hz
  have hc : c = '{' := by
    rw [token_append, List.cons_append, List.cons.injEq] at hrest
    exact hrest.1.symm
  subst hc
  rcases List.append_eq_append_iff.mp hshape with ⟨w, -, hw⟩ | ⟨y, hy, hclose⟩
  · -- An opening brace is not among the closing ones.
    have hmem : '{' ∈ closeBraces := hw ▸ List.mem_append_right w List.mem_cons_self
    simp [closeBraces] at hmem
  · have hopen : '}' ∉ openBraces ++ f := by simp [openBraces, hf]
    have hfree : '}' ∉ y := fun hm => hopen (hy ▸ List.mem_append_right t hm)
    have hfirst : '}' ∉ openBraces ++ u := by simp [openBraces, hu.close_not_mem]
    have hboth : (openBraces ++ u) ++ '}' :: ('}' :: s) = y ++ '}' :: ('}' :: rest) := by
      rw [hclose] at hrest
      simpa [token, closeBraces] using hrest
    obtain ⟨hyu, hs⟩ := append_closing_inj hfirst hfree hboth
    exact ⟨by rw [hy, hyu], ((List.cons.inj hs).2).symm⟩

/-- Of two ways to part a text one goes on where the other ends, or the other goes on inside. -/
theorem append_eq_append_cases {a b c d : List Char} (h : a ++ b = c ++ d) :
    (∃ z, a = c ++ z ∧ d = z ++ b) ∨ ∃ z, z ≠ [] ∧ c = a ++ z ∧ b = z ++ d := by
  rcases List.append_eq_append_iff.mp h with ⟨z, hc, hb⟩ | ⟨z, ha, hd⟩
  · by_cases hz : z = []
    · subst hz
      exact .inl ⟨[], by simpa using hc.symm, by simpa using hb.symm⟩
    · exact .inr ⟨z, hz, hc, hb⟩
  · exact .inl ⟨z, ha, hd⟩

/-- Before a token the cleanup takes away nothing and then the token, or more than the token. -/
theorem cleanup_before_token {u : List Char} (hu : BraceFree u) (t s : List Char) :
    ∃ kept found last, strip (t ++ (token u ++ s)) = kept ++ strip s ∧
      leftovers (t ++ (token u ++ s)) = found ++ last :: leftovers s ∧
      ((kept = t ∧ found = [] ∧ last = u) ∨
        (kept.length < t.length ∧ (found ≠ [] ∨ last ≠ u))) := by
  induction hn : t.length using Nat.strongRecOn generalizing t with
  | ind n ih =>
    cases t with
    | nil =>
      exact ⟨[], [], u, strip_token hu.close_not_mem s, leftovers_token hu.close_not_mem s,
        .inl ⟨rfl, rfl, rfl⟩⟩
    | cons c t =>
      rw [List.length_cons] at hn
      cases hat : leftover? (c :: (t ++ (token u ++ s))) with
      | none =>
        obtain ⟨kept, found, last, hstrip, hfound, hcase⟩ := ih t.length (by omega) t rfl
        refine ⟨c :: kept, found, last, ?_, ?_, ?_⟩
        · rw [List.cons_append, strip_cons hat, hstrip, List.cons_append]
        · rw [List.cons_append, leftovers_cons hat, hfound]
        · rcases hcase with ⟨rfl, hrest⟩ | ⟨hlt, hrest⟩
          · exact .inl ⟨rfl, hrest⟩
          · exact .inr ⟨by rw [List.length_cons]; omega, hrest⟩
      | some first =>
        obtain ⟨f, k⟩ := first
        obtain ⟨rest, hwhole, hf⟩ := leftover?_eq_some hat
        have hwhole' : (c :: t) ++ (token u ++ s) = token f ++ rest := hwhole
        rcases append_eq_append_cases hwhole' with ⟨z, ht, rfl⟩ | ⟨z, hz, htoken, hrest⟩
        · have hlength := congrArg List.length ht
          rw [List.length_cons, List.length_append, length_token] at hlength
          obtain ⟨kept, found, last, hstrip, hfound, hcase⟩ := ih z.length (by omega) z rfl
          refine ⟨kept, f :: found, last, ?_, ?_, .inr ⟨?_, .inl (List.cons_ne_nil _ _)⟩⟩
          · rw [hwhole', strip_token hf, hstrip]
          · rw [hwhole', leftovers_token hf, hfound, List.cons_append]
          · rcases hcase with ⟨rfl, -⟩ | ⟨hlt, -⟩
            · omega
            · omega
        · obtain ⟨hfu, rfl⟩ := eq_of_token_over_token hu hf hz htoken hrest
          have hlength := congrArg List.length hfu
          rw [List.length_append, List.length_append, List.length_append, List.length_cons] at hlength
          refine ⟨[], [], f, ?_, ?_, .inr ⟨by rw [List.length_nil]; omega, .inr ?_⟩⟩
          · rw [hwhole', strip_token hf, List.nil_append]
          · rw [hwhole', leftovers_token hf, List.nil_append]
          · rintro rfl
            omega

/-! ### Rows -/

def textsOf (row : List Piece) : List Char := row.flatMap fun p => match p with
  | .text s => s
  | .value _ => []

def innersOf (row : List Piece) : List (List Char) := row.filterMap fun p => match p with
  | .text _ => none
  | .value inner => some inner

/-- The cleanup leaves no more of a row than its texts, and finds no fewer tokens than it has. In front of
the row may stand any text, as the texts of the row are joined to it one by one. -/
theorem cleanup_append_printRow {row : List Piece} (h : BraceFreeTokens row) (t : List Char) :
    (strip (t ++ printRow row)).length ≤ (t ++ textsOf row).length ∧
      (innersOf row).length ≤ (leftovers (t ++ printRow row)).length ∧
      (strip (t ++ printRow row) = t ++ textsOf row ↔
        leftovers (t ++ printRow row) = innersOf row) := by
  induction row generalizing t with
  | nil =>
    have hboth : textsOf [] = [] ∧ innersOf [] = [] := ⟨rfl, rfl⟩
    rw [printRow_nil, hboth.1, hboth.2, List.append_nil, List.length_nil]
    rcases strip_length_lt_or_eq t with ⟨hsame, hnone⟩ | ⟨hlt, hsome⟩
    · exact ⟨by rw [hsame], Nat.zero_le _, iff_of_true hsame hnone⟩
    · refine ⟨hlt.le, Nat.zero_le _, iff_of_false (fun he => ?_) hsome⟩
      rw [he] at hlt
      exact Nat.lt_irrefl _ hlt
  | cons p row ih =>
    have hrow : BraceFreeTokens row := fun inner hi => h inner (List.mem_cons_of_mem p hi)
    cases p with
    | text s =>
      have hprint : t ++ printRow (.text s :: row) = (t ++ s) ++ printRow row := by
        simp [Piece.print]
      have htexts : t ++ textsOf (.text s :: row) = (t ++ s) ++ textsOf row := by
        simp [textsOf]
      have hinners : innersOf (.text s :: row) = innersOf row := rfl
      rw [hprint, htexts, hinners]
      exact ih hrow (t ++ s)
    | value u =>
      have hu : BraceFree u := h u List.mem_cons_self
      have htexts : textsOf (.value u :: row) = textsOf row := rfl
      have hinners : innersOf (.value u :: row) = u :: innersOf row := rfl
      obtain ⟨hlength, hcount, hiff⟩ := ih hrow []
      simp only [List.nil_append] at hlength hcount hiff
      obtain ⟨kept, found, last, hstrip, hfound, hcase⟩ := cleanup_before_token hu t (printRow row)
      rw [printRow_cons, Piece.print, htexts, hinners, hstrip, hfound]
      simp only [List.length_append, List.length_cons]
      rcases hcase with ⟨rfl, rfl, rfl⟩ | ⟨hlt, hmore⟩
      · refine ⟨by omega, by omega, ?_⟩
        rw [List.append_cancel_left_eq, List.nil_append, List.cons.injEq, hiff]
        simp
      · refine ⟨by omega, by omega, iff_of_false (fun he => ?_) (fun he => ?_)⟩
        · have hsame := congrArg List.length he
          rw [List.length_append, List.length_append] at hsame
          omega
        · cases found with
          | nil =>
            rcases hmore with hmore | hmore
            · exact hmore rfl
            · exact hmore (List.cons.inj he).1
          | cons first found =>
            have hsame := congrArg List.length he
            simp only [List.cons_append, List.length_cons, List.length_append] at hsame
            omega

/-- The cleanup leaves the texts of a row exactly if it finds no token but those of the row. Texts
may have any braces. -/
theorem strip_printRow_iff {row : List Piece} (h : BraceFreeTokens row) :
    strip (printRow row) = textsOf row ↔ leftovers (printRow row) = innersOf row :=
  (cleanup_append_printRow h []).2.2

/-! ### Rendering a row -/

section Row

variable {row : List Piece} (h : ∀ p ∈ row, p.WellFormed)
include h

theorem passes_printRow {k : Char} (hk : k = '#' ∨ k = '/') (m s : List Char) :
    Passes (openBraces ++ k :: m) (printRow row) s := by
  induction row with
  | nil => exact Passes.nil _ _
  | cons p row ih =>
    rw [printRow_cons]
    have hrow := ih fun q hq => h q (List.mem_cons_of_mem p hq)
    exact ((h p List.mem_cons_self).passes hk m _).append hrow

theorem looseRow_of_wellFormed : LooseRow row := fun p hp => (h p hp).clean.loose

/-- Sections and loops have no part in it. -/
theorem renderHtml_printRow (data : Json.Value) : renderHtml (printRow row) data =
    strip (printRow (row.map (Piece.fill (boundValue? (flatten data))))) := by
  have hsections : resolveBlocks (printRow row) data = printRow row := by
    have hidle : Idle sectionAt? (printRow row) [] := fun v w hvw hw =>
      sectionAt?_eq_none (passes_printRow h (.inl rfl) _ [] v w hvw hw)
    have hall : resolveBlocks (printRow row ++ []) data =
        printRow row ++ resolveSections (isVisible data) [] := resolveSections_idle hidle
    rwa [List.append_nil, resolveSections_nil, List.append_nil] at hall
  have hloops : expandLoops (printRow row) data = printRow row := by
    have hall := expandLoops_passes data (passes_printRow h (.inl rfl) ['e', 'a', 'c', 'h'] [])
    rw [List.append_nil] at hall
    rw [hall]
    exact List.append_nil _
  rw [renderHtml, hsections, hloops, substitute_printRow _ (looseRow_of_wellFormed h)]

end Row

/-- A row in which every token with a value has given way to it. -/
def valued (data : Json.Value) (row : List Piece) : List Piece :=
  row.map (Piece.fill (boundValue? (flatten data)))

theorem textsOf_valued (data : Json.Value) (row : List Piece) :
    textsOf (valued data row) = printRow (row.map (Source.filled data none)) := by
  induction row with
  | nil => rfl
  | cons p row ih =>
    have hcons : textsOf (valued data (p :: row)) =
        textsOf (valued data [p]) ++ textsOf (valued data row) := by
      simp [textsOf, valued]
    rw [hcons, ih, List.map_cons, printRow_cons]
    congr 1
    cases p with
    | text s => simp [textsOf, valued, Piece.fill, Source.filled, Piece.print]
    | value inner =>
      cases hb : boundValue? (flatten data) inner with
      | none => simp [textsOf, valued, Piece.fill, Source.filled, Piece.print, valueOf, hb]
      | some put => simp [textsOf, valued, Piece.fill, Source.filled, Piece.print, valueOf, hb]

/-- Values that could not begin a token, whatever follows them. -/
def LooseValues (data : Json.Value) (row : List Piece) : Prop :=
  ∀ inner put, .value inner ∈ row → boundValue? (flatten data) inner = some put → Loose put

theorem strip_printRow_of_loose {row : List Piece} (h : LooseRow row) :
    strip (printRow row) = textsOf row := by
  rw [strip_printRow h, textsOf, printRow, List.flatMap_map]
  refine List.flatMap_congr fun p _ => ?_
  cases p <;> rfl

/-- A text and tokens are rendered as the text and the values, nothing in the place of a token
without a value, exactly if the cleanup finds those tokens alone. It does if no value has two opening
braces in a row or one at its end. -/
theorem render_verbatim_iff {row : List Piece} (h : ∀ p ∈ row, p.WellFormed) (data : Json.Value) :
    ((render (String.ofList (printRow row)) data).html =
        String.ofList (printRow (row.map (Source.filled data none))) ↔
      leftovers (printRow (valued data row)) = innersOf (valued data row)) ∧
    (LooseValues data row → (render (String.ofList (printRow row)) data).html =
      String.ofList (printRow (row.map (Source.filled data none)))) := by
  have hloose := looseRow_of_wellFormed h
  have hhtml : (render (String.ofList (printRow row)) data).html =
      String.ofList (strip (printRow (valued data row))) := by
    rw [render, String.toList_ofList, renderHtml_printRow h, valued]
  rw [hhtml, String.ofList_inj, ← textsOf_valued]
  exact ⟨strip_printRow_iff (hloose.tokens.fill _),
    fun hv => strip_printRow_of_loose (hloose.fill_loose hv)⟩

/-- The rules of a style sheet have braces, and one of the tokens has no value. -/
theorem render_verbatim_style :
    (render ("<style>" ++ nameToken " css " ++ "</style>" ++ nameToken "x")
        (.object [("css", .string "a\x7bb\x7bc:d\x7d\x7d\x7d")])).html =
      "<style>a\x7bb\x7bc:d\x7d\x7d\x7d</style>" := by
  have hrow : ∀ p ∈ ([.text "<style>".toList, .value " css ".toList, .text "</style>".toList,
      .value ['x']] : List Piece), p.WellFormed := by decide +kernel
  have h := (render_verbatim_iff hrow (.object [("css", .string "a\x7bb\x7bc:d\x7d\x7d\x7d")])).1.mpr
    (by decide +kernel)
  exact h.trans (by decide +kernel)

/-- A value that is itself a token. -/
theorem not_render_verbatim :
    ¬ ∀ (row : List Piece) (data : Json.Value), (∀ p ∈ row, p.WellFormed) →
      (render (String.ofList (printRow row)) data).html =
        String.ofList (printRow (row.map (Source.filled data none))) := by
  intro h
  have hlost := h [.value ['a']] (.object [("a", .string (nameToken "b"))]) (by decide +kernel)
  revert hlost
  decide +kernel

end EmailTemplate.Template
