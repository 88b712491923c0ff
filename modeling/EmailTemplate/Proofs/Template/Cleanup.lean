import EmailTemplate.Proofs.Template.Data
import EmailTemplate.Template.Render

/-! What the cleanup of a rendered text leaves behind. It passes over the text once, so a token
survives exactly where other tokens stood between its two closing braces. -/

namespace EmailTemplate.Template

open Text

/-- A token is left for a reader to see. -/
def HasToken (s : List Char) : Prop :=
  ∃ before inner after, s = before ++ token inner ++ after ∧ '}' ∉ inner

/-- A row of tokens cuts a token in two between its closing braces. -/
def HasCutToken (s : List Char) : Prop :=
  ∃ before inner cut after,
    s = before ++ (openBraces ++ inner ++ '}' :: (cut.flatMap token ++ '}' :: after)) ∧
      '}' ∉ inner ∧ cut ≠ [] ∧ ∀ t ∈ cut, '}' ∉ t

theorem HasToken.append_left {s : List Char} (h : HasToken s) (u : List Char) :
    HasToken (u ++ s) := by
  obtain ⟨before, inner, after, rfl, hin⟩ := h
  exact ⟨u ++ before, inner, after, by simp only [List.append_assoc], hin⟩

theorem HasCutToken.append_left {s : List Char} (h : HasCutToken s) (u : List Char) :
    HasCutToken (u ++ s) := by
  obtain ⟨before, inner, cut, after, rfl, h⟩ := h
  exact ⟨u ++ before, inner, cut, after, by simp only [List.append_assoc], h⟩

section Leftover

theorem leftover?_token {inner : List Char} (h : '}' ∉ inner) (s : List Char) :
    leftover? (token inner ++ s) = some (inner, (token inner).length) :=
  tokenAt?_token (by decide) (fun c hc => bne_iff_ne.mpr fun he : c = '}' => h (he ▸ hc)) s

theorem leftover?_eq_some {s inner : List Char} {n : Nat} (h : leftover? s = some (inner, n)) :
    ∃ rest, s = token inner ++ rest ∧ '}' ∉ inner := by
  obtain ⟨rest, hs, hin, -⟩ := tokenAt?_eq_some h
  exact ⟨rest, hs, fun hm => by simpa using hin _ hm⟩

theorem ne_token_of_leftover?_eq_none {s : List Char} (h : leftover? s = none) {inner : List Char}
    (hin : '}' ∉ inner) (rest : List Char) : s ≠ token inner ++ rest := by
  rintro rfl
  simp [leftover?_token hin] at h

/-- Where the first closing brace stands alone, no token begins before it. -/
theorem leftover?_lone {u s : List Char} (hu : '}' ∉ u) :
    leftover? (u ++ '}' :: '{' :: s) = none := by
  rw [leftover?, tokenAt?_eq_none_iff (by decide)]
  intro inner rest hin h
  have hin' : '}' ∉ openBraces ++ inner := by
    simp only [openBraces, List.cons_append, List.nil_append, List.mem_cons]
    rintro (h | h | h)
    · simp at h
    · simp at h
    · simpa using hin _ h
  have ht : token inner ++ rest = (openBraces ++ inner) ++ '}' :: ('}' :: rest) := by
    simp [token, closeBraces]
  rw [ht] at h
  simpa using (append_closing_inj hu hin' h).2

theorem strip_token {inner : List Char} (h : '}' ∉ inner) (s : List Char) :
    strip (token inner ++ s) = strip s := by
  have hmatch : strip (token inner ++ s) = [] ++ strip s :=
    replaceMatches_match (token_ne_nil inner) (by rw [leftover?_token h]; rfl)
  exact hmatch

theorem strip_tokens {tokens : List (List Char)} (h : ∀ t ∈ tokens, '}' ∉ t) (s : List Char) :
    strip (tokens.flatMap token ++ s) = strip s := by
  induction tokens with
  | nil => rfl
  | cons t ts ih =>
    rw [List.flatMap_cons, List.append_assoc, strip_token (h t (by simp)),
      ih fun t ht => h t (by simp [ht])]

theorem strip_cons {c : Char} {s : List Char} (h : leftover? (c :: s) = none) :
    strip (c :: s) = c :: strip s :=
  replaceMatches_cons (by rw [h]; rfl)

/-- The cleanup takes a text apart into tokens and other characters. -/
theorem strip_induction {P : List Char → Prop} (nil : P [])
    (token : ∀ inner s, '}' ∉ inner → P s → P (token inner ++ s))
    (cons : ∀ c s, leftover? (c :: s) = none → P s → P (c :: s)) (s : List Char) : P s := by
  induction hn : s.length using Nat.strong_induction_on generalizing s with
  | _ n ih =>
    cases s with
    | nil => exact nil
    | cons c s =>
      cases hl : leftover? (c :: s) with
      | none => exact cons c s hl (ih s.length (by simp [← hn]) s rfl)
      | some found =>
        obtain ⟨rest, hs, hin⟩ := leftover?_eq_some hl
        rw [hs] at hn ⊢
        refine token found.1 rest hin (ih rest.length ?_ rest rfl)
        rw [← hn, List.length_append, length_token]
        omega

end Leftover

/-! ### What survives was cut -/

/-- Behind two opening braces that begin no token, there is no token before the first closing
brace. -/
theorem ne_token_behind {u s : List Char} (hu : '}' ∉ u)
    (hn : leftover? (openBraces ++ (u ++ s)) = none) {inner : List Char} (hin : '}' ∉ inner)
    (rest : List Char) : s ≠ token inner ++ rest := by
  rintro rfl
  have hmem : '}' ∉ u ++ '{' :: '{' :: inner := by simp [hu, hin]
  refine ne_token_of_leftover?_eq_none hn hmem rest ?_
  simp [token, openBraces, closeBraces]

/-- So what the cleanup leaves there stood there before. -/
theorem cons_behind {u s x : List Char} {c : Char} (hu : '}' ∉ u)
    (hn : leftover? (openBraces ++ (u ++ s)) = none) (hs : strip s = c :: x) :
    ∃ s', s = c :: s' ∧ strip s' = x := by
  cases s with
  | nil => simp [strip] at hs
  | cons d s =>
    have hd : leftover? (d :: s) = none := by
      by_contra hne
      obtain ⟨found, hf⟩ := Option.ne_none_iff_exists'.mp hne
      obtain ⟨rest, he, hin⟩ := leftover?_eq_some hf
      exact ne_token_behind hu hn hin rest he
    rw [strip_cons hd, List.cons.injEq] at hs
    exact ⟨s, by rw [hs.1], hs.2⟩

theorem append_behind {u s x inner : List Char} (hu : '}' ∉ u)
    (hn : leftover? (openBraces ++ (u ++ s)) = none) (hin : '}' ∉ inner)
    (hs : strip s = inner ++ x) : ∃ s', s = inner ++ s' ∧ strip s' = x := by
  induction inner generalizing u s with
  | nil => exact ⟨s, rfl, hs⟩
  | cons c inner ih =>
    obtain ⟨r, rfl, hr⟩ := cons_behind hu hn hs
    rw [List.mem_cons, not_or] at hin
    have hc : '}' ∉ u ++ [c] := by simp [hu, hin.1]
    have hn' : leftover? (openBraces ++ ((u ++ [c]) ++ r)) = none := by
      simpa only [List.append_assoc, List.singleton_append] using hn
    obtain ⟨s', rfl, hs'⟩ := ih hc hn' hin.2 hr
    exact ⟨s', rfl, hs'⟩

/-- A closing brace that the cleanup leaves first has only tokens before it. -/
theorem tokens_of_strip_eq_cons {s x : List Char} (h : strip s = '}' :: x) :
    ∃ (cut : List (List Char)) (s' : List Char),
      s = cut.flatMap token ++ '}' :: s' ∧ ∀ t ∈ cut, '}' ∉ t := by
  induction s using strip_induction with
  | nil => simp [strip] at h
  | token inner s hin ih =>
    rw [strip_token hin] at h
    obtain ⟨cut, s', rfl, hcut⟩ := ih h
    refine ⟨inner :: cut, s', by simp, ?_⟩
    intro t ht
    rcases List.mem_cons.mp ht with rfl | ht
    · exact hin
    · exact hcut t ht
  | cons c s hc _ =>
    rw [strip_cons hc, List.cons.injEq] at h
    exact ⟨[], s, by simp [h.1], by simp⟩

theorem hasCutToken_of_strip_eq {s inner after : List Char} (hn : leftover? ('{' :: s) = none)
    (hin : '}' ∉ inner) (hs : strip s = '{' :: (inner ++ '}' :: '}' :: after)) :
    HasCutToken ('{' :: s) := by
  cases s with
  | nil => simp [strip] at hs
  | cons d s =>
    have hd : leftover? (d :: s) = none := by
      by_contra hne
      obtain ⟨found, hf⟩ := Option.ne_none_iff_exists'.mp hne
      obtain ⟨rest, he, hin'⟩ := leftover?_eq_some hf
      have hmem : '}' ∉ '{' :: found.1 := by simp [hin']
      refine ne_token_of_leftover?_eq_none hn hmem rest ?_
      rw [he]
      simp [token, openBraces]
    rw [strip_cons hd, List.cons.injEq] at hs
    obtain ⟨rfl, hs⟩ := hs
    have hopen : leftover? (openBraces ++ ([] ++ s)) = none := hn
    obtain ⟨s₁, rfl, hs₁⟩ := append_behind (by simp) hopen hin hs
    obtain ⟨s₂, rfl, hs₂⟩ := cons_behind hin hn hs₁
    obtain ⟨cut, s₃, rfl, hcut⟩ := tokens_of_strip_eq_cons hs₂
    refine ⟨[], inner, cut, s₃, by simp [openBraces], hin, ?_, hcut⟩
    rintro rfl
    exact ne_token_of_leftover?_eq_none hn hin s₃ (by simp [token, openBraces, closeBraces])

theorem hasCutToken_of_strip {s : List Char} (h : HasToken (strip s)) : HasCutToken s := by
  induction s using strip_induction with
  | nil =>
    obtain ⟨before, inner, after, he, -⟩ := h
    simp [strip, token, openBraces] at he
  | token inner s hin ih =>
    rw [strip_token hin] at h
    exact (ih h).append_left _
  | cons c s hc ih =>
    rw [strip_cons hc] at h
    obtain ⟨before, inner, after, he, hin⟩ := h
    rw [List.append_assoc, List.cons_eq_append_iff] at he
    rcases he with ⟨rfl, he⟩ | ⟨before', rfl, he⟩
    · rw [token_append, List.cons.injEq] at he
      obtain ⟨rfl, he⟩ := he
      exact hasCutToken_of_strip_eq hc hin he.symm
    · have hs : HasToken (strip s) := ⟨before', inner, after, by rw [he, List.append_assoc], hin⟩
      exact (ih hs).append_left [c]

/-! ### What was cut survives -/

theorem strip_lone {u : List Char} (hu : '}' ∉ u) (s : List Char) :
    strip (u ++ '}' :: '{' :: s) = u ++ '}' :: strip ('{' :: s) := by
  induction u with
  | nil => exact strip_cons (leftover?_lone hu)
  | cons c u ih =>
    have hc : leftover? (c :: (u ++ '}' :: '{' :: s)) = none := leftover?_lone hu
    rw [List.cons_append, strip_cons hc, ih fun h => hu (by simp [h]), List.cons_append]

/-- A token that begins before a lone closing brace ends before it. -/
theorem token_before_lone {before u s t rest : List Char} (hu : '}' ∉ '{' :: u) (ht : '}' ∉ t)
    (h : before ++ '{' :: (u ++ '}' :: '{' :: s) = token t ++ rest) :
    ∃ before', before = token t ++ before' := by
  have htok : token t ++ rest = (openBraces ++ t) ++ '}' :: '}' :: rest := by
    simp [token, closeBraces]
  have hopen : '}' ∉ openBraces ++ t := by simp [openBraces, ht]
  rw [htok] at h
  by_cases hm : '}' ∈ before
  · obtain ⟨v, w, rfl, hv⟩ := List.eq_append_cons_of_mem hm
    rw [List.append_assoc, List.cons_append] at h
    obtain ⟨rfl, hw⟩ := append_closing_inj hv hopen h
    cases w with
    | nil => simp at hw
    | cons d w =>
      obtain ⟨rfl, -⟩ := List.cons.inj hw
      exact ⟨w, by simp [token, closeBraces]⟩
  · have hbefore : '}' ∉ before ++ '{' :: u := by
      rw [List.mem_append, not_or]
      exact ⟨hm, hu⟩
    have h' : (before ++ '{' :: u) ++ '}' :: '{' :: s = (openBraces ++ t) ++ '}' :: '}' :: rest := by
      simpa using h
    simpa using (append_closing_inj hbefore hopen h').2

theorem hasToken_strip_of_hasCutToken {s : List Char} (h : HasCutToken s) :
    HasToken (strip s) := by
  obtain ⟨before, inner, cut, after, rfl, hin, hcut, hfree⟩ := h
  obtain ⟨t, ts, rfl⟩ := List.exists_cons_of_ne_nil hcut
  obtain ⟨r, hr⟩ : ∃ r, (t :: ts).flatMap token ++ '}' :: after = '{' :: r :=
    ⟨_, by rw [List.flatMap_cons, List.append_assoc, token_append]⟩
  have hopen : '}' ∉ openBraces ++ inner := by simp [openBraces, hin]
  have hbody : strip (openBraces ++ inner ++ '}' :: ((t :: ts).flatMap token ++ '}' :: after)) =
      token inner ++ strip after := by
    rw [hr, strip_lone hopen, ← hr, strip_tokens hfree, strip_cons (tokenAt?_cons_of_ne (by decide) _)]
    simp [token, closeBraces]
  induction hlen : before.length using Nat.strong_induction_on generalizing before with
  | _ n ih =>
    cases before with
    | nil => exact ⟨[], inner, strip after, by rw [List.nil_append, hbody]; rfl, hin⟩
    | cons c before =>
      cases hl : leftover? (c :: (before ++
          (openBraces ++ inner ++ '}' :: ((t :: ts).flatMap token ++ '}' :: after)))) with
      | none =>
        rw [List.cons_append, strip_cons hl]
        exact (ih before.length (by simp [← hlen]) before rfl).append_left [c]
      | some found =>
        obtain ⟨rest, he, ht⟩ := leftover?_eq_some hl
        have hlone : (c :: before) ++ '{' :: ('{' :: inner ++ '}' :: '{' :: r) =
            token found.1 ++ rest := by
          rw [← he, hr]
          simp [openBraces]
        obtain ⟨before', hb⟩ := token_before_lone hopen ht hlone
        rw [hb, List.append_assoc, strip_token ht]
        refine ih before'.length ?_ before' rfl
        rw [← hlen, hb, List.length_append, length_token]
        omega

theorem hasToken_strip_iff {s : List Char} : HasToken (strip s) ↔ HasCutToken s :=
  ⟨hasCutToken_of_strip, hasToken_strip_of_hasCutToken⟩

/-! ### Rendering -/

/-- The text that the cleanup of a rendering gets. -/
def uncleaned (template : List Char) (data : Json.Value) : List Char :=
  substitute (flatten data) (expandLoops (resolveBlocks template data) data)

/-- The output is free of tokens if and only if no token was cut in two when the cleanup began. -/
theorem render_tokenless_iff (template : String) (data : Json.Value) :
    ¬ HasToken (render template data).html.toList ↔
      ¬ HasCutToken (uncleaned template.toList data) := by
  rw [render, String.toList_ofList, not_iff_not]
  exact hasToken_strip_iff

/-- A token with another between its closing braces. -/
theorem hasToken_render_nested :
    (Json.Value.object []).BraceFree ∧
      HasToken (render "{{a}{{x}}}" (.object [])).html.toList := by
  refine ⟨by decide, [], ['a'], [], ?_, by decide⟩
  decide +kernel

end EmailTemplate.Template
