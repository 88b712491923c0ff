import EmailTemplate.Proofs.PlainText.Wording

/-! What recognisers take from a text: the same whatever follows it, and the same if the line ends
of the text are in one form. -/

namespace EmailTemplate.PlainText

open Text

variable {m name s u rest : List Char}

/-! ### What follows does not matter -/

/-- Neither the marks of a tag nor its name go on with another mark. -/
theorem not_isCaseOf_tag {d : Char} (marks : List Char) (hd : EndsName d)
    (hmarks : ∀ k ∈ marks, isAsciiLower k = false ∧ d ≠ k) (hname : IsName name) :
    ∀ k ∈ marks ++ name, isCaseOf k d = false := by
  intro k hk
  rcases List.mem_append.mp hk with hk | hk
  · obtain ⟨hlower, hne⟩ := hmarks k hk
    cases hcase : isCaseOf k d with
    | false => rfl
    | true => exact absurd (eq_of_isCaseOf hlower hcase) hne
  · exact hd.not_isCaseOf (hname.2 k hk)

theorem afterAnyCase?_append_cons {d : Char} (hd : ∀ k ∈ m, isCaseOf k d = false)
    (u s : List Char) :
    afterAnyCase? m (u ++ d :: s) = (afterAnyCase? m u).map (· ++ d :: s) := by
  induction m generalizing u with
  | nil => rfl
  | cons k m ih =>
    rw [List.forall_mem_cons] at hd
    cases u with
    | nil => exact afterAnyCase?_cons_of_not hd.1
    | cons c u =>
      rw [List.cons_append, afterAnyCase?, afterAnyCase?]
      split
      · exact ih hd.2 u
      · rfl

theorem after?_append_cons {d : Char} (hd : d ∉ m) (u s : List Char) :
    after? m (u ++ d :: s) = (after? m u).map (· ++ d :: s) := by
  induction m generalizing u with
  | nil => rfl
  | cons k m ih =>
    rw [List.mem_cons, not_or] at hd
    cases u with
    | nil => exact if_neg (Ne.symm hd.1)
    | cons c u =>
      rw [List.cons_append, after?, after?]
      split
      · exact ih hd.2 u
      · rfl

theorem afterAnyCase?_taken (h : afterAnyCase? m s = some rest) :
    ∃ u, s = u ++ rest ∧ ∀ t, afterAnyCase? m (u ++ t) = some t := by
  induction m generalizing s with
  | nil =>
    rw [afterAnyCase?, Option.some.injEq] at h
    exact ⟨[], h, fun _ => rfl⟩
  | cons k m ih =>
    cases s with
    | nil => cases h
    | cons c s =>
      rw [afterAnyCase?] at h
      split at h
      · next hcase =>
        obtain ⟨u, rfl, hu⟩ := ih h
        refine ⟨c :: u, rfl, fun t => ?_⟩
        rw [List.cons_append, afterAnyCase?, if_pos hcase, hu]
      · cases h

theorem tagEnd?_eq_some {inside : List Char} (h : tagEnd? s = some (inside, rest)) :
    s = inside ++ '>' :: rest ∧ '>' ∉ inside := by
  rcases all_or_exists_first (· != '>') s with hs | ⟨u, c, v, rfl, hc, hu⟩
  · rw [tagEnd?, List.dropWhile_eq_nil_iff.mpr hs] at h
    cases h
  · obtain rfl : c = '>' := by simpa using hc
    have hgt : '>' ∉ u := fun hm => by simpa using hu '>' hm
    rw [tagEnd?_append hgt, Option.some.injEq, Prod.mk.injEq] at h
    obtain ⟨rfl, rfl⟩ := h
    exact ⟨rfl, hgt⟩

theorem openTag?_taken {attributes : List Char} (h : openTag? name s = some (attributes, rest)) :
    ∃ u, s = u ++ rest ∧ ∀ t, openTag? name (u ++ t) = some (attributes, t) := by
  obtain ⟨r, hname, htag⟩ := Option.bind_eq_some_iff.mp h
  split at htag
  · cases htag
  · next hend =>
    obtain ⟨u, rfl, hu⟩ := afterAnyCase?_taken hname
    obtain ⟨rfl, hgt⟩ := tagEnd?_eq_some htag
    refine ⟨u ++ (attributes ++ ['>']), by simp, fun t => ?_⟩
    have hhead : (attributes ++ '>' :: t).head? = (attributes ++ '>' :: rest).head? := by
      cases attributes <;> rfl
    have hshape : u ++ (attributes ++ ['>']) ++ t = u ++ (attributes ++ '>' :: t) := by simp
    rw [hshape, openTag?, hu, Option.bind_some, hhead, if_neg hend, tagEnd?_append hgt]

theorem afterAnyCase?_of_lower {written : List Char} (h : written.map asciiLower = m)
    (s : List Char) : afterAnyCase? m (written ++ s) = some s := by
  subst h
  induction written with
  | nil => rfl
  | cons c written ih =>
    have hcase : isCaseOf (asciiLower c) c = true := by simp [isCaseOf]
    rw [List.map_cons, List.cons_append, afterAnyCase?, if_pos hcase, ih]

/-- An opening tag may be written in any case, and have anything in it that does not go on with its
name or end it. -/
theorem openTag?_append {written inside : List Char} (hwritten : written.map asciiLower = name)
    (hapart : ∀ c ∈ inside.head?, isWord c = false) (hgt : '>' ∉ inside) (s : List Char) :
    openTag? name ('<' :: (written ++ (inside ++ '>' :: s))) = some (inside, s) := by
  have hword : isWord '>' = false := by decide
  have hhead : ¬ (inside ++ '>' :: s).head?.any isWord = true := by
    cases inside with
    | nil => simp [hword]
    | cons c inside => simpa using hapart
  rw [openTag?, afterAnyCase?_lt, afterAnyCase?_of_lower hwritten, Option.bind_some, if_neg hhead,
    tagEnd?_append hgt]

theorem closeTag?_taken (h : closeTag? name s = some rest) :
    ∃ u, s = u ++ rest ∧ ∀ t, closeTag? name (u ++ t) = some t := by
  obtain ⟨r, hname, htag⟩ := Option.bind_eq_some_iff.mp h
  obtain ⟨u, rfl, hu⟩ := afterAnyCase?_taken hname
  have hgt : trimLeft r = '>' :: rest := after?_eq_some_iff.mp htag
  obtain ⟨b, hb, hr⟩ := exists_blanks_before_trimLeft r
  rw [hgt] at hr
  subst hr
  refine ⟨u ++ (b ++ ['>']), by simp, fun t => ?_⟩
  have hshape : u ++ (b ++ ['>']) ++ t = u ++ (b ++ '>' :: t) := by simp
  rw [hshape, closeTag?, hu, Option.bind_some, trimLeft_append_cons (by decide),
    trimLeft_of_blank hb]
  rfl

/-- A closing tag that begins before the next tag ends before it. -/
theorem closeTag?_append_tag (hname : IsName name) (hu : u ≠ []) (s : List Char) :
    closeTag? name (u ++ '<' :: s) = (closeTag? name u).map (· ++ '<' :: s) := by
  obtain ⟨c, u, rfl⟩ := List.exists_cons_of_ne_nil hu
  have hlt : ∀ k ∈ '/' :: name, isCaseOf k '<' = false :=
    not_isCaseOf_tag ['/'] (by decide) (by decide) hname
  have hread : afterAnyCase? ('<' :: '/' :: name) (c :: u ++ '<' :: s) =
      (afterAnyCase? ('<' :: '/' :: name) (c :: u)).map (· ++ '<' :: s) := by
    rw [List.cons_append, afterAnyCase?, afterAnyCase?]
    split
    · exact afterAnyCase?_append_cons hlt u s
    · rfl
  rw [closeTag?, closeTag?, hread]
  cases afterAnyCase? ('<' :: '/' :: name) (c :: u) with
  | none => rfl
  | some r =>
    simp only [Option.map_some, Option.bind_some]
    rw [trimLeft_append_cons (by decide), after?_append_cons (by decide)]

theorem upToCloseTag?_taken (hname : IsName name) {body : List Char}
    (h : upToCloseTag? name s = some (body, rest)) :
    ∃ u, s = u ++ rest ∧ ∀ t, upToCloseTag? name (u ++ t) = some (body, t) := by
  induction s generalizing body with
  | nil => cases h
  | cons c s ih =>
    cases hclose : closeTag? name (c :: s) with
    | some r =>
      simp only [upToCloseTag?, hclose, Option.some.injEq, Prod.mk.injEq] at h
      obtain ⟨rfl, rfl⟩ := h
      obtain ⟨u, hs, hu⟩ := closeTag?_taken hclose
      cases u with
      | nil => exact absurd (hu []) (by simp [closeTag?, afterAnyCase?])
      | cons d u =>
        refine ⟨d :: u, hs, fun t => ?_⟩
        have hat := hu t
        rw [List.cons_append] at hat ⊢
        rw [upToCloseTag?, hat]
    | none =>
      simp only [upToCloseTag?, hclose, Option.map_eq_some_iff] at h
      obtain ⟨⟨body, r⟩, h, heq⟩ := h
      obtain ⟨rfl, rfl⟩ := Prod.mk.inj heq
      obtain ⟨u, rfl, hu⟩ := ih h
      refine ⟨c :: u, rfl, fun t => ?_⟩
      -- The closing tag of the body begins with a less-than sign, which no tag before it passes.
      have hlt : '<' ∈ u := by
        by_contra hlt
        have hnever := upToCloseTag?_of_idle ((atTag_closeTag? name).ignores hlt [])
        have hread := hu []
        rw [List.append_nil, hnever] at hread
        cases hread
      obtain ⟨v, w, rfl⟩ := List.append_of_mem hlt
      have hbefore : closeTag? name (c :: v) = none := by
        have hshape : c :: (v ++ '<' :: w ++ r) = (c :: v) ++ '<' :: (w ++ r) := by simp
        rw [hshape, closeTag?_append_tag hname (List.cons_ne_nil c v)] at hclose
        exact Option.map_eq_none_iff.mp hclose
      have hhere : closeTag? name (c :: (v ++ '<' :: w ++ t)) = none := by
        have hshape : c :: (v ++ '<' :: w ++ t) = (c :: v) ++ '<' :: (w ++ t) := by simp
        rw [hshape, closeTag?_append_tag hname (List.cons_ne_nil c v), hbefore, Option.map_none]
      rw [List.cons_append, upToCloseTag?, hhere, hu, Option.map_some]

theorem wholeElement?_taken (hname : IsName name) (h : wholeElement? name s = some rest) :
    ∃ u, u ≠ [] ∧ s = u ++ rest ∧ ∀ t, wholeElement? name (u ++ t) = some t := by
  obtain ⟨⟨attributes, r⟩, hopen, hbody⟩ := Option.bind_eq_some_iff.mp h
  obtain ⟨⟨body, r'⟩, hclose, rfl⟩ := Option.map_eq_some_iff.mp hbody
  obtain ⟨u, rfl, hu⟩ := openTag?_taken hopen
  obtain ⟨v, rfl, hv⟩ := upToCloseTag?_taken hname hclose
  have hread : ∀ t, wholeElement? name (u ++ v ++ t) = some t := by
    intro t
    rw [List.append_assoc, wholeElement?, hu, Option.bind_some]
    simp only [hv, Option.map_some]
  refine ⟨u ++ v, ?_, by simp, hread⟩
  intro hnil
  have hempty := hread []
  rw [hnil] at hempty
  cases hempty

/-! ### Where a tag begins -/

/-- The opening tag of an element begins here, wherever it ends. -/
def opens (name s : List Char) : Bool :=
  (afterAnyCase? ('<' :: name) s).any fun rest => !rest.head?.any isWord

theorem openTag?_eq_none (h : opens name s = false) : openTag? name s = none := by
  rw [openTag?]
  rw [opens] at h
  cases hread : afterAnyCase? ('<' :: name) s with
  | none => rfl
  | some rest =>
    rw [hread] at h
    have hword : rest.head?.any isWord = true := by simpa using h
    rw [Option.bind_some, if_pos hword]

theorem opens_append_cons {d : Char} (hd : EndsName d) (hlt : d ≠ '<') (hword : isWord d = false)
    (hname : IsName name) (s t : List Char) : opens name (s ++ d :: t) = opens name s := by
  have hmark : ∀ k ∈ ['<'], isAsciiLower k = false ∧ d ≠ k :=
    List.forall_mem_singleton.mpr ⟨by decide, hlt⟩
  have hstop : ∀ k ∈ '<' :: name, isCaseOf k d = false := not_isCaseOf_tag ['<'] hd hmark hname
  rw [opens, opens, afterAnyCase?_append_cons hstop]
  cases afterAnyCase? ('<' :: name) s with
  | none => rfl
  | some rest =>
    cases rest with
    | nil => simp [hword]
    | cons c rest => rfl

/-! ### Tags end with a greater-than sign -/

theorem tagEnd?_eq_none (h : '>' ∉ s) : tagEnd? s = none := by
  rw [tagEnd?, List.dropWhile_eq_nil_iff.mpr (bne_of_not_mem h)]

theorem openTag?_of_no_end (h : '>' ∉ s) : openTag? name s = none := by
  rw [openTag?]
  cases hread : afterAnyCase? ('<' :: name) s with
  | none => rfl
  | some r =>
    obtain ⟨u, rfl, -⟩ := afterAnyCase?_taken hread
    rw [List.mem_append, not_or] at h
    rw [Option.bind_some, tagEnd?_eq_none h.2, ite_self]

theorem closeTag?_of_no_end (h : '>' ∉ s) : closeTag? name s = none := by
  rw [closeTag?]
  cases hread : afterAnyCase? ('<' :: '/' :: name) s with
  | none => rfl
  | some r =>
    obtain ⟨u, rfl, -⟩ := afterAnyCase?_taken hread
    rw [List.mem_append, not_or] at h
    refine after?_eq_none_iff.mpr fun hp => h.2 ?_
    exact (List.dropWhile_suffix isBlank).subset (hp.subset List.mem_cons_self)

theorem anyCloseTag?_of_no_end (names : List (List Char)) (h : '>' ∉ s) :
    anyCloseTag? names s = none := by
  rw [anyCloseTag?, List.findSome?_eq_none_iff]
  exact fun m _ => closeTag?_of_no_end h

theorem lineBreak?_of_no_end (h : '>' ∉ s) : lineBreak? s = none := by
  rw [lineBreak?]
  cases hread : afterAnyCase? ['<', 'b', 'r'] s with
  | none => rfl
  | some r =>
    obtain ⟨u, rfl, -⟩ := afterAnyCase?_taken hread
    rw [List.mem_append, not_or] at h
    have hnone : ∀ m : List Char, '>' ∈ m → after? m (trimLeft r) = none :=
      fun m hm => after?_eq_none_iff.mpr fun hp => h.2
        ((List.dropWhile_suffix isBlank).subset (hp.subset hm))
    simp only [Option.bind_some, hnone ['/', '>'] (by simp), hnone ['>'] (by simp), Option.or_none]

theorem anyTag?_of_no_end (h : '>' ∉ s) : anyTag? s = none := by
  rw [anyTag?]
  cases hread : after? ['<'] s with
  | none => rfl
  | some t =>
    rw [after?_eq_some_iff.mp hread, List.mem_append, not_or] at h
    rw [Option.bind_some, tagEnd?_eq_none h.2, Option.bind_none]

/-- A tag that is begun before the end of another ends there too. -/
theorem openTag?_before_end (hname : IsName name) (hu : '>' ∉ u) (s : List Char) :
    openTag? name (u ++ '>' :: s) = none ∨
      ∃ attributes, openTag? name (u ++ '>' :: s) = some (attributes, s) := by
  have hstop : ∀ k ∈ '<' :: name, isCaseOf k '>' = false :=
    not_isCaseOf_tag ['<'] (by decide) (by decide) hname
  rw [openTag?, afterAnyCase?_append_cons hstop]
  cases hread : afterAnyCase? ('<' :: name) u with
  | none => exact .inl rfl
  | some r =>
    obtain ⟨v, rfl, -⟩ := afterAnyCase?_taken hread
    rw [List.mem_append, not_or] at hu
    rw [Option.map_some, Option.bind_some, tagEnd?_append hu.2]
    split
    · exact .inl rfl
    · exact .inr ⟨r, rfl⟩

/-! ### Line ends do not matter -/

theorem unixLines_lineEnd (s : List Char) : unixLines ('\r' :: '\n' :: s) = '\n' :: unixLines s :=
  replaceAll_literal (List.cons_ne_nil '\r' ['\n']) ['\n'] s

theorem unixLines_cons {c : Char} (h : ¬ ['\r', '\n'] <+: c :: s) :
    unixLines (c :: s) = c :: unixLines s := replaceAll_cons h ['\n']

/-- A text is read line end by line end and character by character. -/
theorem unixLines_induction {p : List Char → Prop} (nil : p [])
    (lineEnd : ∀ s, p s → p ('\r' :: '\n' :: s))
    (passed : ∀ c s, ¬ ['\r', '\n'] <+: c :: s → p s → p (c :: s)) (s : List Char) : p s :=
  literal_induction (List.cons_ne_nil '\r' ['\n']) nil lineEnd passed s

theorem unixLines_append (h : u.getLast? ≠ some '\r' ∨ s.head? ≠ some '\n') :
    unixLines (u ++ s) = unixLines u ++ unixLines s := by
  have hfind : ['\r', '\n'] ≠ [] := List.cons_ne_nil _ _
  induction u using literal_induction hfind with
  | nil => rfl
  | found u ih =>
    have hrest : u.getLast? ≠ some '\r' ∨ s.head? ≠ some '\n' := by
      refine h.imp_left fun h hlast => h ?_
      rw [List.getLast?_append, hlast, Option.some_or]
    exact (unixLines_lineEnd (u ++ s)).trans (by rw [ih hrest, ← List.cons_append]; rfl)
  | passed c u hc ih =>
    have hrest : u.getLast? ≠ some '\r' ∨ s.head? ≠ some '\n' := by
      refine h.imp_left fun h hlast => h ?_
      rw [List.getLast?_cons, hlast, Option.getD_some]
    have hall : ¬ ['\r', '\n'] <+: c :: (u ++ s) := by
      intro hp
      obtain ⟨hc', hp⟩ := List.cons_prefix_cons.mp hp
      cases u with
      | nil =>
        obtain ⟨t, rfl⟩ := hp
        exact h.elim (fun h => h (by simp [← hc'])) fun h => h rfl
      | cons d u =>
        obtain ⟨rfl, -⟩ := List.cons_prefix_cons.mp hp
        exact hc (by simp [← hc'])
    rw [List.cons_append, unixLines_cons hall, unixLines_cons hc, ih hrest, List.cons_append]

theorem afterAnyCase?_unixLines
    (hm : ∀ k ∈ m, isCaseOf k '\r' = false ∧ isCaseOf k '\n' = false) (s : List Char) :
    afterAnyCase? m (unixLines s) = (afterAnyCase? m s).map unixLines := by
  induction m generalizing s with
  | nil => rfl
  | cons k m ih =>
    rw [List.forall_mem_cons] at hm
    cases s using unixLines_induction with
    | nil => rfl
    | lineEnd s =>
      rw [unixLines_lineEnd, afterAnyCase?_cons_of_not hm.1.2, afterAnyCase?_cons_of_not hm.1.1,
        Option.map_none]
    | passed c s hc =>
      rw [unixLines_cons hc, afterAnyCase?, afterAnyCase?]
      split
      · exact ih hm.2 s
      · rfl

theorem after?_unixLines (hcr : '\r' ∉ m) (hlf : '\n' ∉ m) (s : List Char) :
    after? m (unixLines s) = (after? m s).map unixLines := by
  induction m generalizing s with
  | nil => rfl
  | cons k m ih =>
    rw [List.mem_cons, not_or] at hcr hlf
    cases s using unixLines_induction with
    | nil => rfl
    | lineEnd s =>
      rw [unixLines_lineEnd, after?, if_neg (Ne.symm hlf.1), after?,
        if_neg (Ne.symm hcr.1), Option.map_none]
    | passed c s hc =>
      rw [unixLines_cons hc, after?, after?]
      split
      · exact ih hcr.2 hlf.2 s
      · rfl

section Trim

variable {p : Char → Bool}

theorem dropWhile_unixLines (hcr : p '\r' = true) (hlf : p '\n' = true) (s : List Char) :
    (unixLines s).dropWhile p = unixLines (s.dropWhile p) := by
  induction s using unixLines_induction with
  | nil => rfl
  | lineEnd s ih =>
    rw [unixLines_lineEnd, List.dropWhile_cons_of_pos hlf, List.dropWhile_cons_of_pos hcr,
      List.dropWhile_cons_of_pos hlf, ih]
  | passed c s hc ih =>
    rw [unixLines_cons hc]
    by_cases h : p c = true
    · rw [List.dropWhile_cons_of_pos h, List.dropWhile_cons_of_pos h, ih]
    · rw [List.dropWhile_cons_of_neg h, List.dropWhile_cons_of_neg h, unixLines_cons hc]

theorem forall_mem_unixLines_iff (hcr : p '\r' = true) (hlf : p '\n' = true) :
    (∀ c ∈ unixLines s, p c = true) ↔ ∀ c ∈ s, p c = true := by
  induction s using unixLines_induction with
  | nil => rfl
  | lineEnd s ih => simp [unixLines_lineEnd, ih, hcr, hlf]
  | passed c s hc ih => rw [unixLines_cons hc, List.forall_mem_cons, List.forall_mem_cons, ih]

theorem rdropWhile_unixLines (hcr : p '\r' = true) (hlf : p '\n' = true) (s : List Char) :
    (unixLines s).rdropWhile p = unixLines (s.rdropWhile p) := by
  rcases all_or_exists_last p s with hs | ⟨u, c, b, rfl, hc, hb⟩
  · rw [List.rdropWhile_eq_nil_iff.mpr hs,
      List.rdropWhile_eq_nil_iff.mpr ((forall_mem_unixLines_iff hcr hlf).mpr hs)]
    rfl
  · have hmark : c ∉ ['\r', '\n'] := by
      simp only [List.mem_cons, List.not_mem_nil, or_false, not_or]
      constructor
      · rintro rfl
        rw [hcr] at hc
        cases hc
      · rintro rfl
        rw [hlf] at hc
        cases hc
    rw [unixLines_append_cons hmark,
      rdropWhile_append_stop ((forall_mem_unixLines_iff hcr hlf).mpr hb) hc,
      rdropWhile_append_stop hb hc, unixLines_append_cons hmark]
    rfl

theorem trimLeft_unixLines (s : List Char) : trimLeft (unixLines s) = unixLines (trimLeft s) :=
  dropWhile_unixLines (by decide) (by decide) s

theorem trim_unixLines (s : List Char) : trim (unixLines s) = unixLines (trim s) := by
  have htrim : ∀ t, trim t = (trimLeft t).rdropWhile isBlank := fun _ => rfl
  rw [htrim, htrim, trimLeft_unixLines, rdropWhile_unixLines (by decide) (by decide)]

end Trim

/-- A text ends in what a text with other line ends ends in. -/
theorem exists_suffix_of_suffix_unixLines {w : List Char} (h : w <:+ unixLines s) :
    ∃ t, t <:+ s ∧ w = unixLines t := by
  induction s using unixLines_induction with
  | nil => exact ⟨[], List.suffix_rfl, List.suffix_nil.mp h⟩
  | lineEnd s ih =>
    rw [unixLines_lineEnd] at h
    rcases List.suffix_cons_iff.mp h with rfl | h
    · exact ⟨_, List.suffix_rfl, (unixLines_lineEnd s).symm⟩
    · obtain ⟨t, ht, rfl⟩ := ih h
      exact ⟨t, ht.trans ((List.suffix_cons '\n' s).trans (List.suffix_cons '\r' _)), rfl⟩
  | passed c s hc ih =>
    rw [unixLines_cons hc] at h
    rcases List.suffix_cons_iff.mp h with rfl | h
    · exact ⟨_, List.suffix_rfl, (unixLines_cons hc).symm⟩
    · obtain ⟨t, ht, rfl⟩ := ih h
      exact ⟨t, ht.trans (List.suffix_cons c s), rfl⟩

theorem infix_of_infix_unixLines (hcr : '\r' ∉ m) (hlf : '\n' ∉ m) (h : m <:+: unixLines s) :
    m <:+: s := by
  obtain ⟨w, hp, hsuffix⟩ := List.infix_iff_prefix_suffix.mp h
  obtain ⟨t, ht, rfl⟩ := exists_suffix_of_suffix_unixLines hsuffix
  have hat : m <+: t := by
    by_contra hno
    have hnone := after?_unixLines hcr hlf t
    rw [after?_eq_none_iff.mpr hno, Option.map_none, after?_eq_none_iff] at hnone
    exact hnone hp
  exact hat.isInfix.trans ht.isInfix

theorem isEmpty_unixLines (s : List Char) : (unixLines s).isEmpty = s.isEmpty := by
  cases s using unixLines_induction with
  | nil => rfl
  | lineEnd s => rfl
  | passed c s hc => rw [unixLines_cons hc]; rfl

theorem head?_unixLines_isWord (s : List Char) :
    (unixLines s).head?.any isWord = s.head?.any isWord := by
  have hword : isWord '\n' = isWord '\r' := by decide
  cases s using unixLines_induction with
  | nil => rfl
  | lineEnd s => exact hword
  | passed c s hc => rw [unixLines_cons hc]; rfl

theorem tagEnd?_unixLines (s : List Char) : tagEnd? (unixLines s) =
    (tagEnd? s).map fun p => (unixLines p.1, unixLines p.2) := by
  rcases all_or_exists_first (· != '>') s with hs | ⟨u, c, v, rfl, hc, hu⟩
  · have hgt : '>' ∉ s := fun hm => by simpa using hs '>' hm
    have hunix := bne_of_not_mem (not_mem_unixLines (by decide) hgt)
    rw [tagEnd?, tagEnd?, List.dropWhile_eq_nil_iff.mpr hs, List.dropWhile_eq_nil_iff.mpr hunix,
      Option.map_none]
  · obtain rfl : c = '>' := by simpa using hc
    have hgt : '>' ∉ u := fun hm => by simpa using hu '>' hm
    rw [unixLines_append_cons (by decide), tagEnd?_append hgt,
      tagEnd?_append (not_mem_unixLines (by decide) hgt), Option.map_some]

theorem afterAnyCase?_tag_unixLines (marks : List Char) (hname : IsName name)
    (hmarks : ∀ k ∈ marks, isAsciiLower k = false ∧ '\r' ≠ k ∧ '\n' ≠ k) (s : List Char) :
    afterAnyCase? (marks ++ name) (unixLines s) =
      (afterAnyCase? (marks ++ name) s).map unixLines := by
  have hcr := not_isCaseOf_tag (d := '\r') marks (by decide)
    (fun k hk => ⟨(hmarks k hk).1, (hmarks k hk).2.1⟩) hname
  have hlf := not_isCaseOf_tag (d := '\n') marks (by decide)
    (fun k hk => ⟨(hmarks k hk).1, (hmarks k hk).2.2⟩) hname
  exact afterAnyCase?_unixLines (fun k hk => ⟨hcr k hk, hlf k hk⟩) s

theorem openTag?_unixLines (hname : IsName name) (s : List Char) : openTag? name (unixLines s) =
    (openTag? name s).map fun p => (unixLines p.1, unixLines p.2) := by
  have hread : afterAnyCase? ('<' :: name) (unixLines s) =
      (afterAnyCase? ('<' :: name) s).map unixLines :=
    afterAnyCase?_tag_unixLines ['<'] hname (by decide) s
  rw [openTag?, openTag?, hread]
  cases afterAnyCase? ('<' :: name) s with
  | none => rfl
  | some r =>
    simp only [Option.map_some, Option.bind_some, head?_unixLines_isWord, tagEnd?_unixLines]
    split <;> rfl

theorem opens_unixLines (hname : IsName name) (s : List Char) :
    opens name (unixLines s) = opens name s := by
  have hread : afterAnyCase? ('<' :: name) (unixLines s) =
      (afterAnyCase? ('<' :: name) s).map unixLines :=
    afterAnyCase?_tag_unixLines ['<'] hname (by decide) s
  rw [opens, opens, hread, Option.any_map]
  simp only [head?_unixLines_isWord]

theorem closeTag?_unixLines (hname : IsName name) (s : List Char) :
    closeTag? name (unixLines s) = (closeTag? name s).map unixLines := by
  have hread : afterAnyCase? ('<' :: '/' :: name) (unixLines s) =
      (afterAnyCase? ('<' :: '/' :: name) s).map unixLines :=
    afterAnyCase?_tag_unixLines ['<', '/'] hname (by decide) s
  rw [closeTag?, closeTag?, hread]
  cases afterAnyCase? ('<' :: '/' :: name) s with
  | none => rfl
  | some r =>
    simp only [Option.map_some, Option.bind_some, trimLeft_unixLines]
    exact after?_unixLines (by decide) (by decide) _

theorem upToCloseTag?_unixLines (hname : IsName name) (s : List Char) :
    (upToCloseTag? name (unixLines s)).map (·.2) =
      (upToCloseTag? name s).map fun p => unixLines p.2 := by
  induction s using unixLines_induction with
  | nil => rfl
  | lineEnd s ih =>
    have hcr := atTag_closeTag? name '\r' ('\n' :: s) (by decide)
    have hlf : ∀ t, closeTag? name ('\n' :: t) = none :=
      fun t => atTag_closeTag? name '\n' t (by decide)
    simp only [unixLines_lineEnd, upToCloseTag?, hcr, hlf, Option.map_map]
    exact ih
  | passed c s hc ih =>
    have hclose := closeTag?_unixLines hname (c :: s)
    rw [unixLines_cons hc] at hclose
    cases hread : closeTag? name (c :: s) with
    | some rest =>
      rw [hread] at hclose
      simp only [unixLines_cons hc, upToCloseTag?, hread, hclose, Option.map_some]
    | none =>
      rw [hread] at hclose
      simp only [unixLines_cons hc, upToCloseTag?, hread, hclose, Option.map_none, Option.map_map]
      exact ih

theorem wholeElement?_unixLines (hname : IsName name) (s : List Char) :
    wholeElement? name (unixLines s) = (wholeElement? name s).map unixLines := by
  rw [wholeElement?, wholeElement?, openTag?_unixLines hname]
  cases openTag? name s with
  | none => rfl
  | some p =>
    simp only [Option.map_some, Option.bind_some, upToCloseTag?_unixLines hname, Option.map_map]
    rfl

end EmailTemplate.PlainText
