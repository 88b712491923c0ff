import EmailTemplate.Proofs.Template.Section

/-! Text with properly nested sections, and what the resolution makes of it. The characters outside
the tokens of the sections are arbitrary, as long as they do not form the beginning of such a token
when the sections are taken off. -/

namespace EmailTemplate.Template

open Text

inductive Outline
  | nil
  | char (c : Char) (rest : Outline)
  | wrap (name : List Char) (body rest : Outline)

namespace Outline

def print : Outline → List Char
  | nil => []
  | char c rest => c :: rest.print
  | wrap name body rest => sectionOpener name ++ (body.print ++ (sectionCloser name ++ rest.print))

def plain : Outline → List Char
  | nil => []
  | char c rest => c :: rest.plain
  | wrap _ body rest => body.plain ++ rest.plain

/-- The characters of the sections that are visible. -/
def shown (visible : List Char → Bool) : Outline → List Char
  | nil => []
  | char c rest => c :: rest.shown visible
  | wrap name body rest => (if visible name then body.shown visible else []) ++ rest.shown visible

def names : Outline → List (List Char)
  | nil => []
  | char _ rest => rest.names
  | wrap name body rest => name :: (body.names ++ rest.names)

/-- No section stands in another of its name. -/
def Scoped : Outline → Prop
  | nil => True
  | char _ rest => rest.Scoped
  | wrap name body rest => IsName name ∧ name ∉ body.names ∧ body.Scoped ∧ rest.Scoped

def append : Outline → Outline → Outline
  | nil, t => t
  | char c rest, t => char c (rest.append t)
  | wrap name body rest, t => wrap name body (rest.append t)

def ofChars (s : List Char) (rest : Outline) : Outline := s.foldr char rest

@[simp]
theorem append_print (t u : Outline) : (t.append u).print = t.print ++ u.print := by
  induction t with
  | nil => rfl
  | char c rest ih => simp [append, print, ih]
  | wrap name body rest _ ih => simp [append, print, ih]

@[simp]
theorem append_plain (t u : Outline) : (t.append u).plain = t.plain ++ u.plain := by
  induction t with
  | nil => rfl
  | char c rest ih => simp [append, plain, ih]
  | wrap name body rest _ ih => simp [append, plain, ih]

@[simp]
theorem append_shown (visible : List Char → Bool) (t u : Outline) :
    (t.append u).shown visible = t.shown visible ++ u.shown visible := by
  induction t with
  | nil => rfl
  | char c rest ih => simp [append, shown, ih]
  | wrap name body rest _ ih => simp [append, shown, ih]

@[simp]
theorem append_names (t u : Outline) : (t.append u).names = t.names ++ u.names := by
  induction t with
  | nil => rfl
  | char c rest ih => simp [append, names, ih]
  | wrap name body rest _ ih => simp [append, names, ih]

@[simp]
theorem append_scoped (t u : Outline) : (t.append u).Scoped ↔ t.Scoped ∧ u.Scoped := by
  induction t with
  | nil => simp [append, Scoped]
  | char c rest ih => simp [append, Scoped, ih]
  | wrap name body rest _ ih => simp [append, Scoped, ih, and_assoc]

@[simp]
theorem ofChars_print (s : List Char) (t : Outline) : (ofChars s t).print = s ++ t.print := by
  induction s with
  | nil => rfl
  | cons c s ih => simpa [ofChars, print] using ih

@[simp]
theorem ofChars_plain (s : List Char) (t : Outline) : (ofChars s t).plain = s ++ t.plain := by
  induction s with
  | nil => rfl
  | cons c s ih => simpa [ofChars, plain] using ih

@[simp]
theorem ofChars_shown (visible : List Char → Bool) (s : List Char) (t : Outline) :
    (ofChars s t).shown visible = s ++ t.shown visible := by
  induction s with
  | nil => rfl
  | cons c s ih => simpa [ofChars, shown] using ih

@[simp]
theorem ofChars_names (s : List Char) (t : Outline) : (ofChars s t).names = t.names := by
  induction s with
  | nil => rfl
  | cons c s ih => simpa [ofChars, names] using ih

@[simp]
theorem ofChars_scoped (s : List Char) (t : Outline) : (ofChars s t).Scoped ↔ t.Scoped := by
  induction s with
  | nil => rfl
  | cons c s ih => simpa [ofChars, Scoped] using ih

/-! ### Where a mark may begin -/

/-- What may follow an outline without making a mark of its last characters: nothing, or a token. -/
def Closed (s : List Char) : Prop := s = [] ∨ ∃ s', s = '{' :: '{' :: s'

theorem closed_token (w s : List Char) : Closed (token w ++ s) :=
  .inr ⟨_, token_append w s⟩

theorem closed_opener (name s : List Char) : Closed (sectionOpener name ++ s) := by
  rw [sectionOpener_eq]
  exact closed_token _ _

theorem closed_closer (name s : List Char) : Closed (sectionCloser name ++ s) := by
  rw [sectionCloser_eq]
  exact closed_token _ _

theorem closed_print_wrap (name : List Char) (body rest : Outline) (s : List Char) :
    Closed ((wrap name body rest).print ++ s) := by
  rw [print, List.append_assoc]
  exact closed_opener _ _

theorem eq_nil_of_prefix_closed {m s : List Char} (hm : '{' ∉ m) (hs : Closed s) (h : m <+: s) :
    m = [] := by
  cases m with
  | nil => rfl
  | cons d m =>
    rcases hs with rfl | ⟨s, rfl⟩
    · simp at h
    · exact absurd ((List.cons_prefix_cons.mp h).1 ▸ List.mem_cons_self) hm

/-- A literal without opening braces is found among the characters alone. -/
theorem prefix_plain {m s : List Char} (hm : '{' ∉ m) (hs : Closed s) (t : Outline)
    (h : m <+: t.print ++ s) : m <+: t.plain := by
  induction t generalizing m with
  | nil => simp [eq_nil_of_prefix_closed hm hs h]
  | char c rest ih =>
    cases m with
    | nil => exact List.nil_prefix
    | cons d m =>
      have hp := List.cons_prefix_cons.mp h
      exact List.cons_prefix_cons.mpr ⟨hp.1, ih (fun hd => hm (by simp [hd])) hp.2⟩
  | wrap name body rest _ _ =>
    simp [eq_nil_of_prefix_closed hm (closed_print_wrap name body rest s) h]

/-- So is a mark, wherever a character begins it. -/
theorem mark_prefix_plain {k c : Char} {m s : List Char} (hm : '{' ∉ k :: m) (hs : Closed s)
    (t : Outline) (h : openBraces ++ k :: m <+: (char c t).print ++ s) :
    openBraces ++ k :: m <+: (char c t).plain := by
  have hfirst := List.cons_prefix_cons.mp h
  refine List.cons_prefix_cons.mpr ⟨hfirst.1, ?_⟩
  have hk : ∀ {s : List Char}, Closed s → ¬ '{' :: k :: m <+: s := by
    rintro s (rfl | ⟨s, rfl⟩) hp
    · simp at hp
    · have hsecond := (List.cons_prefix_cons.mp hp).2
      exact hm ((List.cons_prefix_cons.mp hsecond).1 ▸ List.mem_cons_self)
  cases t with
  | nil => exact absurd hfirst.2 (hk hs)
  | char d t =>
    have hsecond := List.cons_prefix_cons.mp hfirst.2
    exact List.cons_prefix_cons.mpr ⟨hsecond.1, prefix_plain hm hs t hsecond.2⟩
  | wrap name body rest => exact absurd hfirst.2 (hk (closed_print_wrap name body rest s))

/-! ### Resolution -/

/-- A text in which no token of a section begins. -/
def Unmarked (s : List Char) : Prop := ¬ sectionMark <:+: s ∧ ¬ sectionEndMark <:+: s

theorem Unmarked.mono {s t : List Char} (h : Unmarked t) (hs : s <:+: t) : Unmarked s :=
  ⟨fun hm => h.1 (hm.trans hs), fun hm => h.2 (hm.trans hs)⟩

theorem sectionEndMark_prefix_closer (name : List Char) : sectionEndMark <+: sectionCloser name := by
  rw [sectionCloser, List.append_assoc]
  exact List.prefix_append _ _

/-- Before its end, a body has no closer of a name that none of its sections has. -/
theorem passes_closer {name s : List Char} (hname : IsName name) (t : Outline) (hsc : t.Scoped)
    (hn : name ∉ t.names) (ht : Unmarked t.plain) (hs : Closed s) :
    Passes (sectionCloser name) t.print s := by
  induction t generalizing s with
  | nil => exact Passes.nil _ _
  | char c rest ih =>
    refine Passes.cons (fun hp => ?_) (ih hsc hn (ht.mono (List.infix_cons List.infix_rfl)) hs)
    have hmark := mark_prefix_plain (by decide) hs rest
      ((sectionEndMark_prefix_closer name).trans hp)
    exact ht.2 hmark.isInfix
  | wrap m body rest ihb ihr =>
    obtain ⟨hm, -, hb, hr⟩ := hsc
    simp only [names, List.mem_cons, List.mem_append, not_or] at hn
    simp only [plain] at ht
    have hclosed := closed_closer m (rest.print ++ s)
    have hbody := ihb (s := sectionCloser m ++ rest.print ++ s) hb hn.2.1
      (ht.mono (List.prefix_append _ _).isInfix) (by simpa only [List.append_assoc] using hclosed)
    have hrest := ihr hr hn.2.2 (ht.mono (List.suffix_append _ _).isInfix) hs
    have hopener : Passes (sectionCloser name) (sectionOpener m)
        (body.print ++ (sectionCloser m ++ rest.print) ++ s) := by
      rw [sectionCloser_eq, sectionOpener_eq, token, List.append_assoc]
      refine passes_token hm.openerWord_braceFree fun hp => ?_
      simp [token_append, openBraces, openerWord, closerWord] at hp
    have hcloser : Passes (sectionCloser name) (sectionCloser m) (rest.print ++ s) := by
      rw [sectionCloser_eq, sectionCloser_eq, token, List.append_assoc]
      refine passes_token hm.closerWord_braceFree fun hp => ?_
      rw [← List.append_assoc] at hp
      have heq := eq_of_prefix_token hname.closerWord_braceFree.close_not_mem
        hm.closerWord_braceFree.close_not_mem hp
      exact hn.1 (List.append_cancel_left heq)
    exact hopener.append (hbody.append (hcloser.append hrest))

variable {visible : List Char → Bool}

theorem splitFirst?_closer {name : List Char} (hname : IsName name) {t : Outline} (hsc : t.Scoped)
    (hn : name ∉ t.names) (ht : Unmarked t.plain) (s : List Char) :
    splitFirst? (sectionCloser name) (t.print ++ (sectionCloser name ++ s)) =
      some (t.print, s) := by
  have hne : sectionCloser name ≠ [] := by simp [sectionCloser, sectionEndMark, openBraces]
  rw [splitFirst?_of_passes (passes_closer hname t hsc hn ht (closed_closer name s)),
    splitFirst?_append hne]
  simp

theorem resolveSections_append_print (t r : Outline) (hsc : t.Scoped)
    (hp : Unmarked (t.append r).plain) :
    resolveSections visible (t.append r).print =
      t.shown visible ++ resolveSections visible r.print := by
  induction t generalizing r with
  | nil => rfl
  | char c rest ih =>
    have hmark : ¬ sectionMark <+: c :: (rest.append r).print := by
      intro h
      refine hp.1 (mark_prefix_plain (by decide) (.inl rfl) (rest.append r) ?_).isInfix
      rwa [List.append_nil]
    rw [append, print, resolveSections_cons hmark,
      ih r hsc (hp.mono (List.infix_cons List.infix_rfl))]
    rfl
  | wrap name body rest ihb ihr =>
    obtain ⟨hname, hn, hb, hr⟩ := hsc
    simp only [append, plain, append_plain] at hp
    have hbody : Unmarked body.plain := hp.mono (List.prefix_append _ _).isInfix
    have hrest : Unmarked (rest.append r).plain := by
      rw [append_plain]
      exact hp.mono (List.suffix_append _ _).isInfix
    rw [append, print, resolveSections_section hname (splitFirst?_closer hname hb hn hbody _), shown]
    cases visible name with
    | false => simpa using ihr r hr hrest
    | true =>
      have hboth : Unmarked (body.append (rest.append r)).plain := by simpa using hp
      have h := ihb (rest.append r) hb hboth
      rw [ihr r hr hrest] at h
      simpa using h

/-- The resolution keeps the sections that are visible, and the characters around them. -/
theorem resolveSections_print (t : Outline) (hsc : t.Scoped) (hp : Unmarked t.plain) :
    resolveSections visible t.print = t.shown visible := by
  have h : resolveSections visible (t.append nil).print =
      t.shown visible ++ resolveSections visible nil.print :=
    resolveSections_append_print t nil hsc (by simpa [plain] using hp)
  simpa [print] using h

end Outline

end EmailTemplate.Template
