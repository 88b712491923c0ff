import EmailTemplate.Proofs.PlainText.Recognition

/-! A comment shows nothing and hides nothing, if every element that is dropped before comments are
and that begins in the comment ends in it. -/

namespace EmailTemplate.PlainText

open Text

variable {name s u v : List Char}

/-! ### Comments that are sealed -/

/-- Every element of one of the names that begins in the text ends in it, and when they have been
dropped, one name after the other, nothing is left that ends a comment. -/
def isSealed : List (List Char) → List Char → Bool
  | [], s => !occurs ['-', '-', '>'] s
  | name :: names, s =>
    (s.tails.all fun t => !opens name t || (wholeElement? name t).isSome) &&
      isSealed names (dropElement name s)

def commentMarkup (content : List Char) : List Char :=
  ['<', '!', '-', '-'] ++ content ++ ['-', '-', '>']

/-! ### What the first passes make of a sealed comment -/

/-- A pass does not look beyond a text in which all that begins also ends. -/
theorem dropElement_append_hyphen (hname : IsName name)
    (hs : ∀ t, t <:+ s → opens name t = true → (wholeElement? name t).isSome = true)
    (t : List Char) :
    dropElement name (s ++ '-' :: t) = dropElement name s ++ dropElement name ('-' :: t) := by
  -- By induction on the length, since an element is dropped as a whole.
  induction hn : s.length using Nat.strongRecOn generalizing s with
  | ind n ih =>
    cases s with
    | nil => rfl
    | cons c s =>
      cases hread : wholeElement? name (c :: s) with
      | some rest =>
        obtain ⟨u, hu, heq, htaken⟩ := wholeElement?_taken hname hread
        have hturns : Turns (dropElement name) u [] := turns_replaceWith [] hu htaken
        have hpos := List.length_pos_iff.mpr hu
        have hlength := congrArg List.length heq
        rw [List.length_append, hn] at hlength
        have hrest := ih rest.length (by omega)
          (fun t ht => hs t (ht.trans ⟨u, heq.symm⟩)) rfl
        rw [heq, List.append_assoc, hturns, hturns, hrest, List.nil_append, List.nil_append]
      | none =>
        have hopens : opens name (c :: s) = false := by
          cases h : opens name (c :: s) with
          | false => rfl
          | true =>
            have hsome := hs (c :: s) List.suffix_rfl h
            rw [hread] at hsome
            cases hsome
        have hlong : opens name (c :: s ++ '-' :: t) = false := by
          rwa [opens_append_cons (by decide) (by decide) (by decide) hname]
        have hpassed : wholeElement? name (c :: (s ++ '-' :: t)) = none := by
          have htag : openTag? name (c :: (s ++ '-' :: t)) = none := openTag?_eq_none hlong
          rw [wholeElement?, htag, Option.bind_none]
        have hrest := ih s.length (by simp [← hn])
          (fun t ht => hs t (ht.trans (List.suffix_cons c s))) rfl
        rw [List.cons_append, dropElement, replaceWith_cons [] hpassed, dropElement,
          replaceWith_cons [] hread]
        exact congrArg (c :: ·) hrest

theorem turns_dropElement_comment (hname : IsName name)
    (hs : ∀ t, t <:+ s → opens name t = true → (wholeElement? name t).isSome = true) :
    Turns (dropElement name) (commentMarkup s) (commentMarkup (dropElement name s)) := by
  have hopening : Turns (dropElement name) ['<', '!', '-', '-'] ['<', '!', '-', '-'] :=
    turns_dropElement_ignored ((atTag_openTag? name).ignores_tag (by decide)
      fun t => openTag?_of_endsName hname (by decide) _)
  have hclosing : Turns (dropElement name) ['-', '-', '>'] ['-', '-', '>'] :=
    turns_dropElement_ignored ((atTag_openTag? name).ignores (by decide))
  intro t
  have hinside := dropElement_append_hyphen hname hs ('-' :: '>' :: t)
  have hend : dropElement name ('-' :: '-' :: '>' :: t) =
      ['-', '-', '>'] ++ dropElement name t := hclosing t
  rw [hend] at hinside
  rw [commentMarkup, commentMarkup, List.append_assoc, List.append_assoc, hopening]
  exact (congrArg (['<', '!', '-', '-'] ++ ·) hinside).trans (by simp)

theorem turns_dropElements_comment {names : List (List Char)} (hnames : ∀ m ∈ names, IsName m)
    (hs : isSealed names s = true) : Turns (dropElements names) (commentMarkup s)
      (commentMarkup (dropElements names s)) ∧ ¬ ['-', '-', '>'] <:+: dropElements names s := by
  induction names generalizing s with
  | nil =>
    refine ⟨fun _ => rfl, fun hend => ?_⟩
    have hoccurs : occurs ['-', '-', '>'] s = true := occurs_iff.mpr hend
    rw [isSealed, hoccurs] at hs
    cases hs
  | cons name names ih =>
    rw [List.forall_mem_cons] at hnames
    rw [isSealed, Bool.and_eq_true] at hs
    obtain ⟨hall, hrest⟩ := hs
    have hends : ∀ t, t <:+ s → opens name t = true → (wholeElement? name t).isSome = true := by
      intro t ht hopens
      have hat := List.all_eq_true.mp hall t ((List.mem_tails t s).mpr ht)
      rwa [hopens, Bool.not_true, Bool.false_or] at hat
    obtain ⟨hturns, habsent⟩ := ih hnames.2 hrest
    exact ⟨(turns_dropElement_comment hnames.1 hends).andThen hturns, habsent⟩

/-- The first passes, up to comments. -/
def toVisible (s : List Char) : List Char := dropComments (dropElements hiddenElements s)

theorem turns_toVisible_comment (hs : isSealed hiddenElements s = true) :
    Turns toVisible (commentMarkup s) [] := by
  obtain ⟨hturns, habsent⟩ :=
    turns_dropElements_comment (fun _ hm => isName_of_mem_hiddenElements hm) hs
  exact hturns.andThen (turns_replaceWith [] (by simp [commentMarkup]) (comment?_append habsent))

/-- A comment in which no such element begins is sealed. -/
theorem isSealed_of_not_opens {names : List (List Char)}
    (hopens : ∀ name ∈ names, ∀ t, t <:+ s → opens name t = false)
    (hend : ¬ ['-', '-', '>'] <:+: s) : isSealed names s = true := by
  induction names with
  | nil =>
    have habsent : ¬ occurs ['-', '-', '>'] s = true := fun h => hend (occurs_iff.mp h)
    simpa [isSealed] using habsent
  | cons name names ih =>
    rw [List.forall_mem_cons] at hopens
    have hidle : Idle (wholeElement? name) s [] := by
      intro v w hvw _
      have hopen := openTag?_eq_none (hopens.1 w ⟨v, hvw.symm⟩)
      rw [List.append_nil, wholeElement?, hopen, Option.bind_none]
    have hdrop : dropElement name s = s := replaceWith_of_idle [] hidle
    rw [isSealed, hdrop, ih hopens.2, Bool.and_true, List.all_eq_true]
    intro t ht
    rw [hopens.1 t ((List.mem_tails t s).mp ht), Bool.not_false, Bool.true_or]

/-! ### What stands before a comment -/

theorem turns_toVisible_ignored (hopen : ∀ name ∈ hiddenElements, Ignores (openTag? name) u)
    (hcomment : Ignores comment? u) : Turns toVisible u u :=
  (turns_dropElements_ignored hopen).andThen (turns_replaceWith_ignored [] hcomment)

theorem turns_toVisible_run (hlt : '<' ∉ u) : Turns toVisible u u :=
  turns_toVisible_ignored (fun name _ => (atTag_openTag? name).ignores hlt)
    (atTag_comment?.ignores hlt)

/-- A tag of an element that is shown, as it may be written. -/
structure ShownTag where
  inside : List Char
  plain : '<' ∉ inside
  shown : ∀ name ∈ hiddenElements, opens name ('<' :: inside) = false
  no_comment : ¬ ['!', '-', '-'] <+: inside

def ShownTag.markup (t : ShownTag) : List Char := '<' :: t.inside ++ ['>']

theorem ShownTag.turns_toVisible (t : ShownTag) :
    Turns toVisible (unixLines t.markup) (unixLines t.markup) := by
  have hlines : unixLines t.markup = '<' :: (unixLines t.inside ++ ['>']) := by
    rw [ShownTag.markup, unixLines_append_cons (by decide)]
    rfl
  have hlt : '<' ∉ unixLines t.inside ++ ['>'] := by
    simpa using not_mem_unixLines (by decide) t.plain
  rw [hlines]
  refine turns_toVisible_ignored ?_ ?_
  · intro name hname
    have hisName := isName_of_mem_hiddenElements hname
    refine (atTag_openTag? name).ignores_tag hlt fun s => openTag?_eq_none ?_
    have hshape : '<' :: (unixLines t.inside ++ ['>'] ++ s) =
        unixLines ('<' :: t.inside) ++ '>' :: s := by
      rw [unixLines_cons (by simp)]
      simp
    rw [hshape, opens_append_cons (by decide) (by decide) (by decide) hisName,
      opens_unixLines hisName, t.shown name hname]
  · refine atTag_comment?.ignores_tag hlt fun s => ?_
    have hno : after? ['!', '-', '-'] (unixLines t.inside ++ '>' :: s) = none := by
      rw [after?_append_cons (by decide), after?_unixLines (by decide) (by decide),
        after?_eq_none_iff.mpr t.no_comment]
      rfl
    rw [comment?, after?, if_pos rfl, List.append_assoc]
    exact Option.bind_eq_none_iff.mpr fun r hr => absurd (hno.symm.trans hr) (by simp)

/-- An element with any text in it, as it may be written. -/
structure WrittenElement (name : List Char) where
  opening : List Char
  attributes : List Char
  content : List Char
  closing : List Char
  space : List Char
  opening_name : opening.map asciiLower = name
  attributes_plain : '>' ∉ attributes
  attributes_apart : ∀ c ∈ attributes.head?, isWord c = false
  content_open : ∀ t ∈ content.tails, closeTag? name t = none
  closing_name : closing.map asciiLower = name
  space_blank : ∀ c ∈ space, isBlank c = true

def WrittenElement.markup (e : WrittenElement name) : List Char :=
  '<' :: (e.opening ++ (e.attributes ++ '>' :: (e.content ++
    '<' :: '/' :: (e.closing ++ e.space)))) ++ ['>']

theorem WrittenElement.wholeElement? (e : WrittenElement name) (hname : IsName name)
    (s : List Char) : PlainText.wholeElement? name (e.markup ++ s) = some s := by
  have hshape : e.markup ++ s = '<' :: (e.opening ++ (e.attributes ++ '>' :: (e.content ++
      '<' :: '/' :: (e.closing ++ (e.space ++ '>' :: s))))) := by simp [markup]
  have hopen : ∀ t, openTag? name ('<' :: (e.opening ++ (e.attributes ++ '>' :: t))) =
      some (e.attributes, t) :=
    fun t => openTag?_append e.opening_name e.attributes_apart e.attributes_plain t
  have hclose : closeTag? name ('<' :: '/' :: (e.closing ++ (e.space ++ '>' :: s))) = some s := by
    have hread : afterAnyCase? ('<' :: '/' :: name)
        ('<' :: '/' :: (e.closing ++ (e.space ++ '>' :: s))) = some (e.space ++ '>' :: s) :=
      afterAnyCase?_of_lower e.closing_name _
    rw [closeTag?, hread, Option.bind_some, trimLeft_append_cons (by decide),
      trimLeft_of_blank e.space_blank]
    rfl
  have hidle : Idle (closeTag? name) e.content
      ('<' :: '/' :: (e.closing ++ (e.space ++ '>' :: s))) := by
    intro v w hvw hw
    have hsuffix := (List.mem_tails w e.content).mpr ⟨v, hvw.symm⟩
    rw [closeTag?_append_tag hname hw, e.content_open w hsuffix, Option.map_none]
  have hbody : upToCloseTag? name ('<' :: '/' :: (e.closing ++ (e.space ++ '>' :: s))) =
      some ([], s) := by rw [upToCloseTag?, hclose]
  rw [hshape, PlainText.wholeElement?, hopen, Option.bind_some]
  simp only [upToCloseTag?_idle hidle, hbody, Option.map_some]

/-- What a message is put together from: texts, tags of elements that are shown, style elements. -/
inductive Part where
  | text (chars : List Char) (plain : '<' ∉ chars)
  | tag (tag : ShownTag)
  | style (element : WrittenElement ['s', 't', 'y', 'l', 'e'])

def Part.markup : Part → List Char
  | text chars _ => chars
  | tag t => t.markup
  | style e => e.markup

theorem turns_toVisible_style (e : WrittenElement ['s', 't', 'y', 'l', 'e']) :
    Turns toVisible (unixLines e.markup) [] := by
  have hname : IsName ['s', 't', 'y', 'l', 'e'] := by decide
  have hread := wholeElement?_unixLines hname (e.markup ++ [])
  rw [e.wholeElement? hname, List.append_nil] at hread
  obtain ⟨u, hu, heq, htaken⟩ := wholeElement?_taken hname hread
  have hlines : unixLines e.markup = u := by simpa [unixLines] using heq
  have hown : Turns (dropElement ['s', 't', 'y', 'l', 'e']) u [] := turns_replaceWith [] hu htaken
  rw [hlines]
  exact (hown.andThen (.nil (dropElements hiddenElements.tail))).andThen (.nil dropComments)

theorem unixLines_tag {w : List Char} (hfirst : w.head? = some '<') (hlast : w.getLast? = some '>')
    (u s : List Char) : unixLines (u ++ (w ++ s)) = unixLines u ++ (unixLines w ++ unixLines s) := by
  have hhead : (w ++ s).head? = some '<' := by rw [List.head?_append, hfirst, Option.some_or]
  rw [unixLines_append (.inr (by simp [hhead])), unixLines_append (.inl (by simp [hlast]))]

/-- Whatever follows the parts, the first passes make the same of them. -/
theorem exists_turns_toVisible (parts : List Part) (hu : '<' ∉ u) :
    ∃ v, Turns toVisible (unixLines (u ++ parts.flatMap Part.markup)) v := by
  -- Texts beside each other are gathered in `u`: a line end may begin in one and end in the next.
  induction parts generalizing u with
  | nil =>
    rw [List.flatMap_nil, List.append_nil]
    exact ⟨_, turns_toVisible_run (not_mem_unixLines (by decide) hu)⟩
  | cons part parts ih =>
    have htag : ∀ {w v : List Char}, w.head? = some '<' → w.getLast? = some '>' →
        Turns toVisible (unixLines w) v →
        ∃ v', Turns toVisible (unixLines (u ++ (w ++ parts.flatMap Part.markup))) v' := by
      intro w v hfirst hlast hturns
      obtain ⟨v', hrest⟩ := ih (u := []) List.not_mem_nil
      rw [unixLines_tag hfirst hlast]
      exact ⟨_, (turns_toVisible_run (not_mem_unixLines (by decide) hu)).append
        (hturns.append hrest)⟩
    rw [List.flatMap_cons]
    cases part with
    | text chars plain =>
      rw [← List.append_assoc]
      exact ih (by simpa using ⟨hu, plain⟩)
    | tag t => exact htag rfl List.getLast?_concat t.turns_toVisible
    | style e => exact htag rfl List.getLast?_concat (turns_toVisible_style e)

/-! ### Comments and the plain text -/

/-- A sealed comment behind texts, tags and style elements makes no difference, whatever follows. -/
theorem ofMarkup_comment {c y : List Char} (hc : isSealed hiddenElements (unixLines c) = true)
    (parts : List Part)
    (hseam : (parts.flatMap Part.markup).getLast? ≠ some '\r' ∨ y.head? ≠ some '\n') :
    ofMarkup (parts.flatMap Part.markup ++ commentMarkup c ++ y) =
      ofMarkup (parts.flatMap Part.markup ++ y) := by
  obtain ⟨v, hparts⟩ := exists_turns_toVisible parts (u := []) List.not_mem_nil
  rw [List.nil_append] at hparts
  have hlines : unixLines (commentMarkup c) = commentMarkup (unixLines c) := by
    have hcomment := turns_unixLines_between (v := ['<', '!', '-', '-']) (w := ['-', '>'])
      (by decide) (by decide) (d := '-') (by decide) c []
    simpa [commentMarkup, unixLines] using hcomment
  have hpasses : ∀ s t, toVisible (unixLines s) = toVisible (unixLines t) →
      ofMarkup s = ofMarkup t := by
    intro s t h
    exact congrArg (fun visible => tidy (decodeReferences (stripTags (breakLines
      (linksToText (imagesToText visible)))))) h
  have hcomment := turns_toVisible_comment hc
  refine hpasses _ _ ?_
  have hlast : (commentMarkup c).getLast? = some '>' := by
    rw [commentMarkup, List.getLast?_append]
    rfl
  rw [List.append_assoc, unixLines_tag rfl hlast, hlines,
    unixLines_append hseam, hparts, hparts, hcomment, List.nil_append]

def boldStyle : WrittenElement ['s', 't', 'y', 'l', 'e'] where
  opening := ['S', 't', 'y', 'l', 'e']
  attributes := []
  content := ['b', '<', '/', 'p', '>']
  closing := ['s', 't', 'y', 'l', 'e']
  space := [' ']
  opening_name := by decide
  attributes_plain := by decide
  attributes_apart := by simp
  content_open := by decide
  closing_name := by decide
  space_blank := by decide

def paragraphStart : ShownTag where
  inside := ['p']
  plain := by decide
  shown := by decide
  no_comment := by decide

def paragraphEnd : ShownTag where
  inside := ['/', 'p']
  plain := by decide
  shown := by decide
  no_comment := by decide

/-- A comment for one reader of mail only, with a style element of its own. -/
def conditionalComment : List Char :=
  ['[', 'i', 'f', ' ', 'm', 's', 'o', ']', '>'] ++ boldStyle.markup ++
    ['<', '!', '[', 'e', 'n', 'd', 'i', 'f', ']']

theorem ofMarkup_comment_conditional :
    isSealed hiddenElements (unixLines conditionalComment) = true ∧
      ofMarkup ([Part.tag paragraphStart, .text ['a'] (by decide), .tag paragraphEnd,
          .style boldStyle].flatMap Part.markup ++ commentMarkup conditionalComment ++ ['b']) =
        ofMarkup ([Part.tag paragraphStart, .text ['a'] (by decide), .tag paragraphEnd,
          .style boldStyle].flatMap Part.markup ++ ['b']) := by
  have hc : isSealed hiddenElements (unixLines conditionalComment) = true := by decide +kernel
  exact ⟨hc, ofMarkup_comment hc _ (.inr (by decide))⟩

/-- A style element begins in the comment and ends behind it, with all that stands between. -/
theorem not_ofMarkup_comment : ¬ ∀ (x y : List Part) (c : List Char), ¬ ['-', '-', '>'] <:+: c →
    ofMarkup (x.flatMap Part.markup ++ commentMarkup c ++ y.flatMap Part.markup) =
      ofMarkup (x.flatMap Part.markup ++ y.flatMap Part.markup) := by
  intro h
  have hstyle := h [] [.text ['a'] (by decide), .style boldStyle]
    ['<', 's', 't', 'y', 'l', 'e', '>'] (by decide)
  revert hstyle
  decide +kernel

end EmailTemplate.PlainText
