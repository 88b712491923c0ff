import EmailTemplate.Proofs.PlainText.Printed
import EmailTemplate.Proofs.PlainText.WhiteSpace

/-! A link and an image as a document is printed with them: the link shows its address, the image
its description, whatever the other attributes say. -/

namespace EmailTemplate.PlainText

open Text

variable {α : Type} {name s u v rest : List Char}

/-! ### One tag before a text without tags -/

/-- The beginnings of the tag alone are looked at. -/
theorem idle_tag {read : List Char → Option α} (hat : AtTag read) (hrest : Idle read rest [])
    (h : ∀ w, w <:+ u → read (w ++ '>' :: rest) = none) : Idle read (u ++ '>' :: rest) [] := by
  have htag : Idle read u (['>'] ++ rest) := fun v w huvw _ => h w ⟨v, huvw.symm⟩
  have hend : Idle read ['>'] rest := hat.ignores (by decide) rest
  have hboth : Idle read (u ++ ['>']) (rest ++ []) := by
    rw [List.append_nil]
    exact htag.append hend
  simpa using hboth.append hrest

theorem dropElements_of_idle {names : List (List Char)}
    (h : ∀ m ∈ names, Idle (wholeElement? m) s []) : dropElements names s = s := by
  induction names with
  | nil => rfl
  | cons m names ih =>
    rw [List.forall_mem_cons] at h
    have hdrop : dropElement m s = s := replaceWith_of_idle [] h.1
    rw [dropElements, List.foldl_cons, hdrop]
    exact ih h.2

/-- Inside its one tag a text may hold what it likes: no element ends behind it. -/
theorem dropElements_tag (hu : '>' ∉ u) (hopen : ∀ m ∈ hiddenElements, Idle (openTag? m) rest [])
    (hclose : ∀ m ∈ hiddenElements, Idle (closeTag? m) rest []) :
    dropElements hiddenElements (u ++ '>' :: rest) = u ++ '>' :: rest := by
  refine dropElements_of_idle fun m hm => ?_
  have hat : AtTag (wholeElement? m) := (atTag_openTag? m).bind _
  have hrest : Idle (wholeElement? m) rest [] := by
    intro v w hvw hw
    rw [wholeElement?, hopen m hm v w hvw hw, Option.bind_none]
  have hnever := upToCloseTag?_of_idle (hclose m hm)
  refine idle_tag hat hrest fun w hw => ?_
  rcases openTag?_before_end (isName_of_mem_hiddenElements hm) (fun h => hu (hw.subset h)) rest with
    hread | ⟨attributes, hread⟩
  · rw [wholeElement?, hread, Option.bind_none]
  · rw [wholeElement?, hread, Option.bind_some]
    simp only [hnever, Option.map_none]

/-- Behind the last tag nothing is recognised any more. -/
theorem idle_of_no_end {read : List Char → Option α} (hat : AtTag read)
    (hread : ∀ s, '>' ∉ s → read s = none) (hu : '<' ∉ u) (hv : '>' ∉ v) :
    Idle read (u ++ v) [] := by
  have hend : Idle read v [] := by
    rintro x w rfl -
    refine hread _ fun h => hv ?_
    simpa using Or.inr h
  have hstart : Idle read u (v ++ []) := hat.ignores hu _
  exact hstart.append hend

/-- Breaking lines and stripping tags leave a text without tags as it is. -/
theorem stripTags_breakLines (hu : '<' ∉ u) (hv : '>' ∉ v) :
    stripTags (breakLines (u ++ v)) = u ++ v := by
  have hbreak := idle_of_no_end atTag_lineBreak? (fun _ => lineBreak?_of_no_end) hu hv
  have hclose := fun names => idle_of_no_end (atTag_anyCloseTag? names)
    (fun _ => anyCloseTag?_of_no_end names) hu hv
  have hany := idle_of_no_end atTag_anyTag? (fun _ => anyTag?_of_no_end) hu hv
  rw [breakLines, replaceWith_of_idle _ hbreak, replaceWith_of_idle _ (hclose _),
    replaceWith_of_idle _ (hclose _), stripTags, replaceWith_of_idle _ hany]

/-- A tag that does not end in two hyphens ends no comment, so that none begins in it if none ends
behind it. -/
theorem comment?_of_tag {w : List Char} (hgt : '>' ∉ w) (hend : ¬ ['-', '-'] <:+ w)
    (hrest : ¬ ['-', '-', '>'] <:+: rest) : comment? (w ++ '>' :: rest) = none := by
  rw [comment?, after?_append_cons (by decide)]
  cases hread : after? ['<', '!', '-', '-'] w with
  | none => rfl
  | some r =>
    obtain rfl := after?_eq_some_iff.mp hread
    have hr : '>' ∉ r := fun h => hgt (List.mem_append_right _ h)
    have habsent : splitFirst? ['-', '-', '>'] (r ++ '>' :: rest) = none := by
      rw [splitFirst?_eq_none_iff]
      intro hinfix
      rcases (infix_marked_iff (u := ['-', '-']) hr (by decide)).mp hinfix with hsuffix | hinfix
      · exact hend (hsuffix.trans (List.suffix_append _ r))
      · exact hrest hinfix
    rw [Option.map_some, Option.bind_some, habsent, Option.map_none]

/-! ### Links -/

/-- In the attributes an image begins, or a comment that ends in the text. -/
def interrupts (attributes text : List Char) : Bool :=
  occurs ['<', '!', '-', '-'] attributes && occurs ['-', '-', '>'] text ||
    attributes.tails.any (opens ['i', 'm', 'g'])

theorem comment?_of_no_start {w : List Char} (h : ¬ ['<', '!', '-', '-'] <:+: w) :
    comment? (w ++ '>' :: rest) = none := by
  have habsent : ¬ ['<', '!', '-', '-'] <+: w := fun hp => h hp.isInfix
  rw [comment?, after?_append_cons (by decide), after?_eq_none_iff.mpr habsent]
  rfl

theorem wordedLines_link {U T : List Char} (hgt : '>' ∉ U) (hend : ¬ ['-', '-'] <:+ U)
    (hU : interrupts U T = false) (hT : '<' ∉ T) : wordedLines (('<' :: 'a' :: U) ++ '>' :: (T ++ endTag ['a'])) =
      ('<' :: 'a' :: U) ++ '>' :: (T ++ endTag ['a']) := by
  have ha : IsName ['a'] := by decide
  have himg : IsName ['i', 'm', 'g'] := by decide
  have htag : '>' ∉ '<' :: 'a' :: U := by simpa using hgt
  rw [interrupts, Bool.or_eq_false_iff, List.any_eq_false] at hU
  obtain ⟨hnocomment, hnoimage⟩ := hU
  have hopen : ∀ m, IsName m → Idle (openTag? m) (T ++ endTag ['a']) [] := fun m hm =>
    ((atTag_openTag? m).ignores hT).append (ignores_openTag?_endTag hm ha) []
  have hclose : ∀ m ∈ hiddenElements, Idle (closeTag? m) (T ++ endTag ['a']) [] := by
    intro m hm
    have hne : m ≠ ['a'] := by
      rintro rfl
      exact absurd hm (by decide)
    exact ((atTag_closeTag? m).ignores hT).append ((atTag_closeTag? m).ignores_endTag ha
      (closeTag?_endTag_of_ne (isName_of_mem_hiddenElements hm) ha hne)) []
  have hcomment : Idle comment? (('<' :: 'a' :: U) ++ '>' :: (T ++ endTag ['a'])) [] := by
    refine idle_tag atTag_comment? ((atTag_comment?.ignores hT).append
      (atTag_comment?.ignores_endTag ha (comment?_endTag ['a'])) []) fun w hw => ?_
    rcases Bool.and_eq_false_iff.mp hnocomment with hstart | hstop
    · refine comment?_of_no_start fun hinfix => ?_
      have hinside : ['<', '!', '-', '-'] <:+: U := by
        simpa [List.infix_cons_iff, List.cons_prefix_cons] using hinfix.trans hw.isInfix
      rw [occurs_iff.mpr hinside] at hstart
      cases hstart
    · have hend : ¬ ['-', '-'] <:+ '<' :: 'a' :: U := by simpa [List.suffix_cons_iff] using hend
      refine comment?_of_tag (fun h => htag (hw.subset h)) (fun h => hend (h.trans hw)) ?_
      rw [endTag, List.cons_append, infix_append_cons_iff (by decide), not_or, ← occurs_iff, hstop]
      decide
  have himage : Idle imageAt? (('<' :: 'a' :: U) ++ '>' :: (T ++ endTag ['a'])) [] := by
    have hrest : Idle imageAt? (T ++ endTag ['a']) [] := by
      intro v w hvw hw
      rw [imageAt?, hopen _ himg v w hvw hw, Option.map_none]
    refine idle_tag ((atTag_openTag? _).map _) hrest fun w hw => ?_
    have hopens : opens ['i', 'm', 'g'] w = false := by
      rcases List.suffix_cons_iff.mp hw with rfl | hw
      · rfl
      rcases List.suffix_cons_iff.mp hw with rfl | hw
      · rfl
      · simpa using hnoimage w ((List.mem_tails w U).mpr hw)
    have hlong : opens ['i', 'm', 'g'] (w ++ '>' :: (T ++ endTag ['a'])) = false := by
      rwa [opens_append_cons (by decide) (by decide) (by decide) himg]
    rw [imageAt?, openTag?_eq_none hlong, Option.map_none]
  rw [wordedLines, dropElements_tag htag (fun m hm => hopen m (isName_of_mem_hiddenElements hm))
    hclose, dropComments, replaceWith_of_idle [] hcomment, imagesToText,
    replaceMatches_of_idle himage]

theorem linksToText_link {U T : List Char} (hgt : '>' ∉ U)
    (hU : ∀ c ∈ U.head?, isWord c = false) (hT : '<' ∉ T) :
    linksToText (('<' :: 'a' :: U) ++ '>' :: (T ++ endTag ['a'])) = linkText U T := by
  have hname : IsName ['a'] := by decide
  have hread : openTag? ['a'] ('<' :: (['a'] ++ (U ++ '>' :: (T ++ endTag ['a'])))) =
      some (U, T ++ endTag ['a']) := openTag?_append (by decide) hU hgt _
  have hopen : openTag? ['a'] (('<' :: 'a' :: U) ++ '>' :: (T ++ endTag ['a'])) =
      some (U, T ++ endTag ['a']) := hread
  have hbody := upToCloseTag?_body hname ((atTag_closeTag? ['a']).ignores hT) []
  rw [List.append_nil] at hbody
  have hlink : linkAt? ((('<' :: 'a' :: U) ++ '>' :: (T ++ endTag ['a'])) ++ []) =
      some (linkText U T, (('<' :: 'a' :: U) ++ '>' :: (T ++ endTag ['a'])).length) := by
    rw [List.append_nil, linkAt?, hopen, Option.bind_some]
    simp only [hbody, Option.map_some, taken, List.length_nil, Nat.sub_zero]
  have hall := replaceMatches_match (by simp) hlink
  rw [List.append_nil, replaceMatches_nil, List.append_nil] at hall
  exact hall

/-- A link as it is printed, around a text. -/
def linkMarkup (attributes : List Html.Attribute) (text : List Char) : List Char :=
  Html.openingTag ⟨.html, "a"⟩ attributes ++ text ++ Html.closingTag ⟨.html, "a"⟩

theorem unixLines_linkMarkup (attributes : List Html.Attribute) (text : List Char) :
    unixLines (linkMarkup attributes text) =
      ('<' :: 'a' :: unixLines (attributes.flatMap Html.Attribute.print)) ++
        '>' :: (unixLines text ++ endTag ['a']) := by
  have hname : "a".toList = ['a'] := rfl
  have hshape : linkMarkup attributes text = ['<', 'a'] ++
      (attributes.flatMap Html.Attribute.print ++ '>' :: (text ++ '<' :: ['/', 'a', '>'])) := by
    simp [linkMarkup, Html.openingTag, Html.closingTag, hname]
  have hend : unixLines ['/', 'a', '>'] = ['/', 'a', '>'] := rfl
  rw [hshape, turns_unixLines (by decide), unixLines_append_cons (by decide),
    unixLines_append_cons (by decide), hend]
  rfl

theorem occurs_unixLines {m : List Char} (hcr : '\r' ∉ m) (hlf : '\n' ∉ m)
    (h : occurs m s = false) : occurs m (unixLines s) = false := by
  by_contra hoccurs
  have hinfix := infix_of_infix_unixLines hcr hlf (occurs_iff.mp (by simpa using hoccurs))
  rw [occurs_iff.mpr hinfix] at h
  cases h

theorem interrupts_unixLines {text : List Char} (h : interrupts s text = false) :
    interrupts (unixLines s) (unixLines text) = false := by
  have himg : IsName ['i', 'm', 'g'] := by decide
  rw [interrupts, Bool.or_eq_false_iff, Bool.and_eq_false_iff, List.any_eq_false] at h ⊢
  obtain ⟨hcomment, himage⟩ := h
  constructor
  · exact hcomment.imp (occurs_unixLines (by decide) (by decide))
      (occurs_unixLines (by decide) (by decide))
  · intro w hw
    obtain ⟨t, ht, rfl⟩ := exists_suffix_of_suffix_unixLines ((List.mem_tails _ _).mp hw)
    rw [opens_unixLines himg]
    exact himage t ((List.mem_tails _ _).mpr ht)

theorem head?_print (attributes : List Html.Attribute) :
    ∀ c ∈ (unixLines (attributes.flatMap Html.Attribute.print)).head?, isWord c = false := by
  have hspace : isWord ' ' = false := by decide
  have hany := head?_unixLines_isWord (attributes.flatMap Html.Attribute.print)
  have hnone : (attributes.flatMap Html.Attribute.print).head?.any isWord = false := by
    cases attributes with
    | nil => rfl
    | cons a attributes => exact hspace
  intro c hc
  rwa [Option.mem_def.mp hc, hnone] at hany

theorem not_hyphens_suffix_print (attributes : List Html.Attribute) :
    ¬ ['-', '-'] <:+ unixLines (attributes.flatMap Html.Attribute.print) := by
  rcases List.eq_nil_or_concat attributes with rfl | ⟨attributes, a, rfl⟩
  · simp [unixLines]
  · rintro ⟨t, ht⟩
    have hshape : (attributes.concat a).flatMap Html.Attribute.print =
        (attributes.flatMap Html.Attribute.print ++ ' ' :: a.label.toList ++
          '=' :: '"' :: Html.escapeAttribute a.value) ++ '"' :: [] := by
      simp [Html.Attribute.print]
    rw [hshape, unixLines_append_cons (by decide)] at ht
    have hlast := congrArg List.getLast? ht
    simp [unixLines] at hlast

/-- A link shows the address that is found in its attributes. -/
theorem ofMarkup_link {attributes : List Html.Attribute} {text href : List Char}
    (hgt : '>' ∉ attributes.flatMap Html.Attribute.print)
    (hplain : interrupts (attributes.flatMap Html.Attribute.print) text = false)
    (hhref : attribute? ['h', 'r', 'e', 'f'] (attributes.flatMap Html.Attribute.print) =
      some (printed href)) (hne : href ≠ []) (hhrefgt : '>' ∉ href)
    (hlt : '<' ∉ text) (hampersand : '&' ∉ text) :
    ofMarkup (linkMarkup attributes text) =
      normalForm (trim text ++ [' ', '('] ++ href ++ [')']) := by
  have hU := not_mem_unixLines (by decide) hgt
  have hT := not_mem_unixLines (by decide) hlt
  have hread := attribute?_unixLines (by decide : IsName ['h', 'r', 'e', 'f'])
    (attributes.flatMap Html.Attribute.print)
  rw [hhref, Option.map_some, unixLines_printed] at hread
  have hprinted : (printed (unixLines href)).isEmpty = false := by
    rw [← unixLines_printed, isEmpty_unixLines]
    simpa [printed_eq_nil_iff] using hne
  have htext : linkText (unixLines (attributes.flatMap Html.Attribute.print)) (unixLines text) =
      (trim (unixLines text) ++ [' ', '(']) ++ (printed (unixLines href) ++ [')']) := by
    have hstrip : stripTags (unixLines text) = unixLines text :=
      (turns_stripTags_run hT).eq rfl
    simp only [linkText, hread, hstrip, hprinted, Bool.false_eq_true, if_false]
    simp
  have hstart : '<' ∉ trim (unixLines text) ++ [' ', '('] := by
    simpa using fun h => hT ((trim_sublist _).subset h)
  have hend : '>' ∉ printed (unixLines href) ++ [')'] := by
    simpa using gt_not_mem_printed (not_mem_unixLines (by decide) hhrefgt)
  have hrun : '&' ∉ trim (unixLines text) ++ [' ', '('] := by
    have hT := not_mem_unixLines (by decide) hampersand
    simpa using fun h => hT ((trim_sublist _).subset h)
  have hdecode : decodeReferences
      ((trim (unixLines text) ++ [' ', '(']) ++ (printed (unixLines href) ++ [')'])) =
        (trim (unixLines text) ++ [' ', '(']) ++ (unixLines href ++ [')']) :=
    ((turns_decodeReferences_run hrun).append
      ((turns_decodeReferences_printed _).append (turns_decodeReferences_run (by decide)))).eq rfl
  have hlines : unixLines (trim text ++ [' ', '('] ++ href ++ [')']) =
      (trim (unixLines text) ++ [' ', '(']) ++ (unixLines href ++ [')']) := by
    have hshape : trim text ++ [' ', '('] ++ href ++ [')'] =
        trim text ++ ' ' :: (['('] ++ (href ++ ')' :: [])) := by simp
    rw [hshape, unixLines_append_cons (by decide), turns_unixLines (by decide),
      unixLines_append_cons (by decide), trim_unixLines]
    simp [unixLines]
  rw [ofMarkup_eq, unixLines_linkMarkup, wordedLines_link hU
    (not_hyphens_suffix_print attributes) (interrupts_unixLines hplain) hT, toCoded,
    linksToText_link hU (head?_print attributes) hT, htext, stripTags_breakLines hstart hend,
    hdecode, normalForm, hlines]

/-! ### Images -/

def imageMarkup (attributes : List Html.Attribute) : List Char :=
  Html.openingTag ⟨.html, "img"⟩ attributes

theorem unixLines_imageMarkup (attributes : List Html.Attribute) :
    unixLines (imageMarkup attributes) =
      ('<' :: 'i' :: 'm' :: 'g' :: unixLines (attributes.flatMap Html.Attribute.print)) ++
        '>' :: [] := by
  have hname : "img".toList = ['i', 'm', 'g'] := rfl
  have hshape : imageMarkup attributes = ['<', 'i', 'm', 'g'] ++
      (attributes.flatMap Html.Attribute.print ++ '>' :: []) := by
    simp [imageMarkup, Html.openingTag, hname]
  rw [hshape, turns_unixLines (by decide), unixLines_append_cons (by decide)]
  rfl

theorem wordedLines_image {U : List Char} (hgt : '>' ∉ U) (hend : ¬ ['-', '-'] <:+ U)
    (hU : ∀ c ∈ U.head?, isWord c = false) :
    wordedLines (('<' :: 'i' :: 'm' :: 'g' :: U) ++ '>' :: []) =
      imageText (('<' :: 'i' :: 'm' :: 'g' :: U) ++ '>' :: []) := by
  have htag : '>' ∉ '<' :: 'i' :: 'm' :: 'g' :: U := by simpa using hgt
  have hend : ¬ ['-', '-'] <:+ '<' :: 'i' :: 'm' :: 'g' :: U := by
    simpa [List.suffix_cons_iff] using hend
  have hdrop := dropElements_tag htag (fun m _ => Ignores.nil (openTag? m) [])
    (fun m _ => Ignores.nil (closeTag? m) [])
  have hcomment : Idle comment? (('<' :: 'i' :: 'm' :: 'g' :: U) ++ '>' :: []) [] :=
    idle_tag atTag_comment? (Ignores.nil comment? []) fun w hw =>
      comment?_of_tag (fun h => htag (hw.subset h)) (fun h => hend (h.trans hw)) (by decide)
  have hread : openTag? ['i', 'm', 'g'] ('<' :: (['i', 'm', 'g'] ++ (U ++ '>' :: []))) =
      some (U, []) := openTag?_append (by decide) hU hgt _
  have hopen : openTag? ['i', 'm', 'g'] (('<' :: 'i' :: 'm' :: 'g' :: U) ++ '>' :: []) =
      some (U, []) := hread
  have hne : ('<' :: 'i' :: 'm' :: 'g' :: U) ++ '>' :: [] ≠ [] := by simp
  generalize ('<' :: 'i' :: 'm' :: 'g' :: U) ++ '>' :: [] = tag at *
  have himage : imageAt? (tag ++ []) = some (imageText tag, tag.length) := by
    rw [List.append_nil, imageAt?, hopen]
    simp only [Option.map_some, taken, List.length_nil, Nat.sub_zero, List.take_length]
  have hall := replaceMatches_match hne himage
  rw [List.append_nil, replaceMatches_nil, List.append_nil] at hall
  rw [wordedLines, hdrop, dropComments, replaceWith_of_idle [] hcomment]
  exact hall

/-- An image shows the description that is found in its tag. -/
theorem ofMarkup_image {attributes : List Html.Attribute} {alt : List Char}
    (hgt : '>' ∉ attributes.flatMap Html.Attribute.print)
    (halt : attribute? ['a', 'l', 't'] (imageMarkup attributes) = some (printed alt))
    (hne : trimBare alt ≠ []) (haltgt : '>' ∉ alt) :
    ofMarkup (imageMarkup attributes) = normalForm ('[' :: trimBare alt ++ [']']) := by
  have hread := attribute?_unixLines (by decide : IsName ['a', 'l', 't']) (imageMarkup attributes)
  rw [halt, Option.map_some, unixLines_printed] at hread
  have hprinted : (printed (trimBare (unixLines alt))).isEmpty = false := by
    rw [trimBare_unixLines, ← unixLines_printed, isEmpty_unixLines]
    simpa [printed_eq_nil_iff] using hne
  have htext : imageText (unixLines (imageMarkup attributes)) =
      [] ++ ('[' :: printed (trimBare (unixLines alt)) ++ [']']) := by
    simp only [imageText, hread, trim_printed, hprinted, Bool.false_eq_true, if_false,
      List.nil_append]
  have hend : '>' ∉ '[' :: printed (trimBare (unixLines alt)) ++ [']'] := by
    have htrimmed : '>' ∉ trimBare (unixLines alt) := fun h =>
      not_mem_unixLines (by decide) haltgt ((List.dropWhile_suffix _).subset
        ((List.rdropWhile_prefix _ _).subset h))
    simpa using gt_not_mem_printed htrimmed
  have hlinks : linksToText ([] ++ ('[' :: printed (trimBare (unixLines alt)) ++ [']'])) =
      [] ++ ('[' :: printed (trimBare (unixLines alt)) ++ [']']) := by
    have hat : AtTag linkAt? := fun c s hc => by
      rw [linkAt?, atTag_openTag? ['a'] c s hc, Option.bind_none]
    refine replaceMatches_of_idle (idle_of_no_end hat (fun s hs => ?_) List.not_mem_nil hend)
    rw [linkAt?, openTag?_of_no_end hs, Option.bind_none]
  have hdecode : decodeReferences ([] ++ ('[' :: printed (trimBare (unixLines alt)) ++ [']'])) =
      ['['] ++ (trimBare (unixLines alt) ++ [']']) :=
    ((turns_decodeReferences_run (u := ['[']) (by decide)).append
      ((turns_decodeReferences_printed _).append (turns_decodeReferences_run (by decide)))).eq rfl
  have hlines : unixLines ('[' :: trimBare alt ++ [']']) =
      ['['] ++ (trimBare (unixLines alt) ++ [']']) := by
    have hshape : '[' :: trimBare alt ++ [']'] = ['['] ++ (trimBare alt ++ ']' :: []) := rfl
    rw [hshape, turns_unixLines (by decide), unixLines_append_cons (by decide), trimBare_unixLines]
    rfl
  have himage := wordedLines_image (not_mem_unixLines (by decide) hgt)
    (not_hyphens_suffix_print attributes) (head?_print attributes)
  rw [← unixLines_imageMarkup] at himage
  rw [ofMarkup_eq, himage, htext, toCoded, hlinks, stripTags_breakLines List.not_mem_nil hend,
    hdecode, normalForm, hlines]

/-! ### The attribute that is shown -/

/-- No value before the attribute of the name mentions that name. -/
def isApart (name : String) (attributes : List Html.Attribute) : Bool :=
  (attributes.takeWhile (·.label != name)).all fun b =>
    !mentions name.toList (printed b.value.toList)

/-- Attributes that a tag ends behind. -/
def Printable (attributes : List Html.Attribute) : Prop :=
  ∀ b ∈ attributes, IsLabel b.label.toList ∧ '>' ∉ b.value.toList

instance (attributes : List Html.Attribute) : Decidable (Printable attributes) :=
  List.decidableBAll _ attributes

theorem Printable.gt_not_mem {attributes : List Html.Attribute} (h : Printable attributes) :
    '>' ∉ attributes.flatMap Html.Attribute.print := by
  intro hm
  obtain ⟨a, ha, hm⟩ := List.mem_flatMap.mp hm
  obtain ⟨hlabel, hvalue⟩ := h a ha
  have hname : '>' ∉ a.label.toList := fun hm => by simpa using (hlabel '>' hm).2
  have hprint := print_append a []
  rw [List.append_nil] at hprint
  rw [hprint] at hm
  simp [hname, gt_not_mem_printed hvalue] at hm

/-- The first attribute of a shown name is found, wherever it stands. -/
theorem attributeFrom?_attributes_print {attributes : List Html.Attribute} {a : Html.Attribute}
    (key : String) (hkey : key.toList ∈ shownNames) (h : Printable attributes)
    (ha : attributes.find? (·.label == key) = some a) (hapart : isApart key attributes = true)
    (s : List Char) : attributeFrom? key.toList false
      (attributes.flatMap Html.Attribute.print ++ s) = some (printed a.value.toList) := by
  obtain ⟨hlabel, before, after, rfl, hbefore⟩ := List.find?_eq_some_iff_append.mp ha
  obtain rfl : a.label = key := by simpa using hlabel
  have hne : ∀ b ∈ before, b.label ≠ a.label := fun b hb => by simpa using hbefore b hb
  have htake : (before ++ a :: after).takeWhile (·.label != a.label) = before := by
    rw [List.takeWhile_append_of_pos fun b hb => by simpa using hne b hb,
      List.takeWhile_cons_of_neg (by simp), List.append_nil]
  rw [isApart, htake, List.all_eq_true] at hapart
  have hfound := attributeFrom?_print hkey (fun b hb => ⟨(h b (by simp [hb])).1, hne b hb,
    by simpa using hapart b hb⟩) (after.flatMap Html.Attribute.print ++ s)
  simpa using hfound

theorem attributeFrom?_fresh_of_head {key s : List Char} (hkey : key ∈ shownNames)
    (h : ∀ c ∈ s.head?, EndsName c) : attributeFrom? key true s = attributeFrom? key false s := by
  refine attributeFrom?_fresh ?_
  rw [afterAnyCase?_eq_none_of_head hkey h, Option.bind_none]

theorem attribute?_href {attributes : List Html.Attribute} {a : Html.Attribute}
    (h : Printable attributes) (ha : attributes.find? (·.label == "href") = some a)
    (hapart : isApart "href" attributes = true) :
    attribute? ['h', 'r', 'e', 'f'] (attributes.flatMap Html.Attribute.print) =
      some (printed a.value.toList) := by
  have hkey : ['h', 'r', 'e', 'f'] ∈ shownNames := by decide
  have hhead : ∀ c ∈ (attributes.flatMap Html.Attribute.print).head?, EndsName c := by
    cases attributes with
    | nil => exact fun c hc => nomatch hc
    | cons b attributes =>
      intro c hc
      obtain rfl : ' ' = c := Option.some.inj hc
      decide
  have hfound := attributeFrom?_attributes_print "href" hkey h ha hapart []
  rw [List.append_nil] at hfound
  rw [attribute?, attributeFrom?_fresh_of_head hkey hhead]
  exact hfound

theorem attribute?_alt {attributes : List Html.Attribute} {a : Html.Attribute}
    (h : Printable attributes) (ha : attributes.find? (·.label == "alt") = some a)
    (hapart : isApart "alt" attributes = true) :
    attribute? ['a', 'l', 't'] (imageMarkup attributes) = some (printed a.value.toList) := by
  have hkey : ['a', 'l', 't'] ∈ shownNames := by decide
  have hname : "img".toList = ['i', 'm', 'g'] := rfl
  have hshape : imageMarkup attributes =
      ['<', 'i', 'm', 'g'] ++ (attributes.flatMap Html.Attribute.print ++ ['>']) := by
    simp [imageMarkup, Html.openingTag, hname]
  have hhead : ∀ c ∈ (['<', 'i', 'm', 'g'] ++
      (attributes.flatMap Html.Attribute.print ++ ['>'])).head?, EndsName c := by
    intro c hc
    obtain rfl : '<' = c := Option.some.inj hc
    decide
  have hblank : ∀ c ∈ ['<', 'i', 'm', 'g'], isBlank c = false := by decide
  rw [hshape, attribute?, attributeFrom?_fresh_of_head hkey hhead, attributeFrom?_blankless hblank]
  exact attributeFrom?_attributes_print "alt" hkey h ha hapart ['>']

/-- A link shows its own address and an image its own description: the values of the other
attributes do not matter, as long as they do not end the tag or mention what is shown. -/
theorem ofMarkup_shown {attributes : List Html.Attribute} (h : Printable attributes) :
    (∀ a text, attributes.find? (·.label == "href") = some a → a.value ≠ "" →
      isApart "href" attributes = true →
      interrupts (attributes.flatMap Html.Attribute.print) text = false →
      '<' ∉ text → '&' ∉ text →
      ofMarkup (linkMarkup attributes text) =
        normalForm (trim text ++ [' ', '('] ++ a.value.toList ++ [')'])) ∧
    ∀ a, attributes.find? (·.label == "alt") = some a → trimBare a.value.toList ≠ [] →
      isApart "alt" attributes = true →
      ofMarkup (imageMarkup attributes) =
        normalForm ('[' :: trimBare a.value.toList ++ [']']) := by
  constructor
  · intro a text ha hne hapart hplain hlt hampersand
    have hvalue := (h a (List.mem_of_find?_eq_some ha)).2
    exact ofMarkup_link h.gt_not_mem hplain (attribute?_href h ha hapart) (by simpa using hne)
      hvalue hlt hampersand
  · intro a ha hne hapart
    have hvalue := (h a (List.mem_of_find?_eq_some ha)).2
    exact ofMarkup_image h.gt_not_mem (attribute?_alt h ha hapart) hne hvalue

/-- Attributes of a picture in a shop, as they may stand on a link as well. -/
def shopAttributes : List Html.Attribute :=
  [⟨.plain, "title", "a <!-- b & \"c\""⟩, ⟨.plain, "href", "/shop?a=1&b=2"⟩, ⟨.plain, "alt", " Shop "⟩]

theorem ofMarkup_shown_shop : Printable shopAttributes ∧
    isApart "href" shopAttributes = true ∧
    interrupts (shopAttributes.flatMap Html.Attribute.print) ['x'] = false ∧
    isApart "alt" shopAttributes = true ∧
    ofMarkup (linkMarkup shopAttributes ['x']) =
      normalForm (trim ['x'] ++ [' ', '('] ++ "/shop?a=1&b=2".toList ++ [')']) ∧
    ofMarkup (imageMarkup shopAttributes) =
      normalForm ('[' :: trimBare " Shop ".toList ++ [']']) := by
  have hprintable : Printable shopAttributes := by decide +kernel
  have hhref : isApart "href" shopAttributes = true := by decide +kernel
  have hplain : interrupts (shopAttributes.flatMap Html.Attribute.print) ['x'] = false := by
    decide +kernel
  have halt : isApart "alt" shopAttributes = true := by decide +kernel
  have hshown := ofMarkup_shown hprintable
  exact ⟨hprintable, hhref, hplain, halt,
    hshown.1 ⟨.plain, "href", "/shop?a=1&b=2"⟩ ['x'] (by decide) (by decide) hhref hplain (by decide)
      (by decide),
    hshown.2 ⟨.plain, "alt", " Shop "⟩ (by decide) (by decide +kernel) halt⟩

/-- The text of a link and the description of an image are trimmed; and a value before the attribute
that is shown may be taken for it, for the end of the tag, or for other markup. -/
theorem not_ofMarkup_shown :
    (¬ ∀ (attributes : List Html.Attribute) (a : Html.Attribute),
      (∀ b ∈ attributes, IsLabel b.label.toList) → (attributes.map (·.label)).Nodup →
      attributes.find? (·.label == "alt") = some a → trim a.value.toList ≠ [] →
      ofMarkup (imageMarkup attributes) = normalForm ('[' :: a.value.toList ++ [']'])) ∧
    (¬ ∀ (attributes : List Html.Attribute) (a : Html.Attribute) (text : List Char),
      (∀ b ∈ attributes, IsLabel b.label.toList) → (attributes.map (·.label)).Nodup →
      attributes.find? (·.label == "href") = some a → a.value ≠ "" → trim text ≠ [] →
      '<' ∉ text → '&' ∉ text →
      ofMarkup (linkMarkup attributes text) =
        normalForm (text ++ [' ', '('] ++ a.value.toList ++ [')'])) ∧
    (∀ value ∈ ["x alt=y", "x > y"],
      ofMarkup (imageMarkup [⟨.plain, "title", value⟩, ⟨.plain, "alt", "z"⟩]) ≠ ['[', 'z', ']']) ∧
    ∀ value ∈ ["x href=y", "x > y", "<img y", "<!--y"],
      ofMarkup (linkMarkup [⟨.plain, "title", value⟩, ⟨.plain, "href", "z"⟩] ['-', '-', '>']) ≠
        ['-', '-', '>', ' ', '(', 'z', ')'] := by
  refine ⟨fun h => ?_, fun h => ?_, by decide +kernel, by decide +kernel⟩
  · have hpadded := h [⟨.plain, "alt", " Logo "⟩] ⟨.plain, "alt", " Logo "⟩ (by decide +kernel)
      (by decide) (by decide) (by decide +kernel)
    revert hpadded
    decide +kernel
  · have hpadded := h [⟨.plain, "href", "u"⟩] ⟨.plain, "href", "u"⟩ ['x', '\n'] (by decide +kernel)
      (by decide) (by decide) (by decide) (by decide +kernel) (by decide) (by decide)
    revert hpadded
    decide +kernel

end EmailTemplate.PlainText
