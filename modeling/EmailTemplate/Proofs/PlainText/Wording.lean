import EmailTemplate.Proofs.PlainText.Attributes

/-! The first passes, up to images: they take away what is not shown and put descriptions for
images. Every other tag stays. -/

namespace EmailTemplate.PlainText

open Text

variable {name u : List Char} {attributes : List Attribute}

def dropElements (names : List (List Char)) (s : List Char) : List Char :=
  names.foldl (fun s name => dropElement name s) s

/-- The first passes. -/
def toWorded (html : List Char) : List Char :=
  imagesToText (dropComments (dropElements hiddenElements (unixLines html)))

/-! ### Line ends -/

theorem turns_unixLines (h : '\r' ∉ u) : Turns unixLines u u :=
  fun s => replaceAll_passes (Passes.of_not_mem h s)

theorem unixLines_append_cons {d : Char} (hd : d ∉ ['\r', '\n']) (u s : List Char) :
    unixLines (u ++ d :: s) = unixLines u ++ d :: unixLines s :=
  replaceAll_append_cons (List.cons_ne_nil _ _) hd _ u s

/-- What follows a content that is closed by another character does not change its line ends. -/
theorem turns_unixLines_between {v w : List Char} {d : Char} (hv : '\r' ∉ v) (hw : '\r' ∉ d :: w)
    (hd : d ∉ ['\r', '\n']) (content : List Char) :
    Turns unixLines (v ++ content ++ d :: w) (v ++ unixLines content ++ d :: w) := by
  have hcontent : Turns unixLines (content ++ [d]) (unixLines content ++ [d]) := by
    intro s
    simpa using unixLines_append_cons hd content s
  have htail := turns_unixLines fun h => hw (List.mem_cons_of_mem d h)
  have hall := ((turns_unixLines hv).append hcontent).append htail
  simpa using hall

theorem not_mem_unixLines {d : Char} (hd : d ≠ '\n') {s : List Char} (h : d ∉ s) :
    d ∉ unixLines s := by
  have hfind : ['\r', '\n'] ≠ [] := List.cons_ne_nil _ _
  induction s using literal_induction hfind with
  | nil => exact h
  | found s ih =>
    rw [List.mem_append, not_or] at h
    rw [unixLines, replaceAll_literal hfind, List.mem_append, not_or]
    exact ⟨by simpa using hd, ih h.2⟩
  | passed c s hc ih =>
    rw [List.mem_cons, not_or] at h
    rw [unixLines, replaceAll_cons hc, List.mem_cons, not_or]
    exact ⟨h.1, ih h.2⟩

/-! ### Elements that are not shown -/

theorem isName_of_mem_hiddenElements (h : name ∈ hiddenElements) : IsName name := by
  have hall : ∀ name ∈ hiddenElements, IsName name := by decide
  exact hall name h

theorem turns_dropElement_ignored (h : Ignores (openTag? name) u) :
    Turns (dropElement name) u u :=
  turns_replaceWith_ignored [] <| h.of_imp fun s hs => by rw [wholeElement?, hs, Option.bind_none]

theorem turns_dropElements_ignored {names : List (List Char)}
    (h : ∀ name ∈ names, Ignores (openTag? name) u) : Turns (dropElements names) u u := by
  induction names with
  | nil => exact fun _ => rfl
  | cons name names ih =>
    rw [List.forall_mem_cons] at h
    exact (turns_dropElement_ignored h.1).andThen (ih h.2)

/-- What one of the passes drops is gone after all of them. -/
theorem turns_dropElements_of_mem {names : List (List Char)} (hname : name ∈ names)
    (hown : Turns (dropElement name) u [])
    (hother : ∀ m ∈ names, m ≠ name → Turns (dropElement m) u u) :
    Turns (dropElements names) u [] := by
  induction names with
  | nil => cases hname
  | cons m names ih =>
    rw [List.forall_mem_cons] at hother
    by_cases hm : m = name
    · subst hm
      exact hown.andThen (.nil (dropElements names))
    · have hrest := (List.mem_cons.mp hname).resolve_left (Ne.symm hm)
      exact (hother.1 hm).andThen (ih hrest hother.2)

theorem wholeElement?_element (hname : IsName name) (attributes : List Attribute)
    {content : List Char} (hcontent : '<' ∉ content) (s : List Char) :
    wholeElement? name (startTag name attributes ++ content ++ endTag name ++ s) = some s := by
  have hbody := upToCloseTag?_body hname ((atTag_closeTag? name).ignores hcontent) s
  rw [List.append_assoc, List.append_assoc, wholeElement?, openTag?_startTag_self hname,
    Option.bind_some]
  simp only [hbody, Option.map_some]

theorem ignores_openTag?_element {m : List Char} (hm : IsName m) (hname : IsName name)
    (hne : m ≠ name) (attributes : List Attribute) {content : List Char} (hcontent : '<' ∉ content) :
    Ignores (openTag? m) (startTag name attributes ++ content ++ endTag name) := by
  have hstart := ignores_openTag?_startTag hm hname hne attributes
  have hinside := (atTag_openTag? m).ignores hcontent
  exact (hstart.append hinside).append (ignores_openTag?_endTag hm hname)

theorem turns_dropElements_hidden (hname : name ∈ hiddenElements) (attributes : List Attribute)
    {content : List Char} (hcontent : '<' ∉ content) : Turns (dropElements hiddenElements)
      (startTag name attributes ++ content ++ endTag name) [] := by
  have hisName := isName_of_mem_hiddenElements hname
  refine turns_dropElements_of_mem hname ?_ ?_
  · exact turns_replaceWith [] (by simp [startTag])
      (wholeElement?_element hisName attributes hcontent)
  · intro m hm hne
    exact turns_dropElement_ignored
      (ignores_openTag?_element (isName_of_mem_hiddenElements hm) hisName hne attributes hcontent)

/-! ### What stays -/

/-- The first passes on a text whose line ends are in one form. -/
def wordedLines (s : List Char) : List Char :=
  imagesToText (dropComments (dropElements hiddenElements s))

theorem turns_wordedLines_ignored
    (hopen : ∀ name ∈ ['i', 'm', 'g'] :: hiddenElements, Ignores (openTag? name) u)
    (hcomment : Ignores comment? u) : Turns wordedLines u u := by
  rw [List.forall_mem_cons] at hopen
  have himage : Ignores imageAt? u :=
    hopen.1.of_imp fun s hs => by rw [imageAt?, hs, Option.map_none]
  exact ((turns_dropElements_ignored hopen.2).andThen
    (turns_replaceWith_ignored [] hcomment)).andThen (turns_replaceMatches_ignored himage)

theorem turns_wordedLines_run (hlt : '<' ∉ u) : Turns wordedLines u u :=
  turns_wordedLines_ignored (fun name _ => (atTag_openTag? name).ignores hlt)
    (atTag_comment?.ignores hlt)

theorem turns_toWorded_ignored (hcr : '\r' ∉ u)
    (hopen : ∀ name ∈ ['i', 'm', 'g'] :: hiddenElements, Ignores (openTag? name) u)
    (hcomment : Ignores comment? u) : Turns toWorded u u :=
  (turns_unixLines hcr).andThen (turns_wordedLines_ignored hopen hcomment)

theorem turns_toWorded_run (hlt : '<' ∉ u) (hcr : '\r' ∉ u) : Turns toWorded u u :=
  (turns_unixLines hcr).andThen (turns_wordedLines_run hlt)

theorem isName_of_mem_removed (h : name ∈ ['i', 'm', 'g'] :: hiddenElements) : IsName name := by
  have hall : ∀ name ∈ ['i', 'm', 'g'] :: hiddenElements, IsName name := by decide
  exact hall name h

theorem cr_not_mem_startTag (hname : IsName name) (attributes : List Attribute) :
    '\r' ∉ startTag name attributes := by
  simp only [startTag, List.cons_append, List.mem_cons, List.mem_append, List.not_mem_nil,
    or_false, not_or]
  exact ⟨by decide, ⟨not_mem_of_isNameChar hname.2 (by decide),
    fun h => (attributes_plain h).2.2 rfl⟩, by decide⟩

theorem cr_not_mem_endTag (hname : IsName name) : '\r' ∉ endTag name := by
  simp only [endTag, List.cons_append, List.mem_cons, List.mem_append, List.not_mem_nil,
    or_false, not_or]
  exact ⟨by decide, by decide, not_mem_of_isNameChar hname.2 (by decide), by decide⟩

theorem turns_wordedLines_startTag (hname : IsName name)
    (hne : name ∉ ['i', 'm', 'g'] :: hiddenElements) (attributes : List Attribute) :
    Turns wordedLines (startTag name attributes) (startTag name attributes) := by
  refine turns_wordedLines_ignored ?_ (ignores_comment?_startTag hname attributes)
  intro m hm
  have hmne : m ≠ name := by
    rintro rfl
    exact hne hm
  exact ignores_openTag?_startTag (isName_of_mem_removed hm) hname hmne attributes

theorem turns_toWorded_startTag (hname : IsName name)
    (hne : name ∉ ['i', 'm', 'g'] :: hiddenElements) (attributes : List Attribute) :
    Turns toWorded (startTag name attributes) (startTag name attributes) :=
  (turns_unixLines (cr_not_mem_startTag hname attributes)).andThen
    (turns_wordedLines_startTag hname hne attributes)

theorem turns_toWorded_endTag (hname : IsName name) :
    Turns toWorded (endTag name) (endTag name) :=
  turns_toWorded_ignored (cr_not_mem_endTag hname)
    (fun _ hm => ignores_openTag?_endTag (isName_of_mem_removed hm) hname)
    (atTag_comment?.ignores_endTag hname (comment?_endTag name))

/-! ### What goes -/

theorem turns_toWorded_hidden (e : Hidden) : Turns toWorded (Leaf.hidden e).markup [] := by
  have hname := isName_of_mem_hiddenElements e.name_mem
  have hcontent := not_mem_unixLines (by decide) e.plain
  have hlines : Turns unixLines (startTag e.name e.attributes ++ e.content ++ endTag e.name)
      (startTag e.name e.attributes ++ unixLines e.content ++ endTag e.name) :=
    turns_unixLines_between (cr_not_mem_startTag hname e.attributes) (cr_not_mem_endTag hname)
      (by decide) e.content
  exact ((hlines.andThen (turns_dropElements_hidden e.name_mem e.attributes hcontent)).andThen
    (.nil dropComments)).andThen (.nil imagesToText)

/-- A comment goes on to the first end of a comment. -/
theorem comment?_append {content : List Char} (h : ¬ ['-', '-', '>'] <:+: content)
    (s : List Char) :
    comment? (['<', '!', '-', '-'] ++ content ++ ['-', '-', '>'] ++ s) = some s := by
  have hpass : Passes ['-', '-', '>'] content (['-', '-', '>'] ++ s) := by
    rintro v w rfl hw hp
    match w, hw with
    | [a], _ => simp at hp
    | [a, b], _ => simp at hp
    | a :: b :: c :: w, _ =>
      simp only [List.cons_append, List.cons_prefix_cons] at hp
      obtain ⟨rfl, rfl, rfl, -⟩ := hp
      exact h ⟨v, w, by simp⟩
  rw [List.append_assoc, List.append_assoc, comment?, after?_append, Option.bind_some,
    splitFirst?_of_passes hpass, splitFirst?_append (List.cons_ne_nil _ _)]
  rfl

theorem turns_toWorded_comment (c : Comment) : Turns toWorded (Leaf.comment c).markup [] := by
  have hlt := not_mem_unixLines (by decide) c.plain.1
  have hgt := not_mem_unixLines (by decide) c.plain.2
  have hlines : Turns unixLines (['<', '!', '-', '-'] ++ c.content ++ ['-', '-', '>'])
      (['<', '!', '-', '-'] ++ unixLines c.content ++ ['-', '-', '>']) :=
    turns_unixLines_between (by decide) (by decide) (by decide) c.content
  have hinside : '<' ∉ ['!', '-', '-'] ++ unixLines c.content ++ ['-', '-', '>'] := by
    simp [hlt]
  have hopen : ∀ m ∈ hiddenElements, Ignores (openTag? m)
      (['<', '!', '-', '-'] ++ unixLines c.content ++ ['-', '-', '>']) :=
    fun m hm => (atTag_openTag? m).ignores_tag hinside
      fun s => openTag?_of_endsName (isName_of_mem_hiddenElements hm) (by decide) _
  have hdrop : Turns dropComments
      (['<', '!', '-', '-'] ++ unixLines c.content ++ ['-', '-', '>']) [] :=
    turns_replaceWith [] (by simp)
      (comment?_append fun hend => hgt (hend.subset (by simp)))
  exact ((hlines.andThen (turns_dropElements_ignored hopen)).andThen hdrop).andThen
    (.nil imagesToText)

theorem imageAt?_startTag (attributes : List Attribute) (s : List Char) :
    imageAt? (startTag ['i', 'm', 'g'] attributes ++ s) =
      some (described ((value? ['a', 'l', 't'] attributes).map (escape valueMarks)),
        (startTag ['i', 'm', 'g'] attributes).length) := by
  have hname : IsName ['i', 'm', 'g'] := by decide
  rw [imageAt?, openTag?_startTag_self hname, ← attribute?_startTag (by decide) hname]
  simp only [Option.map_some, taken_append, List.take_left]
  rfl

theorem turns_toWorded_image (attributes : List Attribute) :
    Turns toWorded (Leaf.image attributes).markup
      (described ((value? ['a', 'l', 't'] attributes).map (escape valueMarks))) := by
  have hname : IsName ['i', 'm', 'g'] := by decide
  have hopen : ∀ m ∈ hiddenElements, Ignores (openTag? m) (startTag ['i', 'm', 'g'] attributes) := by
    intro m hm
    have hne : m ≠ ['i', 'm', 'g'] := by
      rintro rfl
      exact absurd hm (by decide)
    exact ignores_openTag?_startTag (isName_of_mem_hiddenElements hm) hname hne attributes
  have hcomment := ignores_comment?_startTag hname attributes
  have himage : Turns imagesToText (startTag ['i', 'm', 'g'] attributes) _ :=
    fun s => replaceMatches_match (by simp [startTag]) (imageAt?_startTag attributes s)
  exact (((turns_unixLines (cr_not_mem_startTag hname attributes)).andThen
    (turns_dropElements_ignored hopen)).andThen (turns_replaceWith_ignored [] hcomment)).andThen
    himage

/-! ### Forests -/

def Leaf.worded : Leaf → List Char
  | text run => escape textMarks run.chars
  | comment _ => []
  | hidden _ => []
  | lineBreak => startTag ['b', 'r'] []
  | image attributes => described ((value? ['a', 'l', 't'] attributes).map (escape valueMarks))

def wordedLook : Look Leaf where
  leaf := Leaf.worded
  opening name attributes := startTag name.chars attributes
  closing name := endTag name.chars

def worded (f : Fragment Item) : List Char :=
  f.write (wordedLook.withLinks fun attributes body =>
    startTag ['a'] attributes ++ body.write wordedLook ++ endTag ['a'])

theorem turns_additive (pass : List Char → List Char) : Additive (Turns pass) :=
  ⟨.nil pass, fun h h' => h.append h'⟩

theorem escape_plain (run : Run) :
    '<' ∉ escape textMarks run.chars ∧ '\r' ∉ escape textMarks run.chars := by
  constructor
  · exact not_mem_escape textMarks_subset (.inr (by decide)) (by decide)
  · exact not_mem_escape textMarks_subset (.inl run.plain) (by decide)

theorem ElementName.not_mem_removed (name : ElementName) :
    name.chars ∉ ['i', 'm', 'g'] :: hiddenElements := by
  have hsub : ['i', 'm', 'g'] :: hiddenElements ⊆ ownNames := by decide
  exact fun h => name.ordinary (hsub h)

theorem markupLook_worded : Look.Related (Turns toWorded) markupLook wordedLook where
  leaf
    | .text run => turns_toWorded_run (escape_plain run).1 (escape_plain run).2
    | .comment c => turns_toWorded_comment c
    | .hidden e => turns_toWorded_hidden e
    | .lineBreak => turns_toWorded_startTag (by decide) (by decide) []
    | .image attributes => turns_toWorded_image attributes
  opening name attributes := turns_toWorded_startTag name.isName name.not_mem_removed attributes
  closing name := turns_toWorded_endTag name.isName

theorem toWorded_markup (f : Fragment Item) : toWorded (markup f) = worded f := by
  have hlink : ∀ attributes (body : Fragment Leaf), Turns toWorded
      (startTag ['a'] attributes ++ body.write markupLook ++ endTag ['a'])
      (startTag ['a'] attributes ++ body.write wordedLook ++ endTag ['a']) := by
    intro attributes body
    have hbody := body.write_related (turns_additive toWorded) markupLook_worded
    exact ((turns_toWorded_startTag (by decide) (by decide) attributes).append hbody).append
      (turns_toWorded_endTag (by decide))
  exact (f.write_related (turns_additive toWorded) (markupLook_worded.withLinks hlink)).eq rfl

end EmailTemplate.PlainText
