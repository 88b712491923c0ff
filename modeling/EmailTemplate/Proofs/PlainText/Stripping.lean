import EmailTemplate.Proofs.PlainText.Wording

/-! The later passes: they put text for links, line ends and spaces for what keeps lines and cells
apart, and take away the other tags. Inside links tags are taken away before lines and cells are
kept apart. -/

namespace EmailTemplate.PlainText

open Text

variable {name u : List Char}

/-- The passes from links to tags. -/
def toCoded (s : List Char) : List Char := stripTags (breakLines (linksToText s))

theorem ofMarkup_eq (html : List Char) :
    ofMarkup html = tidy (decodeReferences (toCoded (wordedLines (unixLines html)))) := rfl

def Leaf.coded (breaks : Bool) : Leaf → List Char
  | text run => escape textMarks run.chars
  | comment _ => []
  | hidden _ => []
  | lineBreak => if breaks then ['\n'] else []
  | image attributes => described ((value? ['a', 'l', 't'] attributes).map (escape valueMarks))

def codedLook (breaks : Bool) : Look Leaf where
  leaf := Leaf.coded breaks
  opening _ _ := []
  closing name := if breaks then ending name.chars else []

def codedLink (attributes : List Attribute) (body : Fragment Leaf) : List Char :=
  addressed (trim (body.write (codedLook false)))
    ((value? ['h', 'r', 'e', 'f'] attributes).map (escape valueMarks))

def coded (f : Fragment Item) : List Char := f.write ((codedLook true).withLinks codedLink)

/-! ### Texts without tags -/

theorem lt_not_mem_value {key v : List Char} {attributes : List Attribute}
    (h : v ∈ (value? key attributes).map (escape valueMarks)) : '<' ∉ v := by
  obtain ⟨value, hvalue, rfl⟩ := Option.map_eq_some_iff.mp h
  obtain ⟨a, -, rfl⟩ := Option.map_eq_some_iff.mp hvalue
  have hplain : '<' ∉ a.value := fun hc => (a.value_plain '<' hc).1 rfl
  exact not_mem_escape valueMarks_subset (.inl hplain) (by decide)

theorem lt_not_mem_described {alt : Option (List Char)} (h : ∀ v ∈ alt, '<' ∉ v) :
    '<' ∉ described alt := by
  cases alt with
  | none => exact List.not_mem_nil
  | some v =>
    have hv : '<' ∉ trim v := fun hm => h v rfl ((trim_sublist v).subset hm)
    rw [described]
    split <;> simp [hv]

theorem lt_not_mem_addressed {text : List Char} (htext : '<' ∉ text) {href : Option (List Char)}
    (h : ∀ v ∈ href, '<' ∉ v) : '<' ∉ addressed text href := by
  cases href with
  | none => exact htext
  | some v =>
    have hv := h v rfl
    rw [addressed]
    split <;> simp [htext, hv]

/-! ### Inside links -/

theorem ElementName.ne_of_mem_ownNames (name : ElementName) {m : List Char} (hm : m ∈ ownNames) :
    m ≠ name.chars := by
  rintro rfl
  exact name.ordinary hm

theorem wordedLook_stripped : Look.Related (Turns stripTags) wordedLook (codedLook false) where
  leaf
    | .text run =>
      turns_replaceWith_ignored [] (atTag_anyTag?.ignores (escape_plain run).1)
    | .comment _ => .nil stripTags
    | .hidden _ => .nil stripTags
    | .lineBreak =>
      turns_replaceWith [] (List.cons_ne_nil _ _) (anyTag?_startTag (by decide) [])
    | .image _ => turns_replaceWith_ignored []
        (atTag_anyTag?.ignores (lt_not_mem_described fun _ => lt_not_mem_value))
  opening name attributes :=
    turns_replaceWith [] (by simp [wordedLook, startTag]) (anyTag?_startTag name.isName attributes)
  closing name :=
    turns_replaceWith [] (by simp [wordedLook, endTag]) (anyTag?_endTag name.isName)

theorem stripTags_body (body : Fragment Leaf) :
    stripTags (body.write wordedLook) = body.write (codedLook false) :=
  (body.write_related (turns_additive stripTags) wordedLook_stripped).eq rfl

/-- No part of a body closes the link. -/
theorem ignores_closeTag?_body (body : Fragment Leaf) :
    Ignores (closeTag? ['a']) (body.write wordedLook) := by
  have hadditive : Additive fun u _ => Ignores (closeTag? ['a']) u :=
    ⟨.nil _, fun h h' => h.append h'⟩
  have hat := atTag_closeTag? ['a']
  have hrelated : Look.Related (fun u _ => Ignores (closeTag? ['a']) u) wordedLook wordedLook :=
    { leaf := fun
        | .text run => hat.ignores (escape_plain run).1
        | .comment _ => .nil _
        | .hidden _ => .nil _
        | .lineBreak => hat.ignores_startTag (by decide) (closeTag?_startTag _ (by decide) [])
        | .image _ => hat.ignores (lt_not_mem_described fun _ => lt_not_mem_value)
      opening := fun name attributes =>
        hat.ignores_startTag name.isName (closeTag?_startTag _ name.isName attributes)
      closing := fun name => hat.ignores_endTag name.isName
        (closeTag?_endTag_of_ne (by decide) name.isName (name.ne_of_mem_ownNames (by decide))) }
  exact body.write_related hadditive hrelated

theorem lt_not_mem_body (body : Fragment Leaf) : '<' ∉ body.write (codedLook false) := by
  have hadditive : Additive fun u _ => '<' ∉ u := ⟨List.not_mem_nil, by simp_all⟩
  have hrelated : Look.Related (fun u _ => '<' ∉ u) (codedLook false) (codedLook false) :=
    { leaf := fun
        | .text run => (escape_plain run).1
        | .comment _ => List.not_mem_nil
        | .hidden _ => List.not_mem_nil
        | .lineBreak => List.not_mem_nil
        | .image _ => lt_not_mem_described fun _ => lt_not_mem_value
      opening := fun _ _ => List.not_mem_nil
      closing := fun _ => List.not_mem_nil }
  exact body.write_related hadditive hrelated

theorem linkAt?_link (attributes : List Attribute) (body : Fragment Leaf) (s : List Char) :
    linkAt? (startTag ['a'] attributes ++ body.write wordedLook ++ endTag ['a'] ++ s) =
      some (codedLink attributes body,
        (startTag ['a'] attributes ++ body.write wordedLook ++ endTag ['a']).length) := by
  have hname : IsName ['a'] := by decide
  have hopen := openTag?_startTag_self hname attributes (body.write wordedLook ++ (endTag ['a'] ++ s))
  have hbody := upToCloseTag?_body hname (ignores_closeTag?_body body) s
  have htext : linkText (attributes.flatMap Attribute.markup) (body.write wordedLook) =
      codedLink attributes body := by
    rw [codedLink, ← attribute?_attributes (by decide), ← stripTags_body]
    rfl
  rw [← List.append_assoc, ← List.append_assoc] at hopen
  rw [linkAt?, hopen]
  simp only [Option.bind_some, hbody, Option.map_some, htext, taken_append]

/-! ### The ends of lines and cells -/

theorem anyCloseTag?_endTag {names : List (List Char)} (hnames : ∀ m ∈ names, IsName m)
    (hname : IsName name) (s : List Char) :
    anyCloseTag? names (endTag name ++ s) = if name ∈ names then some s else none := by
  induction names with
  | nil => rfl
  | cons m names ih =>
    rw [List.forall_mem_cons] at hnames
    rw [anyCloseTag?, List.findSome?_cons, ← anyCloseTag?]
    by_cases hm : m = name
    · subst hm
      rw [closeTag?_endTag_self hname, if_pos List.mem_cons_self]
    · rw [closeTag?_endTag_of_ne hnames.1 hname hm, ih hnames.2]
      simp [Ne.symm hm]

theorem ignores_anyCloseTag?_startTag (names : List (List Char)) (hname : IsName name)
    (attributes : List Attribute) : Ignores (anyCloseTag? names) (startTag name attributes) := by
  refine (atTag_anyCloseTag? names).ignores_startTag hname ?_
  intro s
  rw [anyCloseTag?, List.findSome?_eq_none_iff]
  exact fun m _ => closeTag?_startTag m hname attributes s

theorem turns_anyCloseTag? {names : List (List Char)} (hnames : ∀ m ∈ names, IsName m)
    (put : List Char) (hname : IsName name) :
    Turns (replaceWith put (anyCloseTag? names)) (endTag name)
      (if name ∈ names then put else endTag name) := by
  split
  · next hmem =>
    refine turns_replaceWith put (by simp [endTag]) ?_
    intro s
    rw [anyCloseTag?_endTag hnames hname, if_pos hmem]
  · next hmem =>
    refine turns_replaceWith_ignored put ((atTag_anyCloseTag? names).ignores_endTag hname ?_)
    intro s
    rw [anyCloseTag?_endTag hnames hname, if_neg hmem]

/-! ### Outside links -/

theorem ignores_linkAt? (h : Ignores (openTag? ['a']) u) : Ignores linkAt? u :=
  h.of_imp fun s hs => by rw [linkAt?, hs, Option.bind_none]

theorem turns_breakLines_ignored (hbreak : Ignores lineBreak? u)
    (hclose : ∀ names, Ignores (anyCloseTag? names) u) : Turns breakLines u u :=
  ((turns_replaceWith_ignored ['\n'] hbreak).andThen
    (turns_replaceWith_ignored ['\n'] (hclose lineElements))).andThen
    (turns_replaceWith_ignored [' '] (hclose cellElements))

theorem turns_breakLines_run (h : '<' ∉ u) : Turns breakLines u u :=
  turns_breakLines_ignored (atTag_lineBreak?.ignores h)
    fun names => (atTag_anyCloseTag? names).ignores h

theorem turns_stripTags_run (h : '<' ∉ u) : Turns stripTags u u :=
  turns_replaceWith_ignored [] (atTag_anyTag?.ignores h)

theorem turns_toCoded_run (h : '<' ∉ u) : Turns toCoded u u :=
  ((turns_replaceMatches_ignored (ignores_linkAt? ((atTag_openTag? ['a']).ignores h))).andThen
    (turns_breakLines_run h)).andThen (turns_stripTags_run h)

theorem turns_breakLines_lineBreak : Turns breakLines (startTag ['b', 'r'] []) ['\n'] := by
  have hbreak : Turns (replaceWith ['\n'] lineBreak?) (startTag ['b', 'r'] []) ['\n'] :=
    turns_replaceWith ['\n'] (List.cons_ne_nil _ _) lineBreak?_startTag
  have hclose : ∀ names, Ignores (anyCloseTag? names) ['\n'] :=
    fun names => (atTag_anyCloseTag? names).ignores (by decide)
  exact (hbreak.andThen (turns_replaceWith_ignored ['\n'] (hclose lineElements))).andThen
    (turns_replaceWith_ignored [' '] (hclose cellElements))

theorem turns_toCoded_lineBreak : Turns toCoded (startTag ['b', 'r'] []) ['\n'] := by
  have hname : IsName ['b', 'r'] := by decide
  have hlink : Ignores (openTag? ['a']) (startTag ['b', 'r'] []) :=
    ignores_openTag?_startTag (by decide) hname (by decide) []
  exact ((turns_replaceMatches_ignored (ignores_linkAt? hlink)).andThen
    turns_breakLines_lineBreak).andThen (turns_stripTags_run (by decide))

theorem turns_toCoded_startTag (name : ElementName) (attributes : List Attribute) :
    Turns toCoded (startTag name.chars attributes) [] := by
  have hname := name.isName
  have hlink : Ignores (openTag? ['a']) (startTag name.chars attributes) :=
    ignores_openTag?_startTag (by decide) hname (name.ne_of_mem_ownNames (by decide)) attributes
  have hbreak := atTag_lineBreak?.ignores_startTag hname
    (lineBreak?_startTag_of_ne hname (name.ne_of_mem_ownNames (by decide)).symm attributes)
  have hlines := turns_breakLines_ignored hbreak
    fun names => ignores_anyCloseTag?_startTag names hname attributes
  exact ((turns_replaceMatches_ignored (ignores_linkAt? hlink)).andThen hlines).andThen
    (turns_replaceWith [] (by simp [startTag]) (anyTag?_startTag hname attributes))

/-- A closing tag is put for at most once: what is put for the end of a line is no tag. -/
theorem turns_breakLines_endTag (hname : IsName name) : Turns breakLines (endTag name)
    (if name ∈ lineElements then ['\n'] else if name ∈ cellElements then [' '] else endTag name) := by
  have hlineNames : ∀ m ∈ lineElements, IsName m := by decide
  have hcellNames : ∀ m ∈ cellElements, IsName m := by decide
  have hbreak := atTag_lineBreak?.ignores_endTag hname (lineBreak?_endTag name)
  have hline := (turns_replaceWith_ignored ['\n'] hbreak).andThen
    (turns_anyCloseTag? hlineNames ['\n'] hname)
  by_cases hmem : name ∈ lineElements
  · rw [if_pos hmem] at hline ⊢
    exact hline.andThen
      (turns_replaceWith_ignored [' '] ((atTag_anyCloseTag? cellElements).ignores (by decide)))
  · rw [if_neg hmem] at hline ⊢
    exact hline.andThen (turns_anyCloseTag? hcellNames [' '] hname)

theorem turns_toCoded_endTag (name : ElementName) :
    Turns toCoded (endTag name.chars) (ending name.chars) := by
  have hname := name.isName
  have hlink : Ignores (openTag? ['a']) (endTag name.chars) :=
    ignores_openTag?_endTag (by decide) hname
  have hlines := (turns_replaceMatches_ignored (ignores_linkAt? hlink)).andThen
    (turns_breakLines_endTag hname)
  refine hlines.andThen ?_
  rw [ending]
  split
  · exact turns_stripTags_run (by decide)
  · split
    · exact turns_stripTags_run (by decide)
    · exact turns_replaceWith [] (by simp [endTag]) (anyTag?_endTag hname)

theorem turns_toCoded_link (attributes : List Attribute) (body : Fragment Leaf) : Turns toCoded
    (startTag ['a'] attributes ++ body.write wordedLook ++ endTag ['a'])
    (codedLink attributes body) := by
  have hlt : '<' ∉ codedLink attributes body := by
    refine lt_not_mem_addressed ?_ fun _ => lt_not_mem_value
    exact fun h => lt_not_mem_body body ((trim_sublist _).subset h)
  have hlink : Turns linksToText
      (startTag ['a'] attributes ++ body.write wordedLook ++ endTag ['a'])
      (codedLink attributes body) :=
    fun s => replaceMatches_match (by simp [startTag]) (linkAt?_link attributes body s)
  exact (hlink.andThen (turns_breakLines_run hlt)).andThen (turns_stripTags_run hlt)

/-! ### Forests -/

theorem wordedLook_coded : Look.Related (Turns toCoded) wordedLook (codedLook true) where
  leaf
    | .text run => turns_toCoded_run (escape_plain run).1
    | .comment _ => .nil toCoded
    | .hidden _ => .nil toCoded
    | .lineBreak => turns_toCoded_lineBreak
    | .image _ => turns_toCoded_run (lt_not_mem_described fun _ => lt_not_mem_value)
  opening name attributes := turns_toCoded_startTag name attributes
  closing name := turns_toCoded_endTag name

theorem toCoded_worded (f : Fragment Item) : toCoded (worded f) = coded f :=
  (f.write_related (turns_additive toCoded)
    (wordedLook_coded.withLinks turns_toCoded_link)).eq rfl

end EmailTemplate.PlainText
