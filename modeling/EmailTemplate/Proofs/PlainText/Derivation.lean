import EmailTemplate.Proofs.PlainText.Parts
import EmailTemplate.Proofs.PlainText.Stripping

/-! The passes one after another give the text that is read off the tree, exactly if no link needs
what keeps its lines and cells apart. The tags inside a link are taken away before that is looked at,
so that its words may run together. -/

namespace EmailTemplate.PlainText

open Text

/-! ### Decoding -/

theorem coded_value (key : List Char) (attributes : List Attribute) :
    Option.Rel Coded ((value? key attributes).map (escape valueMarks)) (value? key attributes) := by
  cases value? key attributes with
  | none => exact .none
  | some v => exact .some (.escape valueMarks_subset (by decide) v)

theorem ending_subset (name : List Char) : ending name ⊆ ['\n', ' '] := by
  rw [ending]
  split
  · simp
  · split <;> simp

theorem coded_ending (name : List Char) : Coded (ending name) (ending name) :=
  .of_no_ampersand fun h => absurd (ending_subset name h) (by decide)

theorem codedLook_reading (breaks : Bool) :
    Look.Related Coded (codedLook breaks) (readingLook breaks) where
  leaf
    | .text run => .escape textMarks_subset (by decide) run.chars
    | .comment _ => .nil
    | .hidden _ => .nil
    | .lineBreak => by
      cases breaks with
      | false => exact .nil
      | true => exact .of_no_ampersand (by decide)
    | .image attributes => .described (coded_value _ attributes)
  opening _ _ := .nil
  closing name := by
    cases breaks with
    | false => exact .nil
    | true => exact coded_ending name.chars

theorem coded_reading (f : Fragment Item) : Coded (coded f) (reading false f) := by
  refine f.write_related Coded.additive ((codedLook_reading true).withLinks ?_)
  intro attributes body
  have hbody := body.write_related Coded.additive (codedLook_reading false)
  exact hbody.trim.addressed (coded_value _ attributes)

/-! ### The whole -/

/-- The passes put nothing for line breaks and the ends of lines and cells inside links. -/
theorem ofMarkup_markup (f : Fragment Item) : ofMarkup (markup f) = tidy (reading false f) := by
  have hpasses : ofMarkup (markup f) = tidy (decodeReferences (toCoded (toWorded (markup f)))) :=
    rfl
  rw [hpasses, toWorded_markup, toCoded_worded, (coded_reading f).decode]

/-! ### Lines inside links -/

theorem solid_readingLook :
    Look.Related (fun s t => solid s = solid t) (readingLook false) (readingLook true) where
  leaf
    | .text _ => rfl
    | .comment _ => rfl
    | .hidden _ => rfl
    | .lineBreak => by decide
    | .image _ => rfl
  opening _ _ := rfl
  closing name := by
    have hgap : ∀ c ∈ ['\n', ' '], isGap c = true := by decide
    exact (solid_eq_nil_iff.mpr fun c hc => hgap c (ending_subset _ hc)).symm

theorem solid_additive : Additive fun s t => solid s = solid t where
  nil := rfl
  append h h' := by rw [solid_append, solid_append, h, h']

/-- Inside a link nothing but white space is lost. -/
theorem solid_body (body : Fragment Leaf) :
    solid (body.write (readingLook false)) = solid (body.write (readingLook true)) :=
  body.write_related solid_additive solid_readingLook

theorem addressed_eq_append (text : List Char) (href : Option (List Char)) :
    addressed text href = text ++ addressed [] href := by
  cases href with
  | none => exact (List.append_nil text).symm
  | some href =>
    simp only [addressed]
    split <;> simp

/-- The links of a forest by what is inside them. -/
def Fragment.links : Fragment Item → List (Fragment Leaf)
  | nil => []
  | leaf (.leaf _) rest => rest.links
  | leaf (.link _ body) rest => body :: rest.links
  | element _ _ children rest => children.links ++ rest.links

/-- The text of a link comes out the same without its line breaks and the ends of its lines and
cells. -/
def Fragment.Seamless (body : Fragment Leaf) : Prop :=
  tidy (body.write (readingLook false)) = tidy (body.write (readingLook true))

theorem reading_leaf (breaks : Bool) (l : Leaf) (rest : Fragment Item) :
    reading breaks (.leaf (.leaf l) rest) = l.reading true ++ reading breaks rest := rfl

theorem reading_link (breaks : Bool) (attributes : List Attribute) (body : Fragment Leaf)
    (rest : Fragment Item) :
    reading breaks (.leaf (.link attributes body) rest) =
      trim (body.write (readingLook breaks)) ++
        (addressed [] (value? ['h', 'r', 'e', 'f'] attributes) ++ reading breaks rest) := by
  rw [← List.append_assoc, ← addressed_eq_append]
  rfl

theorem reading_element (breaks : Bool) (name : ElementName) (attributes : List Attribute)
    (children rest : Fragment Item) :
    reading breaks (.element name attributes children rest) =
      reading breaks children ++ (ending name.chars ++ reading breaks rest) := by
  rw [← List.append_assoc]
  rfl

theorem alikeIff_reading (f : Fragment Item) {condition : Prop} {s t : List Char}
    (h : AlikeIff condition s t) :
    AlikeIff ((∀ body ∈ f.links, body.Seamless) ∧ condition) (reading false f ++ s)
      (reading true f ++ t) := by
  -- the text behind is left open: the children of an element have the rest of the forest behind them
  induction f generalizing condition s t with
  | nil => simpa [Fragment.links, reading, Fragment.write] using h
  | leaf l rest ih =>
    cases l with
    | leaf l =>
      rw [reading_leaf, reading_leaf, List.append_assoc, List.append_assoc]
      exact (ih h).append (l.reading true)
    | link attributes body =>
      have hrest := (ih h).append (addressed [] (value? ['h', 'r', 'e', 'f'] attributes))
      have hlink := hrest.trim (solid_body body)
      rw [reading_link, reading_link, Fragment.links, List.forall_mem_cons, and_assoc,
        Fragment.Seamless]
      simpa only [List.append_assoc] using hlink
  | element name attributes children rest ihc ihr =>
    have hall := ihc ((ihr h).append (ending name.chars))
    rw [reading_element, reading_element, Fragment.links, List.forall_mem_append, and_assoc]
    simpa only [List.append_assoc] using hall

theorem tidy_reading_iff (f : Fragment Item) :
    tidy (reading false f) = tidy (reading true f) ↔ ∀ body ∈ f.links, body.Seamless := by
  have hall := alikeIff_reading f (.refl []) []
  simpa using hall

/-- The plain text of written markup is what is read off the forest exactly if no link needs its line
breaks, or the ends of its lines and cells. -/
theorem ofMarkup_markup_iff (f : Fragment Item) :
    ofMarkup (markup f) = tidy (reading true f) ↔ ∀ body ∈ f.links, body.Seamless := by
  rw [ofMarkup_markup]
  exact tidy_reading_iff f

/-- There are no line breaks, and no elements that end a line or a cell. -/
def Fragment.Unbroken : Fragment Leaf → Prop
  | nil => True
  | leaf l rest => l ≠ .lineBreak ∧ rest.Unbroken
  | element name _ children rest =>
    ending name.chars = [] ∧ children.Unbroken ∧ rest.Unbroken

theorem Fragment.Unbroken.write_eq {body : Fragment Leaf} (h : body.Unbroken) :
    body.write (readingLook false) = body.write (readingLook true) := by
  induction body with
  | nil => rfl
  | leaf l rest ih =>
    obtain ⟨hl, hrest⟩ := h
    have hleaf : l.reading false = l.reading true := by
      cases l with
      | lineBreak => exact absurd rfl hl
      | _ => rfl
    simp only [Fragment.write, readingLook] at ih ⊢
    rw [hleaf, ih hrest]
  | element name attributes children rest ihc ihr =>
    obtain ⟨hname, hchildren, hrest⟩ := h
    simp only [Fragment.write, readingLook, hname, ite_self] at ihc ihr ⊢
    rw [ihc hchildren, ihr hrest]

theorem ofMarkup_markup_of_unbroken {f : Fragment Item} (h : ∀ body ∈ f.links, body.Unbroken) :
    ofMarkup (markup f) = tidy (reading true f) := by
  rw [ofMarkup_markup, tidy_reading_iff]
  exact fun body hbody => congrArg tidy (h body hbody).write_eq

/-- A link over two lines. -/
def brokenLink : Fragment Item :=
  .leaf (.link [] (.leaf (.text ⟨['x'], by decide⟩) (.leaf .lineBreak
    (.leaf (.text ⟨['y'], by decide⟩) .nil)))) .nil

/-- The words on either side of a line break inside a link run together. -/
theorem ofMarkup_markup_ne_broken :
    ¬ ∀ f : Fragment Item, ofMarkup (markup f) = tidy (reading true f) := by
  intro h
  have hlink := h brokenLink
  revert hlink
  decide +kernel

end EmailTemplate.PlainText
