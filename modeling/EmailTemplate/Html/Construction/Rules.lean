import EmailTemplate.Html.Construction.Foreign
import EmailTemplate.Html.Doctype

/-! The rules of tree construction: what a token does in each mode. -/

namespace EmailTemplate.Html.Build

open Text

def done : Build Next := pure .done

def isHiddenInput (tag : StartTag) : Bool :=
  (tag.attributes.find? (·.1 == "type")).any fun a => lowerAscii a.2 == "hidden"

def isGapChar (c : Char) : Bool :=
  c == '\t' || c == '\n' || c == '\r' || c == ' ' || c.toNat == 12

/-! ### Head -/

/-- A second start tag of the document adds its attributes. -/
def mergeRoot (tag : StartTag) : Build Next := do
  let b ← get
  if !isOpen b "template" then addAttributes (rootElement b) tag
  return .done

def openTemplate (tag : StartTag) : Build Next := do
  let _ ← insertFor tag
  pushMarker
  forbidFrameset
  modify fun b => { b with mode := .inTemplate, templateModes := .inTemplate :: b.templateModes }
  return .done

def closeTemplate : Build Next := do
  if isOpen (← get) "template" then
    closeImplied thoroughEndNames
    popThroughName "template"
    clearToMarker
    popTemplateMode
    resetMode
  return .done

def headStart (tag : StartTag) : Build Next := do
  match tag.name with
  | "html" => mergeRoot tag
  | "base" | "basefont" | "bgsound" | "link" | "meta" =>
    let _ ← insertClosedFor tag
    done
  | "title" =>
    insertWithText tag .title
    done
  | "noframes" | "style" | "noscript" =>
    insertWithText tag .raw
    done
  | "script" =>
    insertWithText tag .script
    done
  | "template" => openTemplate tag
  | "head" => done
  | _ =>
    pop
    againIn .afterHead

def inHead (token : Token) : Build Next := do
  match token with
  | .char c =>
    if isGapChar c then
      insertText c.toString
      done
    else
      pop
      againIn .afterHead
  | .comment s =>
    insertComment s
    done
  | .startTag tag => headStart tag
  | .endTag name =>
    match name with
    | "head" =>
      pop
      setMode .afterHead
      done
    | "body" | "html" | "br" =>
      pop
      againIn .afterHead
    | "template" => closeTemplate
    | _ => done
  | _ =>
    pop
    againIn .afterHead

/-- Start tags that belong into the head wherever they stand. -/
def headNames : List String :=
  ["base", "basefont", "bgsound", "link", "meta", "noframes", "script", "style", "template",
    "title"]

/-! ### Body -/

/-- The end of the text inside a template: the templates are closed one after the other. -/
def templateEnd : Build Next := do
  if isOpen (← get) "template" then
    popThroughName "template"
    clearToMarker
    popTemplateMode
    resetMode
    return .again
  else done

def bodyChar (c : Char) : Build Next := do
  reconstruct
  if !isGapChar c then forbidFrameset
  insertText c.toString
  done

def openBlock (tag : StartTag) : Build Next := do
  closeParagraphInScope
  let _ ← insertFor tag
  done

/-- An item of a list closes the item before it. -/
def openItem (names : List String) (tag : StartTag) : Build Next := do
  forbidFrameset
  let b ← get
  let found := b.openElements.find? fun n =>
    let t := tagOf b n
    t.isHtml names || (t.isSpecial && !t.isHtml ["address", "div", "p"])
  match found with
  | some n =>
    let t := tagOf b n
    if t.isHtml names then
      closeImpliedBut t.name
      popThroughName t.name
  | none => pure ()
  openBlock tag

def openForm (tag : StartTag) : Build Next := do
  let b ← get
  let inTemplate := isOpen b "template"
  if b.form.isNone || inTemplate then
    closeParagraphInScope
    let n ← insertFor tag
    if !inTemplate then modify fun b => { b with form := some n }
  done

def openButton (tag : StartTag) : Build Next := do
  if nameInScope (← get) Tag.endsScope "button" then
    closeImplied impliedEndNames
    popThroughName "button"
  reconstruct
  let _ ← insertFor tag
  forbidFrameset
  done

def openNoBreak (tag : StartTag) : Build Next := do
  reconstruct
  if nameInScope (← get) Tag.endsScope "nobr" then
    closeFormatting "nobr"
    reconstruct
  insertFormatting tag
  done

def openSelect (tag : StartTag) : Build Next := do
  reconstruct
  let _ ← insertFor tag
  forbidFrameset
  let mode := (← get).mode
  if mode = .inTable ∨ mode = .inCaption ∨ mode = .inTableBody ∨ mode = .inRow ∨ mode = .inCell then
    setMode .inSelectInTable
  else setMode .inSelect
  done

/-- A frameset takes the place of a body that shows nothing yet. -/
def openFrameset (tag : StartTag) : Build Next := do
  let b ← get
  match if b.framesetOk then body? b else none with
  | none => done
  | some body =>
    set { b with arena := b.arena.detach body, openElements := [rootElement b] }
    let _ ← insertFor tag
    setMode .inFrameset
    done

def mergeBody (tag : StartTag) : Build Next := do
  let b ← get
  match body? b with
  | some n =>
    if !isOpen b "template" then
      forbidFrameset
      addAttributes n tag
  | none => pure ()
  done

def emptyElement (tag : StartTag) : Build Next := do
  reconstruct
  let _ ← insertClosedFor tag
  if !(tag.name == "input" && isHiddenInput tag) then forbidFrameset
  done

def bodyStart (tag : StartTag) : Build Next := do
  match tag.name with
  | "html" => mergeRoot tag
  | "base" | "basefont" | "bgsound" | "link" | "meta" | "noframes" | "script" | "style"
  | "template" | "title" => headStart tag
  | "body" => mergeBody tag
  | "frameset" => openFrameset tag
  | "address" | "article" | "aside" | "blockquote" | "center" | "details" | "dialog" | "dir"
  | "div" | "dl" | "fieldset" | "figcaption" | "figure" | "footer" | "header" | "hgroup" | "main"
  | "nav" | "ol" | "p" | "search" | "section" | "summary" | "ul" | "menu" => openBlock tag
  | "h1" | "h2" | "h3" | "h4" | "h5" | "h6" =>
    closeParagraphInScope
    if (currentTag (← get)).isHtml headingNames then pop
    let _ ← insertFor tag
    done
  | "pre" | "listing" =>
    closeParagraphInScope
    let _ ← insertFor tag
    modify fun b => { b with skipLineFeed := true, framesetOk := false }
    done
  | "form" => openForm tag
  | "li" => openItem ["li"] tag
  | "dd" | "dt" => openItem ["dd", "dt"] tag
  | "plaintext" =>
    closeParagraphInScope
    let _ ← insertFor tag
    modify fun b => { b with textMode := .plain }
    done
  | "button" => openButton tag
  | "a" =>
    closeEarlierLink
    reconstruct
    insertFormatting tag
    done
  | "b" | "big" | "code" | "em" | "font" | "i" | "s" | "small" | "strike" | "strong" | "tt"
  | "u" =>
    reconstruct
    insertFormatting tag
    done
  | "nobr" => openNoBreak tag
  | "applet" | "marquee" | "object" =>
    reconstruct
    let _ ← insertFor tag
    pushMarker
    forbidFrameset
    done
  | "table" =>
    if !(← get).old then closeParagraphInScope
    let _ ← insertFor tag
    forbidFrameset
    setMode .inTable
    done
  | "area" | "br" | "embed" | "img" | "keygen" | "wbr" | "input" => emptyElement tag
  | "image" => emptyElement { tag with name := "img" }
  | "param" | "source" | "track" =>
    let _ ← insertClosedFor tag
    done
  | "hr" =>
    closeParagraphInScope
    let _ ← insertClosedFor tag
    forbidFrameset
    done
  | "textarea" =>
    modify fun b => { b with skipLineFeed := true, framesetOk := false }
    insertWithText tag .title
    done
  | "xmp" =>
    closeParagraphInScope
    reconstruct
    forbidFrameset
    insertWithText tag .raw
    done
  | "iframe" =>
    forbidFrameset
    insertWithText tag .raw
    done
  | "noembed" | "noscript" =>
    insertWithText tag .raw
    done
  | "select" => openSelect tag
  | "optgroup" | "option" =>
    if currentIs (← get) "option" then pop
    reconstruct
    let _ ← insertFor tag
    done
  | "rb" | "rtc" =>
    if nameInScope (← get) Tag.endsScope "ruby" then closeImplied impliedEndNames
    let _ ← insertFor tag
    done
  | "rp" | "rt" =>
    if nameInScope (← get) Tag.endsScope "ruby" then closeImpliedBut "rtc"
    let _ ← insertFor tag
    done
  | "math" =>
    insertForeign .mathml tag.name tag
    done
  | "svg" =>
    insertForeign .svg tag.name tag
    done
  | "caption" | "col" | "colgroup" | "frame" | "head" | "tbody" | "td" | "tfoot" | "th" | "thead"
  | "tr" => done
  | _ =>
    reconstruct
    let _ ← insertFor tag
    done

def closeInScope (ends : Tag → Bool) (name : String) : Build Next := do
  if nameInScope (← get) ends name then
    closeImpliedBut name
    popThroughName name
  done

def closeBlock (name : String) : Build Next := do
  if nameInScope (← get) Tag.endsScope name then
    closeImplied impliedEndNames
    popThroughName name
  done

def closeForm : Build Next := do
  let b ← get
  if isOpen b "template" then
    if nameInScope b Tag.endsScope "form" then
      closeImplied impliedEndNames
      popThroughName "form"
  else
    set { b with form := none }
    match b.form with
    | none => pure ()
    | some n =>
      if inScope b Tag.endsScope (· == n) then
        closeImplied impliedEndNames
        removeOpen n
  done

def bodyEnd (name : String) : Build Next := do
  match name with
  | "template" => closeTemplate
  | "body" =>
    if nameInScope (← get) Tag.endsScope "body" then setMode .afterBody
    done
  | "html" => if nameInScope (← get) Tag.endsScope "body" then againIn .afterBody else done
  | "address" | "article" | "aside" | "blockquote" | "button" | "center" | "details" | "dialog"
  | "dir" | "div" | "dl" | "fieldset" | "figcaption" | "figure" | "footer" | "header" | "hgroup"
  | "listing" | "main" | "menu" | "nav" | "ol" | "pre" | "search" | "section" | "summary"
  | "ul" => closeBlock name
  | "form" => closeForm
  | "p" =>
    if !nameInScope (← get) Tag.endsButtonScope "p" then
      let _ ← insertPhantom "p"
    closeParagraph
    done
  | "li" => closeInScope Tag.endsListScope name
  | "dd" | "dt" => closeInScope Tag.endsScope name
  | "h1" | "h2" | "h3" | "h4" | "h5" | "h6" =>
    let b ← get
    if inScope b Tag.endsScope (fun n => (tagOf b n).isHtml headingNames) then
      closeImplied impliedEndNames
      popThrough fun b n => (tagOf b n).isHtml headingNames
    done
  | "a" | "b" | "big" | "code" | "em" | "font" | "i" | "nobr" | "s" | "small" | "strike"
  | "strong" | "tt" | "u" =>
    closeFormatting name
    done
  | "applet" | "marquee" | "object" =>
    if nameInScope (← get) Tag.endsScope name then
      closeImplied impliedEndNames
      popThroughName name
      clearToMarker
    done
  | "br" => emptyElement ⟨"br", [], false⟩
  | _ =>
    closeAnyOther name
    done

def inBody (token : Token) : Build Next := do
  match token with
  | .null => done
  | .char c => bodyChar c
  | .comment s =>
    insertComment s
    done
  | .startTag tag => bodyStart tag
  | .endTag name => bodyEnd name
  | .finish => if (← get).templateModes.isEmpty then done else templateEnd
  | .doctype _ => done

/-! ### Tables -/

/-- Reads a token as in the body; what it inserts into the rows of a table goes before the table. -/
def misplaced (token : Token) : Build Next := do
  modify fun b => { b with fostering := true }
  let next ← inBody token
  modify fun b => { b with fostering := false }
  return next

def inTableTextOrBody (token : Token) : Build Next := do
  let b ← get
  if (currentTag b).isHtml fosterNames then
    set { b with returnMode := b.mode }
    againIn .inTableText
  else misplaced token

def tableStart (tag : StartTag) : Build Next := do
  match tag.name with
  | "caption" =>
    popTo Tag.endsTableScope
    pushMarker
    let _ ← insertFor tag
    setMode .inCaption
    done
  | "colgroup" =>
    popTo Tag.endsTableScope
    let _ ← insertFor tag
    setMode .inColumnGroup
    done
  | "col" =>
    popTo Tag.endsTableScope
    let _ ← insertPhantom "colgroup"
    againIn .inColumnGroup
  | "tbody" | "tfoot" | "thead" =>
    popTo Tag.endsTableScope
    let _ ← insertFor tag
    setMode .inTableBody
    done
  | "td" | "th" | "tr" =>
    popTo Tag.endsTableScope
    let _ ← insertPhantom "tbody"
    againIn .inTableBody
  | "table" =>
    if nameInScope (← get) Tag.endsTableScope "table" then
      popThroughName "table"
      resetMode
      return .again
    else done
  | "style" | "script" | "template" => headStart tag
  | "input" =>
    if isHiddenInput tag then
      let _ ← insertClosedFor tag
      done
    else misplaced (.startTag tag)
  | "form" =>
    let b ← get
    if !isOpen b "template" && b.form.isNone then
      let n ← insertClosedFor tag
      modify fun b => { b with form := some n }
    done
  | _ => misplaced (.startTag tag)

def inTable (token : Token) : Build Next := do
  match token with
  | .null | .char _ => inTableTextOrBody token
  | .comment s =>
    insertComment s
    done
  | .startTag tag => tableStart tag
  | .endTag name =>
    match name with
    | "table" =>
      if nameInScope (← get) Tag.endsTableScope "table" then
        popThroughName "table"
        resetMode
      done
    | "body" | "caption" | "col" | "colgroup" | "html" | "tbody" | "td" | "tfoot" | "th" | "thead"
    | "tr" => done
    | "template" => closeTemplate
    | _ => misplaced token
  | .finish => inBody token
  | .doctype _ => done

/-- The text between the parts of a table: white space stays, other text moves out with it. -/
def inTableText (token : Token) : Build Next := do
  match token with
  | .null => done
  | .char c =>
    modify fun b => { b with tableText := c :: b.tableText }
    done
  | _ =>
    let b ← get
    set { b with tableText := [] }
    let text := b.tableText.reverse
    if text.all isGapChar then insertText (String.ofList text)
    else text.forM fun c => discard (misplaced (.char c))
    againIn b.returnMode

def closeCaption : Build Bool := do
  if nameInScope (← get) Tag.endsTableScope "caption" then
    closeImplied impliedEndNames
    popThroughName "caption"
    clearToMarker
    setMode .inTable
    return true
  else return false

def inCaption (token : Token) : Build Next := do
  match token with
  | .startTag tag =>
    if ["caption", "col", "colgroup", "tbody", "td", "tfoot", "th", "thead", "tr"].contains tag.name
    then return if ← closeCaption then .again else .done
    else inBody token
  | .endTag name =>
    if name = "caption" then
      let _ ← closeCaption
      done
    else if name = "table" then return if ← closeCaption then .again else .done
    else if ["body", "col", "colgroup", "html", "tbody", "td", "tfoot", "th", "thead",
      "tr"].contains name then done
    else inBody token
  | _ => inBody token

def leaveColumnGroup : Build Next := do
  if currentIs (← get) "colgroup" then
    pop
    againIn .inTable
  else done

def inColumnGroup (token : Token) : Build Next := do
  match token with
  | .char c =>
    if isGapChar c then
      insertText c.toString
      done
    else leaveColumnGroup
  | .comment s =>
    insertComment s
    done
  | .startTag tag =>
    match tag.name with
    | "html" => mergeRoot tag
    | "col" =>
      let _ ← insertClosedFor tag
      done
    | "template" => headStart tag
    | _ => leaveColumnGroup
  | .endTag name =>
    match name with
    | "colgroup" =>
      if currentIs (← get) "colgroup" then
        pop
        setMode .inTable
      done
    | "col" => done
    | "template" => closeTemplate
    | _ => leaveColumnGroup
  | .finish => inBody token
  | _ => leaveColumnGroup

def toRows : Build Unit := popTo fun t => t.isHtml tableRows

def toCells : Build Unit := popTo fun t => t.isHtml tableCells

def leaveRows : Build Next := do
  let b ← get
  if inScope b Tag.endsTableScope (fun n => (tagOf b n).isHtml ["table", "tbody", "tfoot"]) then
    toRows
    pop
    againIn .inTable
  else done

def inTableBody (token : Token) : Build Next := do
  match token with
  | .startTag tag =>
    match tag.name with
    | "tr" =>
      toRows
      let _ ← insertFor tag
      setMode .inRow
      done
    | "th" | "td" =>
      toRows
      let _ ← insertPhantom "tr"
      againIn .inRow
    | "caption" | "col" | "colgroup" | "tbody" | "tfoot" | "thead" => leaveRows
    | _ => inTable token
  | .endTag name =>
    match name with
    | "tbody" | "tfoot" | "thead" =>
      if nameInScope (← get) Tag.endsTableScope name then
        toRows
        pop
        setMode .inTable
      done
    | "table" => leaveRows
    | "body" | "caption" | "col" | "colgroup" | "html" | "td" | "th" | "tr" => done
    | _ => inTable token
  | _ => inTable token

def closeRow : Build Bool := do
  if nameInScope (← get) Tag.endsTableScope "tr" then
    toCells
    pop
    setMode .inTableBody
    return true
  else return false

def leaveRow : Build Next := return if ← closeRow then .again else .done

def inRow (token : Token) : Build Next := do
  match token with
  | .startTag tag =>
    match tag.name with
    | "th" | "td" =>
      toCells
      let _ ← insertFor tag
      setMode .inCell
      pushMarker
      done
    | "caption" | "col" | "colgroup" | "tbody" | "tfoot" | "thead" | "tr" => leaveRow
    | _ => inTable token
  | .endTag name =>
    match name with
    | "tr" =>
      let _ ← closeRow
      done
    | "table" => leaveRow
    | "tbody" | "tfoot" | "thead" =>
      if nameInScope (← get) Tag.endsTableScope name then leaveRow else done
    | "body" | "caption" | "col" | "colgroup" | "html" | "td" | "th" => done
    | _ => inTable token
  | _ => inTable token

def leaveCell : Build Next := do
  closeImplied impliedEndNames
  popThrough fun b n => (tagOf b n).isHtml ["td", "th"]
  clearToMarker
  againIn .inRow

def inCell (token : Token) : Build Next := do
  match token with
  | .startTag tag =>
    if ["caption", "col", "colgroup", "tbody", "td", "tfoot", "th", "thead", "tr"].contains tag.name
    then
      let b ← get
      if inScope b Tag.endsTableScope (fun n => (tagOf b n).isHtml ["td", "th"]) then leaveCell
      else done
    else inBody token
  | .endTag name =>
    match name with
    | "td" | "th" =>
      if nameInScope (← get) Tag.endsTableScope name then
        closeImplied impliedEndNames
        popThroughName name
        clearToMarker
        setMode .inRow
      done
    | "body" | "caption" | "col" | "colgroup" | "html" => done
    | "table" | "tbody" | "tfoot" | "thead" | "tr" =>
      if nameInScope (← get) Tag.endsTableScope name then leaveCell else done
    | _ => inBody token
  | _ => inBody token

/-! ### Lists of choices -/

def closeSelect : Build Bool := do
  if nameInScope (← get) Tag.endsSelectScope "select" then
    popThroughName "select"
    resetMode
    return true
  else return false

def popNamed (name : String) : Build Unit := do
  if currentIs (← get) name then pop

def inSelect (token : Token) : Build Next := do
  match token with
  | .char c =>
    insertText c.toString
    done
  | .comment s =>
    insertComment s
    done
  | .startTag tag =>
    match tag.name with
    | "html" => mergeRoot tag
    | "option" =>
      popNamed "option"
      let _ ← insertFor tag
      done
    | "optgroup" =>
      popNamed "option"
      popNamed "optgroup"
      let _ ← insertFor tag
      done
    | "hr" =>
      popNamed "option"
      popNamed "optgroup"
      let _ ← insertClosedFor tag
      done
    | "select" =>
      let _ ← closeSelect
      done
    | "input" | "keygen" | "textarea" => return if ← closeSelect then .again else .done
    | "script" | "template" => headStart tag
    | _ => done
  | .endTag name =>
    match name with
    | "optgroup" =>
      let b ← get
      if currentIs b "option" && (b.openElements.drop 1).head?.any (isNamed b "optgroup") then pop
      popNamed "optgroup"
      done
    | "option" =>
      popNamed "option"
      done
    | "select" =>
      let _ ← closeSelect
      done
    | "template" => closeTemplate
    | _ => done
  | .finish => inBody token
  | _ => done

def inSelectInTable (token : Token) : Build Next := do
  let parts := ["caption", "table", "tbody", "tfoot", "thead", "tr", "td", "th"]
  match token with
  | .startTag tag =>
    if parts.contains tag.name then
      popThroughName "select"
      resetMode
      return .again
    else inSelect token
  | .endTag name =>
    if parts.contains name then
      if nameInScope (← get) Tag.endsTableScope name then
        popThroughName "select"
        resetMode
        return .again
      else done
    else inSelect token
  | _ => inSelect token

/-! ### Templates, frames, and the ends of the document -/

def templateAs (mode : Mode) : Build Next := do
  setTemplateMode mode
  againIn mode

def inTemplate (token : Token) : Build Next := do
  match token with
  | .char _ | .comment _ => inBody token
  | .startTag tag =>
    if headNames.contains tag.name then headStart tag
    else match tag.name with
      | "caption" | "colgroup" | "tbody" | "tfoot" | "thead" => templateAs .inTable
      | "col" => templateAs .inColumnGroup
      | "tr" => templateAs .inTableBody
      | "td" | "th" => templateAs .inRow
      | _ => templateAs .inBody
  | .endTag name => if name = "template" then closeTemplate else done
  | .finish => templateEnd
  | _ => done

def afterBody (token : Token) : Build Next := do
  match token with
  | .char c => if isGapChar c then bodyChar c else againIn .inBody
  | .comment s =>
    appendComment (rootElement (← get)) s
    done
  | .startTag tag => if tag.name = "html" then mergeRoot tag else againIn .inBody
  | .endTag name =>
    if name = "html" then
      setMode .afterAfterBody
      done
    else againIn .inBody
  | .finish => done
  | _ => againIn .inBody

def inFrameset (token : Token) : Build Next := do
  match token with
  | .char c =>
    if isGapChar c then insertText c.toString
    done
  | .comment s =>
    insertComment s
    done
  | .startTag tag =>
    match tag.name with
    | "html" => mergeRoot tag
    | "frameset" =>
      let _ ← insertFor tag
      done
    | "frame" =>
      let _ ← insertClosedFor tag
      done
    | "noframes" => headStart tag
    | _ => done
  | .endTag name =>
    if name = "frameset" ∧ (← get).openElements.length ≠ 1 then
      pop
      if !currentIs (← get) "frameset" then setMode .afterFrameset
    done
  | _ => done

def afterFrameset (token : Token) : Build Next := do
  match token with
  | .char c =>
    if isGapChar c then insertText c.toString
    done
  | .comment s =>
    insertComment s
    done
  | .startTag tag =>
    match tag.name with
    | "html" => mergeRoot tag
    | "noframes" => headStart tag
    | _ => done
  | .endTag name =>
    if name = "html" then setMode .afterAfterFrameset
    done
  | _ => done

def afterAfterBody (token : Token) : Build Next := do
  match token with
  | .char c => if isGapChar c then bodyChar c else againIn .inBody
  | .comment s =>
    appendComment 0 s
    done
  | .startTag tag => if tag.name = "html" then mergeRoot tag else againIn .inBody
  | .finish => done
  | _ => againIn .inBody

def afterAfterFrameset (token : Token) : Build Next := do
  match token with
  | .char c => if isGapChar c then bodyChar c else done
  | .comment s =>
    appendComment 0 s
    done
  | .startTag tag =>
    match tag.name with
    | "html" => mergeRoot tag
    | "noframes" => headStart tag
    | _ => done
  | _ => done

/-! ### The beginning of the document -/

def initial (token : Token) : Build Next := do
  match token with
  | .char c =>
    if isGapChar c then done
    else
      modify fun b => { b with old := true }
      againIn .beforeHtml
  | .comment s =>
    appendComment 0 s
    done
  | _ =>
    modify fun b => { b with old := true }
    againIn .beforeHtml

def startDocument : Build Next := do
  createRoot ⟨"html", [], false⟩
  againIn .beforeHead

/-- The end tags that count as the start of what is missing. -/
def opensMissing (name : String) : Bool := ["head", "body", "html", "br"].contains name

def beforeHtml (token : Token) : Build Next := do
  match token with
  | .char c => if isGapChar c then done else startDocument
  | .comment s =>
    appendComment 0 s
    done
  | .startTag tag =>
    if tag.name = "html" then
      createRoot tag
      setMode .beforeHead
      done
    else startDocument
  | .endTag name => if opensMissing name then startDocument else done
  | _ => startDocument

def startHead : Build Next := do
  let n ← insertPhantom "head"
  modify fun b => { b with head := some n }
  againIn .inHead

def beforeHead (token : Token) : Build Next := do
  match token with
  | .char c => if isGapChar c then done else startHead
  | .comment s =>
    insertComment s
    done
  | .startTag tag =>
    match tag.name with
    | "html" => mergeRoot tag
    | "head" =>
      let n ← insertFor tag
      modify fun b => { b with head := some n, mode := .inHead }
      done
    | _ => startHead
  | .endTag name => if opensMissing name then startHead else done
  | _ => startHead

def startBody : Build Next := do
  let _ ← insertPhantom "body"
  againIn .inBody

/-- What belongs into the head goes there even after its end. -/
def lateHead (tag : StartTag) : Build Next := do
  match (← get).head with
  | none => done
  | some head =>
    push head
    let next ← headStart tag
    removeOpen head
    return next

def afterHead (token : Token) : Build Next := do
  match token with
  | .char c =>
    if isGapChar c then
      insertText c.toString
      done
    else startBody
  | .comment s =>
    insertComment s
    done
  | .startTag tag =>
    if headNames.contains tag.name then lateHead tag
    else match tag.name with
      | "html" => mergeRoot tag
      | "body" =>
        let _ ← insertFor tag
        forbidFrameset
        setMode .inBody
        done
      | "frameset" =>
        let _ ← insertFor tag
        setMode .inFrameset
        done
      | "head" => done
      | _ => startBody
  | .endTag name =>
    if name = "template" then closeTemplate
    else if ["body", "html", "br"].contains name then startBody
    else done
  | _ => startBody

/-- Inside an element whose text is read in a mode of its own. -/
def inText (token : Token) : Build Next := do
  match token with
  | .char c =>
    insertText c.toString
    done
  | .endTag _ =>
    pop
    modify fun b => { b with mode := b.returnMode }
    done
  | .finish =>
    pop
    againIn (← get).returnMode
  | _ => done

/-! ### All modes -/

def step (mode : Mode) (token : Token) : Build Next :=
  match mode with
  | .initial => initial token
  | .beforeHtml => beforeHtml token
  | .beforeHead => beforeHead token
  | .inHead => inHead token
  | .afterHead => afterHead token
  | .inBody => inBody token
  | .text => inText token
  | .inTable => inTable token
  | .inTableText => inTableText token
  | .inCaption => inCaption token
  | .inColumnGroup => inColumnGroup token
  | .inTableBody => inTableBody token
  | .inRow => inRow token
  | .inCell => inCell token
  | .inSelect => inSelect token
  | .inSelectInTable => inSelectInTable token
  | .inTemplate => inTemplate token
  | .afterBody => afterBody token
  | .inFrameset => inFrameset token
  | .afterFrameset => afterFrameset token
  | .afterAfterBody => afterAfterBody token
  | .afterAfterFrameset => afterAfterFrameset token

def stepForeign (token : Token) : Build Next := do
  match token with
  | .null =>
    insertText "\ufffd"
    done
  | .char c =>
    if !isGapChar c then forbidFrameset
    insertText c.toString
    done
  | .comment s =>
    insertComment s
    done
  | .startTag tag => foreignTag tag
  | .endTag "br" | .endTag "p" => breakOut
  | .endTag name =>
    let b ← get
    match foreignEnd b name true b.openElements with
    | .close rest =>
      set { b with openElements := rest }
      done
    | .document => step b.mode token
    | .nothing => done
  | _ => done

/-- Takes a token through the rules; the fuel bounds how often it goes through them again. -/
def process (fuel : Nat) (token : Token) : Build Unit := do
  match fuel with
  | 0 => pure ()
  | fuel + 1 =>
    let b ← get
    let next ← if isForeign b token then stepForeign token else step b.mode token
    match next with
    | .done => pure ()
    | .again => process fuel token

/-- A document type counts only before all else. -/
def readDoctypeToken (d : Doctype) : Build Unit := do
  let b ← get
  if b.mode = .initial then
    let n ← createNode (.doctype (d.name.getD ""))
    put (.last 0) n
    modify fun b => { b with old := d.isOld, mode := .beforeHtml }

/-- Takes in a token. A line feed at the very start of some elements is dropped. Each round closes
an element or moves on to a later mode, so the open elements bound the rounds. -/
def take (token : Token) : Build Unit := do
  let b ← get
  set { b with skipLineFeed := false }
  match token with
  | .doctype d => readDoctypeToken d
  | .char '\n' => if b.skipLineFeed then pure () else process (rounds b) token
  | _ => process (rounds b) token
where
  rounds (b : Builder) : Nat := 4 * b.openElements.length + 4 * b.templateModes.length + 16

end EmailTemplate.Html.Build
