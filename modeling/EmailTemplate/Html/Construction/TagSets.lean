import EmailTemplate.Html.Forest

/-! Sets of elements that the rules of tree construction speak of. -/

namespace EmailTemplate.Html

def Tag.isHtml (t : Tag) (names : List String) : Bool := t.space == .html && names.contains t.name

def headingNames : List String := ["h1", "h2", "h3", "h4", "h5", "h6"]

/-- Elements that end a search for an element to close. -/
def specialNames : List String :=
  ["address", "applet", "area", "article", "aside", "base", "basefont", "bgsound", "blockquote",
    "body", "br", "button", "caption", "center", "col", "colgroup", "dd", "details", "dir", "div",
    "dl", "dt", "embed", "fieldset", "figcaption", "figure", "footer", "form", "frame", "frameset",
    "h1", "h2", "h3", "h4", "h5", "h6", "head", "header", "hgroup", "hr", "html", "iframe", "img",
    "input", "isindex", "li", "link", "listing", "main", "marquee", "menu", "meta", "nav",
    "noembed", "noframes", "noscript", "object", "ol", "p", "param", "plaintext", "pre", "script",
    "search", "section", "select", "source", "style", "summary", "table", "tbody", "td", "template",
    "textarea", "tfoot", "th", "thead", "title", "tr", "track", "ul", "wbr", "xmp"]

def Tag.isSpecial (t : Tag) : Bool := t.isHtml specialNames

/-- Elements that close with what is around them. -/
def impliedEndNames : List String :=
  ["dd", "dt", "li", "option", "optgroup", "p", "rb", "rp", "rt", "rtc"]

/-- The same at the end of a template. -/
def thoroughEndNames : List String :=
  impliedEndNames ++
    ["caption", "colgroup", "tbody", "td", "tfoot", "th", "thead", "tr"]

/-- Foreign elements whose text is text of the document. -/
def Tag.isMathText (t : Tag) : Bool :=
  t.space == .mathml && ["mi", "mo", "mn", "ms", "mtext"].contains t.name

/-- Foreign elements that hold elements of the document. -/
def Tag.isSvgHolder (t : Tag) : Bool :=
  t.space == .svg && ["foreignObject", "desc", "title"].contains t.name

/-- What a search upwards through the open elements may not leave. -/
def Tag.endsScope (t : Tag) : Bool :=
  t.isHtml ["applet", "caption", "html", "table", "td", "th", "marquee", "object", "template"] ||
    t.isMathText || t.isSvgHolder

def Tag.endsListScope (t : Tag) : Bool := t.endsScope || t.isHtml ["ol", "ul"]

def Tag.endsButtonScope (t : Tag) : Bool := t.endsScope || t.isHtml ["button"]

def Tag.endsTableScope (t : Tag) : Bool := t.isHtml ["html", "table", "template"]

def Tag.endsSelectScope (t : Tag) : Bool := !t.isHtml ["optgroup", "option"]

/-- The elements to which the parts of a table go back. -/
def tableRows : List String := ["tbody", "tfoot", "thead", "template", "html"]

def tableCells : List String := ["tr", "template", "html"]

/-- Elements in which text has no place; it goes before their table. -/
def fosterNames : List String := ["table", "tbody", "tfoot", "thead", "tr"]

/-- Start tags that end foreign content. -/
def breakoutNames : List String :=
  ["b", "big", "blockquote", "body", "br", "center", "code", "dd", "div", "dl", "dt", "em",
    "embed", "h1", "h2", "h3", "h4", "h5", "h6", "head", "hr", "i", "img", "li", "listing", "menu",
    "meta", "nobr", "ol", "p", "pre", "ruby", "s", "small", "span", "strong", "strike", "sub",
    "sup", "table", "tt", "u", "ul", "var"]

/-! ### Spelling of foreign names -/

/-- Names of SVG elements that have capital letters. -/
def svgElementNames : List String :=
  ["altGlyph", "altGlyphDef", "altGlyphItem", "animateColor", "animateMotion", "animateTransform",
    "clipPath", "feBlend", "feColorMatrix", "feComponentTransfer", "feComposite",
    "feConvolveMatrix", "feDiffuseLighting", "feDisplacementMap", "feDistantLight",
    "feDropShadow", "feFlood", "feFuncA", "feFuncB", "feFuncG", "feFuncR", "feGaussianBlur",
    "feImage", "feMerge", "feMergeNode", "feMorphology", "feOffset", "fePointLight",
    "feSpecularLighting", "feSpotLight", "feTile", "feTurbulence", "foreignObject", "glyphRef",
    "linearGradient", "radialGradient", "textPath"]

/-- Names of SVG attributes that have capital letters. -/
def svgAttributeNames : List String :=
  ["attributeName", "attributeType", "baseFrequency", "baseProfile", "calcMode", "clipPathUnits",
    "diffuseConstant", "edgeMode", "filterUnits", "glyphRef", "gradientTransform", "gradientUnits",
    "kernelMatrix", "kernelUnitLength", "keyPoints", "keySplines", "keyTimes", "lengthAdjust",
    "limitingConeAngle", "markerHeight", "markerUnits", "markerWidth", "maskContentUnits",
    "maskUnits", "numOctaves", "pathLength", "patternContentUnits", "patternTransform",
    "patternUnits", "pointsAtX", "pointsAtY", "pointsAtZ", "preserveAlpha", "preserveAspectRatio",
    "primitiveUnits", "refX", "refY", "repeatCount", "repeatDur", "requiredExtensions",
    "requiredFeatures", "specularConstant", "specularExponent", "spreadMethod", "startOffset",
    "stdDeviation", "stitchTiles", "surfaceScale", "systemLanguage", "tableValues", "targetX",
    "targetY", "textLength", "viewBox", "viewTarget", "xChannelSelector", "yChannelSelector",
    "zoomAndPan"]

end EmailTemplate.Html
